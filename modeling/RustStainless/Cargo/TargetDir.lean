import RustStainless.Rust.Fs

/-!
# The target directory

`fetch_build_plan` moves `target/debug` away while cargo prints the build plan, and moves it back
afterwards. The directories outlive a run of `cargo-stainless`: the next one finds what it left.
-/

namespace CargoStainless

open Rust

structure Config where
  debug : Bool
  exampleOpt : Option String
  exportPathOpt : Option String

/-- How the process ends early. -/
inductive ProcExit where
  | panic (msg : String)
  | exit (code : Nat) (stderr : String)
deriving DecidableEq

/-- `parsing_error`. -/
def parsingError (msg : String) : ProcExit := .exit 1 ("Error parsing build plan: " ++ msg)

/-- `std::process::Output`. -/
structure Output where
  success : Bool
  stdout : List UInt8

/-- `TARGET_CACHE_DIR` and `TARGET_CACHE_DIR_TMP`. -/
inductive TargetPath where
  | debug
  | debugTmp
deriving DecidableEq

/-- How `cargo build --build-plan` ends, and what it leaves in `target/debug`. -/
inductive PlanRun (E : Type) where
  | notStarted
  | ended (output : Output) (debug : Option (Dir E))

/-- What one run of `cargo-stainless` meets: its cargo, and the faults of the file system. -/
structure Host (E : Type) where
  cargo : List String → PlanRun E
  replacesEmpty : Bool
  protectFault : Bool
  removeFault : Option (Dir E)
  restoreFault : Bool

/-- A computation of the process. The directories stay as they are when it ends early. -/
abbrev Proc (E α : Type) := ExceptT ProcExit (StateM (Dirs TargetPath E)) α

section

variable {E : Type}

namespace Proc

variable {α β : Type} {x : Proc E α} {f : α → Proc E β} {ds ds' : Dirs TargetPath E}

/-- An operation of the file system. -/
def fs (op : Dirs TargetPath E → α × Dirs TargetPath E) : Proc E α := fun ds =>
  (.ok (op ds).1, (op ds).2)

theorem fs_eq (op : Dirs TargetPath E → α × Dirs TargetPath E) (ds : Dirs TargetPath E) :
    fs op ds = (.ok (op ds).1, (op ds).2) := rfl

theorem bind_def : (x >>= f) ds = ExceptT.bindCont f (x ds).1 (x ds).2 := rfl

theorem bind_of_ok {a : α} (h : x ds = (.ok a, ds')) : (x >>= f) ds = f a ds' := by
  rw [bind_def, h]
  rfl

theorem bind_of_error {e : ProcExit} (h : x ds = (.error e, ds')) :
    (x >>= f) ds = (.error e, ds') := by
  rw [bind_def, h]
  rfl

end Proc

/-- `Result::expect`. -/
def expect (ok : Bool) (msg : String) : Proc E Unit :=
  if ok then pure () else throw (.panic msg)

theorem expect_true (msg : String) (ds : Dirs TargetPath E) :
    expect true msg ds = (.ok (), ds) := rfl

theorem expect_false (msg : String) (ds : Dirs TargetPath E) :
    expect false msg ds = (.error (.panic msg), ds) := rfl

theorem expect_bind_snd {α : Type} (ok : Bool) (msg : String) (a : α) (ds : Dirs TargetPath E) :
    ((expect ok msg >>= fun _ => pure a : Proc E α) ds).2 = ds := by
  cases ok with
  | false => rw [Proc.bind_of_error (expect_false _ _)]
  | true => rw [Proc.bind_of_ok (expect_true _ _)]; rfl

/-- The arguments for cargo. -/
def buildPlanArgs (config : Config) : List String :=
  ["build", "-Z", "unstable-options", "--build-plan"] ++
    if config.exampleOpt.isSome then ["--all-targets"] else []

/-- `build_cmd.output().expect(..)`. -/
def runCargo (host : Host E) (args : List String) : Proc E Output :=
  match host.cargo args with
  | .notStarted => throw (.panic "Couldn't start cargo build to extract plan")
  | .ended output debug => do
    modify fun ds => Function.update ds .debug debug
    pure output

theorem runCargo_notStarted {host : Host E} {args : List String}
    (h : host.cargo args = .notStarted) (ds : Dirs TargetPath E) : runCargo host args ds =
      (.error (.panic "Couldn't start cargo build to extract plan"), ds) := by
  rw [runCargo, h]
  rfl

theorem runCargo_ended {host : Host E} {args : List String} {output : Output}
    {debug : Option (Dir E)} (h : host.cargo args = .ended output debug)
    (ds : Dirs TargetPath E) :
    runCargo host args ds = (.ok output, Function.update ds .debug debug) := by
  rw [runCargo, h]
  rfl

def fetchBuildPlan (config : Config) (host : Host E) : Proc E Output := do
  -- Protect target dir
  let renamed ← Proc.fs (Dirs.rename host.replacesEmpty host.protectFault .debug .debugTmp)
  expect renamed "Couldn't temporarily rename target cache dir"
  let buildOutput ← runCargo host (buildPlanArgs config)
  if !buildOutput.success then
    throw (parsingError "Failed to run cargo build to extract plan")
  else do
    -- Restore target dir. The result of the removal is dropped.
    let _ ← Proc.fs (Dirs.removeDirAll host.removeFault .debug)
    let restored ← Proc.fs (Dirs.rename host.replacesEmpty host.restoreFault .debugTmp .debug)
    expect restored "Couldn't move target cache dir back!"
    pure buildOutput

/-! ## What a run leaves -/

/-- The directories after `fetch_build_plan` returned or the process ended. -/
def afterFetch (config : Config) (host : Host E) (ds : Dirs TargetPath E) : Dirs TargetPath E :=
  (fetchBuildPlan config host ds).2

/-- `target/debug` is as before, and nothing is left beside it. -/
def Kept (before after : Dirs TargetPath E) : Prop :=
  after .debug = before .debug ∧ after .debugTmp = none

/-- Cargo succeeds, and what it left in `target/debug` gives way to the directory from before. -/
def PlanRun.Yields (host : Host E) : PlanRun E → Prop
  | .notStarted => False
  | .ended output debug => output.success = true ∧
    (debug = none ∨ vacant host.replacesEmpty host.removeFault = true) ∧ host.restoreFault = false

/--
From these directories, the run leaves `target/debug` as it was. Either it cannot move the directory
away and there is no leftover, or it can, and it gets to the end.
-/
def Safe (config : Config) (host : Host E) (ds : Dirs TargetPath E) : Prop :=
  if vacant host.replacesEmpty (ds .debugTmp) = true ∧ host.protectFault = false then
    (host.cargo (buildPlanArgs config)).Yields host
  else ds .debugTmp = none

variable {config : Config} {host : Host E} {ds : Dirs TargetPath E}

/-- When the directory cannot be moved away, nothing happens. -/
theorem afterFetch_of_not_moved
    (h : ¬((ds .debug).isSome ∧ vacant host.replacesEmpty (ds .debugTmp) = true ∧
      host.protectFault = false)) : afterFetch config host ds = ds := by
  unfold afterFetch fetchBuildPlan
  rw [Proc.bind_of_ok (Proc.fs_eq _ _), Dirs.rename_of_not_ok h,
    Proc.bind_of_error (expect_false _ _)]

section

variable (hmoved : (ds .debug).isSome ∧ vacant host.replacesEmpty (ds .debugTmp) = true ∧
  host.protectFault = false)
include hmoved

theorem afterFetch_of_notStarted (h : host.cargo (buildPlanArgs config) = .notStarted) :
    afterFetch config host ds = ds.move .debug .debugTmp := by
  unfold afterFetch fetchBuildPlan
  rw [Proc.bind_of_ok (Proc.fs_eq _ _), Dirs.rename_of_ok hmoved.1 hmoved.2.1 hmoved.2.2,
    Proc.bind_of_ok (expect_true _ _), Proc.bind_of_error (runCargo_notStarted h _)]

/-- What cargo leaves. -/
def PlanRun.leaves (ds : Dirs TargetPath E) (debug : Option (Dir E)) : Dirs TargetPath E :=
  Function.update (ds.move .debug .debugTmp) .debug debug

theorem afterFetch_of_failed {output : Output} {debug : Option (Dir E)}
    (h : host.cargo (buildPlanArgs config) = .ended output debug) (hfail : output.success = false) :
    afterFetch config host ds = PlanRun.leaves ds debug := by
  unfold afterFetch fetchBuildPlan
  rw [Proc.bind_of_ok (Proc.fs_eq _ _), Dirs.rename_of_ok hmoved.1 hmoved.2.1 hmoved.2.2,
    Proc.bind_of_ok (expect_true _ _), Proc.bind_of_ok (runCargo_ended h _), hfail]
  rfl

theorem afterFetch_of_succeeded {output : Output} {debug : Option (Dir E)}
    (h : host.cargo (buildPlanArgs config) = .ended output debug) (hok : output.success = true) :
    afterFetch config host ds = (Dirs.rename host.replacesEmpty host.restoreFault .debugTmp .debug
      (Dirs.removeDirAll host.removeFault .debug (PlanRun.leaves ds debug)).2).2 := by
  unfold afterFetch fetchBuildPlan
  rw [Proc.bind_of_ok (Proc.fs_eq _ _), Dirs.rename_of_ok hmoved.1 hmoved.2.1 hmoved.2.2,
    Proc.bind_of_ok (expect_true _ _), Proc.bind_of_ok (runCargo_ended h _), hok]
  simp only [Bool.not_true, Bool.false_eq_true, if_false]
  rw [Proc.bind_of_ok (Proc.fs_eq _ _), Proc.bind_of_ok (Proc.fs_eq _ _), expect_bind_snd]
  rfl

end

/-- What was moved away is still there. -/
theorem not_kept_of_leftover {after : Dirs TargetPath E} (hdebug : (ds .debug).isSome)
    (h : after .debugTmp = ds .debug) : ¬Kept ds after := by
  rintro ⟨-, hnone⟩
  rw [← h, hnone] at hdebug
  simp at hdebug

theorem leaves_debugTmp (debug : Option (Dir E)) :
    PlanRun.leaves ds debug .debugTmp = ds .debug := by
  simp [PlanRun.leaves, Dirs.move]

/-- What is in the way of the directory after the removal. -/
theorem removed_debug (debug rest : Option (Dir E)) :
    (Dirs.removeDirAll rest .debug (PlanRun.leaves ds debug)).2 .debug =
      if debug.isSome then rest else none := by
  rw [Dirs.removeDirAll_self]
  simp [PlanRun.leaves]

/-- **The run keeps the target directory** exactly from the directories from which it is safe. -/
theorem kept_iff (hdebug : (ds .debug).isSome) :
    Kept ds (afterFetch config host ds) ↔ Safe config host ds := by
  unfold Safe
  split
  case isFalse h =>
    rw [afterFetch_of_not_moved (fun hmoved => h hmoved.2)]
    simp [Kept]
  case isTrue h =>
    have hmoved := And.intro hdebug h
    cases hcargo : host.cargo (buildPlanArgs config) with
    | notStarted =>
      rw [afterFetch_of_notStarted hmoved hcargo]
      exact iff_of_false (not_kept_of_leftover hdebug (Dirs.move_dst (by decide))) id
    | ended output debug =>
      cases hok : output.success with
      | false =>
        rw [afterFetch_of_failed hmoved hcargo hok]
        exact iff_of_false (not_kept_of_leftover hdebug (leaves_debugTmp debug))
          fun hyields => absurd hyields.1 (by simp [hok])
      | true =>
        rw [afterFetch_of_succeeded hmoved hcargo hok]
        generalize hr : (Dirs.removeDirAll host.removeFault .debug (PlanRun.leaves ds debug)).2 = r
        have htmp : r .debugTmp = ds .debug := by
          rw [← hr, Dirs.removeDirAll_of_ne (by decide), leaves_debugTmp]
        have hfree : vacant host.replacesEmpty (r .debug) = true ↔
            debug = none ∨ vacant host.replacesEmpty host.removeFault = true := by
          rw [← hr, removed_debug]
          cases debug <;> simp [vacant]
        by_cases hrestored : vacant host.replacesEmpty (r .debug) = true ∧ host.restoreFault = false
        · rw [Dirs.rename_of_ok (by rw [htmp]; exact hdebug) hrestored.1 hrestored.2]
          have hback : r.move .debugTmp .debug .debug = ds .debug :=
            (Dirs.move_dst (by decide)).trans htmp
          have hgone : r.move .debugTmp .debug .debugTmp = none := Dirs.move_src
          exact iff_of_true ⟨hback, hgone⟩ ⟨hok, hfree.mp hrestored.1, hrestored.2⟩
        · rw [Dirs.rename_of_not_ok fun hall => hrestored hall.2]
          refine iff_of_false (not_kept_of_leftover hdebug htmp) fun hyields => ?_
          exact hrestored ⟨hfree.mpr hyields.2.1, hyields.2.2⟩

/-! ## Runs -/

/-- What happens to the target directory. -/
inductive Event (E : Type) where
  | cargoBuild (debug : Dir E)
  | cargoStainless (config : Config) (host : Host E)

/-- An ordinary build leaves `target/debug` with some contents. -/
def Event.step (ds : Dirs TargetPath E) : Event E → Dirs TargetPath E
  | .cargoBuild debug => Function.update ds .debug debug
  | .cargoStainless config host => afterFetch config host ds

/-- `P` holds of every run of `cargo-stainless` and the directories that it finds. -/
def EachInvocation (P : Config → Host E → Dirs TargetPath E → Prop) :
    Dirs TargetPath E → List (Event E) → Prop
  | _, [] => True
  | ds, .cargoBuild debug :: es =>
    EachInvocation P ((Event.cargoBuild debug).step ds) es
  | ds, .cargoStainless config host :: es =>
    P config host ds ∧ EachInvocation P ((Event.cargoStainless config host).step ds) es

/-- The run of `cargo-stainless` leaves `target/debug`, if there is one, as it was. -/
def Survives (config : Config) (host : Host E) (ds : Dirs TargetPath E) : Prop :=
  (ds .debug).isSome → Kept ds (afterFetch config host ds)

theorem EachInvocation.iff {P Q : Config → Host E → Dirs TargetPath E → Prop}
    (h : ∀ config host ds, P config host ds ↔ Q config host ds) (ds : Dirs TargetPath E)
    (es : List (Event E)) : EachInvocation P ds es ↔ EachInvocation Q ds es := by
  induction es generalizing ds with
  | nil => rfl
  | cons e es ih =>
    cases e with
    | cargoBuild debug => exact ih _
    | cargoStainless config host => exact and_congr (h config host ds) (ih _)

/-- **The target directory survives a history** exactly when every run of `cargo-stainless` that
finds one is safe from what it finds. -/
theorem survives_iff (ds : Dirs TargetPath E) (es : List (Event E)) :
    EachInvocation Survives ds es ↔
      EachInvocation (fun config host ds => (ds .debug).isSome → Safe config host ds) ds es :=
  EachInvocation.iff (fun _ _ _ => imp_congr_right kept_iff) ds es

/-- A run whose cargo reports an error, in a crate that was built. -/
theorem not_survives_failedPlan :
    let config : Config := { debug := false, exampleOpt := none, exportPathOpt := none }
    let host : Host String :=
      { cargo := fun _ => .ended { success := false, stdout := [] } none
        replacesEmpty := true, protectFault := false, removeFault := none, restoreFault := false }
    ¬EachInvocation Survives (fun p => if p = .debug then some ["libmain.rlib"] else none)
      [.cargoStainless config host] := by
  rintro config host ⟨hsurvives, -⟩
  exact absurd (hsurvives rfl).2 (by decide)

/-- Without a leftover, a run that finds `target/debug` is safe if it gets to the end or cannot move
the directory. -/
def GetsThrough (config : Config) (host : Host E) : Prop :=
  host.protectFault = true ∨ (host.cargo (buildPlanArgs config)).Yields host

theorem safe_iff_of_clean (hclean : ds .debugTmp = none) :
    Safe config host ds ↔ GetsThrough config host := by
  unfold Safe GetsThrough
  cases host.protectFault <;> simp [hclean, vacant]

theorem afterFetch_clean (hclean : ds .debugTmp = none)
    (h : (ds .debug).isSome → Kept ds (afterFetch config host ds)) :
    afterFetch config host ds .debugTmp = none := by
  by_cases hdebug : (ds .debug).isSome
  · exact (h hdebug).2
  · rw [afterFetch_of_not_moved (fun hmoved => hdebug hmoved.1), hclean]

/-- Without a leftover at first, only what each run meets counts: none of them leaves something for
the next. -/
theorem survives_iff_of_clean (hclean : ds .debugTmp = none) (es : List (Event E)) :
    EachInvocation Survives ds es ↔
      EachInvocation (fun config host ds => (ds .debug).isSome → GetsThrough config host)
        ds es := by
  induction es generalizing ds with
  | nil => rfl
  | cons e es ih =>
    cases e with
    | cargoBuild debug => exact ih (by simp [Event.step, hclean])
    | cargoStainless config host =>
      have hstep : Survives config host ds ↔ ((ds .debug).isSome → GetsThrough config host) :=
        imp_congr_right fun hdebug => (kept_iff hdebug).trans (safe_iff_of_clean hclean)
      refine and_congr_right_iff.mpr ?_ |>.trans (and_congr_left_iff.mpr fun _ => hstep)
      exact fun hsurvives => ih (afterFetch_clean hclean hsurvives)

end

end CargoStainless
