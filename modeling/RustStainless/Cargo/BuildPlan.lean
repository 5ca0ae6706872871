import RustStainless.Rust.Path
import RustStainless.Cargo.TargetDir

/-!
# The build plan

The plan is a JSON value with one invocation of rustc for each target. `unpack_invocation` chooses
one of them, and `parse_build` reads the environment and the arguments for the extraction from it.
-/

namespace CargoStainless

open Rust

/-- `serde_json::Value`. A number is kept as its text. -/
inductive Value where
  | null
  | bool (b : Bool)
  | number (text : String)
  | string (s : String)
  | array (values : List Value)
  | object (fields : List (String × Value))

/-- `serde_json::Map`. -/
abbrev Fields := List (String × Value)

/-- `Map::get`. -/
def Fields.get (fields : Fields) (key : String) : Option Value :=
  (fields.find? fun field => field.1 = key).map Prod.snd

/-- `value.pointer("/key")`, for a key that is no number. -/
def Value.pointer (key : String) : Value → Option Value
  | .object fields => Fields.get fields key
  | _ => none

def Value.isString (p : String → Bool) : Value → Bool
  | .string s => p s
  | _ => false

theorem Value.isString_iff {p : String → Bool} {v : Value} :
    v.isString p = true ↔ ∃ s, v = .string s ∧ p s = true := by
  cases v <;> simp [isString]

/-- The test of `unpack_invocation` for an example. -/
def matchesExample (ex : String) (inv : Value) : Bool :=
  match inv.pointer "target_kind", inv.pointer "args" with
  | some (.array kinds), some (.array args) =>
    kinds.any (Value.isString fun kind => kind = "example") &&
      args.any (Value.isString fun arg => contains arg (ex ++ ".rs"))
  | _, _ => false

def unpackInvocation (config : Config) (invocations : List Value) : Except ProcExit Fields := do
  let value ← match config.exampleOpt with
    | some ex =>
      match invocations.find? (matchesExample ex) with
      | some inv => pure inv
      | none => .error (parsingError "Couldn't find target for the specified example")
    | none =>
      match invocations.getLast? with
      | some inv => pure inv
      | none => .error (.panic "Expected at least one invocation")
  match value with
  | .object invocation => pure invocation
  | _ => .error (parsingError "Expected invocation to be an object")

/-! ## The build -/

structure Build where
  packageName : String
  sysroot : String
  env : List (String × String)
  args : List String

def unpackName : Value → Except ProcExit String
  | .string name => pure name
  | _ => .error (parsingError "Expected invocation to contain 'package_name'")

def unpackBuildEnv : Value → Except ProcExit (List (String × String))
  | .object env => pure <| env.filterMap fun
    | (k, .string v) => some (k, v)
    | _ => none
  | _ => .error (parsingError "Expected invocation to contain 'env' object")

/-- `str::starts_with`. -/
def startsWith (s start : String) : Bool := start.toList.isPrefixOf s.toList

def unpackBuildArgs : Value → Except ProcExit (List String)
  | .array args => pure <| args.filterMap fun
    | .string arg =>
      if !startsWith arg "--error-format" && !startsWith arg "--json" then some arg else none
    | _ => none
  -- the source has the same text here
  | _ => .error (parsingError "Expected invocation to contain 'env' object")

def findSysroot (env : List (String × String)) : Except ProcExit String :=
  match env.lookup "CARGO" with
  | none => .error (.panic "Expected CARGO env to be present in build plan")
  | some cargoPath => pure (popPath (popPath cargoPath))

/-- `invocation.get(key).unwrap()`. -/
def Fields.unwrap (fields : Fields) (key : String) : Except ProcExit Value :=
  match fields.get key with
  | none => .error (.panic "called `Option::unwrap()` on a `None` value")
  | some value => pure value

/-- `parse_build`, from the plan that `serde_json` read. -/
def parseBuild (config : Config) (plan : Value) : Except ProcExit Build := do
  match plan.pointer "invocations" with
  | none => .error (.panic "Expected 'invocations' key")
  | some (.array invocations) =>
    let invocation ← unpackInvocation config invocations
    let program ← invocation.unwrap "program"
    unless program.isString (· = "rustc") do throw (.panic "assertion failed: program == rustc")
    let env ← unpackBuildEnv (← invocation.unwrap "env")
    let packageName ← unpackName (← invocation.unwrap "package_name")
    let sysroot ← findSysroot env
    let args ← unpackBuildArgs (← invocation.unwrap "args")
    pure { packageName, sysroot, env, args }
  | some _ => .error (parsingError "Expected 'invocations' to be an array")

/-! ## The chosen example -/

section

variable (sourceOf : Value → Option String)

/-- `kind` is among the kinds of the target. -/
def Value.HasKind (kind : String) (inv : Value) : Prop :=
  ∃ kinds, inv.pointer "target_kind" = some (.array kinds) ∧ .string kind ∈ kinds

/-- `arg` is among the arguments for rustc. -/
def Value.HasArg (arg : String) (inv : Value) : Prop :=
  ∃ args, inv.pointer "args" = some (.array args) ∧ .string arg ∈ args

/-- The invocation is for the example: its source file has that name. -/
def Requested (ex : String) (inv : Value) : Prop :=
  inv.HasKind "example" ∧ ∃ path, sourceOf inv = some path ∧ fileName path = some (ex ++ ".rs")

/--
What `cargo-stainless` should do for an example: choose an invocation for it, or report that there
is none.
-/
def ChoosesRequested (ex : String) (config : Config) (invocations : List Value) : Prop :=
  ((∃ inv ∈ invocations, Requested sourceOf ex inv) → ∃ fields,
    unpackInvocation config invocations = .ok fields ∧ .object fields ∈ invocations ∧
      Requested sourceOf ex (.object fields)) ∧
  ((∀ inv ∈ invocations, ¬Requested sourceOf ex inv) → ∃ e,
    unpackInvocation config invocations = .error e)

/-- Each example that only mentions the name stands behind one that has it. -/
def OthersBehind (ex : String) (invocations : List Value) : Prop :=
  ∀ before inv behind, invocations = before ++ inv :: behind → matchesExample ex inv = true →
    Requested sourceOf ex inv ∨ ∃ inv' ∈ before, Requested sourceOf ex inv'

variable {sourceOf} {ex : String} {config : Config} {invocations : List Value} {inv : Value}

theorem matchesExample_iff : matchesExample ex inv = true ↔
    inv.HasKind "example" ∧ ∃ arg, inv.HasArg arg ∧ contains arg (ex ++ ".rs") = true := by
  have hkinds : ∀ kinds : List Value,
      kinds.any (Value.isString fun kind => kind = "example") = true ↔
        .string "example" ∈ kinds := by
    intro kinds
    simp only [List.any_eq_true, Value.isString_iff, decide_eq_true_eq]
    constructor
    · rintro ⟨_, hmem, _, rfl, rfl⟩
      exact hmem
    · exact fun hmem => ⟨_, hmem, _, rfl, rfl⟩
  have hargs : ∀ args : List Value,
      args.any (Value.isString fun arg => contains arg (ex ++ ".rs")) = true ↔
        ∃ arg, .string arg ∈ args ∧ contains arg (ex ++ ".rs") = true := by
    intro args
    simp only [List.any_eq_true, Value.isString_iff]
    constructor
    · rintro ⟨_, hmem, arg, rfl, hcontains⟩
      exact ⟨arg, hmem, hcontains⟩
    · rintro ⟨arg, hmem, hcontains⟩
      exact ⟨_, hmem, arg, rfl, hcontains⟩
  unfold matchesExample Value.HasKind Value.HasArg
  split
  case h_1 kinds args hkind harg =>
    simp [hkind, harg, hkinds, hargs]
  case h_2 hne =>
    simp only [Bool.false_eq_true, false_iff]
    rintro ⟨⟨kinds, hkind, -⟩, _, ⟨args, harg, -⟩, -⟩
    exact hne kinds args hkind harg

/-- An invocation that matches is an object. -/
theorem object_of_matches (h : matchesExample ex inv = true) : ∃ fields, inv = .object fields := by
  unfold matchesExample Value.pointer at h
  cases inv with
  | object fields => exact ⟨fields, rfl⟩
  | _ => simp at h

theorem unpackInvocation_of_found (hconfig : config.exampleOpt = some ex) {fields : Fields}
    (h : invocations.find? (matchesExample ex) = some (.object fields)) :
    unpackInvocation config invocations = .ok fields := by
  unfold unpackInvocation
  rw [hconfig]
  simp only [h]
  rfl

theorem unpackInvocation_of_none (hconfig : config.exampleOpt = some ex)
    (h : invocations.find? (matchesExample ex) = none) : unpackInvocation config invocations =
      .error (parsingError "Couldn't find target for the specified example") := by
  unfold unpackInvocation
  rw [hconfig]
  simp only [h]
  rfl

section

variable (hsource : ∀ inv path, sourceOf inv = some path → inv.HasArg path)
include hsource

theorem Requested.matches (h : Requested sourceOf ex inv) : matchesExample ex inv = true := by
  obtain ⟨hkind, path, hpath, hname⟩ := h
  exact matchesExample_iff.mpr ⟨hkind, path, hsource inv path hpath, contains_fileName hname⟩

/--
**The chosen example is the requested one** exactly when the other examples that mention its file
name in an argument stand behind it in the plan.
-/
theorem choosesRequested_iff (hconfig : config.exampleOpt = some ex) :
    ChoosesRequested sourceOf ex config invocations ↔ OthersBehind sourceOf ex invocations := by
  cases hfind : invocations.find? (matchesExample ex) with
  | none =>
    have hnone : ∀ inv ∈ invocations, ¬matchesExample ex inv = true := List.find?_eq_none.mp hfind
    refine iff_of_true ⟨?_, fun _ => ⟨_, unpackInvocation_of_none hconfig hfind⟩⟩ ?_
    · rintro ⟨inv, hmem, hreq⟩
      exact absurd (hreq.matches hsource) (hnone inv hmem)
    · intro before inv behind heq hmatch
      exact absurd hmatch (hnone inv (by simp [heq]))
  | some inv =>
    obtain ⟨hmatch, before, behind, heq, hbefore⟩ := List.find?_eq_some_iff_append.mp hfind
    obtain ⟨fields, rfl⟩ := object_of_matches hmatch
    have hunpack := unpackInvocation_of_found hconfig hfind
    -- Both sides say that the first match is requested.
    have hchoice : ChoosesRequested sourceOf ex config invocations ↔
        Requested sourceOf ex (.object fields) := by
      constructor
      · rintro ⟨hfound, hnone⟩
        by_cases hex : ∃ inv ∈ invocations, Requested sourceOf ex inv
        · obtain ⟨fields', hok, -, hreq⟩ := hfound hex
          rw [hunpack] at hok
          cases hok
          exact hreq
        · obtain ⟨e, he⟩ := hnone fun inv hmem hreq => hex ⟨inv, hmem, hreq⟩
          rw [hunpack] at he
          cases he
      · intro hreq
        have hmem : .object fields ∈ invocations := by simp [heq]
        exact ⟨fun _ => ⟨fields, hunpack, hmem, hreq⟩, fun hall => absurd hreq (hall _ hmem)⟩
    have hothers : OthersBehind sourceOf ex invocations ↔
        Requested sourceOf ex (.object fields) := by
      have hfirst : ∀ inv ∈ before, ¬matchesExample ex inv = true := by simpa using hbefore
      constructor
      · intro h
        refine (h before _ behind heq hmatch).resolve_right ?_
        rintro ⟨inv, hmem, hreq⟩
        exact hfirst inv hmem (hreq.matches hsource)
      · intro hreq before' inv behind' heq' hmatch'
        -- The first match is `inv` or stands before it.
        rcases List.append_eq_append_iff.mp (heq.symm.trans heq') with ⟨l, hl, hr⟩ | ⟨l, hl, hr⟩
        · cases l with
          | nil =>
            cases hr
            exact .inl hreq
          | cons x l =>
            obtain ⟨rfl, -⟩ := List.cons.inj hr
            exact .inr ⟨_, by simp [hl], hreq⟩
        · cases l with
          | nil =>
            cases hr
            exact .inl hreq
          | cons x l =>
            obtain ⟨rfl, -⟩ := List.cons.inj hr
            exact absurd hmatch' (hfirst _ (by simp [hl]))
    rw [hchoice, hothers]

end

end

/-! ## Two examples with similar names -/

/-- The first argument that is the path of a Rust file. In the plans of cargo, it is the source. -/
def firstRustFile (inv : Value) : Option String :=
  match inv.pointer "args" with
  | some (.array args) => args.findSome? fun
    | .string arg => if ".rs".toList.isSuffixOf arg.toList then some arg else none
    | _ => none
  | _ => none

theorem firstRustFile_hasArg (inv : Value) (path : String) (h : firstRustFile inv = some path) :
    inv.HasArg path := by
  unfold firstRustFile at h
  split at h
  next args hargs =>
    obtain ⟨arg, hmem, harg⟩ := List.exists_of_findSome?_eq_some h
    cases arg with
    | string s =>
      simp only [Option.ite_none_right_eq_some, Option.some.injEq] at harg
      obtain ⟨-, rfl⟩ := harg
      exact ⟨args, hargs, hmem⟩
    | _ => simp at harg
  · cases h

/-- An invocation for an example of the crate. -/
def exampleInvocation (name file : String) : Value :=
  .object [("target_kind", .array [.string "example"]),
    ("args", .array [.string "--crate-name", .string name, .string file, .string "--test"])]

def fooInvocation : Value := exampleInvocation "foo" "examples/foo.rs"

def myFooInvocation : Value := exampleInvocation "my_foo" "examples/my_foo.rs"

def fooConfig : Config := { debug := false, exampleOpt := some "foo", exportPathOpt := none }

theorem fooInvocation_requested : Requested firstRustFile "foo" fooInvocation :=
  ⟨⟨_, rfl, List.mem_singleton.mpr rfl⟩, "examples/foo.rs", by decide, by decide⟩

theorem choosesRequested_inOrder :
    ChoosesRequested firstRustFile "foo" fooConfig [fooInvocation, myFooInvocation] := by
  refine (choosesRequested_iff firstRustFile_hasArg rfl).mpr fun before inv behind heq _ => ?_
  cases before with
  | nil =>
    obtain ⟨rfl, -⟩ := List.cons.inj heq
    exact .inl fooInvocation_requested
  | cons x before =>
    obtain ⟨rfl, -⟩ := List.cons.inj heq
    exact .inr ⟨_, List.mem_cons_self, fooInvocation_requested⟩

/-- `my_foo.rs` contains `foo.rs`. -/
theorem not_choosesRequested_myFoo :
    ¬ChoosesRequested firstRustFile "foo" fooConfig [myFooInvocation, fooInvocation] := by
  rintro ⟨hfound, -⟩
  obtain ⟨fields, hok, -, -, path, hpath, hname⟩ :=
    hfound ⟨_, List.mem_cons_of_mem _ List.mem_cons_self, fooInvocation_requested⟩
  have hfirst : unpackInvocation fooConfig [myFooInvocation, fooInvocation] = .ok _ :=
    unpackInvocation_of_found rfl rfl
  rw [hfirst] at hok
  cases hok
  have hmyFoo : firstRustFile myFooInvocation = some "examples/my_foo.rs" := by decide
  cases hmyFoo.symm.trans hpath
  exact absurd hname (by decide)

end CargoStainless
