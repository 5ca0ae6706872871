import RustStainless.Data.Eval
import RustStainless.Extraction.Frontend
import RustStainless.Extraction.Image

/-!
# Recognising an `if`

rustc desugars an `if` to a match on a boolean with the arms `true` and `_`. The extractor takes
every match of that shape for an `if`, and does not look at the guards and at the form of the
second body again.
-/

namespace Stainless

open Rustc St Lib

/-! ## The parts of a match -/

/-- The scrutinee and the arms of a match, extracted one after the other. -/
def extractParts (tcx : Tcx) (ctx : BodyCtxt) (scrutinee : Hair.Expr) (arms : List Hair.Arm) :
    Xtor (St.Expr × List MatchCase) := do
  let scrutinee ← extractExpr tcx ctx scrutinee
  let cases ← extractArms tcx (xtorOps tcx ctx) arms
  pure (scrutinee, cases)

/-- From `s`, all parts of the match can be extracted, to `c` and `cases`. -/
structure PartsExtract (tcx : Tcx) (ctx : BodyCtxt) (scrutinee : Hair.Expr) (arms : List Hair.Arm)
    (s : Extraction) (c : St.Expr) (cases : List MatchCase) (s' : Extraction) : Prop where
  run : extractParts tcx ctx scrutinee arms s = .ok ((c, cases), s')
  noErrors : s'.NoErrors

def guardOf : MatchCase → Option St.Expr
  | .mk _ optGuard _ => optGuard

/-- The guards in a match expression. Other expressions have none of their own. -/
def caseGuards : St.Expr → List St.Expr
  | .matchExpr _ cases => cases.filterMap guardOf
  | _ => []

/-- The value of a scrutinee of type `bool` is a boolean. -/
def ScrutineeTyped (P : Program) (ρ : Env) (scrutinee : Hair.Expr) (c : St.Expr) : Prop :=
  scrutinee.ty.isBool → ∀ v, c.eval P ρ = some v → ∃ b, v = .boolean b

/--
The match is extracted, to something that evaluates as its parts say: the first arm is taken whose
pattern matches and whose guard is true. No guard is dropped.
-/
def MatchKept (tcx : Tcx) (ctx : BodyCtxt) (ty : Ty) (scrutinee : Hair.Expr)
    (arms : List Hair.Arm) (s : Extraction) (c : St.Expr) (cases : List MatchCase) : Prop :=
  ∃ t s', extractExpr tcx ctx (.matchE ty scrutinee arms) s = .ok (t, s') ∧
    (∀ P ρ, ScrutineeTyped P ρ scrutinee c → t.eval P ρ = (St.Expr.matchExpr c cases).eval P ρ) ∧
    caseGuards t = cases.filterMap guardOf

/-! ## The shape of an `if` -/

def isTrueConst (konst : Const) : Bool :=
  match literalTryFrom konst with
  | .ok (some (.boolean true)) => true
  | _ => false

/-- Two arms on a boolean, the first for `true` and the second for `_`. -/
def ifShape (scrutinee : Hair.Expr) (arms : List Hair.Arm) : Bool :=
  match arms with
  | [.mk (.constant _ konst) _ _, .mk (.wild _) _ _] => scrutinee.ty.isBool && isTrueConst konst
  | _ => false

def isBlock : Hair.Expr → Bool
  | .block _ _ _ _ => true
  | _ => false

/-- No arm has a guard, and the last body is a block. This is what the desugaring of `if` gives. -/
def PlainArms (arms : List Hair.Arm) : Prop :=
  (∀ arm ∈ arms, arm.guard = none) ∧ ∀ arm ∈ arms.getLast?, isBlock (stripScopes arm.body)

section

variable {tcx : Tcx} {ctx : BodyCtxt}

theorem extractExprWith_stripScopes {m : Type → Type} [Monad m] (ops : BodyOps m) :
    ∀ e : Hair.Expr, extractExprWith tcx ops (stripScopes e) = extractExprWith tcx ops e
  | .scope _ value => by
    rw [stripScopes, extractExprWith, extractExprWith_stripScopes ops value]
  | .literal _ _ | .unary _ _ _ | .binary _ _ _ _ | .logicalOp _ _ _ _ | .tuple _ _ | .field _ _ _
  | .varRef _ _ | .call _ _ _ | .adt _ _ _ _ _ _ | .block _ _ _ _ | .matchE _ _ _ | .use _ _
  | .neverToAny _ _ | .deref _ _ | .borrow _ _ _ | .other _ _ => by
    simp only [stripScopes]

theorem isTrueConst_iff {konst : Const} :
    isTrueConst konst = true ↔ literalTryFrom konst = .ok (some (.boolean true)) := by
  unfold isTrueConst
  split
  · next h => simp [h]
  · next h => simpa using h

/-- A match that is not of the shape is not taken for an `if`, unless it panics anyway. -/
theorem looksLikeIf_of_not_shape {scrutinee : Hair.Expr} {arms : List Hair.Arm}
    (h : ifShape scrutinee arms = false) :
    looksLikeIf scrutinee arms = .ok none ∨
      ∃ ty konst guard thenn rest e, arms = .mk (.constant ty konst) guard thenn :: rest ∧
        literalTryFrom konst = .error e := by
  unfold looksLikeIf
  split
  · next ty konst guard thenn ty' guard' elze =>
    split
    · next hbool =>
      split
      · next e he => exact .inr ⟨_, _, _, _, _, e, rfl, he⟩
      · next he =>
        rw [ifShape, hbool, isTrueConst_iff.mpr he] at h
        simp at h
      · exact .inl rfl
    · exact .inl rfl
  · exact .inl rfl

/-- A match of the shape. -/
structure IfArms (scrutinee : Hair.Expr) (arms : List Hair.Arm) (konst : Const)
    (guard guard' : Option Hair.Expr) (thenn elze : Hair.Expr) : Prop where
  arms : ∃ ty ty', arms = [.mk (.constant ty konst) guard thenn, .mk (.wild ty') guard' elze]
  isBool : scrutinee.ty.isBool = true
  isTrue : literalTryFrom konst = .ok (some (.boolean true))

theorem ifArms_of_shape {scrutinee : Hair.Expr} {arms : List Hair.Arm}
    (h : ifShape scrutinee arms = true) :
    ∃ konst guard guard' thenn elze, IfArms scrutinee arms konst guard guard' thenn elze := by
  unfold ifShape at h
  split at h
  · obtain ⟨hbool, hkonst⟩ := Bool.and_eq_true_iff.mp h
    exact ⟨_, _, _, _, _, ⟨_, _, rfl⟩, hbool, isTrueConst_iff.mp hkonst⟩
  · simp at h

variable {scrutinee : Hair.Expr} {arms : List Hair.Arm} {konst : Const}
  {guard guard' : Option Hair.Expr} {thenn elze : Hair.Expr}

theorem IfArms.looksLikeIf_block (h : IfArms scrutinee arms konst guard guard' thenn elze)
    {ty : Ty} {safe : Bool} {stmts : List Hair.Stmt} {expr : Option Hair.Expr}
    (helze : stripScopes elze = .block ty safe stmts expr) :
    looksLikeIf scrutinee arms = .ok (some (!(stmts.isEmpty && expr.isNone))) := by
  obtain ⟨_, _, rfl⟩ := h.arms
  simp only [looksLikeIf, h.isBool, if_true, h.isTrue, helze]

theorem IfArms.looksLikeIf_other (h : IfArms scrutinee arms konst guard guard' thenn elze)
    (helze : isBlock (stripScopes elze) = false) :
    looksLikeIf scrutinee arms = .error .unexpected := by
  obtain ⟨_, _, rfl⟩ := h.arms
  simp only [looksLikeIf, h.isBool, if_true, h.isTrue]
  cases hs : stripScopes elze with
  | block => simp [hs, isBlock] at helze
  | _ => rfl

/-! ## The parts of a match of the shape -/

/-- An arm has a guard iff its case does. -/
theorem extractArms_guards : ∀ (arms : List Hair.Arm) {cases : List MatchCase} {s s' : Extraction},
    extractArms tcx (xtorOps tcx ctx) arms s = .ok (cases, s') →
    (∀ case ∈ cases, guardOf case = none) → ∀ arm ∈ arms, arm.guard = none
  | [], _, _, _, _, _ => by simp
  | .mk pattern guard body :: rest, cases, s, s', h, hg => by
    simp only [extractArms] at h
    obtain ⟨p, s₁, -, h⟩ := Run.bind_ok.mp h
    obtain ⟨g, s₂, h2, h⟩ := Run.bind_ok.mp h
    obtain ⟨b, s₃, -, h⟩ := Run.bind_ok.mp h
    obtain ⟨cs, s₄, h4, h⟩ := Run.bind_ok.mp h
    obtain ⟨rfl, -⟩ := Run.pure_ok.mp h
    rw [List.forall_mem_cons] at hg
    cases guard with
    | none =>
      rw [List.forall_mem_cons]
      exact ⟨rfl, extractArms_guards rest h4 hg.2⟩
    | some e =>
      simp only [extractGuard] at h2
      obtain ⟨_, _, -, h2⟩ := Run.bind_ok.mp h2
      obtain ⟨rfl, -⟩ := Run.pure_ok.mp h2
      simp [guardOf] at hg

/-- Without guards, the parts of a match of the shape are its scrutinee and the two bodies. -/
theorem IfArms.parts (h : IfArms scrutinee arms konst none none thenn elze) {c : St.Expr}
    {cases : List MatchCase} {s s' : Extraction}
    (hparts : extractParts tcx ctx scrutinee arms s = .ok ((c, cases), s')) :
    ∃ t₁ t₂ s₁ s₂,
      cases = [.mk (.literal none (.boolean true)) none t₁, .mk (.wildcard none) none t₂] ∧
      extractExpr tcx ctx scrutinee s = .ok (c, s₁) ∧
      extractExpr tcx ctx thenn s₁ = .ok (t₁, s₂) ∧
      extractExpr tcx ctx elze s₂ = .ok (t₂, s') := by
  obtain ⟨_, _, rfl⟩ := h.arms
  unfold extractParts at hparts
  obtain ⟨_, s₁, h1, hparts⟩ := Run.bind_ok.mp hparts
  simp only [extractArms, extractPattern, extractGuard, h.isTrue, pure_bind, bind_assoc] at hparts
  obtain ⟨t₁, s₂, h2, hparts⟩ := Run.bind_ok.mp hparts
  obtain ⟨t₂, s₃, h3, hparts⟩ := Run.bind_ok.mp hparts
  obtain ⟨heq, rfl⟩ := Run.pure_ok.mp hparts
  obtain ⟨rfl, rfl⟩ := Prod.mk.inj heq
  exact ⟨t₁, t₂, s₁, s₂, rfl, h1, h2, h3⟩

/-- An empty block is the unit literal, and extracting it does nothing else. -/
theorem extractExpr_emptyBlock {ty : Ty} {safe : Bool} {t : St.Expr} {s s' : Extraction}
    (helze : stripScopes elze = .block ty safe [] none)
    (h : extractExpr tcx ctx elze s = .ok (t, s')) (hn : s'.NoErrors) :
    t = .unitLiteral ∧ s' = s := by
  rw [extractExpr, ← extractExprWith_stripScopes, helze, extractExprWith] at h
  split at h
  · simp only [extractFinal, stmtActions, extractBlock_, finishBlock, pure_bind] at h
    obtain ⟨rfl, rfl⟩ := Run.pure_ok.mp h
    exact ⟨rfl, rfl⟩
  · obtain ⟨_, _, h1, h2⟩ := Run.bind_ok.mp h
    obtain ⟨-, rfl⟩ := Run.pure_ok.mp h2
    exact absurd hn (unsupported_not_fine h1)

/-- A conditional evaluates like the match on `true` and `_` where the condition is a boolean. -/
theorem eval_ifExpr_eq_match {P : Program} {ρ : Env} {c t₁ t₂ : St.Expr}
    (hc : ∀ v, c.eval P ρ = some v → ∃ b, v = .boolean b) :
    (St.Expr.ifExpr c t₁ t₂).eval P ρ = (St.Expr.matchExpr c
      [.mk (.literal none (.boolean true)) none t₁, .mk (.wildcard none) none t₂]).eval P ρ := by
  simp only [Expr.eval]
  cases hv : c.eval P ρ with
  | none => rfl
  | some v =>
    obtain ⟨b, rfl⟩ := hc v hv
    cases b with
    | true => simp [Value.truth, Expr.evalCases, Pattern.bind, Literal.matchesValue, Literal.value,
        Value.same, Expr.evalGuard, Env.setBinder]
    | false => simp [Value.truth, Expr.evalCases, Pattern.bind, Literal.matchesValue, Literal.value,
        Value.same, Expr.evalGuard, Env.setBinder]

/-! ## The recognition of an `if` -/

/-- A match that is not taken for an `if` is extracted part by part. -/
theorem matchKept_of_not_shape {ty : Ty} {s s' : Extraction} {c : St.Expr} {cases : List MatchCase}
    (h : PartsExtract tcx ctx scrutinee arms s c cases s')
    (hshape : ifShape scrutinee arms = false) :
    MatchKept tcx ctx ty scrutinee arms s c cases := by
  obtain ⟨c', s₁, h1, h2⟩ := Run.bind_ok.mp h.run
  obtain ⟨cases', s₂, h3, h4⟩ := Run.bind_ok.mp h2
  obtain ⟨heq, rfl⟩ := Run.pure_ok.mp h4
  obtain ⟨rfl, rfl⟩ := Prod.mk.inj heq
  rcases looksLikeIf_of_not_shape hshape with hif | ⟨_, konst, _, _, _, e, rfl, he⟩
  · refine ⟨.matchExpr c' cases', s₂, ?_, fun _ _ _ => rfl, rfl⟩
    rw [extractExpr, extractExprWith, hif]
    exact (Run.bind_eq h1).trans ((Run.bind_eq h3).trans rfl)
  -- A constant without a literal panics in the pattern as well.
  · simp only [extractArms, extractPattern, he] at h3
    obtain ⟨_, _, hp, -⟩ := Run.bind_ok.mp h3
    simp [xtorOps] at hp

/-- The desugaring of `if` is extracted to a conditional. -/
theorem IfArms.matchKept (h : IfArms scrutinee arms konst none none thenn elze)
    (hblock : isBlock (stripScopes elze) = true) {ty : Ty} {s s' : Extraction} {c : St.Expr}
    {cases : List MatchCase} (hparts : PartsExtract tcx ctx scrutinee arms s c cases s') :
    MatchKept tcx ctx ty scrutinee arms s c cases := by
  obtain ⟨t₁, t₂, s₁, s₂, rfl, h1, h2, h3⟩ := h.parts hparts.run
  refine ⟨.ifExpr c t₁ t₂, s', ?_, fun P ρ hty => eval_ifExpr_eq_match (hty h.isBool), rfl⟩
  cases helze : stripScopes elze with
  | block blockTy safe stmts expr =>
    rw [extractExpr, extractExprWith, h.looksLikeIf_block helze]
    obtain ⟨_, _, rfl⟩ := h.arms
    refine (Run.bind_eq h1).trans ((Run.bind_eq h2).trans ?_)
    cases hempty : stmts.isEmpty && expr.isNone with
    | false => exact Run.bind_eq h3
    | true =>
      -- There is no `else`: the second body is an empty block.
      obtain ⟨hstmts, hexpr⟩ := Bool.and_eq_true_iff.mp hempty
      obtain rfl := List.isEmpty_iff.mp hstmts
      obtain rfl := Option.isNone_iff_eq_none.mp hexpr
      obtain ⟨rfl, rfl⟩ := extractExpr_emptyBlock helze h3 hparts.noErrors
      rfl
  | _ => simp [helze, isBlock] at hblock

/-- What is taken for an `if` needs a block, and is extracted without its guards. -/
theorem IfArms.of_matchKept (h : IfArms scrutinee arms konst guard guard' thenn elze) {ty : Ty}
    {s : Extraction} {c : St.Expr} {cases : List MatchCase}
    (hkept : MatchKept tcx ctx ty scrutinee arms s c cases) :
    isBlock (stripScopes elze) = true ∧ cases.filterMap guardOf = [] := by
  obtain ⟨t, s', hrun, -, hguards⟩ := hkept
  rw [extractExpr, extractExprWith] at hrun
  cases helze : stripScopes elze with
  | block blockTy safe stmts expr =>
    rw [h.looksLikeIf_block helze] at hrun
    obtain ⟨_, _, rfl⟩ := h.arms
    obtain ⟨_, _, -, hrun⟩ := Run.bind_ok.mp hrun
    obtain ⟨_, _, -, hrun⟩ := Run.bind_ok.mp hrun
    obtain ⟨_, _, -, hrun⟩ := Run.bind_ok.mp hrun
    obtain ⟨rfl, -⟩ := Run.pure_ok.mp hrun
    exact ⟨rfl, hguards.symm⟩
  | _ =>
    rw [h.looksLikeIf_other (by simp [helze, isBlock])] at hrun
    simp [xtorOps] at hrun

/--
**A match is kept iff it does not have the shape of an `if`, or is what an `if` is desugared to.**
-/
theorem matchKept_iff {ty : Ty} {s s' : Extraction} {c : St.Expr} {cases : List MatchCase}
    (h : PartsExtract tcx ctx scrutinee arms s c cases s') :
    MatchKept tcx ctx ty scrutinee arms s c cases ↔
      ifShape scrutinee arms = false ∨ PlainArms arms := by
  cases hshape : ifShape scrutinee arms with
  | false => simpa using matchKept_of_not_shape h hshape
  | true =>
    obtain ⟨konst, guard, guard', thenn, elze, hif⟩ := ifArms_of_shape hshape
    obtain ⟨_, _, harms⟩ := hif.arms
    simp only [reduceCtorEq, false_or]
    constructor
    · intro hkept
      obtain ⟨hblock, hguards⟩ := hif.of_matchKept hkept
      obtain ⟨_, _, -, h2⟩ := Run.bind_ok.mp h.run
      obtain ⟨_, _, h3, h4⟩ := Run.bind_ok.mp h2
      obtain ⟨heq, -⟩ := Run.pure_ok.mp h4
      obtain ⟨rfl, rfl⟩ := Prod.mk.inj heq
      refine ⟨extractArms_guards arms h3 (List.filterMap_eq_nil_iff.mp hguards), ?_⟩
      rw [harms]
      simpa [Hair.Arm.body] using hblock
    · rintro ⟨hguards, hlast⟩
      rw [harms] at hguards hlast
      obtain rfl : guard = none := hguards _ List.mem_cons_self
      obtain rfl : guard' = none := hguards _ (List.mem_cons_of_mem _ List.mem_cons_self)
      exact hif.matchKept (by simpa [Hair.Arm.body] using hlast) h

/-! ## Matches of a user -/

def boolConst (b : Bool) : Const := { ty := .bool, val := .bits b.toNat }

def boolExpr (b : Bool) : Hair.Expr := .literal .bool (boolConst b)

/-- The arms `true if guard => thenn` and `_ => elze`. -/
def userArms (guard : Option Hair.Expr) (thenn elze : Hair.Expr) : List Hair.Arm :=
  [.mk (.constant .bool (boolConst true)) guard thenn, .mk (.wild .bool) none elze]

/-- The cases of these arms. -/
def userCases (guard : Option St.Expr) (thenn elze : St.Expr) : List MatchCase :=
  [.mk (.literal none (.boolean true)) guard thenn, .mk (.wildcard none) none elze]

def noVars : BodyCtxt := { txtcx := { defId := ⟨0, 0⟩, indexToTparam := [] }, vars := [] }

theorem userArms_ifArms (guard : Option Hair.Expr) (thenn elze : Hair.Expr) :
    IfArms (boolExpr true) (userArms guard thenn elze) (boolConst true) guard none thenn elze :=
  ⟨⟨_, _, rfl⟩, rfl, rfl⟩

/--
`match true { true if false => true, _ => { false } }` loses its guard and is true instead of
false; `match true { true => true, _ => false }` panics.
-/
theorem not_matchKept_user :
    let guarded := userArms (some (boolExpr false)) (boolExpr true)
      (.block .bool true [] (some (boolExpr false)))
    let plain := userArms none (boolExpr true) (boolExpr false)
    let c := St.Expr.literal (.boolean true)
    let e := St.Expr.literal (.boolean false)
    PartsExtract .empty noVars (boolExpr true) guarded .new c (userCases (some e) c e) .new ∧
      ¬ MatchKept .empty noVars .bool (boolExpr true) guarded .new c (userCases (some e) c e) ∧
      (∀ P ρ, (St.Expr.ifExpr c c e).eval P ρ = some (.boolean true) ∧
        (St.Expr.matchExpr c (userCases (some e) c e)).eval P ρ = some (.boolean false)) ∧
      PartsExtract .empty noVars (boolExpr true) plain .new c (userCases none c e) .new ∧
      ¬ MatchKept .empty noVars .bool (boolExpr true) plain .new c (userCases none c e) := by
  intro guarded plain c e
  have hnew : Extraction.new.NoErrors := by simp [Extraction.NoErrors, Extraction.new]
  refine ⟨⟨rfl, hnew⟩, fun h => ?_, fun P ρ => ?_, ⟨rfl, hnew⟩, fun h => ?_⟩
  · have hguards := ((userArms_ifArms _ _ _).of_matchKept h).2
    simp [userCases, guardOf] at hguards
  · simp [c, e, userCases, Expr.eval, Expr.evalCases, Expr.evalGuard, Pattern.bind,
      Literal.matchesValue, Literal.value, Value.same, Value.truth, Env.setBinder]
  · have hblock := ((userArms_ifArms _ _ _).of_matchKept h).1
    simp [stripScopes, boolExpr, isBlock] at hblock

/-- The desugaring of `if true { true } else { false }`. -/
theorem matchKept_desugared :
    MatchKept .empty noVars .bool (boolExpr true)
      (userArms none (boolExpr true) (.block .bool true [] (some (boolExpr false)))) .new
      (.literal (.boolean true))
      (userCases none (.literal (.boolean true)) (.literal (.boolean false))) := by
  have hnew : Extraction.new.NoErrors := by simp [Extraction.NoErrors, Extraction.new]
  refine (matchKept_iff ⟨rfl, hnew⟩).mpr (.inr ⟨?_, ?_⟩)
  · simp [userArms, Hair.Arm.guard]
  · simp [userArms, Hair.Arm.body, stripScopes, isBlock]

end

end Stainless
