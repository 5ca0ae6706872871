import RustStainless.Extraction.IfShape
import RustStainless.Extraction.ImageExtracts
import RustStainless.Extraction.PatternMeaning
import RustStainless.Extraction.Subpatterns

/-!
# What blocks and matches evaluate to

The pure fragment, and the environments in which its expressions and their translations are
evaluated. Statements and arms are taken one after the other on both sides, with the same bindings.
-/

namespace Stainless

open Rustc St Lib

/-! ## The fragment -/

section Fragment

variable (tcx : Tcx)

/-- A pattern lists different fields and binds different variables. -/
structure PurePat (p : Hair.Pat) : Prop where
  ok : PatOk tcx p
  vars : p.vars.Nodup

mutual

/-- The patterns are in order, and what is taken for an `if` has no guards. -/
def PureOk : Hair.Expr → Prop
  | .literal _ _ | .varRef _ _ | .other _ _ => True
  | .unary _ _ arg | .field _ arg _ | .scope _ arg | .use _ arg | .neverToAny _ arg
  | .deref _ arg | .borrow _ _ arg => PureOk arg
  | .binary _ _ lhs rhs | .logicalOp _ _ lhs rhs => PureOk lhs ∧ PureOk rhs
  | .tuple _ fields => PureOk.list fields
  | .call _ _ args => PureOk.list args
  | .adt _ _ _ _ fields _ => PureOk.fields fields
  | .block _ _ stmts expr => PureOk.stmts stmts ∧ PureOk.opt expr
  | .matchE _ scrutinee arms =>
    (guardsMet scrutinee arms = false → ∀ arm ∈ arms, arm.guard = none) ∧ PureOk scrutinee ∧
      PureOk.arms arms

def PureOk.list : List Hair.Expr → Prop
  | [] => True
  | e :: es => PureOk e ∧ PureOk.list es

def PureOk.fields : List (Nat × Hair.Expr) → Prop
  | [] => True
  | (_, e) :: es => PureOk e ∧ PureOk.fields es

def PureOk.opt : Option Hair.Expr → Prop
  | none => True
  | some e => PureOk e

def PureOk.stmts : List Hair.Stmt → Prop
  | [] => True
  | .expr e :: rest => PureOk e ∧ PureOk.stmts rest
  | .letS _ initializer :: rest => PureOk.opt initializer ∧ PureOk.stmts rest

def PureOk.arms : List Hair.Arm → Prop
  | [] => True
  | .mk pattern guard body :: rest =>
    PurePat tcx pattern ∧ PureOk.opt guard ∧ PureOk body ∧ PureOk.arms rest

end

end Fragment

section Parts

variable {tcx : Tcx}

theorem PureOk.of_list {es : List Hair.Expr} (h : PureOk.list tcx es) {e : Hair.Expr}
    (he : e ∈ es) : PureOk tcx e := by
  induction es with
  | nil => cases he
  | cons e' es ih =>
    rcases List.mem_cons.mp he with rfl | he
    · exact h.1
    · exact ih h.2 he

theorem PureOk.of_fields {fields : List (Nat × Hair.Expr)} (h : PureOk.fields tcx fields)
    {f : Nat × Hair.Expr} (hf : f ∈ fields) : PureOk tcx f.2 := by
  induction fields with
  | nil => cases hf
  | cons g rest ih =>
    rcases List.mem_cons.mp hf with rfl | hf
    · exact h.1
    · exact ih h.2 hf

end Parts

/-- The literals and patterns that are translated to something with the same meaning. -/
def faithful : Hair.Accepts where
  konst := constFaithful
  pat := patFaithful

/-! ## Values of expressions -/

section Values

variable {tcx : Tcx} {accepts : Hair.Accepts} {ρ : Hair.Env}

/-- A value has the type of its expression. -/
theorem eval_fits {e : Hair.Expr} {v : Hair.Value} (h : e.eval tcx accepts ρ = some v) :
    v.fits tcx e.ty = true := by
  cases e with
  | logicalOp ty op lhs rhs =>
    cases op <;>
    · simp only [Hair.Expr.eval] at h
      exact (Hair.checked_eq_some.mp h).2
  | call ty funTy args =>
    simp only [Hair.Expr.eval] at h
    split_ifs at h
    exact (Hair.checked_eq_some.mp h).2
  | adt ty did i substs fields base =>
    simp only [Hair.Expr.eval] at h
    split_ifs at h
    exact (Hair.checked_eq_some.mp h).2
  | neverToAny | other => simp [Hair.Expr.eval] at h
  | _ =>
    simp only [Hair.Expr.eval] at h
    exact (Hair.checked_eq_some.mp h).2

theorem evalAll_map {α : Type} {f : α → Hair.Expr} {g : α → Hair.Value} {zs : List α}
    (h : ∀ z ∈ zs, (f z).eval tcx accepts ρ = some (g z)) :
    Hair.Expr.evalAll tcx accepts ρ (zs.map f) = some (zs.map g) := by
  induction zs with
  | nil => rw [List.map_nil, Hair.Expr.evalAll, List.map_nil]
  | cons z zs ih =>
    obtain ⟨hz, hzs⟩ := List.forall_mem_cons.mp h
    rw [List.map_cons, Hair.Expr.evalAll, hz, Option.bind_some, ih hzs]
    rfl

/-- The fields with their initializers and values. -/
theorem evalFields_eq_some {fields : List (Nat × Hair.Expr)} {vals : List (Nat × Hair.Value)}
    (h : Hair.Expr.evalFields tcx accepts ρ fields = some vals) :
    ∃ zs : List (Nat × (Hair.Expr × Hair.Value)), fields = zs.map (fun z => (z.1, z.2.1)) ∧
      vals = zs.map (fun z => (z.1, z.2.2)) ∧
      ∀ z ∈ zs, z.2.1.eval tcx accepts ρ = some z.2.2 := by
  induction fields generalizing vals with
  | nil =>
    obtain rfl : [] = vals := by simpa [Hair.Expr.evalFields] using h
    exact ⟨[], rfl, rfl, by simp⟩
  | cons f rest ih =>
    obtain ⟨i, e⟩ := f
    rw [Hair.Expr.evalFields] at h
    obtain ⟨v, hv, h⟩ := Option.bind_eq_some_iff.mp h
    obtain ⟨vals', hvals, rfl⟩ := Option.map_eq_some_iff.mp h
    obtain ⟨zs, rfl, rfl, hzs⟩ := ih hvals
    exact ⟨(i, e, v) :: zs, rfl, rfl, List.forall_mem_cons.mpr ⟨hv, hzs⟩⟩

theorem forall₂_of_mapM {α β : Type} {f : α → Option β} {as : List α} {bs : List β}
    (h : as.mapM f = some bs) : List.Forall₂ (fun a b => f a = some b) as bs := by
  induction as generalizing bs with
  | nil =>
    obtain rfl : [] = bs := by simpa using h
    exact .nil
  | cons a as ih =>
    rw [List.mapM_cons] at h
    obtain ⟨b, hb, h⟩ := Option.bind_eq_some_iff.mp h
    obtain ⟨bs', hbs, h⟩ := Option.bind_eq_some_iff.mp h
    obtain rfl := Option.some.inj h
    exact .cons hb (ih hbs)

/-- The values of all fields, sorted by the field. -/
theorem fieldValues_eq_some {n : Nat} {vals : List (Nat × Hair.Value)} {vs : List Hair.Value}
    (h : Hair.fieldValues n vals = some vs) : (sortByIndex vals).map Prod.snd = vs := by
  unfold Hair.fieldValues at h
  split_ifs at h with hlen
  have hget : List.Forall₂ (fun i v => Assoc.get? vals i = some v) (List.range n) vs :=
    forall₂_of_mapM h
  -- Every field has a value, and there are no more values than fields.
  have hsub : List.range n ⊆ vals.map Prod.fst := by
    intro i hi
    obtain ⟨v, -, hv⟩ := forall₂_mem_left hget hi
    exact List.mem_map_of_mem (Assoc.mem_of_get? hv)
  have hperm : (vals.map Prod.fst).Perm (List.range n) := by
    refine ((List.subperm_of_subset List.nodup_range hsub).perm_of_length_le ?_).symm
    simp [hlen]
  have hnodup : (vals.map Prod.fst).Nodup := hperm.nodup_iff.mpr List.nodup_range
  have hsorted : List.Forall₂ (fun i v => Assoc.get? vals i = some v)
      ((sortByIndex vals).map Prod.fst) ((sortByIndex vals).map Prod.snd) := by
    rw [List.forall₂_map_left_iff, List.forall₂_map_right_iff]
    refine List.forall₂_same.mpr fun f hf => ?_
    exact Assoc.get?_of_mem hnodup (mem_sortByIndex.mp hf)
  rw [sortByIndex_indices hperm] at hsorted
  exact List.right_unique_forall₂'
    (fun i v v' hv hv' => Option.some.inj (hv.symm.trans hv')) hsorted hget

end Values

/-! ## Environments -/

section Meaning

variable (tcx : Tcx) (ids : Ids) (ctx : BodyCtxt) (P : Program)

/-- The variables of the bindings have the images of their values. -/
def EnvImage (ρ : Hair.Env) (σ : St.Env) : Prop :=
  ∀ h x v, ctx.vars.get? h = some x → ρ h = some v →
    ∃ w, valueImage tcx ids v = some w ∧ σ x.id.globalId = some w

/-- Wherever `e` has a value, `t` has its image. -/
def Means (e : Hair.Expr) (t : St.Expr) : Prop :=
  ∀ ρ σ v, EnvImage tcx ids ctx ρ σ → e.eval tcx faithful ρ = some v →
    ∃ w, valueImage tcx ids v = some w ∧ t.eval P σ = some w

end Meaning

section Environments

variable {tcx : Tcx} {ids : Ids} {ctx : BodyCtxt} {P : Program} {ρ ρ' : Hair.Env} {σ σ' : St.Env}

/-- Behind a pattern, the new bindings and the old ones have their images. -/
theorem EnvImage.bindAll (henv : EnvImage tcx ids ctx ρ σ) (hown : OwnIds ctx)
    {bs : List (HirId × Hair.Value)} (hbound : Bound tcx ids ctx σ' bs)
    (hun : Unchanged ctx σ σ' (bs.map Prod.fst) none) :
    EnvImage tcx ids ctx (ρ.bindAll bs) σ' := by
  intro h x v hx hv
  rw [Hair.Env.bindAll] at hv
  cases hget : Assoc.get? bs h with
  | some u =>
    rw [hget, Option.some_or] at hv
    obtain rfl := Option.some.inj hv
    obtain ⟨x', w, hx', hw, hσ⟩ := hbound (h, u) (Assoc.mem_of_get? hget)
    obtain rfl := Option.some.inj (hx.symm.trans hx')
    exact ⟨w, hw, hσ⟩
  | none =>
    rw [hget, Option.none_or] at hv
    obtain ⟨w, hw, hσ⟩ := henv h x v hx hv
    refine ⟨w, hw, ?_⟩
    rw [hun x.id.globalId _ (by simp), hσ]
    -- No other binding has the same variable.
    intro g hg x' hx' heq
    obtain rfl := hown g h x' x hx' hx heq
    exact Assoc.get?_eq_none_iff.mp hget hg

/-- The value of a `let` is bound as it is, or by reference. -/
theorem LetVar.match {p : Hair.Pat} {h : HirId} (hlet : LetVar p h) (ids : Ids) {v : Hair.Value}
    {bs : List (HirId × Hair.Value)} (hbs : p.matchValue tcx v = some (some bs)) :
    ∃ u, bs = [(h, u)] ∧ valueImage tcx ids u = valueImage tcx ids v := by
  induction hlet with
  | @binding ty mode var hmode =>
    refine ⟨mode.bound v, ?_, ?_⟩
    · simpa [Hair.Pat.matchValue, Hair.Pat.matchOpt, eq_comm] using hbs
    · cases mode <;> rfl
  | ascribeUserType _ ih =>
    rw [Hair.Pat.matchValue] at hbs
    exact ih hbs

/-! ## Lists and blocks -/

theorem evalAll_means {es : List Hair.Expr} {ts : List St.Expr}
    (h : List.Forall₂ (Means tcx ids ctx P) es ts) (henv : EnvImage tcx ids ctx ρ σ)
    {vs : List Hair.Value} (hvs : Hair.Expr.evalAll tcx faithful ρ es = some vs) :
    ∃ ws, valueImages tcx ids vs = some ws ∧ St.Expr.evalAll P σ ts = some ws := by
  induction h generalizing vs with
  | nil =>
    obtain rfl : [] = vs := by simpa [Hair.Expr.evalAll] using hvs
    exact ⟨[], by rw [valueImages], by rw [St.Expr.evalAll]⟩
  | cons het _ ih =>
    rw [Hair.Expr.evalAll] at hvs
    obtain ⟨v, hv, hvs⟩ := Option.bind_eq_some_iff.mp hvs
    obtain ⟨vs', hvs', rfl⟩ := Option.map_eq_some_iff.mp hvs
    obtain ⟨w, hw, ht⟩ := het ρ σ v henv hv
    obtain ⟨ws, hws, hts⟩ := ih hvs'
    refine ⟨w :: ws, ?_, ?_⟩
    · rw [valueImages, hw, Option.bind_some, hws]
      rfl
    · rw [St.Expr.evalAll, ht, Option.bind_some, hts]
      rfl

theorem evalAll_append {ts ts' : List St.Expr} {ws ws' : List St.Value}
    (h : St.Expr.evalAll P σ ts = some ws) (h' : St.Expr.evalAll P σ ts' = some ws') :
    St.Expr.evalAll P σ (ts ++ ts') = some (ws ++ ws') := by
  induction ts generalizing ws with
  | nil =>
    obtain rfl : [] = ws := by simpa [St.Expr.evalAll] using h
    exact h'
  | cons t ts ih =>
    rw [St.Expr.evalAll] at h
    obtain ⟨w, hw, h⟩ := Option.bind_eq_some_iff.mp h
    obtain ⟨ws₁, hws, rfl⟩ := Option.map_eq_some_iff.mp h
    rw [List.cons_append, St.Expr.evalAll, hw, Option.bind_some, ih hws]
    rfl

/-- A block whose expressions have values has the value of the last one. -/
theorem eval_finishBlock {acc : List St.Expr} {last : St.Expr} {ws : List St.Value}
    (h : St.Expr.evalAll P σ acc = some ws) :
    (finishBlock acc last).eval P σ = last.eval P σ := by
  cases acc with
  | nil => rfl
  | cons t ts =>
    show (St.Expr.block (t :: ts) last).eval P σ = _
    rw [St.Expr.eval, h, Option.bind_some]

/-- What is left of a block, where the expressions so far have values. -/
theorem StmtsExtract.means {R : Hair.Expr → St.Expr → Prop} (hown : OwnIds ctx)
    {stmts : List Hair.Stmt} {acc : List St.Expr} {last r : St.Expr}
    (h : StmtsExtract ctx.vars.get? R stmts acc last r) (hok : PureOk.stmts tcx stmts)
    (hR : ∀ e t, PureOk tcx e → R e t → Means tcx ids ctx P e t) {expr : Option Hair.Expr}
    (hlast : ∀ ρ σ v, EnvImage tcx ids ctx ρ σ → Hair.Expr.evalOpt tcx faithful ρ expr = some v →
      ∃ w, valueImage tcx ids v = some w ∧ last.eval P σ = some w) {v : Hair.Value}
    (henv : EnvImage tcx ids ctx ρ σ) {ws : List St.Value}
    (hacc : St.Expr.evalAll P σ acc = some ws)
    (hstmts : Hair.Expr.evalStmts tcx faithful ρ stmts = some ρ')
    (hv : Hair.Expr.evalOpt tcx faithful ρ' expr = some v) :
    ∃ w, valueImage tcx ids v = some w ∧ r.eval P σ = some w := by
  induction h generalizing ρ σ ws with
  | @finish acc last =>
    obtain rfl : ρ = ρ' := by simpa [Hair.Expr.evalStmts] using hstmts
    rw [eval_finishBlock hacc]
    exact hlast ρ σ v henv hv
  | @expr e t stmts acc last r het _ ih =>
    rw [Hair.Expr.evalStmts] at hstmts
    obtain ⟨u, hu, hstmts⟩ := Option.bind_eq_some_iff.mp hstmts
    obtain ⟨w, -, ht⟩ := hR e t hok.1 het ρ σ u henv hu
    have hone : St.Expr.evalAll P σ [t] = some [w] := by
      rw [St.Expr.evalAll, ht, Option.bind_some, St.Expr.evalAll]
      rfl
    exact ih hok.2 hlast henv (evalAll_append hacc hone) hstmts
  | @letS p var x init t stmts acc last r hlet hx hinit _ ih =>
    rw [Hair.Expr.evalStmts] at hstmts
    obtain ⟨u, hu, hstmts⟩ := Option.bind_eq_some_iff.mp hstmts
    obtain ⟨w, hw, ht⟩ := hR init t hok.1 hinit ρ σ u henv hu
    rw [eval_finishBlock hacc, St.Expr.eval, ht, Option.bind_some]
    rcases hmatch : p.matchValue tcx u with _ | _ | bs
    · simp [hmatch] at hstmts
    · simp [hmatch] at hstmts
    simp only [hmatch] at hstmts
    split_ifs at hstmts
    obtain ⟨u', rfl, himg⟩ := hlet.match ids hmatch
    -- The body is evaluated where the variable has the image of the value.
    have hbound : Bound tcx ids ctx (σ.set x w) [(var, u')] := by
      refine List.forall_mem_cons.mpr ⟨⟨x, w, hx, himg.trans hw, ?_⟩, by simp⟩
      simp [Env.set]
    have hun : Unchanged ctx σ (σ.set x w) [var] none := by
      intro k hk _
      have hne : k ≠ x.id.globalId := fun heq => hk var (by simp) x hx heq.symm
      simp [Env.set, hne]
    exact ih hok.2 hlast (henv.bindAll hown hbound hun) (by rw [St.Expr.evalAll]) hstmts

/-! ## Matches -/

theorem guard_means {R : Hair.Expr → St.Expr → Prop} {guard : Option Hair.Expr}
    {g : Option St.Expr} (h : OptExtracts R guard g) (hok : PureOk.opt tcx guard)
    (hR : ∀ e t, PureOk tcx e → R e t → Means tcx ids ctx P e t)
    (henv : EnvImage tcx ids ctx ρ σ) {b : Bool}
    (hb : Hair.Expr.evalGuard tcx faithful ρ guard = some b) :
    St.Expr.evalGuard P σ g = some b := by
  cases h with
  | none =>
    rw [Hair.Expr.evalGuard] at hb
    rw [St.Expr.evalGuard, ← hb]
  | @some e t het =>
    rw [Hair.Expr.evalGuard] at hb
    obtain ⟨u, hu, hb⟩ := Option.bind_eq_some_iff.mp hb
    obtain ⟨w, hw, ht⟩ := hR e t hok het ρ σ u henv hu
    rw [St.Expr.evalGuard, ht, Option.bind_some]
    cases u with
    | bool b' =>
      obtain rfl : St.Value.boolean b' = w := Option.some.inj hw
      exact hb
    | _ => cases hb

/-- The same arm is taken, and its body has the image of the value. -/
theorem arms_mean {R : Hair.Expr → St.Expr → Prop} (hown : OwnIds ctx)
    (happart : ConstructorsApart tcx ids) {arms : List Hair.Arm} {cases' : List MatchCase}
    (h : List.Forall₂ (ArmExtracts (fun p q => PatExtracts tcx ids ctx p none q) R) arms cases')
    (hok : PureOk.arms tcx arms)
    (hR : ∀ e t, PureOk tcx e → R e t → Means tcx ids ctx P e t)
    (henv : EnvImage tcx ids ctx ρ σ) {v u : Hair.Value} {w : St.Value}
    (hw : valueImage tcx ids v = some w)
    (hu : Hair.Expr.evalArms tcx faithful ρ v arms = some u) :
    ∃ w', valueImage tcx ids u = some w' ∧ St.Expr.evalCases P σ w cases' = some w' := by
  induction h with
  | nil => simp [Hair.Expr.evalArms] at hu
  | @cons arm c arms cases' harm _ ih =>
    cases harm with
    | @mk pattern guard body p g b hp hg hb =>
      obtain ⟨hpat, hokGuard, hokBody, hokRest⟩ := hok
      have hmeans : PatMeans tcx ids ctx pattern none p v w :=
        hp.means hown happart hpat.ok hpat.vars (by simp) v w hw
      rw [Hair.Expr.evalArms] at hu
      rcases hmatch : pattern.matchValue tcx v with _ | _ | bs
      · simp [hmatch] at hu
      · -- The pattern does not match, and neither does its translation.
        simp only [hmatch] at hu
        obtain ⟨w', hw', hcases⟩ := ih hokRest hu
        refine ⟨w', hw', ?_⟩
        rw [St.Expr.evalCases, hmeans.no hmatch σ]
        exact hcases
      · simp only [hmatch] at hu
        split_ifs at hu with hfaith
        obtain ⟨σ', hbind, hbound, -, hun⟩ := hmeans.yes hfaith bs hmatch σ
        rw [← matchValue_keys pattern hmatch] at hun
        have henv' : EnvImage tcx ids ctx (ρ.bindAll bs) σ' := henv.bindAll hown hbound hun
        obtain ⟨taken, htaken, hu⟩ := Option.bind_eq_some_iff.mp hu
        have hguard := guard_means hg hokGuard hR henv' htaken
        rw [St.Expr.evalCases, hbind]
        simp only [hguard, Option.bind_some]
        cases taken with
        | true => exact hR body b hokBody hb _ _ u henv' hu
        | false => exact ih hokRest hu

/-- A block without anything in it has the value `()`. -/
theorem eval_emptyBlock {e : Hair.Expr} {ty : Ty} {safe : Bool}
    (h : stripScopes e = .block ty safe [] none) {v : Hair.Value}
    (hv : e.eval tcx faithful ρ = some v) : v = .tuple [] := by
  induction e using stripScopes.induct with
  | case1 ty' value ih =>
    rw [stripScopes] at h
    rw [Hair.Expr.eval] at hv
    exact ih h (Hair.checked_eq_some.mp hv).1
  | case2 e hne =>
    obtain rfl : e = .block ty safe [] none := by
      cases e with
      | scope ty' value => exact absurd rfl (hne ty' value)
      | _ => exact h
    rw [Hair.Expr.eval] at hv
    obtain ⟨hv, -⟩ := Hair.checked_eq_some.mp hv
    simpa [Hair.Expr.evalStmts, Hair.Expr.evalOpt, eq_comm] using hv

/--
What is taken for an `if`: a match on a boolean, where the first pattern is `true` and the second
body is a block. If the block is empty there is no `else`.
-/
theorem looksLikeIf_shape {scrutinee : Hair.Expr} {armTy armTy' : Ty} {konst : Const}
    {guard guard' : Option Hair.Expr} {thenn elze : Hair.Expr} {hasElze : Bool}
    (h : looksLikeIf scrutinee
      [.mk (.constant armTy konst) guard thenn, .mk (.wild armTy') guard' elze] =
        .ok (some hasElze)) :
    scrutinee.ty.isBool = true ∧ literalTryFrom konst = .ok (some (.boolean true)) ∧
      (hasElze = false → ∃ ty safe, stripScopes elze = .block ty safe [] none) := by
  simp only [looksLikeIf] at h
  by_cases hbool : scrutinee.ty.isBool
  swap
  · simp [hbool] at h
  rw [if_pos hbool] at h
  split at h
  · cases h
  · rename_i hlit
    refine ⟨hbool, hlit, ?_⟩
    rintro rfl
    split at h
    · rename_i ty safe stmts expr hstrip
      have hempty : (stmts.isEmpty && expr.isNone) = true := by simpa using h
      rw [Bool.and_eq_true, List.isEmpty_iff, Option.isNone_iff_eq_none] at hempty
      obtain ⟨rfl, rfl⟩ := hempty
      exact ⟨ty, safe, hstrip⟩
    · cases h
  · cases h

/-- A conditional does what the match does that it comes from. -/
theorem ifExpr_means {ty : Ty} {scrutinee : Hair.Expr} {armTy armTy' : Ty} {konst : Const}
    {guard guard' : Option Hair.Expr} {thenn elze : Hair.Expr} {hasElze : Bool} {cond t e : St.Expr}
    (hown : OwnIds ctx) (happart : ConstructorsApart tcx ids)
    (hif : looksLikeIf scrutinee
      [.mk (.constant armTy konst) guard thenn, .mk (.wild armTy') guard' elze] =
        .ok (some hasElze))
    (hok : PureOk tcx (.matchE ty scrutinee
      [.mk (.constant armTy konst) guard thenn, .mk (.wild armTy') guard' elze]))
    (hcond : Means tcx ids ctx P scrutinee cond) (ht : Means tcx ids ctx P thenn t)
    (he : Means tcx ids ctx P elze e) :
    Means tcx ids ctx P (.matchE ty scrutinee
      [.mk (.constant armTy konst) guard thenn, .mk (.wild armTy') guard' elze])
      (.ifExpr cond t e) := by
  obtain ⟨hbool, hlit, -⟩ := looksLikeIf_shape hif
  obtain ⟨hguards, hokScrutinee, hokArms⟩ := hok
  have hnone := hguards (by rw [guardsMet, hif])
  obtain rfl : guard = none := hnone _ List.mem_cons_self
  obtain rfl : guard' = none := hnone _ (List.mem_cons_of_mem _ List.mem_cons_self)
  intro ρ σ v henv hv
  rw [Hair.Expr.eval] at hv
  obtain ⟨hv, -⟩ := Hair.checked_eq_some.mp hv
  obtain ⟨u, hu, hv⟩ := Option.bind_eq_some_iff.mp hv
  obtain ⟨b, rfl⟩ := Hair.Value.fits_bool hbool (eval_fits hu)
  obtain ⟨w, hw, hc⟩ := hcond ρ σ _ henv hu
  obtain rfl : St.Value.boolean b = w := Option.some.inj hw
  rw [eval_ifExpr_eq_match fun w' hw' => ⟨b, Option.some.inj (hw'.symm.trans hc)⟩, St.Expr.eval, hc,
    Option.bind_some]
  -- The two cases are the translations of the two arms.
  refine arms_mean (R := fun e' t' => (e' = thenn ∧ t' = t) ∨ (e' = elze ∧ t' = e)) hown happart
    ?_ hokArms ?_ henv hw hv
  · refine .cons (.mk ?_ .none (.inl ⟨rfl, rfl⟩)) (.cons (.mk ?_ .none (.inr ⟨rfl, rfl⟩)) .nil)
    · exact .intro (.constant hlit)
    · exact .intro .wild
  · rintro e' t' - (⟨rfl, rfl⟩ | ⟨rfl, rfl⟩)
    · exact ht
    · exact he

end Environments

end Stainless
