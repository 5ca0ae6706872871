import RustStainless.Data.Running
import RustStainless.Rustc.Running
import RustStainless.Extraction.Meaning

/-!
# What a layer of an expression evaluates to

If the parts of an expression have the images of their values, and calls of functions the images of
their results, then the translation of the expression has the image of its value.
-/

namespace Stainless

open Rustc St Lib

/-! ## Evaluators -/

section Evaluators

variable (tcx : Tcx) (ids : Ids) (ctx : BodyCtxt) (P : Program)

/-- Wherever `ev` gives `e` a value, `t` has its image. -/
def MeansBy (ev : Hair.Task → Option Hair.Value) (e : Hair.Expr) (t : St.Expr) : Prop :=
  ∀ ρ σ v, EnvImage tcx ids ctx ρ σ → ev (ρ, e) = some v →
    ∃ w, valueImage tcx ids v = some w ∧ t.eval P σ = some w

/-- The values have the types of the expressions, and an empty block has the value `()`. -/
structure Evaluates (ev : Hair.Task → Option Hair.Value) : Prop where
  fits : ∀ ρ e v, ev (ρ, e) = some v → v.fits tcx e.ty = true
  emptyBlock : ∀ ρ e ty safe v, stripScopes e = .block ty safe [] none → ev (ρ, e) = some v →
    v = .tuple []

/-- Functions that have ids are called with the images of the arguments, and return the image of the
result. What is taken for a standard item or for `Box::new` is not called. -/
structure CallsMean (call : Ty → List Hair.Value → Option Hair.Value) : Prop where
  standard : ∀ did substs vs, tcx.stdItems.defToItemOpt did ≠ none →
    call (.fnDef did substs) vs = none
  boxNew : ∀ did substs vs fdId, ids did = some fdId → fdId.symbolPath = boxNewPath →
    call (.fnDef did substs) vs = none
  called : ∀ did substs vs v, call (.fnDef did substs) vs = some v → ∀ fdId tps ws,
    ids did = some fdId → valueImages tcx ids vs = some ws →
    ∃ w, valueImage tcx ids v = some w ∧ P.call fdId tps ws = some w

/-- A value of a type and its image, which `t` has. -/
structure Valued (σ : St.Env) (ty : Ty) (t : St.Expr) (v : Hair.Value) (w : St.Value) : Prop where
  fits : v.fits tcx ty = true
  image : valueImage tcx ids v = some w
  eval : t.eval P σ = some w

/--
What is needed of a node besides its parts: a match has proper patterns, and no guards if it is
taken for an `if`; a field belongs to an ADT of which the program has the constructors.
-/
def NodeOk : Hair.Expr → Prop
  | .matchE _ scrutinee arms =>
    (guardsMet scrutinee arms = false → ∀ arm ∈ arms, arm.guard = none) ∧
      ∀ arm ∈ arms, PurePat tcx arm.pattern
  | .field _ lhs _ => ∀ did substs, lhs.ty = .adt did substs →
    ∀ sort, adtIds tcx ids did = some sort → ∀ c ∈ sort,
      P.fields c.id.globalId = some (c.fields.map (·.globalId))
  | _ => True

end Evaluators

section Layer

variable {tcx : Tcx} {ids : Ids} {ctx : BodyCtxt} {P : Program} {ρ ρ' : Hair.Env} {σ : St.Env}
  {ev : Hair.Task → Option Hair.Value} {call : Ty → List Hair.Value → Option Hair.Value}

/-! ## Lists and blocks -/

theorem evalEach_means {es : List Hair.Expr} {ts : List St.Expr}
    (h : List.Forall₂ (MeansBy tcx ids ctx P ev) es ts) (henv : EnvImage tcx ids ctx ρ σ)
    {vs : List Hair.Value} (hvs : Hair.evalEach ev ρ es = some vs) :
    ∃ ws, valueImages tcx ids vs = some ws ∧ St.Expr.evalAll P σ ts = some ws := by
  have hforall : List.Forall₂ (fun e v => ev (ρ, e) = some v) es vs := forall₂_of_mapM hvs
  clear hvs
  induction h generalizing vs with
  | nil =>
    cases hforall
    exact ⟨[], by rw [valueImages], by rw [St.Expr.evalAll]⟩
  | cons het _ ih =>
    cases hforall with
    | cons hv hforall =>
      obtain ⟨w, hw, ht⟩ := het ρ σ _ henv hv
      obtain ⟨ws, hws, hts⟩ := ih hforall
      refine ⟨w :: ws, ?_, ?_⟩
      · rw [valueImages, hw, Option.bind_some, hws]
        rfl
      · rw [St.Expr.evalAll, ht, Option.bind_some, hts]
        rfl

/-- The values of the initializers, in the order of the fields. -/
theorem evalInits_sorted {fields : List (Nat × Hair.Expr)} {vals : List (Nat × Hair.Value)}
    {n : Nat} {vs : List Hair.Value} (h : Hair.evalInits ev ρ fields = some vals)
    (hvs : Hair.fieldValues n vals = some vs) :
    Hair.evalEach ev ρ ((sortByIndex fields).map Prod.snd) = some vs := by
  obtain ⟨zs, rfl, rfl, hzs⟩ : ∃ zs : List (Nat × (Hair.Expr × Hair.Value)),
      fields = zs.map (fun z => (z.1, z.2.1)) ∧ vals = zs.map (fun z => (z.1, z.2.2)) ∧
      ∀ z ∈ zs, ev (ρ, z.2.1) = some z.2.2 := by
    have hforall := forall₂_of_mapM h
    clear h hvs
    induction hforall with
    | nil => exact ⟨[], rfl, rfl, by simp⟩
    | @cons f val _ _ hval _ ih =>
      obtain ⟨v, hv, rfl⟩ := Option.map_eq_some_iff.mp hval
      obtain ⟨zs, rfl, rfl, hzs⟩ := ih
      exact ⟨(f.1, f.2, v) :: zs, rfl, rfl, List.forall_mem_cons.mpr ⟨hv, hzs⟩⟩
  rw [← fieldValues_eq_some hvs, sortByIndex_map (fun z : Hair.Expr × Hair.Value => z.1) zs,
    sortByIndex_map (fun z : Hair.Expr × Hair.Value => z.2) zs, List.map_map, List.map_map]
  have hsorted : ∀ z ∈ sortByIndex zs, ev (ρ, z.2.1) = some z.2.2 :=
    fun z hz => hzs z (mem_sortByIndex.mp hz)
  generalize sortByIndex zs = ys at hsorted
  induction ys with
  | nil => rfl
  | cons y ys ih =>
    obtain ⟨hy, hys⟩ := List.forall_mem_cons.mp hsorted
    rw [List.map_cons, List.map_cons, Hair.evalEach, List.mapM_cons]
    show (ev (ρ, y.2.1)).bind _ = _
    rw [hy, Option.bind_some]
    show (Hair.evalEach ev ρ _).bind _ = _
    rw [ih hys]
    rfl

/-- What is left of a block, where the expressions so far have values. -/
theorem StmtsExtract.meansBy (hown : OwnIds ctx) {stmts : List Hair.Stmt} {acc : List St.Expr}
    {last r : St.Expr} (h : StmtsExtract ctx.vars.get? (MeansBy tcx ids ctx P ev) stmts acc last r)
    {expr : Option Hair.Expr}
    (hlast : ∀ ρ σ v, EnvImage tcx ids ctx ρ σ → Hair.evalLast ev ρ expr = some v →
      ∃ w, valueImage tcx ids v = some w ∧ last.eval P σ = some w) {v : Hair.Value}
    (henv : EnvImage tcx ids ctx ρ σ) {ws : List St.Value}
    (hacc : St.Expr.evalAll P σ acc = some ws)
    (hstmts : Hair.runStmts tcx faithful ev ρ stmts = some ρ')
    (hv : Hair.evalLast ev ρ' expr = some v) :
    ∃ w, valueImage tcx ids v = some w ∧ r.eval P σ = some w := by
  induction h generalizing ρ σ ws with
  | @finish acc last =>
    obtain rfl := Option.some.inj hstmts
    rw [eval_finishBlock hacc]
    exact hlast ρ σ v henv hv
  | @expr e t stmts acc last r het _ ih =>
    obtain ⟨u, hu, hstmts⟩ := Option.bind_eq_some_iff.mp hstmts
    obtain ⟨w, -, ht⟩ := het ρ σ u henv hu
    have hone : St.Expr.evalAll P σ [t] = some [w] := by
      rw [St.Expr.evalAll, ht, Option.bind_some, St.Expr.evalAll]
      rfl
    exact ih hlast henv (evalAll_append hacc hone) hstmts
  | @letS p var x init t stmts acc last r hlet hx hinit _ ih =>
    obtain ⟨u, hu, hstmts⟩ := Option.bind_eq_some_iff.mp hstmts
    obtain ⟨w, hw, ht⟩ := hinit ρ σ u henv hu
    rw [eval_finishBlock hacc, St.Expr.eval, ht, Option.bind_some]
    rcases hmatch : p.matchValue tcx u with _ | _ | bs
    · simp [hmatch] at hstmts
    · simp [hmatch] at hstmts
    simp only [hmatch] at hstmts
    split_ifs at hstmts
    obtain ⟨u', rfl, himg⟩ := hlet.match ids hmatch
    -- The body is evaluated where the variable has the image of the value.
    have hbound : Bound tcx ids ctx (σ.set x w) [(var, u')] := by
      refine List.forall_mem_cons.mpr ⟨⟨x, w, hx, himg.trans hw, ?_⟩, by simp⟩
      simp [Env.set]
    have hun : Unchanged ctx σ (σ.set x w) [var] none := by
      intro k hk _
      have hne : k ≠ x.id.globalId := fun heq => hk var (by simp) x hx heq.symm
      simp [Env.set, hne]
    exact ih hlast (henv.bindAll hown hbound hun) (by rw [St.Expr.evalAll]) hstmts

/-! ## Matches -/

theorem runGuard_means {guard : Option Hair.Expr} {g : Option St.Expr}
    (h : OptExtracts (MeansBy tcx ids ctx P ev) guard g) (henv : EnvImage tcx ids ctx ρ σ)
    {b : Bool}
    (hb : Hair.runGuard ev ρ guard = some b) : St.Expr.evalGuard P σ g = some b := by
  cases h with
  | none =>
    rw [St.Expr.evalGuard]
    exact hb
  | @some e t het =>
    obtain ⟨u, hu, hb⟩ := Option.bind_eq_some_iff.mp hb
    obtain ⟨w, hw, ht⟩ := het ρ σ u henv hu
    rw [St.Expr.evalGuard, ht, Option.bind_some]
    cases u with
    | bool b' =>
      obtain rfl : St.Value.boolean b' = w := Option.some.inj hw
      exact hb
    | _ => cases hb

/-- The same arm is taken, and its body has the image of the value. -/
theorem runArms_mean (hown : OwnIds ctx) (happart : ConstructorsApart tcx ids)
    {arms : List Hair.Arm} {cases' : List MatchCase}
    (h : List.Forall₂ (ArmExtracts (fun p q => PatExtracts tcx ids ctx p none q)
      (MeansBy tcx ids ctx P ev)) arms cases')
    (hok : ∀ arm ∈ arms, PurePat tcx arm.pattern) (henv : EnvImage tcx ids ctx ρ σ)
    {v u : Hair.Value} {w : St.Value} (hw : valueImage tcx ids v = some w)
    (hu : Hair.runArms tcx faithful ev ρ v arms = some u) :
    ∃ w', valueImage tcx ids u = some w' ∧ St.Expr.evalCases P σ w cases' = some w' := by
  induction h with
  | nil => cases hu
  | @cons arm c arms cases' harm _ ih =>
    obtain ⟨hpat, hrest⟩ := List.forall_mem_cons.mp hok
    cases harm with
    | @mk pattern guard body p g b hp hg hb =>
      have hmeans : PatMeans tcx ids ctx pattern none p v w :=
        hp.means hown happart hpat.ok hpat.vars (by simp) v w hw
      rw [Hair.runArms] at hu
      rcases hmatch : pattern.matchValue tcx v with _ | _ | bs
      · simp [hmatch] at hu
      · -- The pattern does not match, and neither does its translation.
        simp only [hmatch] at hu
        obtain ⟨w', hw', hcases⟩ := ih hrest hu
        refine ⟨w', hw', ?_⟩
        rw [St.Expr.evalCases, hmeans.no hmatch σ]
        exact hcases
      · simp only [hmatch] at hu
        split_ifs at hu with hfaith
        obtain ⟨σ', hbind, hbound, -, hun⟩ := hmeans.yes hfaith bs hmatch σ
        rw [← matchValue_keys pattern hmatch] at hun
        have henv' : EnvImage tcx ids ctx (ρ.bindAll bs) σ' := henv.bindAll hown hbound hun
        obtain ⟨taken, htaken, hu⟩ := Option.bind_eq_some_iff.mp hu
        have hguard := runGuard_means hg henv' htaken
        rw [St.Expr.evalCases, hbind]
        simp only [hguard, Option.bind_some]
        cases taken with
        | true => exact hb _ _ u henv' hu
        | false => exact ih hrest hu

/-! ## Operators -/

section Operators

variable {ty : Ty} {e lhs rhs : Hair.Expr} {t a b : St.Expr} {u u' v : Hair.Value}
  {w w' : St.Value}

theorem MeansBy.valued (h : MeansBy tcx ids ctx P ev e t) (hev : Evaluates tcx ev)
    (henv : EnvImage tcx ids ctx ρ σ) (hv : ev (ρ, e) = some v) :
    ∃ w, Valued tcx ids P σ e.ty t v w := by
  obtain ⟨w, hw, ht⟩ := h ρ σ v henv hv
  exact ⟨w, hev.fits ρ e v hv, hw, ht⟩

theorem Valued.bvNot (h : Valued tcx ids P σ ty t u w) (hty : isBvType ty)
    (hv : Hair.evalUnary .not u = some v) :
    ∃ w', valueImage tcx ids v = some w' ∧ (St.Expr.unary .bvNot t).eval P σ = some w' := by
  obtain ⟨s, n, x, rfl, -, -⟩ := Hair.Value.fits_bv hty h.fits
  obtain rfl := Option.some.inj h.image
  have himg := evalUnary_bvNot tcx ids hv
  obtain rfl := Option.some.inj hv
  refine ⟨_, rfl, ?_⟩
  rw [St.Expr.eval, h.eval, Option.bind_some, himg]
  rfl

theorem Valued.boolNot (h : Valued tcx ids P σ ty t u w) (hty : ty.isBool)
    (hv : Hair.evalUnary .not u = some v) :
    ∃ w', valueImage tcx ids v = some w' ∧ (St.Expr.unary .not t).eval P σ = some w' := by
  obtain ⟨b, rfl⟩ := Hair.Value.fits_bool hty h.fits
  obtain rfl := Option.some.inj h.image
  obtain rfl := Option.some.inj hv
  refine ⟨_, rfl, ?_⟩
  rw [St.Expr.eval, h.eval, Option.bind_some, evalUnary]

theorem Valued.neg {ty' : Ty} (h : Valued tcx ids P σ ty t u w)
    (hv : Hair.evalUnary .neg u = some v) (hfits : v.fits tcx ty' = true) :
    ∃ w', valueImage tcx ids v = some w' ∧ (St.Expr.unary .uMinus t).eval P σ = some w' := by
  cases u with
  | int s n x =>
    obtain rfl := Option.some.inj h.image
    have himg := evalUnary_uMinus ids hv hfits
    obtain rfl := Option.some.inj hv
    refine ⟨_, rfl, ?_⟩
    rw [St.Expr.eval, h.eval, Option.bind_some, himg]
    rfl
  | _ => cases hv

/-- The operands of a binary operator have values, in this order. -/
theorem operands_valued {op : Hair.BinOp} (hev : Evaluates tcx ev)
    (ha : MeansBy tcx ids ctx P ev lhs a) (hb : MeansBy tcx ids ctx P ev rhs b)
    (henv : EnvImage tcx ids ctx ρ σ)
    (hv : (Hair.Expr.binary ty op lhs rhs).layer tcx faithful ev call ρ = some v) :
    ∃ u u' w w', Hair.evalBinary op u u' = some v ∧ Valued tcx ids P σ lhs.ty a u w ∧
      Valued tcx ids P σ rhs.ty b u' w' := by
  obtain ⟨u, hu, hv⟩ := Option.bind_eq_some_iff.mp hv
  obtain ⟨u', hu', hv⟩ := Option.bind_eq_some_iff.mp hv
  obtain ⟨w, hw⟩ := ha.valued hev henv hu
  obtain ⟨w', hw'⟩ := hb.valued hev henv hu'
  exact ⟨u, u', w, w', hv, hw, hw'⟩

theorem Valued.eq {ty' : Ty} (ha : Valued tcx ids P σ ty a u w)
    (hb : Valued tcx ids P σ ty' b u' w')
    (hv : Hair.evalBinary .eq u u' = some v) :
    ∃ w, valueImage tcx ids v = some w ∧ (St.Expr.binary .equals a b).eval P σ = some w := by
  obtain rfl := evalEq_image hv ha.image hb.image
  exact ⟨_, rfl, eval_equals ha.eval hb.eval⟩

theorem Valued.ne {ty' : Ty} (ha : Valued tcx ids P σ ty a u w)
    (hb : Valued tcx ids P σ ty' b u' w')
    (hv : Hair.evalBinary .ne u u' = some v) :
    ∃ w, valueImage tcx ids v = some w ∧
      (St.Expr.unary .not (.binary .equals a b)).eval P σ = some w := by
  obtain ⟨c, heq, rfl⟩ := evalNe_eq hv
  obtain rfl := Hair.Value.bool.inj (evalEq_image heq ha.image hb.image)
  refine ⟨_, rfl, ?_⟩
  rw [St.Expr.eval, eval_equals ha.eval hb.eval, Option.bind_some, evalUnary]

theorem Valued.bvOp {ty' ty'' : Ty} {op : Hair.BinOp} {operator : BinaryOperator}
    (ha : Valued tcx ids P σ ty a u w) (hb : Valued tcx ids P σ ty' b u' w') (hty : isBvType ty)
    (hty' : isBvType ty') (hop : bvOperator op = some operator)
    (hv : Hair.evalBinary op u u' = some v) (hfits : v.fits tcx ty'' = true) :
    ∃ w, valueImage tcx ids v = some w ∧ (St.Expr.binary operator a b).eval P σ = some w := by
  obtain ⟨s, n, x, rfl, -, -⟩ := Hair.Value.fits_bv hty ha.fits
  obtain ⟨s', n', y, rfl, -, -⟩ := Hair.Value.fits_bv hty' hb.fits
  obtain rfl := Option.some.inj ha.image
  obtain rfl := Option.some.inj hb.image
  obtain ⟨w, hw, heval⟩ := evalBinary_bvOperator ids hop hv hfits
  refine ⟨w, hw, ?_⟩
  rw [St.Expr.eval, ha.eval, Option.bind_some, hb.eval, Option.bind_some, heval]

/-- The right operand is widened first. -/
theorem Valued.shift {ty' ty'' : Ty} {op : Hair.BinOp} {operator : BinaryOperator} {b' : St.Expr}
    (ha : Valued tcx ids P σ ty a u w) (hb : Valued tcx ids P σ ty' b u' w') (hty : isBvType ty)
    (hty' : isBvType ty') (hop : shiftOperator ty op = some operator)
    (hwiden : widenShiftArg ty ty' b = .ok b') (hv : Hair.evalBinary op u u' = some v)
    (hfits : v.fits tcx ty'' = true) :
    ∃ w, valueImage tcx ids v = some w ∧ (St.Expr.binary operator a b').eval P σ = some w := by
  obtain ⟨s, n, x, rfl, hint, hx⟩ := Hair.Value.fits_bv hty ha.fits
  obtain ⟨s', n', y, rfl, hint', -⟩ := Hair.Value.fits_bv hty' hb.fits
  obtain rfl := Option.some.inj ha.image
  obtain rfl := Option.some.inj hb.image
  have harg := widenShiftArg_eval hwiden hint hint' hb.eval
  obtain ⟨w, hw, heval⟩ := evalBinary_shiftOperator ids hop hv hint hx hfits
  refine ⟨w, hw, ?_⟩
  rw [St.Expr.eval, ha.eval, Option.bind_some, harg, Option.bind_some, heval]

/--
The left operand of `&&` and `||` is a boolean, and the right one is evaluated if it has to be.
-/
theorem logicalOp_valued {op : Hair.LogicalOp} (hev : Evaluates tcx ev)
    (ha : MeansBy tcx ids ctx P ev lhs a) (hb : MeansBy tcx ids ctx P ev rhs b)
    (hty : lhs.ty.isBool)
    (hty' : rhs.ty.isBool) (henv : EnvImage tcx ids ctx ρ σ)
    (hv : (Hair.Expr.logicalOp ty op lhs rhs).layer tcx faithful ev call ρ = some v) :
    ∃ c d, a.eval P σ = some (.boolean c) ∧ v = .bool d ∧
      if c = decide (op = .and) then b.eval P σ = some (.boolean d) else d = c := by
  have hleft : ∃ c, ev (ρ, lhs) = some (.bool c) ∧
      if c = decide (op = .and) then ev (ρ, rhs) = some v else v = .bool c := by
    cases op <;>
    · obtain ⟨c, hc, hv⟩ := Option.bind_eq_some_iff.mp hv
      obtain ⟨u, hu, hc⟩ := Option.bind_eq_some_iff.mp hc
      obtain ⟨c', rfl⟩ := Hair.Value.fits_bool hty (hev.fits _ _ _ hu)
      obtain rfl : c' = c := Option.some.inj hc
      refine ⟨c', hu, ?_⟩
      cases c' <;> simpa [eq_comm] using hv
  obtain ⟨c, hc, hv⟩ := hleft
  obtain ⟨w, hw⟩ := ha.valued hev henv hc
  obtain rfl := Option.some.inj hw.image
  by_cases hright : c = decide (op = .and)
  · rw [if_pos hright] at hv
    obtain ⟨d, rfl⟩ := Hair.Value.fits_bool hty' (hev.fits _ _ _ hv)
    obtain ⟨w', hw'⟩ := hb.valued hev henv hv
    obtain rfl := Option.some.inj hw'.image
    exact ⟨c, d, hw.eval, rfl, by rw [if_pos hright, hw'.eval]⟩
  · rw [if_neg hright] at hv
    exact ⟨c, c, hw.eval, hv, by rw [if_neg hright]⟩

end Operators

/-! ## Tuples, ADTs and fields -/

section Compounds

variable {ty : Ty} {e : Hair.Expr} {t : St.Expr} {v : Hair.Value}

theorem tuple_valued {es : List Hair.Expr} {ts : List St.Expr} (hlen : 2 ≤ es.length)
    (h : List.Forall₂ (MeansBy tcx ids ctx P ev) es ts) (henv : EnvImage tcx ids ctx ρ σ)
    (hv : (Hair.Expr.tuple ty es).layer tcx faithful ev call ρ = some v) :
    ∃ w, valueImage tcx ids v = some w ∧ (St.Expr.tuple ts).eval P σ = some w := by
  obtain ⟨vs, hvs, rfl⟩ := Option.map_eq_some_iff.mp hv
  obtain ⟨ws, hws, heval⟩ := evalEach_means h henv hvs
  -- There are at least two members, so this is no unit value.
  have htuple : tupleValue ws = .tuple ws := by
    cases ws with
    | nil =>
      have := evalAll_length heval
      have := h.length_eq
      simp only [List.length_nil] at *
      omega
    | cons w ws => rfl
  refine ⟨.tuple ws, by rw [valueImage, hws, Option.map_some, htuple], ?_⟩
  rw [St.Expr.eval, heval]
  rfl

theorem adt_valued {did : DefId} {variantIndex : Nat} {substs : List Ty}
    {fields : List (Nat × Hair.Expr)} {sort : List ConstructorIds} {constructor : ConstructorIds}
    {argTps : List Tpe} {ts : List St.Expr} (hsort : adtIds tcx ids did = some sort)
    (hcons : sort[variantIndex]? = some constructor)
    (h : List.Forall₂ (MeansBy tcx ids ctx P ev) ((sortByIndex fields).map Prod.snd) ts)
    (henv : EnvImage tcx ids ctx ρ σ)
    (hv : (Hair.Expr.adt ty did variantIndex substs fields false).layer tcx faithful ev call ρ =
      some v) :
    ∃ w, valueImage tcx ids v = some w ∧
      (St.Expr.adt constructor.id argTps ts).eval P σ = some w := by
  rw [Hair.Expr.layer, if_neg (by simp)] at hv
  obtain ⟨vals, hvals, hv⟩ := Option.bind_eq_some_iff.mp hv
  obtain ⟨n, -, hv⟩ := Option.bind_eq_some_iff.mp hv
  obtain ⟨vs, hvs, rfl⟩ := Option.map_eq_some_iff.mp hv
  obtain ⟨ws, hws, heval⟩ := evalEach_means h henv (evalInits_sorted hvals hvs)
  refine ⟨.adt constructor.id.globalId ws, ?_, ?_⟩
  · rw [valueImage, constructorGlobalId, hsort, hws]
    simp [hcons]
  · rw [St.Expr.eval, heval]
    rfl

/-- The selector of a field finds it among the fields of its constructor. -/
theorem evalSelector_own {constructor : ConstructorIds} {name : Nat} {fieldId : SymbolIdentifier}
    (hP : P.fields constructor.id.globalId = some (constructor.fields.map (·.globalId)))
    (hnodup : (constructor.fields.map (·.globalId)).Nodup)
    (hfield : constructor.fields[name]? = some fieldId) (ws : List St.Value) :
    evalSelector P fieldId (.adt constructor.id.globalId ws) = ws[name]? := by
  obtain ⟨hlt, hget⟩ := List.getElem?_eq_some_iff.mp hfield
  have hkeyLt : name < (constructor.fields.map (·.globalId)).length := by simpa using hlt
  have hkey : fieldId.globalId = (constructor.fields.map (·.globalId))[name] := by simp [hget]
  rw [evalSelector, hP, Option.bind_some, hkey, hnodup.idxOf_getElem name hkeyLt]

/-- The field of a struct has the image of its value. -/
theorem Valued.adtField {name : Nat} {did : DefId} {substs : List Ty} {constructor : ConstructorIds}
    {fieldId : SymbolIdentifier} {u : Hair.Value} {w : St.Value}
    (hnode : NodeOk tcx ids P (.field ty e name)) (hfields : FieldsApart tcx ids)
    (h : Valued tcx ids P σ e.ty t u w) (hty : e.ty = .adt did substs)
    (hsort : adtIds tcx ids did = some [constructor])
    (hfield : constructor.fields[name]? = some fieldId) (hv : u.field name = some v) :
    ∃ w', valueImage tcx ids v = some w' ∧ (St.Expr.adtSelector t fieldId).eval P σ = some w' := by
  have hfits : u.fits tcx (.adt did substs) = true := hty ▸ h.fits
  obtain ⟨vs, rfl, hv⟩ : ∃ vs, u = .adt did 0 vs ∧ vs[name]? = some v := by
    cases u with
    | adt did' i vs =>
      simp only [Hair.Value.fits, Bool.and_eq_true, decide_eq_true_eq] at hfits
      obtain rfl : did' = did := hfits.1.1
      cases i with
      | zero => exact ⟨vs, rfl, hv⟩
      | succ i => cases hv
    | tuple vs => simp [Hair.Value.fits] at hfits
    | _ => cases hv
  obtain ⟨ws, hws, rfl⟩ : ∃ ws, valueImages tcx ids vs = some ws ∧
      w = .adt constructor.id.globalId ws := by
    have himg := h.image
    rw [valueImage, constructorGlobalId, hsort] at himg
    obtain ⟨ws, hws, rfl⟩ := Option.map_eq_some_iff.mp himg
    exact ⟨ws, hws, rfl⟩
  have himgs := valueImages_eq_some.mp hws
  obtain ⟨hlt, -⟩ := List.getElem?_eq_some_iff.mp hv
  have hlt' : name < ws.length := himgs.length_eq ▸ hlt
  have hw : ws[name]? = some ws[name] := List.getElem?_eq_getElem hlt'
  obtain ⟨v', hv', himg⟩ := forall₂_getElem? himgs hw
  obtain rfl := Option.some.inj (hv.symm.trans hv')
  have hP := hnode did substs hty _ hsort constructor List.mem_cons_self
  have hnodup := hfields did _ hsort constructor List.mem_cons_self
  refine ⟨_, himg, ?_⟩
  rw [St.Expr.eval, h.eval, Option.bind_some, evalSelector_own hP hnodup hfield, hw]

end Compounds

/-! ## Conditionals -/

/-- A conditional does what the match does that it comes from. -/
theorem ifExpr_valued {ty : Ty} {scrutinee : Hair.Expr} {armTy armTy' : Ty} {konst : Const}
    {guard guard' : Option Hair.Expr} {thenn elze : Hair.Expr} {hasElze : Bool} {cond t e : St.Expr}
    (hev : Evaluates tcx ev) (hown : OwnIds ctx) (happart : ConstructorsApart tcx ids)
    (hif : looksLikeIf scrutinee
      [.mk (.constant armTy konst) guard thenn, .mk (.wild armTy') guard' elze] =
        .ok (some hasElze))
    (hnode : NodeOk tcx ids P (.matchE ty scrutinee
      [.mk (.constant armTy konst) guard thenn, .mk (.wild armTy') guard' elze]))
    (hcond : MeansBy tcx ids ctx P ev scrutinee cond) (ht : MeansBy tcx ids ctx P ev thenn t)
    (he : MeansBy tcx ids ctx P ev elze e) (henv : EnvImage tcx ids ctx ρ σ) {v : Hair.Value}
    (hv : (Hair.Expr.matchE ty scrutinee
      [.mk (.constant armTy konst) guard thenn, .mk (.wild armTy') guard' elze]).layer tcx faithful
        ev call ρ = some v) :
    ∃ w, valueImage tcx ids v = some w ∧ (St.Expr.ifExpr cond t e).eval P σ = some w := by
  obtain ⟨hbool, hlit, -⟩ := looksLikeIf_shape hif
  obtain ⟨hguards, hpats⟩ := hnode
  have hnone := hguards (by rw [guardsMet, hif])
  obtain rfl : guard = none := hnone _ List.mem_cons_self
  obtain rfl : guard' = none := hnone _ (List.mem_cons_of_mem _ List.mem_cons_self)
  obtain ⟨u, hu, hv⟩ := Option.bind_eq_some_iff.mp hv
  obtain ⟨b, rfl⟩ := Hair.Value.fits_bool hbool (hev.fits _ _ _ hu)
  obtain ⟨w, hw, hc⟩ := hcond ρ σ _ henv hu
  obtain rfl : St.Value.boolean b = w := Option.some.inj hw
  rw [eval_ifExpr_eq_match fun w' hw' => ⟨b, Option.some.inj (hw'.symm.trans hc)⟩, St.Expr.eval, hc,
    Option.bind_some]
  -- The two cases are the translations of the two arms.
  refine runArms_mean hown happart ?_ hpats henv hw hv
  exact .cons (.mk (.intro (.constant hlit)) .none ht) (.cons (.mk (.intro .wild) .none he) .nil)

/-! ## All rules -/

/-- **A layer keeps the meaning.** -/
theorem ExprRule.meansBy (hev : Evaluates tcx ev) (hown : OwnIds ctx) (hpaths : PathIds tcx ids)
    (happart : ConstructorsApart tcx ids) (hfields : FieldsApart tcx ids)
    (hcall : CallsMean tcx ids P call) {e : Hair.Expr} {t : St.Expr}
    (hrule : ExprRule tcx ids ctx (MeansBy tcx ids ctx P ev) e t) (hnode : NodeOk tcx ids P e)
    (henv : EnvImage tcx ids ctx ρ σ) {v : Hair.Value} (hfits : v.fits tcx e.ty = true)
    (hv : e.layer tcx faithful ev call ρ = some v) :
    ∃ w, valueImage tcx ids v = some w ∧ t.eval P σ = some w := by
  cases hrule with
  | @literal ty konst lit hlit =>
    simp only [Hair.Expr.layer] at hv
    split_ifs at hv with hfaith
    obtain ⟨w, hw, hvalue⟩ := literalTryFrom_image tcx ids hlit hv hfaith
    exact ⟨w, hw, by rw [St.Expr.eval, hvalue]⟩
  | bvNot ha hty =>
    obtain ⟨u, hu, hv⟩ := Option.bind_eq_some_iff.mp hv
    obtain ⟨w, hw⟩ := ha.valued hev henv hu
    exact hw.bvNot hty hv
  | boolNot ha hty =>
    obtain ⟨u, hu, hv⟩ := Option.bind_eq_some_iff.mp hv
    obtain ⟨w, hw⟩ := ha.valued hev henv hu
    exact hw.boolNot hty hv
  | neg ha _ =>
    obtain ⟨u, hu, hv⟩ := Option.bind_eq_some_iff.mp hv
    obtain ⟨w, hw⟩ := ha.valued hev henv hu
    exact hw.neg hv hfits
  | eq ha hb _ =>
    obtain ⟨u, u', w, w', hv, hw, hw'⟩ := operands_valued hev ha hb henv hv
    exact hw.eq hw' hv
  | ne ha hb _ =>
    obtain ⟨u, u', w, w', hv, hw, hw'⟩ := operands_valued hev ha hb henv hv
    exact hw.ne hw' hv
  | bvOp ha hb hty hty' hop =>
    obtain ⟨u, u', w, w', hv, hw, hw'⟩ := operands_valued hev ha hb henv hv
    exact hw.bvOp hw' hty hty' hop hv hfits
  | shift ha hb hty hty' hop hwiden =>
    obtain ⟨u, u', w, w', hv, hw, hw'⟩ := operands_valued hev ha hb henv hv
    exact hw.shift hw' hty hty' hop hwiden hv hfits
  | and ha hb hty hty' =>
    obtain ⟨c, d, hc, rfl, hd⟩ := logicalOp_valued hev ha hb hty hty' henv hv
    refine ⟨_, rfl, ?_⟩
    cases c <;> cases d <;> simp_all [St.Expr.eval, St.Expr.evalAnd, Value.truth]
  | or ha hb hty hty' =>
    obtain ⟨c, d, hc, rfl, hd⟩ := logicalOp_valued hev ha hb hty hty' henv hv
    refine ⟨_, rfl, ?_⟩
    cases c <;> cases d <;> simp_all [St.Expr.eval, St.Expr.evalOr, Value.truth]
  | unit =>
    obtain rfl := Option.some.inj hv
    exact ⟨.unit, rfl, by rw [St.Expr.eval, Literal.value]⟩
  | tuple hlen hts => exact tuple_valued hlen hts henv hv
  | tupleField ha hty =>
    obtain ⟨u, hu, hv⟩ := Option.bind_eq_some_iff.mp hv
    obtain ⟨w, hw⟩ := ha.valued hev henv hu
    obtain ⟨w', hw', hsel⟩ := evalTupleSelect_image (hty ▸ hw.fits) hv hw.image
    exact ⟨w', hw', by rw [St.Expr.eval, hw.eval, Option.bind_some, hsel]⟩
  | adtField ha hty hsort hfield =>
    obtain ⟨u, hu, hv⟩ := Option.bind_eq_some_iff.mp hv
    obtain ⟨w, hw⟩ := ha.valued hev henv hu
    exact hw.adtField hnode hfields hty hsort hfield hv
  | @varRef ty id x hx =>
    obtain ⟨w, hw, hσ⟩ := henv id x v hx hv
    exact ⟨w, hw, by rw [St.Expr.eval, hσ]⟩
  | panic hitem _ | setCreation hitem _ _ | setOp hitem _ _ _ _ =>
    -- A standard item has no value, and is not `Box::new`.
    obtain ⟨vs, -, hv⟩ := Option.bind_eq_some_iff.mp hv
    split_ifs at hv with hbox
    · obtain ⟨-, hnone⟩ := isBoxNew_fnDef hbox
      simp [hnone] at hitem
    · rw [hcall.standard _ _ _ fun hnone => by simp [hnone] at hitem] at hv
      cases hv
  | @boxNew ty did substs arg args a fdId _ hid hpath ha =>
    obtain ⟨vs, hvs, hv⟩ := Option.bind_eq_some_iff.mp hv
    split_ifs at hv with hbox
    · -- The value is that of the first argument.
      have hforall : List.Forall₂ (fun e v => ev (ρ, e) = some v) (arg :: args) vs :=
        forall₂_of_mapM hvs
      cases hforall with
      | cons hu _ =>
        obtain rfl := Option.some.inj hv
        obtain ⟨w, hw, ht⟩ := ha ρ σ _ henv hu
        exact ⟨w, hw, ht⟩
    · rw [hcall.boxNew did substs vs fdId hid hpath] at hv
      cases hv
  | @call ty did substs args fdId argTps ts _ hid hpath _ hts =>
    obtain ⟨vs, hvs, hv⟩ := Option.bind_eq_some_iff.mp hv
    split_ifs at hv with hbox
    · exact absurd (boxNew_path hpaths (isBoxNew_fnDef hbox).1 hid) hpath
    · obtain ⟨ws, hws, heval⟩ := evalEach_means hts henv hvs
      obtain ⟨w, hw, hres⟩ := hcall.called did substs vs v hv fdId argTps ws hid hws
      exact ⟨w, hw, by rw [St.Expr.eval, heval, Option.bind_some, hres]⟩
  | adt hsort hcons _ hts => exact adt_valued hsort hcons hts henv hv
  | block hlast hstmts =>
    obtain ⟨ρ', hρ', hv⟩ := Option.bind_eq_some_iff.mp hv
    refine hstmts.meansBy hown (fun ρ σ v henv hv => ?_) henv (by rw [St.Expr.evalAll]) hρ' hv
    cases hlast with
    | none =>
      obtain rfl := Option.some.inj hv
      exact ⟨.unit, rfl, by simp [St.Expr.eval, Literal.value]⟩
    | some ht => exact ht ρ σ v henv hv
  | ifElse hif ha ht he => exact ifExpr_valued hev hown happart hif hnode ha ht he henv hv
  | @ifOnly _ _ _ _ _ _ _ _ elze _ _ hif ha ht =>
    obtain ⟨-, -, hempty⟩ := looksLikeIf_shape hif
    obtain ⟨ty', safe, hstrip⟩ := hempty rfl
    have helse : MeansBy tcx ids ctx P ev elze .unitLiteral := by
      intro ρ σ v _ hv
      obtain rfl := hev.emptyBlock ρ elze ty' safe v hstrip hv
      exact ⟨.unit, rfl, by rw [St.Expr.eval, Literal.value]⟩
    exact ifExpr_valued hev hown happart hif hnode ha ht helse henv hv
  | matchE _ ha harms =>
    obtain ⟨u, hu, hv⟩ := Option.bind_eq_some_iff.mp hv
    obtain ⟨w, hw⟩ := ha.valued hev henv hu
    obtain ⟨w', hw', hcases⟩ := runArms_mean hown happart harms hnode.2 henv hw.image hv
    exact ⟨w', hw', by rw [St.Expr.eval, hw.eval, Option.bind_some, hcases]⟩
  | scope ha | use ha => exact ha ρ σ v henv hv
  | neverToAny ha => cases hv
  | deref ha =>
    obtain ⟨u, hu, hv⟩ := Option.bind_eq_some_iff.mp hv
    obtain ⟨w, hw⟩ := ha.valued hev henv hu
    cases u with
    | ref u | box u =>
      obtain rfl := Option.some.inj hv
      exact ⟨w, hw.image, hw.eval⟩
    | _ => cases hv
  | borrow ha =>
    obtain ⟨u, hu, rfl⟩ := Option.map_eq_some_iff.mp hv
    exact ha ρ σ u henv hu

end Layer

end Stainless
