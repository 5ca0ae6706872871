import RustStainless.Extraction.RunMeaning

/-!
# What the functions of a program return

A function of the extracted program returns the image of what the function of the crate returns.
-/

namespace Stainless

open Rustc St Lib Extraction

variable {tcx : Tcx}

/-! ## Arguments -/

section Arguments

variable {ids : Ids} {ctx : BodyCtxt} {σ : St.Env}

/-- The variables have the values. -/
def Assigned (σ : St.Env) (xs : List Variable) (ws : List St.Value) : Prop :=
  List.Forall₂ (fun x w => σ x.id.globalId = some w) xs ws

theorem bindParam_image {p : Hir.Pat} {v : Hair.Value} {b : HirId × Hair.Value}
    (h : Hair.bindParam p v = some b) (tcx : Tcx) (ids : Ids) :
    b.1 = p.hirId ∧ valueImage tcx ids b.2 = valueImage tcx ids v := by
  unfold Hair.bindParam at h
  split at h
  · obtain rfl := Option.some.inj h
    exact ⟨rfl, rfl⟩
  · obtain rfl := Option.some.inj h
    exact ⟨rfl, rfl⟩
  · cases h

theorem bindParams_length : ∀ {ps : List Hir.Pat} {vs : List Hair.Value}
    {bs : List (HirId × Hair.Value)}, Hair.bindParams ps vs = some bs → vs.length = ps.length
  | [], [], _, _ => rfl
  | [], _ :: _, _, h | _ :: _, [], _, h => by cases h
  | p :: ps, v :: vs, bs, h => by
    obtain ⟨b, -, h⟩ := Option.bind_eq_some_iff.mp h
    obtain ⟨bs', hbs, -⟩ := Option.map_eq_some_iff.mp h
    rw [List.length_cons, List.length_cons, bindParams_length hbs]

/-- The parameters are bound to the images of the arguments. -/
theorem bindParams_bound : ∀ {ps : List Hir.Pat} {vs : List Hair.Value}
    {bs : List (HirId × Hair.Value)} {xs : List Variable} {ws : List St.Value},
    Hair.bindParams ps vs = some bs →
    List.Forall₂ (fun h x => ctx.vars.get? h = some x) (ps.map Hir.Pat.hirId) xs →
    valueImages tcx ids vs = some ws → Assigned σ xs ws → Bound tcx ids ctx σ bs
  | [], [], bs, xs, ws, h, _, _, _ => by
    obtain rfl := Option.some.inj h
    intro b hb
    cases hb
  | [], v :: vs, bs, xs, ws, h, _, _, _ => by cases h
  | p :: ps, [], bs, xs, ws, h, _, _, _ => by cases h
  | p :: ps, v :: vs, bs, xs, ws, h, hxs, hws, hσ => by
    obtain ⟨b, hb, h⟩ := Option.bind_eq_some_iff.mp h
    obtain ⟨bs', hbs, rfl⟩ := Option.map_eq_some_iff.mp h
    obtain ⟨hkey, himg⟩ := bindParam_image hb tcx ids
    have himgs := valueImages_eq_some.mp hws
    cases himgs with
    | cons hw himgs =>
      cases hxs with
      | cons hx hxs =>
        cases hσ with
        | cons hval hσ =>
          refine List.forall_mem_cons.mpr ⟨⟨_, _, hkey ▸ hx, himg.trans hw, hval⟩, ?_⟩
          exact bindParams_bound hbs hxs (valueImages_eq_some.mpr himgs) hσ

/-- At the start of a body, the environments belong together. -/
theorem EnvImage.paramEnv {bs : List (HirId × Hair.Value)} (h : Bound tcx ids ctx σ bs) :
    EnvImage tcx ids ctx (Hair.paramEnv bs) σ := by
  intro g x v hx hv
  rw [Hair.paramEnv, Hair.Env.bindAll, Option.or_none] at hv
  obtain ⟨x', w, hx', hw, hσ⟩ := h (g, v) (Assoc.mem_of_get? hv)
  obtain rfl := Option.some.inj (hx.symm.trans hx')
  exact ⟨w, hw, hσ⟩

theorem Assigned.unchanged {σ' : St.Env} {xs : List Variable} {ws : List St.Value}
    (h : Assigned σ xs ws) (hsame : ∀ x ∈ xs, σ' x.id.globalId = σ x.id.globalId) :
    Assigned σ' xs ws := by
  induction h with
  | nil => exact .nil
  | cons hx _ ih =>
    obtain ⟨hsame, hrest⟩ := List.forall_mem_cons.mp hsame
    exact .cons (hsame.trans hx) (ih hrest)

/-- A call gives the parameters their values, if they are different variables. -/
theorem ofParams_assigned {vds : List ValDef} {ws : List St.Value}
    (hnodup : (vds.map fun vd => vd.v.id.globalId).Nodup) (hlen : ws.length = vds.length) :
    ∃ σ, Env.ofParams vds ws = some σ ∧ Assigned σ (vds.map (·.v)) ws := by
  induction vds generalizing ws with
  | nil =>
    obtain rfl := List.eq_nil_of_length_eq_zero hlen
    exact ⟨_, rfl, .nil⟩
  | cons vd vds ih =>
    obtain ⟨w, ws, rfl⟩ := List.exists_cons_of_length_eq_add_one hlen
    obtain ⟨hnot, hnodup⟩ := List.nodup_cons.mp hnodup
    obtain ⟨σ, hσ, hassigned⟩ := ih hnodup (Nat.succ.inj hlen)
    refine ⟨σ.set vd.v w, by rw [Env.ofParams, hσ]; rfl, .cons (by simp [Env.set]) ?_⟩
    refine hassigned.unchanged fun x hx => ?_
    have hne : x.id.globalId ≠ vd.v.id.globalId := by
      rintro heq
      obtain ⟨vd', hvd', rfl⟩ := List.mem_map.mp hx
      exact hnot (List.mem_map.mpr ⟨vd', hvd', heq⟩)
    simp [Env.set, hne]

end Arguments

/-! ## The program of a crate -/

section Program

variable {v : ItemVisitor} {s : Extraction} {p : St.Symbols}

/--
The functions of the program have the bodies of those of the visitor, and the program has the ADTs
of the visitor.
-/
structure Implements (tcx : Tcx) (v : ItemVisitor) (s : Extraction) (p : St.Symbols) : Prop where
  ids : IdsOk tcx s
  fn : ∀ f ∈ v.functions, ∃ fd parts, p.functions.get? fd.id.globalId = some fd ∧
    FnImage tcx s.view f.defId (v.fnSpecs f.defId).preFns (v.fnSpecs f.defId).postFns
      (v.fnSpecs f.defId).measureFns.head? fd parts
  adt : ∀ d ∈ v.adts, HasAdt tcx s.didId (p.program 0) d

/-- A constructor is found by its id, and has the fields of its variant. -/
theorem ProgramOf.hasAdt (hp : ProgramOf tcx v s p) (hparts : PartsOwned tcx)
    (hadts : AdtsDistinct tcx) {d : DefId} (hd : d ∈ v.adts) :
    HasAdt tcx s.didId (p.program 0) d := by
  intro sort hsort c hc
  obtain ⟨sort', hsort', himg⟩ := hp.sort d hd
  obtain rfl := Option.some.inj (himg.adtIds.symm.trans hsort)
  obtain ⟨c', hc', rfl⟩ := List.mem_map.mp hc
  show p.fieldsOf c'.id.globalId = _
  have hmem : c' ∈ p.sorts.values.flatMap ADTSort.constructors :=
    List.mem_flatMap.mpr ⟨sort', hsort', hc'⟩
  obtain ⟨found, hfound⟩ : ∃ found, (p.sorts.values.flatMap ADTSort.constructors).find?
      (fun b => b.id.globalId = c'.id.globalId) = some found := by
    rw [← Option.isSome_iff_exists, List.find?_isSome]
    exact ⟨c', hmem, by simp⟩
  have hkey : found.id.globalId = c'.id.globalId := by simpa using List.find?_some hfound
  obtain ⟨sort'', hsort'', hmem''⟩ := List.mem_flatMap.mp (List.mem_of_find?_eq_some hfound)
  -- The constructor that is found is of the same ADT, and so it is the same variant.
  obtain ⟨e, he, himg'⟩ := hp.sorts sort'' hsort''
  obtain ⟨a, txtcx, ha, -, -, hcons⟩ := himg.shape
  obtain ⟨a', txtcx', ha', -, -, hcons'⟩ := himg'.shape
  obtain ⟨variant, hvariant, hid⟩ := forall₂_mem_right hcons hc'
  obtain ⟨variant', hvariant', hid'⟩ := forall₂_mem_right hcons' hmem''
  have hsame := hp.ids.did_inj _ _ _ _ hid'.id hid.id hkey
  obtain rfl := hparts.variants e a' d a ha' ha variant' hvariant' variant hvariant hsame
  have hsorts : sortIds sort'' = sortIds sort' :=
    Option.some.inj (himg'.adtIds.symm.trans himg.adtIds)
  have hnodup := hp.ids.idsOf.constructorsApart hadts e _ himg.adtIds
  have hboth : (⟨found.id, found.fields.map fun f => f.v.id⟩ : ConstructorIds) =
      ⟨c'.id, c'.fields.map fun f => f.v.id⟩ := by
    refine List.inj_on_of_nodup_map hnodup ?_ (List.mem_map.mpr ⟨c', hc', rfl⟩) hkey
    rw [← hsorts]
    exact List.mem_map.mpr ⟨found, hmem'', rfl⟩
  rw [Symbols.fieldsOf, hfound, Option.map_some]
  have hfields := congrArg (fun c => c.fields.map (·.globalId)) hboth
  simpa only [List.map_map, Function.comp_def] using congrArg some hfields

theorem processCrate_implements (hok : TcxOk tcx) (hparts : PartsOwned tcx)
    (hadts : AdtsDistinct tcx) {krate : Hir.Crate} (hk : KrateOk tcx krate)
    (hbodies : BodiesOk tcx (.ofKrate tcx krate)) {u : Unit}
    (h : processCrate tcx krate .new = .ok (u, s)) (hn : s.NoErrors) :
    Implements tcx (.ofKrate tcx krate) s (s.symbols tcx) := by
  have hp := processCrate_programOf hok hk hbodies h hn
  obtain ⟨-, hcrate⟩ := processCrate_ok hok hk h hn
  obtain ⟨externals, entries, stubs, hfns, hentries, -, -⟩ := hcrate.functions
  refine ⟨hp.ids, fun f hf => ?_, fun d hd => hp.hasAdt hparts hadts hd⟩
  obtain ⟨e, he, -, -, parts, himg⟩ := forall₂_mem_left hentries hf
  refine ⟨e.2, parts, Table.get?_eq_some_iff.mpr ⟨?_, rfl⟩, himg⟩
  rw [(symbols_perm h).2.mem_iff, hfns]
  exact List.mem_map.mpr ⟨e, List.mem_append_left _ he, rfl⟩

/-- The bodies that are run: those of the functions and of their pre- and postconditions. -/
def ItemVisitor.runs (v : ItemVisitor) (f : FnItem) : List DefId :=
  f.defId :: ((v.fnSpecs f.defId).preFns ++ (v.fnSpecs f.defId).postFns)

/--
In the bodies that are run what is taken for an `if` has no guards, and their parameters are
different bindings. No function of the crate has the path of `Box::new`, whose calls are erased.
-/
structure RunOk (tcx : Tcx) (v : ItemVisitor) : Prop where
  pure : ∀ f ∈ v.functions, ∀ d ∈ v.runs f, PureOk tcx (tcx.bodyOf d).value
  params : ∀ f ∈ v.functions, ∀ d ∈ v.runs f, (paramHirIds (tcx.bodyOf d)).Nodup
  boxNew : ∀ f ∈ v.functions, isBoxNewPath tcx f.defId = false

/-! ## Bodies -/

/-- None of the layers that specs put around a body. -/
def isPlain : St.Expr → Bool
  | .ensuring _ _ _ | .require _ _ | .decreases _ _ => false
  | _ => true

theorem isPlain_finishBlock {acc : List St.Expr} {last : St.Expr} (h : isPlain last = true) :
    isPlain (finishBlock acc last) = true := by
  cases acc with
  | nil => exact h
  | cons t ts => rfl

theorem StmtsExtract.isPlain {vars : HirId → Option Variable} {R : Hair.Expr → St.Expr → Prop}
    {stmts : List Hair.Stmt} {acc : List St.Expr} {last r : St.Expr}
    (h : StmtsExtract vars R stmts acc last r) (hlast : isPlain last = true) :
    isPlain r = true := by
  induction h with
  | finish => exact isPlain_finishBlock hlast
  | expr _ _ ih => exact ih hlast
  | letS => exact isPlain_finishBlock rfl

/-- Specs are only put around the body of a function. -/
theorem ExprExtracts.isPlain {ids : Ids} {ctx : BodyCtxt} {e : Hair.Expr} {t : St.Expr}
    (h : ExprExtracts tcx ids ctx e t) : isPlain t = true := by
  refine ExprExtracts.induct (P := fun _ t => Stainless.isPlain t = true)
    (fun e t hrule => ?_) e t h
  cases hrule with
  | boxNew _ _ _ ha | scope ha | use ha | neverToAny ha | deref ha | borrow ha => exact ha.2
  | @block ty stmts expr last r hlast hstmts =>
    have hfinal : Stainless.isPlain (last.getD .unitLiteral) = true := by
      cases hlast with
      | none => rfl
      | some ht => exact ht.2
    exact hstmts.isPlain hfinal
  | _ => rfl

theorem FnParts.withoutSpecs {parts : FnParts} (h : isPlain parts.bodyExpr = true) :
    parts.fullBody.withoutSpecs = parts.bodyExpr := by
  have hbody : parts.bodyExpr.withoutSpecs = parts.bodyExpr := by
    cases hb : parts.bodyExpr <;> simp_all [isPlain, St.Expr.withoutSpecs]
  have hdecreases : (wrapDecreases parts.measure parts.bodyExpr).withoutSpecs = parts.bodyExpr := by
    cases parts.measure <;> exact hbody
  have hrequire : (wrapRequire parts.preExprs
      (wrapDecreases parts.measure parts.bodyExpr)).withoutSpecs = parts.bodyExpr := by
    cases parts.preExprs <;> exact hdecreases
  rw [FnParts.fullBody]
  cases parts.postExprs <;> exact hrequire

/-- The bindings of a function body have variables with their own ids. -/
theorem FnImage.ownIds (hi : IdsOk tcx s) {d : DefId} {pre post : List DefId}
    {measure : Option DefId} {fd : FunDef} {parts : FnParts}
    (h : FnImage tcx s.view d pre post measure fd parts) :
    OwnIds { txtcx := parts.txtcx, vars := parts.vars } := by
  intro g g' x x' hx hx' heq
  have hg : s.hidId g = some x.id := h.body.own g x hx rfl
  have hg' : s.hidId g' = some x'.id := h.body.own g' x' hx' rfl
  exact hi.hid_inj g g' x.id x'.id hg hg' heq

/-- Different parameters are different variables. -/
theorem paramIds_nodup {ctx : BodyCtxt} (hown : OwnIds ctx) {hs : List HirId} {vds : List ValDef}
    (h : List.Forall₂ (fun g vd => ctx.vars.get? g = some vd.v) hs vds) (hnodup : hs.Nodup) :
    (vds.map fun vd => vd.v.id.globalId).Nodup := by
  induction h with
  | nil => exact List.nodup_nil
  | @cons g vd hs vds hg hrest ih =>
    obtain ⟨hnot, hnodup⟩ := List.nodup_cons.mp hnodup
    refine List.nodup_cons.mpr ⟨fun hmem => hnot ?_, ih hnodup⟩
    obtain ⟨vd', hvd', heq⟩ := List.mem_map.mp hmem
    obtain ⟨g', hg', hx'⟩ := forall₂_mem_right hrest hvd'
    obtain rfl := hown g' g vd'.v vd.v hx' hg heq
    exact hg'

/-! ## Runs -/

theorem evaluates_runLayer {accepts : Hair.Accepts} {fns : List DefId}
    {ev : Hair.Task → Option Hair.Value} (h : Evaluates tcx ev) :
    Evaluates tcx (Hair.runLayer tcx accepts fns ev) where
  fits := fun ρ e v hv => (Hair.checked_eq_some.mp hv).2
  emptyBlock := by
    intro ρ e ty safe v hstrip hv
    obtain ⟨hv, -⟩ := Hair.checked_eq_some.mp hv
    cases e with
    | scope ty' value => exact h.emptyBlock ρ value ty safe v hstrip hv
    | block ty' safe' stmts expr =>
      obtain ⟨-, -, rfl, rfl⟩ := Hair.Expr.block.inj hstrip
      exact (Option.some.inj hv).symm
    | _ => cases hstrip

variable (himpl : Implements tcx v s p) (hrun : RunOk tcx v) (hadts : AdtsDistinct tcx)
  (hclosed : ∀ u ∈ v.uses tcx, u.Defined tcx v)

/-- The functions that can be called. -/
def ItemVisitor.fnIds (v : ItemVisitor) : List DefId := v.functions.map FnItem.defId

include himpl hclosed in
/-- The ADTs of which fields are used are in the program. -/
theorem fieldsKnown_of_uses {us : List BodyUse} (hsub : ∀ u ∈ us, u ∈ v.uses tcx) :
    FieldsKnown tcx s.didId (p.program 0) us :=
  fun did name hu => himpl.adt did (hclosed (.field did name) (hsub _ hu))

theorem fnUses_subset {f : FnItem} (hf : f ∈ v.functions) :
    ∀ u ∈ fnUses tcx f.defId (v.fnSpecs f.defId), u ∈ v.uses tcx := by
  intro u hu
  refine List.mem_append_left _ (List.mem_append_right _ ?_)
  exact List.mem_flatMap.mpr ⟨f, hf, hu⟩

include himpl hrun hclosed in
/-- The body of a function is in order. -/
theorem fn_related {f : FnItem} (hf : f ∈ v.functions) {pre post : List DefId}
    {measure : Option DefId} {fd : FunDef} {parts : FnParts}
    (himg : FnImage tcx s.view f.defId pre post measure fd parts) :
    Related tcx s.didId { txtcx := parts.txtcx, vars := parts.vars } (p.program 0)
      (tcx.bodyOf f.defId).value parts.bodyExpr := by
  refine (exprImage_extracts _ _ himg.body.expr).related (c := fnCtxt tcx f.defId)
    (hrun.pure f hf _ List.mem_cons_self) (fieldsKnown_of_uses himpl hclosed fun u hu => ?_)
  refine fnUses_subset hf u ?_
  simp only [fnUses, bodyUses, List.mem_append]
  exact .inl (.inl (.inl (.inr hu)))

/-- What is true of the evaluator and the program, for any fuel. -/
structure RunsAlike (tcx : Tcx) (s : Extraction) (p : St.Symbols)
    (ev : Hair.Task → Option Hair.Value) (call : Invocation → Option St.Value) : Prop where
  evaluates : Evaluates tcx ev
  means : ∀ ctx, OwnIds ctx → ∀ e t, Related tcx s.didId ctx (p.program 0) e t →
    MeansBy tcx s.didId ctx (p.withCalls call) ev e t

theorem MeansBy.extends {ids : Ids} {ctx : BodyCtxt} {P P' : Program}
    {ev : Hair.Task → Option Hair.Value} {e : Hair.Expr} {t : St.Expr}
    (h : MeansBy tcx ids ctx P ev e t) (hP : P.Extends P') : MeansBy tcx ids ctx P' ev e t := by
  intro ρ σ v henv hv
  obtain ⟨w, hw, ht⟩ := h ρ σ v henv hv
  exact ⟨w, hw, t.eval_extends hP ht⟩

include himpl hrun hclosed in
/-- A call of the extracted function goes on with the translation of the body. -/
theorem RunsAlike.enter {ev : Hair.Task → Option Hair.Value} {call : Invocation → Option St.Value}
    (h : RunsAlike tcx s p ev call) {f : FnItem} (hf : f ∈ v.functions) {vs : List Hair.Value}
    {u : Hair.Value} (hu : Hair.enter tcx ev f.defId vs = some u) {fdId : SymbolIdentifier}
    (hid : s.didId f.defId = some fdId) {ws : List St.Value}
    (hws : valueImages tcx s.didId vs = some ws) :
    ∃ w, valueImage tcx s.didId u = some w ∧ ∀ tps, p.invoke call (fdId, tps, ws) = some w := by
  obtain ⟨fd, parts, hget, himg⟩ := himpl.fn f hf
  obtain rfl := Option.some.inj (himg.id.symm.trans hid)
  have hown := himg.ownIds himpl.ids
  obtain ⟨bs, hbs, hu⟩ := Option.bind_eq_some_iff.mp hu
  have hnodup := paramIds_nodup hown himg.params (hrun.params f hf _ List.mem_cons_self)
  have hlen : ws.length = fd.params.length := by
    rw [← (valueImages_eq_some.mp hws).length_eq, ← himg.params.length_eq, bindParams_length hbs,
      paramHirIds, List.length_map]
  obtain ⟨σ, hσ, hassigned⟩ := ofParams_assigned hnodup hlen
  have hxs : List.Forall₂ (fun g x => parts.vars.get? g = some x)
      (paramHirIds (tcx.bodyOf f.defId)) (fd.params.map (·.v)) :=
    List.forall₂_map_right_iff.mpr himg.params
  have hbound : Bound tcx s.didId { txtcx := parts.txtcx, vars := parts.vars } σ bs :=
    bindParams_bound hbs hxs hws hassigned
  obtain ⟨w, hw, hval⟩ := h.means _ hown _ _ (fn_related himpl hrun hclosed hf himg) _ σ u
    (.paramEnv hbound) hu
  refine ⟨w, hw, fun tps => ?_⟩
  rw [Symbols.invoke, hget, Option.bind_some, hσ, Option.bind_some, himg.fullBody,
    FnParts.withoutSpecs (exprImage_extracts _ _ himg.body.expr).isPlain, hval]

include himpl hrun hclosed in
theorem RunsAlike.calls {ev : Hair.Task → Option Hair.Value} {call : Invocation → Option St.Value}
    (h : RunsAlike tcx s p ev call) :
    CallsMean tcx s.didId (p.withCalls (p.invoke call)) (Hair.callFn tcx ev v.fnIds) where
  standard := by
    intro did substs vs hitem
    rw [Hair.callFn, if_neg fun hc => hitem hc.2]
  boxNew := by
    intro did substs vs fdId hid hpath
    refine if_neg fun hc => ?_
    obtain ⟨f, hf, rfl⟩ := List.mem_map.mp hc.1
    have hbox := (isBoxNewPath_iff himpl.ids.idsOf.paths hid).mpr hpath
    rw [hrun.boxNew f hf] at hbox
    cases hbox
  called := by
    intro did substs vs u hu fdId tps ws hid hws
    rw [Hair.callFn] at hu
    split_ifs at hu with hc
    obtain ⟨f, hf, rfl⟩ := List.mem_map.mp hc.1
    obtain ⟨w, hw, hcall⟩ := h.enter himpl hrun hclosed hf hu hid hws
    exact ⟨w, hw, hcall tps⟩

include himpl hrun hadts hclosed in
/-- **With the same fuel, the program evaluates to the images of the values.** -/
theorem runs_alike (n : Nat) :
    RunsAlike tcx s p (Hair.run tcx faithful v.fnIds n) (fuelled p.invoke n) := by
  refine fuelled_related (R := RunsAlike tcx s p) ⟨⟨nofun, nofun⟩, nofun⟩ (fun n h => ?_) n
  refine ⟨evaluates_runLayer h.evaluates, fun ctx hown e t hrel ρ σ u henv hu => ?_⟩
  have hP : (p.withCalls (fuelled p.invoke n)).Extends
      (p.withCalls (p.invoke (fuelled p.invoke n))) :=
    Symbols.withCalls_extends (fuelled_succ Symbols.invoke_layer n)
  obtain ⟨hrule, hnode⟩ := hrel
  obtain ⟨hu, hfits⟩ := Hair.checked_eq_some.mp hu
  have hparts : ExprRule tcx s.didId ctx
      (MeansBy tcx s.didId ctx (p.withCalls (p.invoke (fuelled p.invoke n)))
        (fuelled (Hair.runLayer tcx faithful v.fnIds) n)) e t :=
    hrule.imp fun e' _ t' hrel' => (h.means ctx hown e' t' hrel').extends hP
  exact hparts.meansBy h.evaluates hown himpl.ids.idsOf.paths
    (himpl.ids.idsOf.constructorsApart hadts) (himpl.ids.idsOf.fieldsApart hadts)
    (h.calls himpl hrun hclosed) hnode henv hfits hu

end Program

end Stainless
