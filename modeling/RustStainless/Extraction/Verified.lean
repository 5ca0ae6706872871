import RustStainless.Extraction.ProgramMeaning

/-!
# What is verified of a crate

The specs around the body of an extracted function evaluate to the images of what the spec functions
of the crate return. So a postcondition that is verified holds of what the function returns in Rust.
-/

namespace Stainless

open Rustc St Lib Extraction

variable {tcx : Tcx} {v : ItemVisitor} {s : Extraction} {p : St.Symbols}

/-! ## Contexts of specs -/

theorem zip_get? {α β : Type} [DecidableEq α] : ∀ {ks : List α} {bs : List β}, ks.Nodup →
    ks.length = bs.length → List.Forall₂ (fun k b => Assoc.get? (ks.zip bs) k = some b) ks bs
  | [], [], _, _ => .nil
  | k :: ks, b :: bs, hnodup, hlen => by
    obtain ⟨hnot, hnodup⟩ := List.nodup_cons.mp hnodup
    have hrest := zip_get? hnodup (Nat.succ.inj hlen)
    refine .cons (by rw [List.zip_cons_cons, Assoc.get?_cons, if_pos rfl]) ?_
    refine ((List.forall₂_and_left _ _).mpr ⟨fun k' hk' => hk', hrest⟩).imp fun k' b' h => ?_
    rw [List.zip_cons_cons, Assoc.get?_cons, if_neg, h.2]
    rintro rfl
    exact hnot h.1

/-- Variables with different ids belong to different keys. -/
theorem zip_key_inj {hs : List HirId} {xs : List Variable}
    (hnodup : (xs.map (·.id.globalId)).Nodup) {h h' : HirId} {x x' : Variable}
    (hx : (h, x) ∈ hs.zip xs) (hx' : (h', x') ∈ hs.zip xs) (heq : x.id.globalId = x'.id.globalId) :
    h = h' := by
  induction hs generalizing xs with
  | nil => simp at hx
  | cons g hs ih =>
    cases xs with
    | nil => simp at hx
    | cons y xs =>
      obtain ⟨hnot, hnodup⟩ := List.nodup_cons.mp hnodup
      have hmem : ∀ {h : HirId} {x : Variable}, (h, x) ∈ hs.zip xs →
          x.id.globalId ∈ xs.map (·.id.globalId) :=
        fun hx => List.mem_map.mpr ⟨_, (List.of_mem_zip hx).2, rfl⟩
      rw [List.zip_cons_cons, List.mem_cons] at hx hx'
      rcases hx with hx | hx
      · obtain ⟨rfl, rfl⟩ := Prod.mk.inj hx
        rcases hx' with hx' | hx'
        · exact (Prod.mk.inj hx').1.symm
        · have hin := hmem hx'
          rw [← heq] at hin
          exact absurd hin hnot
      · rcases hx' with hx' | hx'
        · obtain ⟨rfl, rfl⟩ := Prod.mk.inj hx'
          have hin := hmem hx
          rw [heq] at hin
          exact absurd hin hnot
        · exact ih hnodup hx hx'

/-- The context in which the body of a spec is translated: its parameters are the variables `xs`. -/
structure SpecCtxt (tcx : Tcx) (ids : Ids) (d : DefId) (xs : List Variable) (t : St.Expr)
    (ctx : BodyCtxt) : Prop where
  own : OwnIds ctx
  params : List.Forall₂ (fun g x => ctx.vars.get? g = some x) (paramHirIds (tcx.bodyOf d)) xs
  body : ExprExtracts tcx ids ctx (tcx.bodyOf d).value t

theorem SpecImage.ctxt (hi : IdsOk tcx s) {original : TyExtractionCtxt} {params : List ValDef}
    {returnVar : Option Variable} {d : DefId} {t : St.Expr}
    (h : SpecImage tcx s.view original params returnVar d t)
    (hhirIds : (paramHirIds (tcx.bodyOf d)).Nodup)
    (hids : ((params.map (·.v) ++ returnVar.toList).map (·.id.globalId)).Nodup) :
    ∃ ctx, SpecCtxt tcx s.didId d (params.map (·.v) ++ returnVar.toList) t ctx := by
  obtain ⟨ctx, vars, hcorr, himg⟩ := h
  have hc := correlateSpecFn_ok hcorr
  have hzip : List.Forall₂ (fun g x => ctx.vars.get? g = some x) (paramHirIds (tcx.bodyOf d))
      (params.map (·.v) ++ returnVar.toList) := by
    rw [hc.vars]
    exact zip_get? hhirIds (by simpa using hc.arity)
  refine ⟨{ ctx with vars := vars }, ?_, hzip.imp fun g x hx => himg.keeps g x hx,
    exprImage_extracts _ _ himg.expr⟩
  intro g g' x x' hx hx' heq
  -- A binding of the body has a later id than the parameters, and a binding has its own id.
  cases hg : ctx.vars.get? g with
  | some y =>
    obtain rfl : y = x := Option.some.inj ((himg.keeps g y hg).symm.trans hx)
    cases hg' : ctx.vars.get? g' with
    | some y' =>
      obtain rfl : y' = x' := Option.some.inj ((himg.keeps g' y' hg').symm.trans hx')
      have hmem := Assoc.mem_of_get? hg
      have hmem' := Assoc.mem_of_get? hg'
      rw [hc.vars] at hmem hmem'
      exact zip_key_inj hids hmem hmem' heq
    | none =>
      have := himg.later g y g' x' hg hx' hg'
      omega
  | none =>
    cases hg' : ctx.vars.get? g' with
    | some y' =>
      obtain rfl : y' = x' := Option.some.inj ((himg.keeps g' y' hg').symm.trans hx')
      have := himg.later g' y' g x hg' hx hg
      omega
    | none =>
      exact hi.hid_inj g g' _ _ (himg.own g x hx hg) (himg.own g' x' hx' hg') heq

/-! ## Specs -/

/-- A conjunction of booleans, of which there is at least one. -/
theorem eval_makeAnd {P : Program} {σ : St.Env} {ts : List St.Expr} {bs : List Bool}
    (h : List.Forall₂ (fun t b => t.eval P σ = some (.boolean b)) ts bs) (hne : ts ≠ []) :
    (makeAnd ts).eval P σ = some (.boolean (bs.all id)) := by
  have hand : ∀ {ts : List St.Expr} {bs : List Bool},
      List.Forall₂ (fun t b => t.eval P σ = some (.boolean b)) ts bs →
      St.Expr.evalAnd P σ ts = some (bs.all id) := by
    intro ts bs hforall
    induction hforall with
    | nil => rw [St.Expr.evalAnd, List.all_nil]
    | @cons t b ts bs ht _ ih =>
      rw [St.Expr.evalAnd, ht, Option.bind_some, Value.truth, Option.bind_some, List.all_cons]
      cases b with
      | true => simpa using ih
      | false => rfl
  cases h with
  | nil => exact absurd rfl hne
  | cons ht hts =>
    cases hts with
    | nil => simpa [makeAnd] using ht
    | @cons t' b' ts bs ht' hts =>
      show (St.Expr.and _).eval P σ = _
      rw [St.Expr.eval, hand (.cons ht (.cons ht' hts)), Option.map_some]

section Specs

variable (himpl : Implements tcx v s p) (hrun : RunOk tcx v) (hadts : AdtsDistinct tcx)
  (hclosed : ∀ u ∈ v.uses tcx, u.Defined tcx v)

include himpl hrun hadts hclosed

/-- What the body of a spec evaluates to where its parameters have the images of the arguments. -/
theorem spec_means {f : FnItem} (hf : f ∈ v.functions) {d : DefId} (hd : d ∈ v.runs f)
    {xs : List Variable} {t : St.Expr} {ctx : BodyCtxt}
    (hctx : SpecCtxt tcx s.didId d xs t ctx) {c : UseCtxt}
    (huses : ∀ u ∈ exprUses tcx c (tcx.bodyOf d).value, u ∈ v.uses tcx) {n : Nat}
    {vs : List Hair.Value} {u : Hair.Value}
    (hu : Hair.runFn tcx faithful v.fnIds n d vs = some u) {ws : List St.Value}
    (hws : valueImages tcx s.didId vs = some ws) {σ : St.Env} (hσ : Assigned σ xs ws) :
    ∃ w, valueImage tcx s.didId u = some w ∧ t.eval (p.program n) σ = some w := by
  obtain ⟨bs, hbs, hu⟩ := Option.bind_eq_some_iff.mp hu
  have hbound : Bound tcx s.didId ctx σ bs := bindParams_bound hbs hctx.params hws hσ
  have hrel : Related tcx s.didId ctx (p.program 0) (tcx.bodyOf d).value t :=
    hctx.body.related (hrun.pure f hf d hd) (fieldsKnown_of_uses himpl hclosed huses)
  exact (runs_alike himpl hrun hadts hclosed n).means ctx hctx.own _ t hrel _ σ u (.paramEnv hbound)
    hu

/-- The specs of a function evaluate to the booleans that the spec functions return. -/
theorem specs_mean {f : FnItem} (hf : f ∈ v.functions) {original : TyExtractionCtxt}
    {params : List ValDef} {returnVar : Option Variable} {ds : List DefId} {ts : List St.Expr}
    (h : List.Forall₂ (SpecImage tcx s.view original params returnVar) ds ts)
    (hds : ∀ d ∈ ds, d ∈ v.runs f)
    (hids : ((params.map (·.v) ++ returnVar.toList).map (·.id.globalId)).Nodup)
    {returns : Option Ty} (huses : ∀ u ∈ specUses tcx f.defId returns ds, u ∈ v.uses tcx) {n : Nat}
    {vs : List Hair.Value} {bs : List Bool}
    (hbs : List.Forall₂ (fun d b => Hair.runFn tcx faithful v.fnIds n d vs = some (.bool b)) ds bs)
    {ws : List St.Value} (hws : valueImages tcx s.didId vs = some ws) {σ : St.Env}
    (hσ : Assigned σ (params.map (·.v) ++ returnVar.toList) ws) :
    List.Forall₂ (fun t b => t.eval (p.program n) σ = some (.boolean b)) ts bs := by
  induction h generalizing bs with
  | nil =>
    cases hbs
    exact .nil
  | @cons d t ds ts hspec _ ih =>
    cases hbs with
    | @cons _ b _ bs hb hbs =>
      obtain ⟨hd, hds⟩ := List.forall_mem_cons.mp hds
      rw [specUses, List.flatMap_cons, List.forall_mem_append] at huses
      refine .cons ?_ (ih hds huses.2 hbs)
      obtain ⟨ctx, hctx⟩ := hspec.ctxt himpl.ids (hrun.params f hf d hd) hids
      obtain ⟨w, hw, heval⟩ := spec_means himpl hrun hadts hclosed hf hd hctx huses.1 hb hws hσ
      obtain rfl := Option.some.inj hw
      exact heval

end Specs

/-! ## Verification -/

section Layers

variable {parts : FnParts} (hplain : isPlain parts.bodyExpr = true)

include hplain

theorem FnParts.precondition : parts.fullBody.precondition =
    if parts.preExprs = [] then none else some (makeAnd parts.preExprs) := by
  have hbody : parts.bodyExpr.precondition = none := by
    cases hb : parts.bodyExpr <;> simp_all [isPlain, St.Expr.precondition]
  have hdecreases : (wrapDecreases parts.measure parts.bodyExpr).precondition = none := by
    cases parts.measure with
    | none => exact hbody
    | some measure => rfl
  have hrequire : (wrapRequire parts.preExprs
      (wrapDecreases parts.measure parts.bodyExpr)).precondition =
        if parts.preExprs = [] then none else some (makeAnd parts.preExprs) := by
    cases parts.preExprs with
    | nil => exact hdecreases
    | cons t ts => rfl
  rw [FnParts.fullBody]
  cases parts.postExprs <;> exact hrequire

theorem FnParts.postcondition : parts.fullBody.postcondition =
    if parts.postExprs = [] then none
    else some ([{ v := parts.returnVar }], makeAnd parts.postExprs) := by
  have hbody : parts.bodyExpr.postcondition = none := by
    cases hb : parts.bodyExpr <;> simp_all [isPlain, St.Expr.postcondition]
  rw [FnParts.fullBody]
  cases parts.postExprs with
  | cons t ts => rfl
  | nil =>
    cases parts.preExprs with
    | cons t ts => rfl
    | nil => cases parts.measure with
      | none => exact hbody
      | some measure => rfl

end Layers

/-- The parameters and the result are different variables. -/
theorem FnImage.variables_nodup (hi : IdsOk tcx s) {d : DefId} {pre post : List DefId}
    {measure : Option DefId} {fd : FunDef} {parts : FnParts}
    (h : FnImage tcx s.view d pre post measure fd parts)
    (hnodup : (paramHirIds (tcx.bodyOf d)).Nodup) :
    ((fd.params.map (·.v) ++ [parts.returnVar]).map (·.id.globalId)).Nodup := by
  have hparams := paramIds_nodup (h.ownIds hi) h.params hnodup
  rw [List.map_append, List.map_map, List.nodup_append]
  refine ⟨hparams, List.nodup_singleton _, ?_⟩
  intro k hk k' hk' heq
  obtain ⟨vd, hvd, rfl⟩ := List.mem_map.mp hk
  obtain rfl : k' = parts.returnVar.id.globalId := by simpa using hk'
  have hlater := h.returnLater vd hvd
  exact absurd heq (ne_of_lt hlater)

/--
One call of a function with specs: the arguments, the result, and what the spec functions return.
-/
structure Contract (tcx : Tcx) (accepts : Hair.Accepts) (v : ItemVisitor) (f : FnItem) (n : Nat)
    (vs : List Hair.Value) (r : Hair.Value) (pres posts : List Bool) : Prop where
  pre : List.Forall₂ (fun d b => Hair.runFn tcx accepts v.fnIds n d vs = some (.bool b))
    (v.fnSpecs f.defId).preFns pres
  result : Hair.runFn tcx accepts v.fnIds n f.defId vs = some r
  post : List.Forall₂ (fun d b => Hair.runFn tcx accepts v.fnIds n d (vs ++ [r]) = some (.bool b))
    (v.fnSpecs f.defId).postFns posts

/-- The same call of the extracted function. -/
structure ContractImage (tcx : Tcx) (ids : Ids) (p : St.Symbols) (fd : FunDef) (n : Nat)
    (ws : List St.Value) (r : Hair.Value) (pres posts : List Bool) (σ : St.Env) (w : St.Value) :
    Prop where
  params : Env.ofParams fd.params ws = some σ
  pre : ∀ pred ∈ fd.fullBody.precondition,
    pred.eval (p.program n) σ = some (.boolean (pres.all id))
  image : valueImage tcx ids r = some w
  result : fd.fullBody.withoutSpecs.eval (p.program n) σ = some w
  post : fd.fullBody.postcondition = none ∧ posts = [] ∨
    ∃ post ∈ fd.fullBody.postcondition,
      post.2.eval (p.program n) (σ.setBinder post.1.head? w) = some (.boolean (posts.all id))

/-- What is returned without misread literals and patterns is returned in Rust. -/
theorem Contract.all {f : FnItem} {n : Nat} {vs : List Hair.Value} {r : Hair.Value}
    {pres posts : List Bool} (h : Contract tcx faithful v f n vs r pres posts) :
    Contract tcx .all v f n vs r pres posts where
  pre := h.pre.imp fun _ _ => Hair.runFn_all
  result := Hair.runFn_all h.result
  post := h.post.imp fun _ _ => Hair.runFn_all

/-- A call has one outcome. -/
theorem Contract.unique {accepts : Hair.Accepts} {f : FnItem} {n : Nat} {vs : List Hair.Value}
    {r r' : Hair.Value} {pres posts pres' posts' : List Bool}
    (h : Contract tcx accepts v f n vs r pres posts)
    (h' : Contract tcx accepts v f n vs r' pres' posts') :
    r = r' ∧ pres = pres' ∧ posts = posts' := by
  have hbools : ∀ {vs : List Hair.Value} {ds : List DefId} {bs bs' : List Bool},
      List.Forall₂ (fun d b => Hair.runFn tcx accepts v.fnIds n d vs = some (.bool b)) ds bs →
      List.Forall₂ (fun d b => Hair.runFn tcx accepts v.fnIds n d vs = some (.bool b)) ds bs' →
      bs = bs' :=
    fun hbs hbs' => List.right_unique_forall₂' (fun _ _ _ hb hb' =>
      Hair.Value.bool.inj (Option.some.inj (hb.symm.trans hb'))) hbs hbs'
  obtain rfl : r = r' := Option.some.inj (h.result.symm.trans h'.result)
  exact ⟨rfl, hbools h.pre h'.pre, hbools h.post h'.post⟩

theorem valueImages_concat {ids : Ids} {vs : List Hair.Value} {ws : List St.Value} {r : Hair.Value}
    {w : St.Value} (h : valueImages tcx ids vs = some ws) (hr : valueImage tcx ids r = some w) :
    valueImages tcx ids (vs ++ [r]) = some (ws ++ [w]) :=
  valueImages_eq_some.mpr (List.rel_append (valueImages_eq_some.mp h) (.cons hr .nil))

/--
**The extracted function does with a call what the function does with it**, and so do its specs.
-/
theorem Implements.contract (himpl : Implements tcx v s p) (hrun : RunOk tcx v)
    (hadts : AdtsDistinct tcx) (hclosed : ∀ u ∈ v.uses tcx, u.Defined tcx v) {f : FnItem}
    (hf : f ∈ v.functions) {fd : FunDef} (hfd : p.functions.get? fd.id.globalId = some fd)
    (hid : s.didId f.defId = some fd.id) {vs : List Hair.Value} {ws : List St.Value}
    (hws : valueImages tcx s.didId vs = some ws) {n : Nat} {r : Hair.Value} {pres posts : List Bool}
    (h : Contract tcx faithful v f n vs r pres posts) :
    ∃ σ w, ContractImage tcx s.didId p fd n ws r pres posts σ w := by
  obtain ⟨fd', parts, hget, himg⟩ := himpl.fn f hf
  have hid' : fd'.id = fd.id := Option.some.inj (himg.id.symm.trans hid)
  obtain rfl : fd' = fd := by
    rw [hid'] at hget
    exact Option.some.inj (hget.symm.trans hfd)
  have hplain : isPlain parts.bodyExpr = true := (exprImage_extracts _ _ himg.body.expr).isPlain
  have huses : ∀ u ∈ fnUses tcx f.defId (v.fnSpecs f.defId), u ∈ v.uses tcx := fnUses_subset hf
  simp only [fnUses, List.mem_append] at huses
  -- The parameters and the result get their values.
  have hvars := himg.variables_nodup himpl.ids (hrun.params f hf _ List.mem_cons_self)
  have hparams : (fd'.params.map fun vd => vd.v.id.globalId).Nodup :=
    paramIds_nodup (himg.ownIds himpl.ids) himg.params (hrun.params f hf _ List.mem_cons_self)
  have hlen : ws.length = fd'.params.length := by
    obtain ⟨bs, hbs, -⟩ := Option.bind_eq_some_iff.mp h.result
    rw [← (valueImages_eq_some.mp hws).length_eq, ← himg.params.length_eq, bindParams_length hbs,
      paramHirIds, List.length_map]
  obtain ⟨σ, hσ, hassigned⟩ := ofParams_assigned hparams hlen
  have hbody : SpecCtxt tcx s.didId f.defId (fd'.params.map (·.v)) parts.bodyExpr
      { txtcx := parts.txtcx, vars := parts.vars } :=
    ⟨himg.ownIds himpl.ids, List.forall₂_map_right_iff.mpr himg.params,
      exprImage_extracts _ _ himg.body.expr⟩
  obtain ⟨w, hw, heval⟩ := spec_means himpl hrun hadts hclosed hf List.mem_cons_self hbody
    (c := fnCtxt tcx f.defId) (fun u hu => huses u (.inl (.inl (.inl (.inr hu))))) h.result hws
    hassigned
  have hafter : Assigned (σ.setBinder (some { v := parts.returnVar }) w)
      (fd'.params.map (·.v) ++ [parts.returnVar]) (ws ++ [w]) := by
    refine List.rel_append (hassigned.unchanged fun x hx => ?_)
      (.cons (by simp [Env.setBinder, Env.set]) .nil)
    obtain ⟨vd, hvd, rfl⟩ := List.mem_map.mp hx
    have hne : vd.v.id.globalId ≠ parts.returnVar.id.globalId := ne_of_lt (himg.returnLater vd hvd)
    simp [Env.setBinder, Env.set, hne]
  -- The specs evaluate to what the spec functions return.
  have hpre := specs_mean himpl hrun hadts hclosed hf himg.pre
    (fun d hd => List.mem_cons_of_mem _ (List.mem_append_left _ hd))
    (by simpa [Function.comp_def] using hparams)
    (fun u hu => huses u (.inl (.inr hu))) h.pre hws (by simpa using hassigned)
  have hpost := specs_mean himpl hrun hadts hclosed hf himg.post
    (fun d hd => List.mem_cons_of_mem _ (List.mem_append_right _ hd)) hvars
    (fun u hu => huses u (.inr hu)) h.post (valueImages_concat hws hw) hafter
  refine ⟨σ, w, hσ, ?_, hw, ?_, ?_⟩
  · rw [himg.fullBody, FnParts.precondition hplain]
    intro pred hpred
    split_ifs at hpred with hnil
    · cases hpred
    · obtain rfl := Option.some.inj hpred
      exact eval_makeAnd hpre hnil
  · rw [himg.fullBody, FnParts.withoutSpecs hplain, heval]
  · rw [himg.fullBody, FnParts.postcondition hplain]
    by_cases hnil : parts.postExprs = []
    · rw [if_pos hnil]
      rw [hnil] at hpost
      cases hpost
      exact .inl ⟨rfl, rfl⟩
    · rw [if_neg hnil]
      exact .inr ⟨_, rfl, eval_makeAnd hpost hnil⟩

/-- What is verified of the extracted function holds of the function of the crate. -/
theorem Implements.sound (himpl : Implements tcx v s p) (hrun : RunOk tcx v)
    (hadts : AdtsDistinct tcx)
    (hclosed : ∀ u ∈ v.uses tcx, u.Defined tcx v) {f : FnItem} (hf : f ∈ v.functions) {fd : FunDef}
    (hfd : p.functions.get? fd.id.globalId = some fd) (hid : s.didId f.defId = some fd.id)
    {vs : List Hair.Value} {ws : List St.Value} (hws : valueImages tcx s.didId vs = some ws)
    (hverified : fd.Verified p ws) {n : Nat} {r : Hair.Value} {pres posts : List Bool}
    (h : Contract tcx faithful v f n vs r pres posts) (hpres : ∀ b ∈ pres, b = true) :
    ∀ b ∈ posts, b = true := by
  obtain ⟨σ, w, himg⟩ := himpl.contract hrun hadts hclosed hf hfd hid hws h
  have htrue : pres.all id = true := List.all_eq_true.mpr hpres
  have hnot := hverified n σ w himg.params
      (fun pred hpred => htrue ▸ himg.pre pred hpred) himg.result
  rcases himg.post with ⟨-, rfl⟩ | ⟨post, hpost, heval⟩
  · simp
  · refine List.all_eq_true.mp ?_
    have := hnot post hpost
    rw [heval] at this
    simpa using this

/-! ## Crates -/

section Crates

variable {krate : Hir.Crate}

/--
What rustc guarantees for a crate, and that its bodies are pure: in none of them a `match` with a
guard is taken for an `if`, which drops the guard, and no function has the path of `Box::new`.
-/
structure PureCrate (tcx : Tcx) (krate : Hir.Crate) : Prop where
  ok : TcxOk tcx
  parts : PartsOwned tcx
  adts : AdtsDistinct tcx
  items : KrateOk tcx krate
  bodies : BodiesOk tcx (.ofKrate tcx krate)
  runs : RunOk tcx (.ofKrate tcx krate)

/-- What a function of the crate returns. -/
def krateFn (tcx : Tcx) (accepts : Hair.Accepts) (krate : Hir.Crate) :
    Nat → DefId → List Hair.Value → Option Hair.Value :=
  Hair.runFn tcx accepts (ItemVisitor.ofKrate tcx krate).fnIds

variable (hcrate : PureCrate tcx krate) (h : processCrate tcx krate .new = .ok ((), s))
  (hn : s.NoErrors)

include hcrate h hn

theorem PureCrate.uses_defined (hclosed : (s.symbols tcx).Closed) :
    ∀ u ∈ (ItemVisitor.ofKrate tcx krate).uses tcx, u.Defined tcx (.ofKrate tcx krate) :=
  ((processCrate_programOf hcrate.ok hcrate.items hcrate.bodies h hn).closed_iff hcrate.parts).mp
    hclosed

theorem PureCrate.implements : Implements tcx (.ofKrate tcx krate) s (s.symbols tcx) :=
  processCrate_implements hcrate.ok hcrate.parts hcrate.adts hcrate.items hcrate.bodies h hn

/--
**A function of the program returns the image of what the function of the crate returns**, if what
is taken for an `if` has no guards and Rust gets there without a misread literal or pattern. The
program needs the same fuel and one unit for the call.
-/
theorem symbols_program_call (hclosed : (s.symbols tcx).Closed) {f : FnItem}
    (hf : f ∈ (ItemVisitor.ofKrate tcx krate).functions) {n : Nat} {vs : List Hair.Value}
    {r : Hair.Value} (hr : krateFn tcx .all krate n f.defId vs = some r)
    (hgood : krateFn tcx faithful krate n f.defId vs ≠ none) {ws : List St.Value}
    (hws : valueImages tcx s.didId vs = some ws) :
    ∃ id w, s.didId f.defId = some id ∧ valueImage tcx s.didId r = some w ∧
      ∀ tps, ((s.symbols tcx).program (n + 1)).call id tps ws = some w := by
  have himpl := hcrate.implements h hn
  have hrunsAlike := runs_alike himpl hcrate.runs hcrate.adts (hcrate.uses_defined h hn hclosed) n
  obtain ⟨r', hr'⟩ := Option.ne_none_iff_exists'.mp hgood
  obtain rfl : r' = r := Option.some.inj ((Hair.runFn_all hr').symm.trans hr)
  obtain ⟨fd, _, -, himg⟩ := himpl.fn f hf
  obtain ⟨w, hw, hcall⟩ := hrunsAlike.enter himpl hcrate.runs (hcrate.uses_defined h hn hclosed)
    hf hr' himg.id hws
  exact ⟨fd.id, w, himg.id, hw, hcall⟩

end Crates

/-! ## A crate with a recursive function and with specs -/

def boolParam (owner : DefId) (id : Nat) (name : String) : Hir.Pat :=
  .binding ⟨owner, id⟩ name (some (.byValue .not)) .bool none

/-- `if b { settle(!b) } else { true }` -/
def settleBody : Hair.Expr :=
  let b : Hair.Expr := .varRef .bool ⟨⟨0, 1⟩, 0⟩
  .matchE .bool b (userArms none (.call .bool (.fnDef ⟨0, 1⟩ []) [.unary .bool .not b])
    (.block .bool true [] (some (boolExpr true))))

/--
`fn settle(b: bool) -> bool` is `1`. `fn keep(b: bool) -> bool { b }` is `2`, with the precondition
`b` as `3` and the postcondition `ret` as `4`.
-/
def specTcx : Tcx :=
  { Tcx.empty with
    defKind := fun _ => .fn
    defPathStr := fun d =>
      if d = ⟨0, 1⟩ then "settle"
      else if d = ⟨0, 2⟩ then "keep"
      else if d = ⟨0, 3⟩ then "keep::__pre_1_keep"
      else "keep::__post_2_keep"
    fnSig := fun d => { inputs := if d = ⟨0, 4⟩ then [.bool, .bool] else [.bool], output := .bool }
    parent := fun d => if d = ⟨0, 1⟩ ∨ d = ⟨0, 2⟩ then some ⟨0, 0⟩ else some ⟨0, 2⟩
    bodyOf := fun d =>
      if d = ⟨0, 1⟩ then { params := [boolParam d 0 "b"], pats := [], value := settleBody }
      else if d = ⟨0, 4⟩ then
        { params := [boolParam d 0 "b", boolParam d 1 "ret"]
          pats := []
          value := .varRef .bool ⟨d, 1⟩ }
      else { params := [boolParam d 0 "b"], pats := [], value := .varRef .bool ⟨d, 0⟩ } }

def specKrate : Hir.Crate where
  items :=
    [{ defId := ⟨0, 1⟩, ident := { name := "settle", ctxt := 0 }, kind := .fn false },
      { defId := ⟨0, 2⟩, ident := { name := "keep", ctxt := 0 }, kind := .fn false },
      { defId := ⟨0, 3⟩, ident := { name := "__pre_1_keep", ctxt := 0 }, kind := .fn true },
      { defId := ⟨0, 4⟩, ident := { name := "__post_2_keep", ctxt := 0 }, kind := .fn true }]
  traitItems := []
  otherImplItems := []

theorem specKrate_functions :
    (ItemVisitor.ofKrate specTcx specKrate).functions.map FnItem.defId = [⟨0, 1⟩, ⟨0, 2⟩] := by
  decide

/-- What the body of a definition is. -/
theorem specTcx_bodyOf {P : Hir.Body → Prop} (d : DefId)
    (hsettle : P { params := [boolParam d 0 "b"], pats := [], value := settleBody })
    (hpost : P { params := [boolParam d 0 "b", boolParam d 1 "ret"]
                 pats := []
                 value := .varRef .bool ⟨d, 1⟩ })
    (hvar : P { params := [boolParam d 0 "b"], pats := [], value := .varRef .bool ⟨d, 0⟩ }) :
    P (specTcx.bodyOf d) := by
  show P (if d = ⟨0, 1⟩ then _ else if d = ⟨0, 4⟩ then _ else _)
  split_ifs with h1 h4
  · exact hsettle
  · exact hpost
  · exact hvar

theorem settleBody_ok : ExprOk specTcx settleBody := by
  refine ⟨trivial, trivial, trivial, ⟨fun did substs heq => ⟨?_, ?_⟩, trivial, trivial⟩, trivial,
    trivial, ⟨trivial, trivial⟩, trivial⟩
  · intro item hitem
    cases hitem
  · obtain ⟨rfl, rfl⟩ := Ty.fnDef.inj heq
    intro hbox
    exact absurd hbox (by decide)

theorem settleBody_pure : PureOk specTcx settleBody := by
  refine ⟨fun _ => ?_, trivial, ⟨trivial, List.nodup_nil⟩, trivial, ⟨trivial, trivial⟩,
    ⟨trivial, List.nodup_nil⟩, trivial, ⟨trivial, trivial⟩, trivial⟩
  simp [userArms, Hair.Arm.guard]

theorem specTcx_bodyOk (d : DefId) : BodyOk specTcx d where
  value :=
    specTcx_bodyOf (P := fun body => ExprOk specTcx body.value) d settleBody_ok trivial trivial
  bindings := by
    have hbool : ∀ body : Hir.Body, (∀ b ∈ body.bindings, b.2 = .bool) → BindingsTyped body :=
      fun body hall h ty ty' hty hty' => (hall _ hty).trans (hall _ hty').symm
    refine specTcx_bodyOf (P := BindingsTyped) d (hbool _ ?_) (hbool _ ?_) (hbool _ ?_) <;>
      simp [Hir.Body.bindings, boolParam, Hir.Pat.listBindings, Hir.Pat.bindings,
        Hir.Pat.optBindings]

theorem specKrate_pure : PureCrate specTcx specKrate where
  ok := .of_noFields (fun _ => rfl) (fun _ => rfl) (fun _ => rfl) (by
    intro a ha
    cases ha)
  parts := by
    refine ⟨?_, ?_⟩ <;>
    · intro d a _ _ ha
      cases ha
  adts := by
    refine ⟨?_, ?_⟩ <;>
    · intro a ha
      cases ha
  items :=
    { items := by decide
      fns := by decide
      idents := by simp [specKrate]
      adt := by
        intro item hitem hadt
        simp only [specKrate, List.mem_cons, List.not_mem_nil, or_false] at hitem
        rcases hitem with rfl | rfl | rfl | rfl <;> simp [IsAdtItem] at hadt
      all_adts := by
        rintro d - ⟨a, ha⟩
        cases ha
      fn := by decide }
  bodies :=
    { fns := fun f _ => specTcx_bodyOk f.defId
      specs := fun _ _ d _ => specTcx_bodyOk d
      callees := by
        have hcallees : (ItemVisitor.ofKrate specTcx specKrate).callees specTcx = [⟨0, 1⟩] := rfl
        rw [hcallees]
        simp [specTcx, Tcx.empty, IsFnLike] }
  runs :=
    { pure := fun _ _ d _ => specTcx_bodyOf (P := fun body => PureOk specTcx body.value) d
        settleBody_pure trivial trivial
      params := fun _ _ d _ => specTcx_bodyOf (P := fun body => (paramHirIds body).Nodup) d
        (List.nodup_singleton _) (by simp [paramHirIds, boolParam, Hir.Pat.hirId])
        (List.nodup_singleton _)
      boxNew := by
        intro f hf
        have hmem : f.defId ∈ [DefId.mk 0 1, ⟨0, 2⟩] :=
          specKrate_functions ▸ List.mem_map_of_mem hf
        rcases List.mem_pair.mp hmem with h | h <;>
        · rw [h]
          decide }

theorem specKrate_extracts : ∃ s, processCrate specTcx specKrate .new = .ok ((), s) ∧ s.NoErrors ∧
    (s.symbols specTcx).Closed := ⟨_, rfl, by decide, by decide⟩

/-- `settle(true)` calls itself once. -/
theorem symbols_program_call_settle :
    ∃ s id, processCrate specTcx specKrate .new = .ok ((), s) ∧ s.didId ⟨0, 1⟩ = some id ∧
      ∀ tps, ((s.symbols specTcx).program 7).call id tps [.boolean true] =
        some (.boolean true) := by
  obtain ⟨s, h, hn, hclosed⟩ := specKrate_extracts
  have hf : (⟨⟨0, 1⟩, false, none, none⟩ : FnItem) ∈
      (ItemVisitor.ofKrate specTcx specKrate).functions := by decide
  have hrun : krateFn specTcx .all specKrate 6 ⟨0, 1⟩ [.bool true] = some (.bool true) := rfl
  have hgood : krateFn specTcx faithful specKrate 6 ⟨0, 1⟩ [.bool true] ≠ none := by decide
  have hws : valueImages specTcx s.didId [.bool true] = some [.boolean true] := rfl
  obtain ⟨id, w, hid, hw, hcall⟩ :=
    symbols_program_call specKrate_pure h hn hclosed hf hrun hgood hws
  obtain rfl := Option.some.inj hw
  exact ⟨s, id, h, hid, hcall⟩

/-- `fd` returns its parameter, requires it and ensures its result. -/
def IsKeep (fd : FunDef) : Prop :=
  ∃ b ret : Variable, fd.params = [{ v := b }] ∧
    fd.fullBody = .ensuring (.require (.variable b) (.variable b)) [{ v := ret }] (.variable ret)

theorem IsKeep.verified {fd : FunDef} (hkeep : IsKeep fd) (p : St.Symbols) :
    fd.Verified p [.boolean true] := by
  obtain ⟨b, ret, hparams, hbody⟩ := hkeep
  intro n σ w hσ _ hw post hpost
  rw [hparams, Env.ofParams, Env.ofParams, Option.map_some] at hσ
  obtain rfl := Option.some.inj hσ
  rw [hbody] at hw hpost
  obtain rfl := Option.some.inj hpost
  have hw : w = .boolean true := by
    simpa [St.Expr.withoutSpecs, St.Expr.eval, Env.set, eq_comm] using hw
  rw [hw]
  simp [St.Expr.eval, Env.setBinder, Env.set]

end Stainless
