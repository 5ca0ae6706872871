import RustStainless.Extraction.Scopes
import RustStainless.Extraction.ImageExtracts
import RustStainless.Macros.SpecOrder

/-!
# Scopes

A function and its specs share the variables of the parameters. In what is extracted, only these are
free, and the value that is returned in a postcondition: unless a body refers to a binding that
stands inside the pattern of a parameter, below an `@`. Such a binding has a variable too, but it is
no parameter, and nothing binds it.
-/

namespace Hir

/-- The bindings inside the patterns of parameters: below an `@`. -/
def innerBindings : List Pat → List (Rustc.HirId × Rustc.Ty)
  | [] => []
  | .binding _ _ _ _ subpattern :: ps => Pat.optBindings subpattern ++ innerBindings ps
  | .other _ subpatterns :: ps => Pat.listBindings subpatterns ++ innerBindings ps

end Hir

namespace Stainless

open Rustc St Lib Extraction

/-! ## Bodies -/

/--
What rustc guarantees for the names in a body: a reference is to a binding of the body, and to one
of a parameter if it is bound nowhere in the value.
-/
structure BodyScoped (tcx : Tcx) (body : Hir.Body) : Prop where
  params : (paramHirIds body).Nodup
  inner : ∀ h ∈ paramHirIds body, h ∉ (Hir.innerBindings body.params).map Prod.fst
  value : ExprOk tcx body.value
  bound : ∀ h ∈ body.value.vars, h ∈ body.bindings.map Prod.fst
  refs : ∀ h ∈ exprRefs body.value, h ∈ (Hir.Pat.listBindings body.params).map Prod.fst

/-- The body refers to no binding inside the pattern of a parameter. -/
def NoInnerRefs (body : Hir.Body) : Prop :=
  ∀ h ∈ exprRefs body.value, h ∉ (Hir.innerBindings body.params).map Prod.fst

instance (body : Hir.Body) : Decidable (NoInnerRefs body) :=
  inferInstanceAs (Decidable (∀ _ ∈ _, _))

/-- No reference of the body fails, in any extraction that has registered the bindings. -/
def FetchesAll (tcx : Tcx) (d : DefId) : Prop :=
  ∀ (txtcx : TyExtractionCtxt) (m m' : Assoc String Flags) (vars vars' : Vars) (s s' : Extraction),
    populateDefContext tcx txtcx (tcx.bodyOf d) m vars s = .ok ((vars', m'), s') →
      ∀ h ∈ paramHirIds (tcx.bodyOf d) ++ (tcx.bodyOf d).value.vars, ∀ t : Extraction,
        ∃ v, fetchVar { txtcx := txtcx, vars := vars' } h t = .ok (v, t)

/-- A binding of the parameters is a parameter, or inside the pattern of one. -/
theorem mem_paramBindings {h : HirId} : ∀ {ps : List Hir.Pat},
    h ∈ (Hir.Pat.listBindings ps).map Prod.fst →
      h ∈ ps.map Hir.Pat.hirId ∨ h ∈ (Hir.innerBindings ps).map Prod.fst
  | p :: ps, hh => by
    rw [Hir.Pat.listBindings, List.map_append, List.mem_append] at hh
    have hrest : h ∈ (Hir.Pat.listBindings ps).map Prod.fst →
        h ∈ ps.map Hir.Pat.hirId ∨ h ∈ (Hir.innerBindings ps).map Prod.fst := mem_paramBindings
    cases p with
    | binding hirId name mode ty sub =>
      rw [Hir.innerBindings, List.map_append, List.mem_append, List.map_cons, List.mem_cons]
      rcases hh with hh | hh
      · rw [Hir.Pat.bindings, List.map_cons] at hh
        rcases List.mem_cons.mp hh with rfl | hh
        · exact .inl (.inl rfl)
        · exact .inr (.inl hh)
      · exact (hrest hh).imp .inr .inr
    | other hirId subs =>
      rw [Hir.innerBindings, List.map_append, List.mem_append, List.map_cons, List.mem_cons]
      rcases hh with hh | hh
      · exact .inr (.inl hh)
      · exact (hrest hh).imp .inr .inr

section Bodies

variable {tcx : Tcx} {body : Hir.Body}

/-- Then every reference is to a parameter. -/
theorem BodyScoped.noInnerRefs_iff (hb : BodyScoped tcx body) :
    NoInnerRefs body ↔ ∀ h ∈ exprRefs body.value, h ∈ paramHirIds body := by
  constructor
  · intro h g hg
    exact (mem_paramBindings (hb.refs g hg)).resolve_right (h g hg)
  · exact fun h g hg => hb.inner g (h g hg)

theorem fetchesAll (hok : TcxOk tcx) {d : DefId} (hb : BodyScoped tcx (tcx.bodyOf d)) :
    FetchesAll tcx d := by
  intro txtcx m m' vars vars' s s' hrun h hh t
  obtain ⟨hmoves, hparams⟩ := populateDefContext_ok hok hrun
  have hsome : vars'.get? h ≠ none := by
    rcases List.mem_append.mp hh with hh | hh
    · obtain ⟨p, hp, rfl⟩ := List.mem_map.mp hh
      exact hparams p hp
    · obtain ⟨b, hb', rfl⟩ := List.mem_map.mp (hb.bound h hh)
      exact hmoves.covers b hb'
  obtain ⟨v, hv⟩ := Option.ne_none_iff_exists'.mp hsome
  refine ⟨v, ?_⟩
  simp only [fetchVar, hv]
  rfl

end Bodies

/-! ## Variables of a body -/

section Images

variable {tcx : Tcx} {s : Extraction} {body : Hir.Body} {ctx : BodyCtxt} {vars : Vars}
  {t : St.Expr} {vs : List Variable}

theorem PathIds.of_idsOk (hi : IdsOk tcx s) : PathIds tcx s.didId := by
  intro d id hd
  rw [← hi.did_path d id hd]

/-- The variables of a body stay apart if those that were there before do. -/
theorem BodyImage.ownVars (himg : BodyImage tcx s.view body ctx vars t) (hi : IdsOk tcx s)
    (hctx : OwnVars ctx) : OwnVars { ctx with vars := vars } := by
  intro h h' v hv hv'
  cases hc : ctx.vars.get? h with
  | some w =>
    obtain rfl : w = v := Option.some.inj ((himg.keeps h w hc).symm.trans hv)
    cases hc' : ctx.vars.get? h' with
    | some w' =>
      obtain rfl : w' = w := Option.some.inj ((himg.keeps h' w' hc').symm.trans hv')
      exact hctx h h' w' hc hc'
    | none => exact absurd (himg.later h w h' w hc hv' hc') (lt_irrefl _)
  | none =>
    cases hc' : ctx.vars.get? h' with
    | some w' =>
      obtain rfl : w' = v := Option.some.inj ((himg.keeps h' w' hc').symm.trans hv')
      exact absurd (himg.later h' w' h w' hc' hv hc) (lt_irrefl _)
    | none => exact hi.hid_inj h h' _ _ (himg.own h v hv hc) (himg.own h' v hv' hc') rfl

/--
Only the variables of the parameters are free if there are no inner references, and then only.
-/
theorem BodyImage.scoped_iff (himg : BodyImage tcx s.view body ctx vars t) (hi : IdsOk tcx s)
    (hctx : OwnVars ctx) (hb : BodyScoped tcx body)
    (hvars : ∀ v, v ∈ vs ↔ ∃ h ∈ paramHirIds body, vars.get? h = some v) :
    (∀ v ∈ t.freeVars, v ∈ vs) ↔ NoInnerRefs body := by
  have hown : OwnVars { ctx with vars := vars } := himg.ownVars hi hctx
  have hfree : ∀ v, v ∈ t.freeVars ↔
      VarOf { ctx with vars := vars } (exprRefs body.value) v := fun v =>
    (exprImage_extracts _ _ himg.expr).mem_freeVars hown (.of_idsOk hi) hb.value v
  rw [hb.noInnerRefs_iff]
  constructor
  · intro h g hg
    obtain ⟨b, hbound, rfl⟩ := List.mem_map.mp (hb.refs g hg)
    obtain ⟨v, hv⟩ := Option.ne_none_iff_exists'.mp
      (himg.covers b (List.mem_append_left _ hbound))
    obtain ⟨p, hp, hpv⟩ := (hvars v).mp (h v ((hfree v).mpr ⟨b.1, hg, hv⟩))
    rw [hown b.1 p v hv hpv]
    exact hp
  · intro h v hv
    obtain ⟨g, hg, hgv⟩ := (hfree v).mp hv
    exact (hvars v).mpr ⟨g, h g hg, hgv⟩

end Images

/-! ## Specs -/

theorem zip_right_inj {α β : Type} {b : β} : ∀ {as : List α} {bs : List β} {a a' : α},
    bs.Nodup → (a, b) ∈ as.zip bs → (a', b) ∈ as.zip bs → a = a'
  | [], _, a, a', _, h, _ => by simp at h
  | _ :: _, [], a, a', _, h, _ => by simp at h
  | c :: as, d :: bs, a, a', hnodup, h, h' => by
    obtain ⟨hd, hnodup⟩ := List.nodup_cons.mp hnodup
    rw [List.zip_cons_cons, List.mem_cons] at h h'
    rcases h with h | h
    · rcases h' with h' | h'
      · exact (congrArg Prod.fst h).trans (congrArg Prod.fst h').symm
      · obtain rfl := congrArg Prod.snd h
        exact absurd (List.of_mem_zip h').2 hd
    · rcases h' with h' | h'
      · obtain rfl := congrArg Prod.snd h'
        exact absurd (List.of_mem_zip h).2 hd
      · exact zip_right_inj hnodup h h'

section Specs

variable {tcx : Tcx} {s : Extraction} {d : DefId} {original : TyExtractionCtxt}
  {params : List ValDef} {returnVar : Option Variable} {ctx : BodyCtxt} {vars : Vars} {t : St.Expr}

/-- The parameters of a spec function have the variables of the original function. -/
theorem Correlated.ownVars (h : Correlated tcx d original params returnVar ctx)
    (hnodup : (params.map (·.v) ++ returnVar.toList).Nodup) : OwnVars ctx := by
  intro g g' v hv hv'
  have hmem := Assoc.mem_of_get? hv
  have hmem' := Assoc.mem_of_get? hv'
  rw [h.vars] at hmem hmem'
  exact zip_right_inj hnodup hmem hmem'

theorem Correlated.mem_iff (h : Correlated tcx d original params returnVar ctx)
    (hb : BodyScoped tcx (tcx.bodyOf d)) (himg : BodyImage tcx s.view (tcx.bodyOf d) ctx vars t)
    (v : Variable) : v ∈ params.map (·.v) ++ returnVar.toList ↔
      ∃ g ∈ paramHirIds (tcx.bodyOf d), vars.get? g = some v := by
  have hlen : (paramHirIds (tcx.bodyOf d)).length =
      (params.map (·.v) ++ returnVar.toList).length := by simp [h.arity]
  have hkeys : ctx.vars.keys = paramHirIds (tcx.bodyOf d) := by
    rw [h.vars, Assoc.keys, List.map_fst_zip hlen.le]
  have hvalues : ctx.vars.values = params.map (·.v) ++ returnVar.toList := by
    rw [h.vars, Assoc.values, List.map_snd_zip hlen.ge]
  constructor
  · intro hv
    rw [← hvalues] at hv
    obtain ⟨⟨g, w⟩, hmem, rfl⟩ := List.mem_map.mp hv
    have hget : ctx.vars.get? g = some w :=
      Assoc.get?_of_mem (by rw [hkeys]; exact hb.params) hmem
    exact ⟨g, (h.mem_vars hget).1, himg.keeps g w hget⟩
  · rintro ⟨g, hg, hv⟩
    rw [← hkeys] at hg
    obtain ⟨⟨g', w⟩, hmem, rfl⟩ := List.mem_map.mp hg
    have hget : ctx.vars.get? g' = some w :=
      Assoc.get?_of_mem (by rw [hkeys]; exact hb.params) hmem
    obtain rfl : w = v := Option.some.inj ((himg.keeps g' w hget).symm.trans hv)
    rw [← hvalues]
    exact List.mem_map_of_mem hmem

/-- A spec predicate is about the parameters of the function and what it returns. -/
theorem SpecImage.scoped_iff (h : SpecImage tcx s.view original params returnVar d t)
    (hi : IdsOk tcx s) (hb : BodyScoped tcx (tcx.bodyOf d))
    (hnodup : (params.map (·.v) ++ returnVar.toList).Nodup) :
    (∀ v ∈ t.freeVars, v ∈ params.map (·.v) ++ returnVar.toList) ↔
      NoInnerRefs (tcx.bodyOf d) := by
  obtain ⟨ctx, vars, hctx, himg⟩ := h
  have hcorr := correlateSpecFn_ok hctx
  exact himg.scoped_iff hi (hcorr.ownVars hnodup) hb (hcorr.mem_iff hb himg)

end Specs

/-! ## Functions -/

theorem mem_wrapDecreases_freeVars {measure : Option St.Expr} {e : St.Expr} {v : Variable} :
    v ∈ (wrapDecreases measure e).freeVars ↔ (∃ m ∈ measure, v ∈ m.freeVars) ∨ v ∈ e.freeVars := by
  cases measure with
  | none => simp [wrapDecreases]
  | some m => simp [wrapDecreases, Expr.freeVars]

theorem mem_wrapRequire_freeVars {ts : List St.Expr} {e : St.Expr} {v : Variable} :
    v ∈ (wrapRequire ts e).freeVars ↔ (∃ t ∈ ts, v ∈ t.freeVars) ∨ v ∈ e.freeVars := by
  cases ts with
  | nil => simp [wrapRequire]
  | cons t ts =>
    show v ∈ (St.Expr.require (makeAnd (t :: ts)) e).freeVars ↔ _
    rw [Expr.freeVars, List.mem_append, mem_makeAnd_freeVars]

/-- The lambda of a postcondition binds what is returned. -/
theorem mem_wrapEnsuring_freeVars {ts : List St.Expr} {ret : Variable} {e : St.Expr}
    {v : Variable} :
    v ∈ (wrapEnsuring ts { v := ret } e).freeVars ↔
      v ∈ e.freeVars ∨ (∃ t ∈ ts, v ∈ t.freeVars) ∧ v ≠ ret := by
  cases ts with
  | nil => simp [wrapEnsuring]
  | cons t ts =>
    show v ∈ (St.Expr.ensuring e [{ v := ret }] (makeAnd (t :: ts))).freeVars ↔ _
    rw [Expr.freeVars, List.mem_append, List.mem_filter, mem_makeAnd_freeVars]
    simp

/-- The measure is what its spec function is extracted to, without the unit literal at the end. -/
theorem measureOf_freeVars {t m : St.Expr} (h : measureOf t = .ok (some m)) (v : Variable) :
    v ∈ m.freeVars ↔ v ∈ t.freeVars := by
  unfold measureOf at h
  split at h
  · rename_i exprs
    split at h
    · cases h
    · rename_i last hlast
      obtain rfl := Option.some.inj (Except.ok.inj h)
      have hexprs : exprs = exprs.dropLast ++ [last] :=
        (List.dropLast_append_getLast? last hlast).symm
      rw [Expr.freeVars, Expr.freeVars, List.mem_append, List.mem_append]
      nth_rewrite 2 [hexprs]
      rw [listFreeVars_append]
      simp [Expr.listFreeVars, Expr.freeVars]
  · cases h

/--
A function whose variables are all in scope: those of its parameters are the only ones that are free
in its full body, and in the predicates of its specs, where a postcondition has the returned value
too.
-/
structure FnScoped (tcx : Tcx) (w : View) (measure : Option DefId) (fd : FunDef) (p : FnParts) :
    Prop where
  full : fd.WellScoped
  pre : ∀ t ∈ p.preExprs, ∀ v ∈ t.freeVars, v ∈ fd.params.map (·.v)
  post : ∀ t ∈ p.postExprs, ∀ v ∈ t.freeVars, v ∈ fd.params.map (·.v) ∨ v = p.returnVar
  measure : ∀ m ∈ measure, ∃ t, SpecImage tcx w p.txtcx fd.params none m t ∧
    measureOf t = .ok p.measure ∧ ∀ v ∈ t.freeVars, v ∈ fd.params.map (·.v)

/-- Different bindings were registered with different variables. -/
theorem nodup_of_fetched {ctx : BodyCtxt} (hown : OwnVars ctx) {hs : List HirId}
    {vds : List ValDef} (hnodup : hs.Nodup)
    (h : List.Forall₂ (fun h vd => ctx.vars.get? h = some vd.v) hs vds) :
    (vds.map (·.v)).Nodup := by
  induction h with
  | nil => exact List.nodup_nil
  | @cons g vd hs vds hg hrest ih =>
    obtain ⟨hnotMem, hnodup⟩ := List.nodup_cons.mp hnodup
    refine List.nodup_cons.mpr ⟨fun hmem => hnotMem ?_, ih hnodup⟩
    obtain ⟨vd', hvd', heq⟩ := List.mem_map.mp hmem
    obtain ⟨g', hg', hget⟩ := forall₂_mem_right hrest hvd'
    have heq : vd'.v = vd.v := heq
    rw [heq] at hget
    rw [hown g g' vd.v hg hget]
    exact hg'

section Functions

variable {tcx : Tcx} {s : Extraction} {d : DefId} {pre post : List DefId} {measure : Option DefId}
  {fd : FunDef} {p : FnParts}

theorem FnImage.mem_params (h : FnImage tcx s.view d pre post measure fd p) (v : Variable) :
    v ∈ fd.params.map (·.v) ↔ ∃ g ∈ paramHirIds (tcx.bodyOf d), p.vars.get? g = some v := by
  constructor
  · intro hv
    obtain ⟨vd, hvd, rfl⟩ := List.mem_map.mp hv
    exact forall₂_mem_right h.params hvd
  · rintro ⟨g, hg, hv⟩
    obtain ⟨vd, hvd, hget⟩ := forall₂_mem_left h.params hg
    obtain rfl := Option.some.inj (hget.symm.trans hv)
    exact List.mem_map_of_mem hvd

/-- The parameters and what is returned have different variables. -/
theorem FnImage.nodup (h : FnImage tcx s.view d pre post measure fd p) (hi : IdsOk tcx s)
    (hb : BodyScoped tcx (tcx.bodyOf d)) :
    (fd.params.map (·.v)).Nodup ∧ (fd.params.map (·.v) ++ [p.returnVar]).Nodup := by
  have hown : OwnVars { txtcx := p.txtcx, vars := p.vars } :=
    h.body.ownVars hi fun g g' v hv => by simp at hv
  have hparams : (fd.params.map (·.v)).Nodup := nodup_of_fetched hown hb.params h.params
  refine ⟨hparams, hparams.append (List.nodup_singleton _) ?_⟩
  intro v hv hret
  obtain ⟨vd, hvd, rfl⟩ := List.mem_map.mp hv
  have hlt := h.returnLater vd hvd
  rw [List.mem_singleton.mp hret] at hlt
  exact lt_irrefl _ hlt

/-- **A function is well scoped if neither its body nor one of its specs refers to a binding inside
the pattern of a parameter, and only then.** -/
theorem FnImage.scoped_iff (h : FnImage tcx s.view d pre post measure fd p) (hi : IdsOk tcx s)
    (hbodies : ∀ g ∈ d :: (pre ++ post ++ measure.toList), BodyScoped tcx (tcx.bodyOf g)) :
    FnScoped tcx s.view measure fd p ↔
      ∀ g ∈ d :: (pre ++ post ++ measure.toList), NoInnerRefs (tcx.bodyOf g) := by
  have hb : BodyScoped tcx (tcx.bodyOf d) := hbodies d List.mem_cons_self
  have hbPre : ∀ g ∈ pre, BodyScoped tcx (tcx.bodyOf g) := fun g hg => hbodies g (by simp [hg])
  have hbPost : ∀ g ∈ post, BodyScoped tcx (tcx.bodyOf g) := fun g hg => hbodies g (by simp [hg])
  have hbMeasure : ∀ g ∈ measure, BodyScoped tcx (tcx.bodyOf g) :=
    fun g hg => hbodies g (by simp [Option.mem_def.mp hg])
  obtain ⟨hnodup, hnodupRet⟩ := h.nodup hi hb
  have hbody : (∀ v ∈ p.bodyExpr.freeVars, v ∈ fd.params.map (·.v)) ↔ NoInnerRefs (tcx.bodyOf d) :=
    h.body.scoped_iff hi (fun g g' v hv => by simp at hv) hb h.mem_params
  have hspec : ∀ {g : DefId} {t : St.Expr}, BodyScoped tcx (tcx.bodyOf g) →
      SpecImage tcx s.view p.txtcx fd.params none g t →
      ((∀ v ∈ t.freeVars, v ∈ fd.params.map (·.v)) ↔ NoInnerRefs (tcx.bodyOf g)) := by
    intro g t hg himg
    have hiff := himg.scoped_iff hi hg (by simpa using hnodup)
    simpa using hiff
  have hspecPost : ∀ {g : DefId} {t : St.Expr}, BodyScoped tcx (tcx.bodyOf g) →
      SpecImage tcx s.view p.txtcx fd.params (some p.returnVar) g t →
      ((∀ v ∈ t.freeVars, v ∈ fd.params.map (·.v) ∨ v = p.returnVar) ↔
        NoInnerRefs (tcx.bodyOf g)) := by
    intro g t hg himg
    have hiff := himg.scoped_iff hi hg hnodupRet
    simpa using hiff
  constructor
  · intro hs g hg
    rcases List.mem_cons.mp hg with rfl | hg
    · refine hbody.mp fun v hv => hs.full v ?_
      rw [h.fullBody, FnParts.fullBody, mem_wrapEnsuring_freeVars, mem_wrapRequire_freeVars,
        mem_wrapDecreases_freeVars]
      exact .inl (.inr (.inr hv))
    · rcases List.mem_append.mp hg with hg | hg
      · rcases List.mem_append.mp hg with hg | hg
        · obtain ⟨t, ht, himg⟩ := forall₂_mem_left h.pre hg
          exact (hspec (hbPre g hg) himg).mp (hs.pre t ht)
        · obtain ⟨t, ht, himg⟩ := forall₂_mem_left h.post hg
          exact (hspecPost (hbPost g hg) himg).mp (hs.post t ht)
      · have hg : g ∈ measure := by simpa using hg
        obtain ⟨t, himg, -, hfree⟩ := hs.measure g hg
        exact (hspec (hbMeasure g hg) himg).mp hfree
  · intro hc
    have hpre : ∀ t ∈ p.preExprs, ∀ v ∈ t.freeVars, v ∈ fd.params.map (·.v) := by
      intro t ht
      obtain ⟨g, hg, himg⟩ := forall₂_mem_right h.pre ht
      exact (hspec (hbPre g hg) himg).mpr (hc g (by simp [hg]))
    have hpost : ∀ t ∈ p.postExprs, ∀ v ∈ t.freeVars,
        v ∈ fd.params.map (·.v) ∨ v = p.returnVar := by
      intro t ht
      obtain ⟨g, hg, himg⟩ := forall₂_mem_right h.post ht
      exact (hspecPost (hbPost g hg) himg).mpr (hc g (by simp [hg]))
    have hmeasure : ∀ m ∈ measure, ∃ t, SpecImage tcx s.view p.txtcx fd.params none m t ∧
        measureOf t = .ok p.measure ∧ ∀ v ∈ t.freeVars, v ∈ fd.params.map (·.v) := by
      intro m hm
      obtain ⟨t, himg, ht⟩ := h.measure m hm
      exact ⟨t, himg, ht, (hspec (hbMeasure m hm) himg).mpr (hc m (by simp [Option.mem_def.mp hm]))⟩
    refine ⟨?_, hpre, hpost, hmeasure⟩
    intro v hv
    rw [h.fullBody, FnParts.fullBody, mem_wrapEnsuring_freeVars, mem_wrapRequire_freeVars,
      mem_wrapDecreases_freeVars] at hv
    rcases hv with (⟨t, ht, hv⟩ | ⟨m, hm, hv⟩ | hv) | ⟨⟨t, ht, hv⟩, hne⟩
    · exact hpre t ht v hv
    · cases hspecs : measure with
      | none =>
        rw [h.noMeasure hspecs] at hm
        cases hm
      | some g =>
        obtain ⟨t, -, ht, hfree⟩ := hmeasure g hspecs
        rw [Option.mem_def.mp hm] at ht
        exact hfree v ((measureOf_freeVars ht v).mp hv)
    · exact hbody.mpr (hc d List.mem_cons_self) v hv
    · exact (hpost t ht v hv).resolve_right hne

end Functions

end Stainless

namespace StainlessMacros

open Stainless Rustc St Lib

/-! ## The functions of the crate -/

/-- A function and its specs, as the visitor has found them. -/
def fnBodies (tcx : Tcx) (krate : Hir.Crate) (d : DefId) : List DefId :=
  d :: ((ItemVisitor.ofKrate tcx krate).specIds .pre d ++
    (ItemVisitor.ofKrate tcx krate).specIds .post d ++
    ((ItemVisitor.ofKrate tcx krate).specIds .measure d).head?.toList)

/-- What was extracted for a function of the crate is well scoped. -/
def EntryScoped (tcx : Tcx) (krate : Hir.Crate) (w : View) (d : DefId) (fd : FunDef) : Prop :=
  ∃ p, FnImage tcx w d ((ItemVisitor.ofKrate tcx krate).specIds .pre d)
      ((ItemVisitor.ofKrate tcx krate).specIds .post d)
      ((ItemVisitor.ofKrate tcx krate).specIds .measure d).head? fd p ∧
    FnScoped tcx w ((ItemVisitor.ofKrate tcx krate).specIds .measure d).head? fd p

variable {tcx : Tcx} {krate : Hir.Crate}

theorem fnBodies_subset (hk : KrateOk tcx krate) {d : DefId} (hd : d ∈ krateFns krate) :
    fnBodies tcx krate d ⊆ krateFns krate := by
  have hspecs : ∀ t, (ItemVisitor.ofKrate tcx krate).specIds t d ⊆ krateFns krate := by
    intro t g hg
    rw [ofKrate_specIds] at hg
    obtain ⟨item, hitem, hg⟩ := List.mem_flatMap.mp hg
    exact List.mem_flatMap.mpr ⟨item, hitem, itemSpecs_subset hk hitem hg⟩
  intro g hg
  rcases List.mem_cons.mp hg with rfl | hg
  · exact hd
  · rcases List.mem_append.mp hg with hg | hg
    · rcases List.mem_append.mp hg with hg | hg
      · exact hspecs .pre hg
      · exact hspecs .post hg
    · exact hspecs .measure (List.mem_of_head? (by simpa using hg))

/--
No reference fails, in the function or in its specs. Everything that is extracted is well scoped
**if and only if** none of them refers to a binding inside the pattern of a parameter.
-/
theorem entryScoped_iff (hok : TcxOk tcx) (hk : KrateOk tcx krate)
    (hbodies : ∀ g ∈ krateFns krate, BodyScoped tcx (tcx.bodyOf g)) {s : Extraction}
    (hrun : processCrate tcx krate .new = .ok ((), s)) (hn : s.NoErrors) {d : DefId}
    (hd : d ∈ krateFns krate) {e : Int × FunDef} (he : e ∈ s.functions)
    (hid : s.didId d = some e.2.id) :
    ((∀ g ∈ fnBodies tcx krate d, FetchesAll tcx g) ∧ EntryScoped tcx krate s.view d e.2) ↔
      ∀ g ∈ fnBodies tcx krate d, NoInnerRefs (tcx.bodyOf g) := by
  have hi : IdsOk tcx s := (processCrate_ok hok hk hrun hn).2.inv.ids
  have hscoped : ∀ g ∈ fnBodies tcx krate d, BodyScoped tcx (tcx.bodyOf g) :=
    fun g hg => hbodies g (fnBodies_subset hk hd hg)
  constructor
  · rintro ⟨-, p, himg, hs⟩
    exact (himg.scoped_iff hi hscoped).mp hs
  · intro hc
    obtain ⟨p, himg, -⟩ := fnImage_of_processCrate hok hk hrun hn hd he hid
    exact ⟨fun g hg => fetchesAll hok (hscoped g hg), p, himg, (himg.scoped_iff hi hscoped).mpr hc⟩

theorem twoPres_bodyScoped (d : DefId) :
    BodyScoped (twoPresTcx true) ((twoPresTcx true).bodyOf d) where
  params := by simp [twoPresTcx, paramHirIds, Hir.Pat.hirId]
  inner := by simp [twoPresTcx, Hir.innerBindings, Hir.Pat.optBindings]
  value := trivial
  bound := by
    intro h hh
    by_cases hd : d.index = 3 <;>
      simp_all [twoPresTcx, Hair.Expr.vars, Hir.Body.bindings, Hir.Pat.listBindings,
        Hir.Pat.bindings]
  refs := by
    intro h hh
    by_cases hd : d.index = 3 <;>
      simp_all [twoPresTcx, exprRefs, Hir.Pat.listBindings, Hir.Pat.bindings]

/-- The two preconditions are about the parameters of the function. -/
theorem entryScoped_twoPres :
    ∃ s, processCrate (twoPresTcx true) (twoPresKrate true) .new = .ok ((), s) ∧
      ∃ e ∈ s.functions, (∀ g ∈ fnBodies (twoPresTcx true) (twoPresKrate true) ⟨0, 4⟩,
        FetchesAll (twoPresTcx true) g) ∧
        EntryScoped (twoPresTcx true) (twoPresKrate true) s.view ⟨0, 4⟩ e.2 := by
  obtain ⟨s, hrun, hn, e, he, hid⟩ : ∃ s,
      processCrate (twoPresTcx true) (twoPresKrate true) .new = .ok ((), s) ∧ s.NoErrors ∧
        ∃ e ∈ s.functions, s.didId ⟨0, 4⟩ = some e.2.id :=
    ⟨_, rfl, by decide, _, List.mem_cons_self, rfl⟩
  have hiff := entryScoped_iff (twoPresTcx_ok true) (twoPresKrate_ok true)
    (fun g _ => twoPres_bodyScoped g) hrun hn (by decide) he hid
  exact ⟨s, hrun, e, he, hiff.mpr (by decide)⟩

/-! ## A binding below an `@` -/

/-- The body of `fn f(x @ (a, b): (i32, i32)) -> i32 { a }`. -/
def atBody : Hir.Body where
  params :=
    [.binding ⟨⟨0, 0⟩, 0⟩ "x" (some (.byValue .not)) (.tuple [.int .i32, .int .i32])
      (some (.other ⟨⟨0, 0⟩, 1⟩
        [.binding ⟨⟨0, 0⟩, 2⟩ "a" (some (.byValue .not)) (.int .i32) none,
          .binding ⟨⟨0, 0⟩, 3⟩ "b" (some (.byValue .not)) (.int .i32) none]))]
  pats := []
  value := .block (.int .i32) true [] (some (.varRef (.int .i32) ⟨⟨0, 0⟩, 2⟩))

def atTcx : Tcx :=
  { Tcx.empty with
    defKind := fun _ => .fn
    defPathStr := fun _ => "f"
    fnSig := fun _ => { inputs := [.tuple [.int .i32, .int .i32]], output := .int .i32 }
    bodyOf := fun _ => atBody }

def atKrate : Hir.Crate where
  items := [{ defId := ⟨0, 0⟩, ident := { name := "f", ctxt := 0 }, kind := .fn false }]
  traitItems := []
  otherImplItems := []

/-- The function is extracted, and `a` is free in it: `x` is the only parameter. -/
theorem atKrate_not_wellScoped :
    BodyScoped atTcx (atTcx.bodyOf ⟨0, 0⟩) ∧
      ∃ s fd, processCrate atTcx atKrate .new = .ok ((), s) ∧ s.NoErrors ∧
        s.functions.values = [fd] ∧ ¬ fd.WellScoped := by
  refine ⟨⟨by decide, by decide, ?_, by decide, by decide⟩, _, _, rfl, by decide, rfl, by decide⟩
  exact ⟨trivial, trivial⟩

end StainlessMacros
