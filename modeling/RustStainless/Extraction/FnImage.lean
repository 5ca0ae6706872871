import RustStainless.Extraction.BindingsImage
import RustStainless.Extraction.Krate

/-!
# Extraction of functions

What a local function is extracted to when no error is reported, read off a later view of the ids:
its body and the bodies of its spec functions are images, each under the variables that were
registered for it, and the spec functions share the variables of the parameters.
-/

namespace Stainless

open Rustc St Lib Extraction

/-! ## Views -/

/-- The ids of definitions and HIR nodes, as a state shows them. -/
structure View where
  ids : Ids
  hids : HirId → Option SymbolIdentifier

def Extraction.view (s : Extraction) : View := { ids := s.didId, hids := s.hidId }

/-- The view still has all ids of the state. -/
structure Sees (s : Extraction) (w : View) : Prop where
  did : ∀ d id, s.didId d = some id → w.ids d = some id
  hid : ∀ h id, s.hidId h = some id → w.hids h = some id

theorem Sees.self (s : Extraction) : Sees s s.view := ⟨fun _ _ h => h, fun _ _ h => h⟩

theorem Grows.sees {s s' : Extraction} (h : Grows s s') {w : View} (hs : Sees s' w) : Sees s w :=
  ⟨fun d id hd => hs.did d id (h.did d id hd), fun g id hg => hs.hid g id (h.hid g id hg)⟩

/-! ## Bodies and functions -/

section Images

variable (tcx : Tcx) (w : View)

/--
A body that is extracted with the variables `vars`, of which `ctx.vars` were there before: the
others got their ids while the body was visited.
-/
structure BodyImage (body : Hir.Body) (ctx : BodyCtxt) (vars : Vars) (t : St.Expr) : Prop where
  keeps : ∀ h v, ctx.vars.get? h = some v → vars.get? h = some v
  own : ∀ h v, vars.get? h = some v → ctx.vars.get? h = none → w.hids h = some v.id
  typed : ∀ h v, vars.get? h = some v → ctx.vars.get? h = none → ∃ ty, (h, ty) ∈ body.bindings ∧
    suppImage tcx w.ids ctx.txtcx.indexToTparam.get? ty = some v.tpe
  later : ∀ h v g u, ctx.vars.get? h = some v → vars.get? g = some u → ctx.vars.get? g = none →
    v.id.globalId < u.id.globalId
  covers : ∀ b ∈ body.bindings, vars.get? b.1 ≠ none
  params : ∀ p ∈ body.params, vars.get? p.hirId ≠ none
  expr : exprImage tcx w.ids { ctx with vars := vars } body.value = some t

/-- The body of a spec function, with the variables of the original function for its parameters. -/
def SpecImage (original : TyExtractionCtxt) (params : List ValDef) (returnVar : Option Variable)
    (d : DefId) (t : St.Expr) : Prop :=
  ∃ ctx vars, correlateSpecFn tcx d original params returnVar = .ok ctx ∧
    BodyImage tcx w (tcx.bodyOf d) ctx vars t

/-- What a function is put together from. -/
structure FnParts where
  txtcx : TyExtractionCtxt
  vars : Vars
  bodyExpr : St.Expr
  measure : Option St.Expr
  preExprs : List St.Expr
  returnVar : Variable
  postExprs : List St.Expr

def FnParts.fullBody (p : FnParts) : St.Expr :=
  wrapEnsuring p.postExprs { v := p.returnVar }
    (wrapRequire p.preExprs (wrapDecreases p.measure p.bodyExpr))

/-- A local function with its specs, put together from `p`. -/
structure FnImage (d : DefId) (pre post : List DefId) (measure : Option DefId) (fd : FunDef)
    (p : FnParts) : Prop where
  id : w.ids d = some fd.id
  generics : GenericsImage tcx w.ids d p.txtcx
  tparams : fd.tparams = tparamDefs tcx p.txtcx
  body : BodyImage tcx w (tcx.bodyOf d) { txtcx := p.txtcx, vars := [] } p.vars p.bodyExpr
  params : List.Forall₂ (fun h vd => p.vars.get? h = some vd.v) (paramHirIds (tcx.bodyOf d))
    fd.params
  returnType : suppImage tcx w.ids p.txtcx.indexToTparam.get? (tcx.fnSig d).output =
    some fd.returnType
  noMeasure : measure = none → p.measure = none
  measure : ∀ m ∈ measure, ∃ t, SpecImage tcx w p.txtcx fd.params none m t ∧
    measureOf t = .ok p.measure
  pre : List.Forall₂ (SpecImage tcx w p.txtcx fd.params none) pre p.preExprs
  returnTpe : p.returnVar.tpe = fd.returnType
  returnLater : ∀ vd ∈ fd.params, vd.v.id.globalId < p.returnVar.id.globalId
  post : List.Forall₂ (SpecImage tcx w p.txtcx fd.params (some p.returnVar)) post p.postExprs
  fullBody : fd.fullBody = p.fullBody

end Images

variable {tcx : Tcx}

theorem liftPanic_ok {α : Type} {x : Except Panic α} {a : α} {s s' : Extraction} :
    liftPanic x s = .ok (a, s') ↔ x = .ok a ∧ s' = s := by
  cases x with
  | error e => simp [liftPanic]
  | ok b =>
    rw [liftPanic, Run.pure_ok]
    simp [eq_comm]

variable (hok : TcxOk tcx)

include hok

/-! ## Bodies -/

/-- Registering the bindings of a body and extracting its value gives an image of the body. -/
theorem extractBody_ok (ctx : BodyCtxt) {body : Hir.Body} {m m' : Assoc String Flags} {vars : Vars}
    {t : St.Expr} {s s₁ s₂ s' : Extraction} (hi : BodyInv tcx s)
    (hbefore : ∀ h v, ctx.vars.get? h = some v → v.id.globalId < s.idCount)
    (h1 : populateDefContext tcx ctx.txtcx body m ctx.vars s = .ok ((vars, m'), s₁))
    (hbetween : BodyMoves tcx s₁ s₂)
    (h2 : extractExpr tcx { ctx with vars := vars } body.value s₂ = .ok (t, s')) :
    BodyMoves tcx s s' ∧ (s'.NoErrors → ∀ w, Sees s' w → BodyImage tcx w body ctx vars t) := by
  obtain ⟨hvars, hparams⟩ := populateDefContext_ok hok h1
  have hi₂ := hbetween.inv (hvars.moves.inv hi)
  obtain ⟨hmoves₂, himg⟩ := extractExpr_image hok hi₂ h2
  have hmoves₁ := hbetween.trans hmoves₂
  refine ⟨hvars.moves.trans hmoves₁, fun hn w hw => ?_⟩
  have hw₁ := hmoves₁.grows.sees hw
  refine ⟨hvars.keeps, ?_, ?_, ?_, hvars.covers, hparams, himg hn w.ids hw.did⟩
  · exact fun h v hv hnone => hw₁.hid h _ (hvars.fresh h v hv hnone).1
  · intro h v hv hnone
    obtain ⟨ty, hty, himg⟩ := hvars.typed h v hv hnone (hmoves₁.grows.noErrors hn)
    exact ⟨ty, hty, suppImage_mono hw₁.did himg⟩
  · intro h v g u hv hu hnone
    exact lt_of_lt_of_le (hbefore h v hv) (hvars.fresh g u hu hnone).2

/-! ## Spec functions -/

omit hok in
theorem correlateParams_ok : ∀ (vs : List Variable) {hs : List HirId} {vars vars' : Vars},
    correlateParams vs hs vars = .ok vars' →
    vars' = vars ++ hs.zip vs ∧ ∀ h ∈ (hs.zip vs).map Prod.fst, vars.get? h = none := by
  intro vs
  induction vs with
  | nil =>
    intro hs vars vars' h
    rw [correlateParams] at h
    · obtain rfl := Except.ok.inj h
      simp
    · simp
  | cons v vs ih =>
    intro hs vars vars' h
    cases hs with
    | nil =>
      rw [correlateParams] at h
      · obtain rfl := Except.ok.inj h
        simp
      · simp
    | cons g hs =>
      rw [correlateParams] at h
      split at h
      · simp at h
      · next hc =>
        have hn : vars.get? g = none := by simpa [Assoc.contains] using hc
        obtain ⟨hvars, hrest⟩ := ih h
        rw [Assoc.insert_of_get?_none hn] at hvars hrest
        refine ⟨by simp [hvars], ?_⟩
        intro k hk
        simp only [List.zip_cons_cons, List.map_cons, List.mem_cons] at hk
        rcases hk with rfl | hk
        · exact hn
        · have := hrest k hk
          rw [Assoc.get?_concat] at this
          exact (Option.or_eq_none_iff.mp this).1

/-- What a spec function is correlated to. -/
structure Correlated (tcx : Tcx) (d : DefId) (original : TyExtractionCtxt) (params : List ValDef)
    (returnVar : Option Variable) (ctx : BodyCtxt) : Prop where
  parent : (tcx.genericsOf d).parent = (tcx.genericsOf original.defId).parent
  generics : (allGenericParamsOf tcx d).length = original.indexToTparam.length
  tparams : correlateTparams original.indexToTparam (allGenericParamsOf tcx d) [] =
    .ok ctx.txtcx.indexToTparam
  defId : ctx.txtcx.defId = d
  arity : (paramHirIds (tcx.bodyOf d)).length = params.length + returnVar.toList.length
  vars : ctx.vars =
    (paramHirIds (tcx.bodyOf d)).zip (params.map (·.v) ++ returnVar.toList)
  registered : correlateParams (params.map (·.v) ++ returnVar.toList)
    (paramHirIds (tcx.bodyOf d)) [] = .ok ctx.vars

omit hok in
theorem correlateSpecFn_ok {d : DefId} {original : TyExtractionCtxt} {params : List ValDef}
    {returnVar : Option Variable} {ctx : BodyCtxt}
    (h : correlateSpecFn tcx d original params returnVar = .ok ctx) :
    Correlated tcx d original params returnVar ctx := by
  unfold correlateSpecFn at h
  split at h
  · simp at h
  · next hparent =>
    split at h
    · simp at h
    · next hgenerics =>
      cases htps : correlateTparams original.indexToTparam (allGenericParamsOf tcx d) [] with
      | error e =>
        rw [htps] at h
        cases h
      | ok indexToTparam =>
        rw [htps] at h
        change (if _ then _ else _) = _ at h
        split at h
        · simp at h
        · next hempty =>
          split at h
          · simp at h
          · next harity =>
            cases hvars : correlateParams (params.map (·.v) ++ returnVar.toList)
                (paramHirIds (tcx.bodyOf d)) [] with
            | error e =>
              rw [hvars] at h
              cases h
            | ok vars =>
              rw [hvars] at h
              obtain rfl := Except.ok.inj h
              refine ⟨by simpa using hparent, by simpa using hgenerics, htps, rfl, ?_, ?_, hvars⟩
              · cases returnVar with
                | none => simpa using (not_not.mp harity).symm
                | some r =>
                  have hne : paramHirIds (tcx.bodyOf d) ≠ [] := by simpa using hempty
                  have := List.length_pos_of_ne_nil hne
                  simp only [Option.toList_some, List.length_singleton] at harity ⊢
                  omega
              · simpa using (correlateParams_ok _ hvars).1

omit hok in
/-- The variables that are there from the start are those of the parameters. -/
theorem Correlated.mem_vars {d : DefId} {original : TyExtractionCtxt} {params : List ValDef}
    {returnVar : Option Variable} {ctx : BodyCtxt}
    (h : Correlated tcx d original params returnVar ctx)
    {g : HirId} {v : Variable} (hv : ctx.vars.get? g = some v) :
    g ∈ paramHirIds (tcx.bodyOf d) ∧ (v ∈ params.map (·.v) ∨ returnVar = some v) := by
  have hmem := Assoc.mem_of_get? hv
  rw [h.vars] at hmem
  obtain ⟨hg, hv⟩ := List.of_mem_zip hmem
  refine ⟨hg, ?_⟩
  rcases List.mem_append.mp hv with hv | hv
  · exact .inl hv
  · exact .inr (by simpa using hv)

/-- Ids handed out in a state. -/
abbrev Old (s : Extraction) (v : Variable) : Prop := v.id.globalId < s.idCount

theorem extractSpecFn_ok {d : DefId} {original : TyExtractionCtxt} {params : List ValDef}
    {returnVar : Option Variable} {t : St.Expr} {s s' : Extraction} (hi : BodyInv tcx s)
    (hparams : ∀ vd ∈ params, Old s vd.v) (hret : ∀ r ∈ returnVar, Old s r)
    (h : extractSpecFn tcx d original params returnVar s = .ok (t, s')) :
    BodyMoves tcx s s' ∧
      (s'.NoErrors → ∀ w, Sees s' w → SpecImage tcx w original params returnVar d t) := by
  unfold extractSpecFn at h
  obtain ⟨ctx, s₁, h1, h⟩ := Run.bind_ok.mp h
  obtain ⟨⟨vars, m⟩, s₂, h2, h3⟩ := Run.bind_ok.mp h
  obtain ⟨hctx, rfl⟩ := liftPanic_ok.mp h1
  have hbefore : ∀ g v, ctx.vars.get? g = some v → Old s₁ v := by
    intro g v hv
    rcases ((correlateSpecFn_ok hctx).mem_vars hv).2 with hv | hv
    · obtain ⟨vd, hvd, rfl⟩ := List.mem_map.mp hv
      exact hparams vd hvd
    · exact hret v hv
  obtain ⟨hmoves, himg⟩ := extractBody_ok hok ctx hi hbefore h2 (.refl s₂) h3
  exact ⟨hmoves, fun hn w hw => ⟨ctx, vars, hctx, himg hn w hw⟩⟩

theorem extractSpecFns_ok {original : TyExtractionCtxt} {params : List ValDef}
    {returnVar : Option Variable} : ∀ (ds : List DefId) {ts : List St.Expr} {s s' : Extraction},
    BodyInv tcx s → (∀ vd ∈ params, Old s vd.v) → (∀ r ∈ returnVar, Old s r) →
    extractSpecFns tcx original params returnVar ds s = .ok (ts, s') →
    BodyMoves tcx s s' ∧ (s'.NoErrors → ∀ w, Sees s' w →
      List.Forall₂ (SpecImage tcx w original params returnVar) ds ts) := by
  intro ds
  induction ds with
  | nil =>
    intro ts s s' _ _ _ h
    obtain ⟨rfl, rfl⟩ := Run.pure_ok.mp h
    exact ⟨.refl s, fun _ _ _ => .nil⟩
  | cons d ds ih =>
    intro ts s s' hi hparams hret h
    rw [extractSpecFns] at h
    obtain ⟨t, s₁, h1, h⟩ := Run.bind_ok.mp h
    obtain ⟨ts', s₂, h2, h⟩ := Run.bind_ok.mp h
    obtain ⟨rfl, rfl⟩ := Run.pure_ok.mp h
    obtain ⟨hmoves₁, himg₁⟩ := extractSpecFn_ok hok hi hparams hret h1
    have hcount := hmoves₁.grows.count
    obtain ⟨hmoves₂, himg₂⟩ := ih (hmoves₁.inv hi)
      (fun vd hvd => lt_of_lt_of_le (hparams vd hvd) (Int.ofNat_le.mpr hcount))
      (fun r hr => lt_of_lt_of_le (hret r hr) (Int.ofNat_le.mpr hcount)) h2
    refine ⟨hmoves₁.trans hmoves₂, fun hn w hw => .cons ?_ (himg₂ hn w hw)⟩
    exact himg₁ (hmoves₂.grows.noErrors hn) w (hmoves₂.grows.sees hw)

theorem extractMeasure_ok {original : TyExtractionCtxt} {params : List ValDef}
    {measure : Option DefId} {m : Option St.Expr} {s s' : Extraction} (hi : BodyInv tcx s)
    (hparams : ∀ vd ∈ params, Old s vd.v)
    (h : extractMeasure tcx original params measure s = .ok (m, s')) :
    BodyMoves tcx s s' ∧ (measure = none → m = none) ∧ (s'.NoErrors → ∀ w, Sees s' w →
      ∀ d ∈ measure, ∃ t, SpecImage tcx w original params none d t ∧ measureOf t = .ok m) := by
  cases measure with
  | none =>
    obtain ⟨rfl, rfl⟩ := Run.pure_ok.mp h
    exact ⟨.refl s, fun _ => rfl, by simp⟩
  | some d =>
    obtain ⟨t, s₁, h1, h2⟩ := Run.bind_ok.mp h
    obtain ⟨hm, rfl⟩ := liftPanic_ok.mp h2
    obtain ⟨hmoves, himg⟩ := extractSpecFn_ok hok hi hparams (by simp) h1
    refine ⟨hmoves, by simp, fun hn w hw e he => ?_⟩
    obtain rfl : d = e := by simpa using he
    exact ⟨t, himg hn w hw, hm⟩

/-! ## Local functions -/

omit hok in
theorem fetchParams_ok {ctx : BodyCtxt} : ∀ (hs : List HirId) {vds : List ValDef}
    {s s' : Extraction}, fetchParams ctx hs s = .ok (vds, s') →
    s' = s ∧ List.Forall₂ (fun h vd => ctx.vars.get? h = some vd.v) hs vds := by
  intro hs
  induction hs with
  | nil =>
    intro vds s s' h
    obtain ⟨rfl, rfl⟩ := Run.pure_ok.mp h
    exact ⟨rfl, .nil⟩
  | cons g hs ih =>
    intro vds s s' h
    rw [fetchParams] at h
    obtain ⟨v, s₁, h1, h⟩ := Run.bind_ok.mp h
    obtain ⟨rest, s₂, h2, h⟩ := Run.bind_ok.mp h
    obtain ⟨rfl, rfl⟩ := Run.pure_ok.mp h
    unfold fetchVar at h1
    cases hv : ctx.vars.get? g with
    | none => simp [hv] at h1
    | some u =>
      rw [hv] at h1
      obtain ⟨rfl, rfl⟩ := Run.pure_ok.mp h1
      obtain ⟨rfl, hrest⟩ := ih h2
      exact ⟨rfl, .cons hv hrest⟩

theorem extractTy_moves {txtcx : TyExtractionCtxt} {ty : Ty} {t : Tpe} {s s' : Extraction}
    (h : extractTy tcx txtcx ty s = .ok (t, s')) :
    BodyMoves tcx s s' ∧ (s'.NoErrors → ∀ w, Sees s' w →
      suppImage tcx w.ids txtcx.indexToTparam.get? ty = some t) := by
  have hspec := extractAdtId_spec hok
  refine ⟨(extractTyWith_movesBy txtcx hspec.moves ty s t s' h).bodyMoves, fun hn w hw => ?_⟩
  simp only [suppImage, extractTyWith_supported txtcx hspec.moves ty h hn, if_true]
  exact tyImage_mono hw.did (fun _ _ hp => hp) ty (extractTyWith_image txtcx hspec ty h)

/-- What the extraction of the function itself, without its specs, returns. -/
structure FnBodyExtracted (tcx : Tcx) (w : View) (d : DefId) (txtcx : TyExtractionCtxt)
    (params : List ValDef) (returnTpe : Tpe) (bodyExpr : St.Expr) (vars : Vars) : Prop where
  body : BodyImage tcx w (tcx.bodyOf d) { txtcx := txtcx, vars := [] } vars bodyExpr
  params : List.Forall₂ (fun h vd => vars.get? h = some vd.v) (paramHirIds (tcx.bodyOf d)) params
  returnType : suppImage tcx w.ids txtcx.indexToTparam.get? (tcx.fnSig d).output = some returnTpe

theorem extractFnBody_ok {d : DefId} {txtcx : TyExtractionCtxt} {m m' : Assoc String Flags}
    {params : List ValDef} {returnTpe : Tpe} {bodyExpr : St.Expr} {s s' : Extraction}
    (hi : BodyInv tcx s)
    (h : extractFnBody tcx d txtcx m s = .ok ((params, returnTpe, bodyExpr, m'), s')) :
    BodyMoves tcx s s' ∧ (∀ vd ∈ params, Old s' vd.v) ∧ ∃ vars, s'.NoErrors → ∀ w, Sees s' w →
      FnBodyExtracted tcx w d txtcx params returnTpe bodyExpr vars := by
  unfold extractFnBody at h
  obtain ⟨⟨vars, m₁⟩, s₁, h1, h⟩ := Run.bind_ok.mp h
  obtain ⟨tpe, s₂, h2, h⟩ := Run.bind_ok.mp h
  obtain ⟨vds, s₃, h3, h⟩ := Run.bind_ok.mp h
  obtain ⟨t, s₄, h4, h⟩ := Run.bind_ok.mp h
  obtain ⟨heq, rfl⟩ := Run.pure_ok.mp h
  simp only [Prod.mk.injEq] at heq
  obtain ⟨rfl, rfl, rfl, rfl⟩ := heq
  obtain ⟨rfl, hparams⟩ := fetchParams_ok _ h3
  obtain ⟨hmoves₂, himg₂⟩ := extractTy_moves hok h2
  obtain ⟨hvars, -⟩ := populateDefContext_ok hok h1
  obtain ⟨hmoves₄, -⟩ := extractExpr_image hok (hmoves₂.inv (hvars.moves.inv hi)) h4
  obtain ⟨hmoves, himg⟩ := extractBody_ok hok { txtcx := txtcx, vars := [] } hi
    (by simp) h1 hmoves₂ h4
  refine ⟨hmoves, ?_, vars, fun hn w hw => ⟨himg hn w hw, hparams, ?_⟩⟩
  · intro vd hvd
    obtain ⟨g, -, hg⟩ := forall₂_mem_right hparams hvd
    have hid := (hvars.fresh g vd.v hg rfl).1
    exact (hmoves.inv hi).ids.hid_lt g _ ((hmoves₂.trans hmoves₄).grows.hid g _ hid)
  · exact himg₂ (hmoves₄.grows.noErrors hn) w (hmoves₄.grows.sees hw)

omit hok in
theorem extractFnRef_moves {d : DefId} {id : SymbolIdentifier} {s s' : Extraction}
    (h : extractFnRef tcx d s = .ok (id, s')) (hi : BodyInv tcx s) :
    BodyMoves tcx s s' ∧ s'.didId d = some id := by
  refine ⟨((extractFnRef_readsBack d) s id s' hi h).1, ?_⟩
  rcases extractFnRef_ok.mp h with ⟨hd, rfl⟩ | ⟨hd, -, rfl, rfl⟩
  · exact hd
  · show (s.withDef tcx d).didId d = _
    rw [withDef_didId tcx hd, if_pos rfl]

/-- **A local function that is extracted without an error is put together from images.** -/
theorem extractLocalFn_ok {d : DefId} {pre post : List DefId} {measure : Option DefId}
    {fd : FunDef} {s s' : Extraction} (hclosure : tcx.isClosure d = false) (hi : BodyInv tcx s)
    (h : extractLocalFn tcx d pre post measure s = .ok (fd, s')) :
    d.isLocal ∧ BodyMoves tcx s s' ∧ s'.didId d = some fd.id ∧
      ∃ p, s'.NoErrors → ∀ w, Sees s' w → FnImage tcx w d pre post measure fd p := by
  unfold extractLocalFn at h
  split at h
  · simp at h
  · next hlocal =>
    obtain ⟨flags, s₁, h1, h⟩ := Run.bind_ok.mp h
    obtain ⟨⟨tparams, txtcx⟩, s₂, h2, h⟩ := Run.bind_ok.mp h
    obtain ⟨⟨params, returnTpe, bodyExpr, m⟩, s₃, h3, h⟩ := Run.bind_ok.mp h
    obtain ⟨_, s₄, h4, h⟩ := Run.bind_ok.mp h
    obtain ⟨measureExpr, s₅, h5, h⟩ := Run.bind_ok.mp h
    obtain ⟨preExprs, s₆, h6, h⟩ := Run.bind_ok.mp h
    obtain ⟨returnId, s₇, h7, h⟩ := Run.bind_ok.mp h
    obtain ⟨postExprs, s₈, h8, h⟩ := Run.bind_ok.mp h
    obtain ⟨funId, s₉, h9, h⟩ := Run.bind_ok.mp h
    obtain ⟨rfl, rfl⟩ := Run.pure_ok.mp h
    have hmoves₁ : BodyMoves tcx s s₁ := (extractFlagsFrom_warns _ h1).bodyMoves
    have hgen := extractGenericsWith_ok hok (extractAdtId_spec hok) hclosure h2
    have hmoves₂ := hmoves₁.trans hgen.moves.bodyMoves
    obtain ⟨hmoves₃, hold₃, vars, hbody⟩ := extractFnBody_ok hok (hmoves₂.inv hi) h3
    have hmoves₄ : BodyMoves tcx s₃ s₄ := (reportUnusedFlags_warns h4).bodyMoves
    have hi₄ := hmoves₄.inv (hmoves₃.inv (hmoves₂.inv hi))
    have hold₄ : ∀ vd ∈ params, Old s₄ vd.v :=
      fun vd hvd => lt_of_lt_of_le (hold₃ vd hvd) (Int.ofNat_le.mpr hmoves₄.grows.count)
    obtain ⟨hmoves₅, hnone, hmeasure⟩ := extractMeasure_ok hok hi₄ hold₄ h5
    have hold₅ : ∀ vd ∈ params, Old s₅ vd.v :=
      fun vd hvd => lt_of_lt_of_le (hold₄ vd hvd) (Int.ofNat_le.mpr hmoves₅.grows.count)
    obtain ⟨hmoves₆, hpre⟩ := extractSpecFns_ok hok _ (hmoves₅.inv hi₄) hold₅ (by simp) h6
    obtain ⟨rfl, rfl⟩ := freshIdWithPath_ok.mp h7
    have hmoves₇ : BodyMoves tcx s₆ (s₆.bump "ret") := bodyMoves_bump "ret" s₆
    have hold₆ : ∀ vd ∈ params, Old s₆ vd.v :=
      fun vd hvd => lt_of_lt_of_le (hold₅ vd hvd) (Int.ofNat_le.mpr hmoves₆.grows.count)
    have hold₇ : ∀ vd ∈ params, Old (s₆.bump "ret") vd.v :=
      fun vd hvd => lt_of_lt_of_le (hold₆ vd hvd) (Int.ofNat_le.mpr hmoves₇.grows.count)
    have hi₇ := hmoves₇.inv (hmoves₆.inv (hmoves₅.inv hi₄))
    obtain ⟨hmoves₈, hpost⟩ := extractSpecFns_ok hok _ hi₇ hold₇ (by
      rintro r hr
      obtain rfl := Option.some.inj hr
      rw [Old, nextId_globalId, bump_idCount]
      omega) h8
    obtain ⟨hmoves₉, hfun⟩ := extractFnRef_moves h9 (hmoves₈.inv hi₇)
    have hrest₈ := hmoves₈.trans hmoves₉
    have hrest₆ := hmoves₇.trans hrest₈
    have hrest₅ := hmoves₆.trans hrest₆
    have hrest₃ := hmoves₄.trans (hmoves₅.trans hrest₅)
    refine ⟨by simpa using hlocal, hmoves₂.trans (hmoves₃.trans hrest₃), hfun,
      { txtcx := txtcx
        vars := vars
        bodyExpr := bodyExpr
        measure := measureExpr
        preExprs := preExprs
        returnVar := { id := s₆.nextId "ret" ["ret"], tpe := returnTpe, flags := [] }
        postExprs := postExprs }, fun hn w hw => ?_⟩
    have hb := hbody (hrest₃.grows.noErrors hn) w (hrest₃.grows.sees hw)
    exact
      { id := hw.did _ _ hfun
        generics := hgen.image.mono ((hmoves₃.trans hrest₃).grows.sees hw).did
        tparams := hgen.tparams
        body := hb.body
        params := hb.params
        returnType := hb.returnType
        noMeasure := hnone
        measure := hmeasure (hrest₅.grows.noErrors hn) w (hrest₅.grows.sees hw)
        pre := hpre (hrest₆.grows.noErrors hn) w (hrest₆.grows.sees hw)
        returnTpe := rfl
        returnLater := fun vd hvd => by
          rw [nextId_globalId]
          exact hold₆ vd hvd
        post := hpost (hmoves₉.grows.noErrors hn) w (hmoves₉.grows.sees hw)
        fullBody := rfl }

end Stainless
