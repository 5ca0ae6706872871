import RustStainless.Extraction.Bindings
import RustStainless.Extraction.ReadBack

/-!
# What is registered for a body

`VarsMoves` says what registering the bindings of some patterns does: variables that were there
stay, every binding of the patterns has one afterwards, and a new variable has the id that its node
was given on the way and the image of the type of its binding.
-/

namespace Stainless

open Rustc St Lib Extraction

variable {tcx : Tcx} {txtcx : TyExtractionCtxt}

/-! ## Steps that move the state as a body does -/

theorem WarnsOnly.bodyMoves {s s' : Extraction} (h : WarnsOnly s s') : BodyMoves tcx s s' :=
  h.adtMoves.bodyMoves

/-- A step that leaves the ids of definitions alone keeps the invariant of the bodies. -/
theorem BodyInv.of_didId {s s' : Extraction} (hi : BodyInv tcx s) (hids : IdsOk tcx s')
    (hdid : s'.didId = s.didId) (hadts : s'.adts = s.adts)
    (hrefs : s'.functionRefs = s.functionRefs) : BodyInv tcx s' where
  ids := hids
  sorts := by
    rw [hdid, hadts]
    exact hi.sorts
  refs := by
    rw [hdid, hrefs]
    exact hi.refs
  known := by
    rw [hdid, hrefs]
    exact hi.known

theorem bodyMoves_bump (name : String) (s : Extraction) : BodyMoves tcx s (s.bump name) :=
  ⟨grows_bump name, fun hi => hi.of_didId (hi.ids.bump name) rfl rfl rfl, rfl, rfl⟩

theorem bodyMoves_withHir {h : HirId} {name : String} {s : Extraction} (hn : s.hidId h = none) :
    BodyMoves tcx s (s.withHir tcx h name) :=
  ⟨grows_withHir hn, fun hi => hi.of_didId (hi.ids.withHir hn) rfl rfl rfl, rfl, rfl⟩

/-! ## Registered variables -/

/-- The variables that registering the bindings adds, and where their ids and types are from. -/
structure VarsMoves (tcx : Tcx) (txtcx : TyExtractionCtxt) (bindings : List (HirId × Ty))
    (vars vars' : Vars) (s s' : Extraction) : Prop where
  moves : BodyMoves tcx s s'
  keeps : ∀ h v, vars.get? h = some v → vars'.get? h = some v
  fresh : ∀ h v, vars'.get? h = some v → vars.get? h = none →
    s'.hidId h = some v.id ∧ s.idCount ≤ v.id.globalId
  typed : ∀ h v, vars'.get? h = some v → vars.get? h = none → s'.NoErrors →
    ∃ ty, (h, ty) ∈ bindings ∧
      suppImage tcx s'.didId txtcx.indexToTparam.get? ty = some v.tpe
  covers : ∀ b ∈ bindings, vars'.get? b.1 ≠ none

theorem suppImage_mono {ids ids' : Ids} (hi : ∀ d id, ids d = some id → ids' d = some id)
    {tps : Nat → Option TyParam} {ty : Ty} {t : Tpe} (h : suppImage tcx ids tps ty = some t) :
    suppImage tcx ids' tps ty = some t := by
  unfold suppImage at h ⊢
  split at h
  · next hs =>
    rw [if_pos hs]
    exact tyImage_mono hi (fun _ _ hp => hp) ty h
  · simp at h

theorem VarsMoves.refl (vars : Vars) (s : Extraction) :
    VarsMoves tcx txtcx [] vars vars s s where
  moves := .refl s
  keeps := fun _ _ h => h
  fresh := fun h v hv hn => by simp [hn] at hv
  typed := fun h v hv hn => by simp [hn] at hv
  covers := by simp

theorem VarsMoves.trans {bs bs' : List (HirId × Ty)} {vars vars' vars'' : Vars}
    {s s' s'' : Extraction} (h : VarsMoves tcx txtcx bs vars vars' s s')
    (h' : VarsMoves tcx txtcx bs' vars' vars'' s' s'') :
    VarsMoves tcx txtcx (bs ++ bs') vars vars'' s s'' where
  moves := h.moves.trans h'.moves
  keeps := fun g v hv => h'.keeps g v (h.keeps g v hv)
  fresh := by
    intro g v hv hn
    cases hg : vars'.get? g with
    | none =>
      obtain ⟨hid, hcount⟩ := h'.fresh g v hv hg
      exact ⟨hid, (Int.ofNat_le.mpr h.moves.grows.count).trans hcount⟩
    | some w =>
      obtain rfl : w = v := Option.some.inj ((h'.keeps g w hg).symm.trans hv)
      obtain ⟨hid, hcount⟩ := h.fresh g w hg hn
      exact ⟨h'.moves.grows.hid g _ hid, hcount⟩
  typed := by
    intro g v hv hn herr
    cases hg : vars'.get? g with
    | none =>
      obtain ⟨ty, hty, himg⟩ := h'.typed g v hv hg herr
      exact ⟨ty, List.mem_append_right _ hty, himg⟩
    | some w =>
      obtain rfl : w = v := Option.some.inj ((h'.keeps g w hg).symm.trans hv)
      obtain ⟨ty, hty, himg⟩ := h.typed g w hg hn (h'.moves.grows.noErrors herr)
      exact ⟨ty, List.mem_append_left _ hty, suppImage_mono h'.moves.grows.did himg⟩
  covers := by
    intro b hb
    rcases List.mem_append.mp hb with hb | hb
    · obtain ⟨v, hv⟩ := Option.ne_none_iff_exists'.mp (h.covers b hb)
      simp [h'.keeps _ _ hv]
    · exact h'.covers b hb

/-- Nothing happens to a binding that is registered already. -/
theorem VarsMoves.known {h : HirId} {ty : Ty} {vars : Vars} {s : Extraction}
    (hv : vars.get? h ≠ none) : VarsMoves tcx txtcx [(h, ty)] vars vars s s :=
  ⟨.refl s, fun _ _ h => h, fun g v hg hn => by simp [hn] at hg,
    fun g v hg hn => by simp [hn] at hg, by simpa using hv⟩

theorem addVar_ok {h : HirId} {v : Variable} {vars vars' : Vars} {s s' : Extraction} :
    addVar h v vars s = .ok (vars', s') ↔
      vars.get? h = none ∧ vars' = vars ++ [(h, v)] ∧ s' = s := by
  unfold addVar
  cases hc : vars.contains h with
  | true =>
    rw [if_pos rfl, Run.panic_ok]
    obtain ⟨w, hw⟩ := Option.isSome_iff_exists.mp (show (vars.get? h).isSome from hc)
    simp [hw]
  | false =>
    have hn := Assoc.contains_eq_false.mp hc
    rw [if_neg (by simp), Run.pure_ok, Assoc.insert_of_get?_none hn]
    simp [hn, eq_comm]

theorem checkBindingMode_ok {mode : Option Hir.BindMode} {u : Unit} {s s' : Extraction}
    (h : checkBindingMode mode s = .ok (u, s')) : BodyMoves tcx s s' := by
  unfold checkBindingMode at h
  split at h
  · rw [(Run.pure_ok.mp h).2]
    exact .refl s'
  · rw [(Run.pure_ok.mp h).2]
    exact .refl s'
  · exact unsupported_bodyMoves h

variable (hok : TcxOk tcx)

include hok

theorem extractBinding_ok {h : HirId} {name : String} {mode : Option Hir.BindMode} {ty : Ty}
    {sub : Option Hir.Pat} {flags : Option Flags} {vars vars' : Vars} {s s' : Extraction}
    (hrun : extractBinding tcx txtcx (.binding h name mode ty sub) flags vars s = .ok (vars', s')) :
    VarsMoves tcx txtcx [(h, ty)] vars vars' s s' := by
  unfold extractBinding at hrun
  cases hv : vars.get? (Hir.Pat.binding h name mode ty sub).hirId with
  | some v =>
    rw [hv] at hrun
    obtain ⟨rfl, rfl⟩ := Run.pure_ok.mp hrun
    exact .known (by simp [show vars.get? h = some v from hv])
  | none =>
    rw [hv] at hrun
    have hn : vars.get? h = none := hv
    obtain ⟨_, s₁, h1, hrun⟩ := Run.bind_ok.mp hrun
    obtain ⟨id, s₂, h2, hrun⟩ := Run.bind_ok.mp hrun
    obtain ⟨tpe, s₃, h3, hrun⟩ := Run.bind_ok.mp hrun
    obtain ⟨-, rfl, rfl⟩ := addVar_ok.mp hrun
    obtain ⟨hnone, rfl, rfl⟩ := registerHir_ok.mp h2
    have hmoves₁ : BodyMoves tcx _ _ := checkBindingMode_ok h1
    have hspec := extractAdtId_spec hok
    have hmoves₃ := extractTyWith_movesBy txtcx hspec.moves ty _ _ _ h3
    refine ⟨(hmoves₁.trans (bodyMoves_withHir hnone)).trans hmoves₃.bodyMoves, ?_, ?_, ?_, ?_⟩
    · intro g v hg
      rw [Assoc.get?_concat, hg]
      rfl
    · intro g v hg hgn
      rw [Assoc.get?_concat, hgn, Option.none_or] at hg
      split at hg
      · next hhg =>
        subst hhg
        obtain rfl := Option.some.inj hg
        refine ⟨hmoves₃.grows.hid _ _ ?_, ?_⟩
        · rw [withHir_hidId tcx hnone, if_pos rfl]
        · rw [hirIdent_globalId]
          exact Int.ofNat_le.mpr hmoves₁.grows.count
      · simp at hg
    · intro g v hg hgn herr
      rw [Assoc.get?_concat, hgn, Option.none_or] at hg
      split at hg
      · next hhg =>
        subst hhg
        obtain rfl := Option.some.inj hg
        refine ⟨ty, by simp, ?_⟩
        simp only [suppImage, extractTyWith_supported txtcx hspec.moves ty h3 herr, if_true]
        exact extractTyWith_image txtcx hspec ty h3
      · simp at hg
    · intro b hb
      obtain rfl := List.mem_singleton.mp hb
      rw [Assoc.get?_concat, hn]
      simp

/-! ## Visits -/

omit hok in
mutual

theorem visitPat_ok (hok : TcxOk tcx) :
    ∀ (p : Hir.Pat) {vars vars' : Vars} {s s' : Extraction},
    visitPat tcx txtcx p vars s = .ok (vars', s') →
    VarsMoves tcx txtcx p.bindings vars vars' s s'
  | .binding h name mode ty sub, vars, vars', s, s', hrun => by
    rw [visitPat] at hrun
    obtain ⟨vars₁, s₁, h1, h2⟩ := Run.bind_ok.mp hrun
    rw [Hir.Pat.bindings]
    exact (extractBinding_ok hok h1).trans (visitOptPat_ok hok sub h2)
  | .other _ pats, vars, vars', s, s', hrun => by
    rw [visitPat] at hrun
    rw [Hir.Pat.bindings]
    exact visitPats_ok hok pats hrun

theorem visitOptPat_ok (hok : TcxOk tcx) :
    ∀ (p : Option Hir.Pat) {vars vars' : Vars} {s s' : Extraction},
    visitOptPat tcx txtcx p vars s = .ok (vars', s') →
    VarsMoves tcx txtcx (Hir.Pat.optBindings p) vars vars' s s'
  | none, vars, vars', s, s', hrun => by
    rw [visitOptPat] at hrun
    obtain ⟨rfl, rfl⟩ := Run.pure_ok.mp hrun
    rw [Hir.Pat.optBindings]
    exact .refl vars s
  | some p, vars, vars', s, s', hrun => by
    rw [visitOptPat] at hrun
    rw [Hir.Pat.optBindings]
    exact visitPat_ok hok p hrun

theorem visitPats_ok (hok : TcxOk tcx) :
    ∀ (ps : List Hir.Pat) {vars vars' : Vars} {s s' : Extraction},
    visitPats tcx txtcx ps vars s = .ok (vars', s') →
    VarsMoves tcx txtcx (Hir.Pat.listBindings ps) vars vars' s s'
  | [], vars, vars', s, s', hrun => by
    rw [visitPats] at hrun
    obtain ⟨rfl, rfl⟩ := Run.pure_ok.mp hrun
    rw [Hir.Pat.listBindings]
    exact .refl vars s
  | p :: ps, vars, vars', s, s', hrun => by
    rw [visitPats] at hrun
    obtain ⟨vars₁, s₁, h1, h2⟩ := Run.bind_ok.mp hrun
    rw [Hir.Pat.listBindings]
    exact (visitPat_ok hok p h1).trans (visitPats_ok hok ps h2)

end

/-! ## Parameters -/

omit hok in
/-- A pattern that is no binding is only accepted as a parameter when it is registered. -/
theorem extractBinding_other {h : HirId} {subs : List Hir.Pat} {flags : Option Flags}
    {vars vars' : Vars} {s s' : Extraction}
    (hrun : extractBinding tcx txtcx (.other h subs) flags vars s = .ok (vars', s')) :
    vars.get? h ≠ none ∧ vars' = vars ∧ s' = s := by
  unfold extractBinding at hrun
  cases hv : vars.get? (Hir.Pat.other h subs).hirId with
  | some v =>
    rw [hv] at hrun
    obtain ⟨rfl, rfl⟩ := Run.pure_ok.mp hrun
    exact ⟨by simp [show vars.get? h = some v from hv], rfl, rfl⟩
  | none =>
    rw [hv] at hrun
    obtain ⟨_, s₁, -, h2⟩ := Run.bind_ok.mp hrun
    simp at h2

theorem extractParam_ok {p : Hir.Pat} {flags : Option Flags} {vars vars' : Vars}
    {s s' : Extraction} (hrun : extractBinding tcx txtcx p flags vars s = .ok (vars', s')) :
    VarsMoves tcx txtcx p.topBinding vars vars' s s' ∧ vars'.get? p.hirId ≠ none := by
  cases p with
  | binding h name mode ty sub =>
    have hmoves := extractBinding_ok hok hrun
    exact ⟨hmoves, hmoves.covers (h, ty) List.mem_cons_self⟩
  | other h subs =>
    obtain ⟨hv, rfl, rfl⟩ := extractBinding_other hrun
    exact ⟨.refl vars' s', hv⟩

theorem extractParams_ok : ∀ (params : List Hir.Pat) {m m' : Assoc String Flags}
    {vars vars' : Vars} {s s' : Extraction},
    extractParams tcx txtcx params m vars s = .ok ((vars', m'), s') →
    VarsMoves tcx txtcx (params.flatMap Hir.Pat.topBinding) vars vars' s s' ∧
      ∀ p ∈ params, vars'.get? p.hirId ≠ none := by
  intro params
  induction params with
  | nil =>
    intro m m' vars vars' s s' hrun
    obtain ⟨heq, rfl⟩ := Run.pure_ok.mp hrun
    obtain ⟨rfl, rfl⟩ := Prod.mk.inj heq
    exact ⟨.refl vars s, by simp⟩
  | cons p params ih =>
    intro m m' vars vars' s s' hrun
    rw [extractParams] at hrun
    obtain ⟨vars₁, s₁, h1, h2⟩ := Run.bind_ok.mp hrun
    obtain ⟨hmoves₁, hp⟩ := extractParam_ok hok h1
    obtain ⟨hmoves₂, hps⟩ := ih h2
    refine ⟨?_, ?_⟩
    · rw [List.flatMap_cons]
      exact hmoves₁.trans hmoves₂
    · intro q hq
      rcases List.mem_cons.mp hq with rfl | hq
      · obtain ⟨v, hv⟩ := Option.ne_none_iff_exists'.mp hp
        simp [hmoves₂.keeps _ _ hv]
      · exact hps q hq

omit hok in
theorem VarsMoves.congr {bs bs' : List (HirId × Ty)} {vars vars' : Vars} {s s' : Extraction}
    (h : VarsMoves tcx txtcx bs vars vars' s s') (hbs : ∀ b, b ∈ bs ↔ b ∈ bs') :
    VarsMoves tcx txtcx bs' vars vars' s s' where
  moves := h.moves
  keeps := h.keeps
  fresh := h.fresh
  typed := by simpa only [hbs] using h.typed
  covers := by simpa only [hbs] using h.covers

omit hok in
theorem topBinding_sub_bindings {params : List Hir.Pat} {b : HirId × Ty}
    (h : b ∈ params.flatMap Hir.Pat.topBinding) : b ∈ Hir.Pat.listBindings params := by
  induction params with
  | nil => simp at h
  | cons p params ih =>
    rw [List.flatMap_cons, List.mem_append] at h
    rw [Hir.Pat.listBindings, List.mem_append]
    rcases h with h | h
    · left
      cases p with
      | binding _ _ _ _ _ =>
        rw [List.mem_singleton.mp h, Hir.Pat.bindings]
        exact List.mem_cons_self
      | other _ _ => simp [Hir.Pat.topBinding] at h
    · exact .inr (ih h)

/-- **What a populated `DefContext` holds.** -/
theorem populateDefContext_ok {body : Hir.Body} {m m' : Assoc String Flags} {vars vars' : Vars}
    {s s' : Extraction}
    (hrun : populateDefContext tcx txtcx body m vars s = .ok ((vars', m'), s')) :
    VarsMoves tcx txtcx body.bindings vars vars' s s' ∧
      ∀ p ∈ body.params, vars'.get? p.hirId ≠ none := by
  unfold populateDefContext at hrun
  obtain ⟨⟨vars₁, m₁⟩, s₁, h1, hrun⟩ := Run.bind_ok.mp hrun
  obtain ⟨vars₂, s₂, h2, hrun⟩ := Run.bind_ok.mp hrun
  obtain ⟨vars₃, s₃, h3, hrun⟩ := Run.bind_ok.mp hrun
  obtain ⟨heq, rfl⟩ := Run.pure_ok.mp hrun
  obtain ⟨rfl, rfl⟩ := Prod.mk.inj heq
  obtain ⟨hmoves₁, hparams⟩ := extractParams_ok hok _ h1
  have hmoves₂ := visitPats_ok hok _ h2
  have hmoves₃ := visitPats_ok hok _ h3
  have hrest := hmoves₂.trans hmoves₃
  refine ⟨(hmoves₁.trans hrest).congr fun b => ?_, fun p hp => ?_⟩
  · unfold Hir.Body.bindings
    constructor
    · intro hb
      rcases List.mem_append.mp hb with hb | hb
      · exact List.mem_append_left _ (topBinding_sub_bindings hb)
      · exact hb
    · exact fun hb => List.mem_append_right _ hb
  · obtain ⟨v, hv⟩ := Option.ne_none_iff_exists'.mp (hparams p hp)
    simp [hrest.keeps _ _ hv]

end Stainless
