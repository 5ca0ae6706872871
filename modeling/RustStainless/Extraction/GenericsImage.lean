import RustStainless.Lib.Lists
import RustStainless.Extraction.TyImage

/-!
# Extraction of generics

The context that `extract_generics` returns has one entry for each plain type parameter, in their
order, and behind these one for each parameter with an `Fn`-like bound.
-/

namespace Stainless

open Rustc St Lib Extraction

variable {tcx : Tcx}

/-! ## The entries of the context -/

/-- The entry of a type parameter that stays one. -/
def TparamImage (ids : DefId → Option SymbolIdentifier) (p : GenericParamDef) (e : Nat × TyParam) :
    Prop :=
  e.1 = p.index ∧ ∃ id, ids p.defId = some id ∧ e.2 = .extracted { id := id, flags := [] }

/-- The entry of a type parameter that is replaced by a function type. -/
def HofImage (tcx : Tcx) (ids : DefId → Option SymbolIdentifier) (tps : Nat → Option TyParam)
    (returns : Assoc Nat Ty) (f : Nat × List Ty) (e : Nat × TyParam) : Prop :=
  e.1 = f.1 ∧ ∃ tpes returnTy tpe,
    tysImage tcx ids tps f.2 = some tpes ∧
    returns.get? f.1 = some returnTy ∧
    tyImage tcx ids tps returnTy = some tpe ∧
    e.2 = .replaced (.functionType tpes tpe)

/-- The context of a definition under the ids of a state. -/
structure GenericsImage (tcx : Tcx) (ids : DefId → Option SymbolIdentifier) (d : DefId)
    (txtcx : TyExtractionCtxt) : Prop where
  defId : txtcx.defId = d
  nodup : txtcx.indexToTparam.keys.Nodup
  entries : ∃ plain hofs, txtcx.indexToTparam = plain ++ hofs ∧
    List.Forall₂ (TparamImage ids) (plainParamsOf tcx d) plain ∧
    List.Forall₂ (HofImage tcx ids txtcx.indexToTparam.get?
        (funReturnsOf tcx (tcx.predicatesOf d)))
      (tcx.iterOrder.iter (.tparamToFunParams d) (funParamsOf tcx (tcx.predicatesOf d))) hofs

section Mono

variable {ids ids' : DefId → Option SymbolIdentifier}

theorem TparamImage.mono (hi : ∀ d id, ids d = some id → ids' d = some id) {p : GenericParamDef}
    {e : Nat × TyParam} (h : TparamImage ids p e) : TparamImage ids' p e := by
  obtain ⟨hidx, id, hid, he⟩ := h
  exact ⟨hidx, id, hi _ _ hid, he⟩

theorem HofImage.mono {tps tps' : Nat → Option TyParam} {returns : Assoc Nat Ty}
    (hi : ∀ d id, ids d = some id → ids' d = some id)
    (ht : ∀ i p, tps i = some p → tps' i = some p) {f : Nat × List Ty} {e : Nat × TyParam}
    (h : HofImage tcx ids tps returns f e) : HofImage tcx ids' tps' returns f e := by
  obtain ⟨hidx, tpes, returnTy, tpe, h1, h2, h3, he⟩ := h
  exact ⟨hidx, tpes, returnTy, tpe, tysImage_mono hi ht _ h1, h2, tyImage_mono hi ht _ h3, he⟩

theorem GenericsImage.mono (hi : ∀ d id, ids d = some id → ids' d = some id) {d : DefId}
    {txtcx : TyExtractionCtxt} (h : GenericsImage tcx ids d txtcx) :
    GenericsImage tcx ids' d txtcx where
  defId := h.defId
  nodup := h.nodup
  entries := by
    obtain ⟨plain, hofs, hm, hplain, hhofs⟩ := h.entries
    exact ⟨plain, hofs, hm, hplain.imp fun _ _ hp => hp.mono hi,
      hhofs.imp fun _ _ hf => hf.mono hi fun _ _ hp => hp⟩

end Mono

/-! ## Type parameters -/

/-- The parameters that a scan of bounds leaves as type parameters. -/
def plainParams (bounds : FunBounds) (ps : List GenericParamDef) : List GenericParamDef :=
  ps.filter fun p => p.kind = .type && !bounds.params.contains p.index

theorem plainParams_eq {bounds : FunBounds} {d : DefId}
    (h : bounds.params = funParamsOf tcx (tcx.predicatesOf d)) :
    plainParams bounds (allGenericParamsOf tcx d) = plainParamsOf tcx d := by
  simp [plainParams, plainParamsOf, isFunParam, h]

/-- The entries have the indices of the parameters. -/
theorem tparamImages_keys {ids : DefId → Option SymbolIdentifier} {ps : List GenericParamDef}
    {m : Assoc Nat TyParam} (h : List.Forall₂ (TparamImage ids) ps m) :
    m.keys = ps.map (·.index) := by
  induction h with
  | nil => rfl
  | cons hp _ ih => simp [Assoc.keys, hp.1, ← ih]

theorem extractTparams_ok {bounds : FunBounds} :
    ∀ (ps : List GenericParamDef) {m m' : Assoc Nat TyParam} {s s' : Extraction},
    (∀ p ∈ ps, p.kind = .type → tcx.defKind p.defId = .tyParam) →
      (m.keys ++ ps.map (·.index)).Nodup →
    extractTparams tcx bounds ps m s = .ok (m', s') →
    AdtMoves tcx ∅ s s' ∧ ∃ plain, m' = m ++ plain ∧
      List.Forall₂ (TparamImage s'.didId) (plainParams bounds ps) plain := by
  intro ps
  induction ps with
  | nil =>
    intro m m' s s' hk hnd h
    obtain ⟨rfl, rfl⟩ := Run.pure_ok.mp h
    exact ⟨.refl s, [], by simp, .nil⟩
  | cons p ps ih =>
    intro m m' s s' hk hnd h
    have hkp := hk p List.mem_cons_self
    have hkps : ∀ q ∈ ps, q.kind = .type → tcx.defKind q.defId = .tyParam :=
      fun q hq => hk q (List.mem_cons_of_mem _ hq)
    have hnd' : (m.keys ++ ps.map (·.index)).Nodup := by
      refine hnd.sublist ?_
      simp
    rw [extractTparams] at h
    cases hkind : p.kind with
    | type =>
      rw [hkind] at h
      simp only at h
      cases hc : bounds.params.contains p.index with
      | true =>
        rw [if_pos hc] at h
        have := ih hkps hnd' h
        simpa [plainParams, hkind, hc] using this
      | false =>
        rw [if_neg (by simp [hc])] at h
        obtain ⟨id, s₁, h1, h2⟩ := Run.bind_ok.mp h
        have hm : m.get? p.index = none := by
          rw [Assoc.get?_eq_none_iff]
          intro hin
          exact (List.nodup_append.mp hnd).2.2 _ hin _ (by simp) rfl
        have hmoves₁ := getOrRegisterDef_movesBy (by simp [hkp hkind, IsAdtPart]) s id s₁ h1
        have hid : s₁.didId p.defId = some id := by
          rcases getOrRegisterDef_ok.mp h1 with ⟨hd, rfl⟩ | ⟨hd, rfl, rfl⟩
          · exact hd
          · rw [withDef_didId tcx hd, if_pos rfl]
        rw [Assoc.insert_of_get?_none hm] at h2
        have hnd₂ : (Assoc.keys (m ++ [(p.index, TyParam.extracted { id := id, flags := [] })])
            ++ ps.map (·.index)).Nodup := by
          simpa [Assoc.keys] using hnd
        obtain ⟨hmoves₂, plain, rfl, hplain⟩ := ih hkps hnd₂ h2
        refine ⟨?_, (p.index, .extracted { id := id, flags := [] }) :: plain, by simp, ?_⟩
        · have := hmoves₁.trans hmoves₂
          rwa [Set.empty_union] at this
        · have hpl : plainParams bounds (p :: ps) = p :: plainParams bounds ps := by
            simp [plainParams, hkind, hc]
          rw [hpl]
          exact .cons ⟨rfl, id, hmoves₂.grows.did _ _ hid, rfl⟩ hplain
    | lifetime | const =>
      rw [hkind] at h
      obtain ⟨_, s₁, h1, h2⟩ := Run.bind_ok.mp h
      obtain ⟨hmoves, plain, hm, hplain⟩ := ih hkps hnd' h2
      refine ⟨?_, plain, hm, ?_⟩
      · have := AdtMoves.trans (unsupported_movesBy _ s _ s₁ h1) hmoves
        rwa [Set.empty_union] at this
      · simpa [plainParams, hkind] using hplain

/-! ## Parameters with function bounds -/

/-- The ADTs that the arguments and the return type of function bounds mention. -/
def boundsAdts (tcx : Tcx) (ps : Assoc Nat (List Ty)) (returns : Assoc Nat Ty) : Set DefId :=
  {e | ∃ p ∈ ps, e ∈ tysAdts tcx p.2 ∨ ∃ ty, returns.get? p.1 = some ty ∧ e ∈ tyAdts tcx ty}

theorem boundsAdts_cons {p : Nat × List Ty} {ps : Assoc Nat (List Ty)} {returns : Assoc Nat Ty}
    {returnTy : Ty} (hr : returns.get? p.1 = some returnTy) (hp : p.1 ∉ ps.keys) :
    boundsAdts tcx (p :: ps) returns =
      {e | e ∈ tysAdts tcx p.2} ∪ ({e | e ∈ tyAdts tcx returnTy} ∪
        boundsAdts tcx ps (returns.remove p.1)) := by
  ext e
  have hget : ∀ q ∈ ps, (returns.remove p.1).get? q.1 = returns.get? q.1 := by
    intro q hq
    exact Assoc.get?_remove_of_ne fun he =>
      hp (he ▸ List.mem_map.mpr ⟨q, hq, rfl⟩)
  simp only [boundsAdts, Set.mem_ofPred_eq, Set.mem_union, List.mem_cons, exists_eq_or_imp, hr,
    Option.some.injEq, exists_eq_left']
  rw [or_assoc]
  refine or_congr_right (or_congr_right ?_)
  constructor
  · rintro ⟨q, hq, he⟩
    exact ⟨q, hq, by rwa [hget q hq]⟩
  · rintro ⟨q, hq, he⟩
    exact ⟨q, hq, by rwa [hget q hq] at he⟩

/-- Which parameters are known matters only as a set. -/
theorem hofOrderOk_congr : ∀ {known known' : List Nat} {ps : Assoc Nat (List Ty)}
    {returns : Assoc Nat Ty}, (∀ i, i ∈ known ↔ i ∈ known') →
    HofOrderOk tcx known ps returns → HofOrderOk tcx known' ps returns := by
  intro known known' ps
  induction ps generalizing known known' with
  | nil => exact fun _ _ => trivial
  | cons p ps ih =>
    rintro returns hk ⟨h1, ⟨returnTy, h2, h3⟩, h4, h5⟩
    refine ⟨fun i hi => (hk i).mp (h1 i hi),
      ⟨returnTy, h2, fun i hi => (hk i).mp (h3 i hi)⟩, fun hi => h4 ((hk _).mpr hi), ih ?_ h5⟩
    intro i
    simp [hk i]

section Replace

variable {adtId : DefId → Xtor SymbolIdentifier}

/-- What replacing the parameters with function bounds does to the context. -/
structure Replaced (tcx : Tcx) (ps : Assoc Nat (List Ty)) (returns : Assoc Nat Ty)
    (txtcx txtcx' : TyExtractionCtxt) (s s' : Extraction) : Prop where
  moves : AdtMoves tcx (boundsAdts tcx ps returns) s s'
  defId : txtcx'.defId = txtcx.defId
  nodup : txtcx'.indexToTparam.keys.Nodup
  entries : ∃ hofs, txtcx'.indexToTparam = txtcx.indexToTparam ++ hofs ∧
    List.Forall₂ (HofImage tcx s'.didId txtcx'.indexToTparam.get? returns) ps hofs
  order : HofOrderOk tcx txtcx.indexToTparam.keys ps returns

theorem replaceHofParams_ok (hadt : AdtIdSpec tcx adtId) :
    ∀ (ps : Assoc Nat (List Ty)) {returns : Assoc Nat Ty} {txtcx txtcx' : TyExtractionCtxt}
      {s s' : Extraction}, ps.keys.Nodup → txtcx.indexToTparam.keys.Nodup →
    replaceHofParams tcx adtId ps returns txtcx s = .ok (txtcx', s') →
    Replaced tcx ps returns txtcx txtcx' s s' := by
  intro ps
  induction ps with
  | nil =>
    intro returns txtcx txtcx' s s' hps hnd h
    obtain ⟨rfl, rfl⟩ := Run.pure_ok.mp h
    refine ⟨?_, rfl, hnd, ⟨[], by simp, .nil⟩, trivial⟩
    simp only [boundsAdts, List.not_mem_nil, false_and, exists_false, Set.ofPred_false]
    exact .refl s
  | cons p ps ih =>
    intro returns txtcx txtcx' s s' hps hnd h
    obtain ⟨index, paramTys⟩ := p
    obtain ⟨hp, hps⟩ := List.nodup_cons.mp hps
    rw [replaceHofParams] at h
    obtain ⟨paramTps, s₁, h1, h⟩ := Run.bind_ok.mp h
    cases hr : returns.get? index with
    | none => simp [hr] at h
    | some returnTy =>
      rw [hr] at h
      obtain ⟨returnTpe, s₂, h2, h⟩ := Run.bind_ok.mp h
      cases hc : txtcx.indexToTparam.contains index with
      | true => simp [hc] at h
      | false =>
        rw [if_neg (by simp [hc])] at h
        have hnone := Assoc.contains_eq_false.mp hc
        have hrec := ih hps (Assoc.nodup_keys_insert hnd _ _) h
        have hmoves₁ := extractTysWith_movesBy txtcx hadt.moves paramTys s paramTps s₁ h1
        have hmoves₂ := extractTyWith_movesBy txtcx hadt.moves returnTy s₁ returnTpe s₂ h2
        have himg₁ := extractTysWith_image txtcx hadt paramTys h1
        have himg₂ := extractTyWith_image txtcx hadt returnTy h2
        have hg₂ := hmoves₂.grows.trans hrec.moves.grows
        obtain ⟨hofs, hm, hhofs⟩ := hrec.entries
        have htps : ∀ i q, txtcx.indexToTparam.get? i = some q →
            txtcx'.indexToTparam.get? i = some q := by
          intro i q hq
          rw [hm, Assoc.get?_append, Assoc.insert_of_get?_none hnone, Assoc.get?_append, hq]
          rfl
        refine ⟨?_, hrec.defId, hrec.nodup, ?_, ?_⟩
        · rw [boundsAdts_cons hr hp]
          exact hmoves₁.trans (hmoves₂.trans hrec.moves)
        · refine ⟨(index, .replaced (.functionType paramTps returnTpe)) :: hofs, ?_, ?_⟩
          · rw [hm, Assoc.insert_of_get?_none hnone]
            simp
          · refine .cons ⟨rfl, paramTps, returnTy, returnTpe, ?_, hr, ?_, rfl⟩ ?_
            · exact tysImage_mono hg₂.did htps paramTys himg₁
            · exact tyImage_mono hrec.moves.grows.did htps returnTy himg₂
            · refine hhofs.imp ?_
              rintro f e ⟨hidx, tpes, rty, tpe, hi₁, hr', hi₂, he⟩
              exact ⟨hidx, tpes, rty, tpe, hi₁, Assoc.get?_of_remove hr', hi₂, he⟩
        · have hknown : ∀ i, txtcx.indexToTparam.get? i ≠ none → i ∈ txtcx.indexToTparam.keys :=
            fun i hi => Assoc.get?_isSome_iff.mp (Option.isSome_iff_ne_none.mpr hi)
          refine ⟨fun i hi => hknown i (tysImage_params paramTys himg₁ i hi),
            ⟨returnTy, hr, fun i hi => hknown i (tyImage_params returnTy himg₂ i hi)⟩,
            Assoc.get?_eq_none_iff.mp hnone, hofOrderOk_congr ?_ hrec.order⟩
          intro i
          simp [Assoc.keys_insert_of_none hnone, or_comm]

/-! ## Generics -/

/-- What `extract_generics` returns for a definition that is not a closure. -/
structure GenericsExtracted (tcx : Tcx) (d : DefId) (tparams : List TypeParameterDef)
    (txtcx : TyExtractionCtxt) (s s' : Extraction) : Prop where
  moves : AdtMoves tcx (genericsAdts tcx d) s s'
  checked : GenericsOk tcx d
  image : GenericsImage tcx s'.didId d txtcx
  tparams : tparams = tparamDefs tcx txtcx

theorem extractGenericsWith_ok (hok : TcxOk tcx) (hadt : AdtIdSpec tcx adtId) {d : DefId}
    (hcl : tcx.isClosure d = false) {s s' : Extraction} {tparams : List TypeParameterDef}
    {txtcx : TyExtractionCtxt}
    (h : extractGenericsWith tcx adtId d s = .ok ((tparams, txtcx), s')) :
    GenericsExtracted tcx d tparams txtcx s s' := by
  rw [extractGenericsWith, if_neg (by simp [hcl])] at h
  obtain ⟨bounds, s₁, h1, h⟩ := Run.bind_ok.mp h
  obtain ⟨m, s₂, h2, h⟩ := Run.bind_ok.mp h
  obtain ⟨txtcx', s₃, h3, h⟩ := Run.bind_ok.mp h
  obtain ⟨heq, rfl⟩ := Run.pure_ok.mp h
  obtain ⟨rfl, rfl⟩ := Prod.mk.inj heq
  have hscan := scanPredicates_ok _ h1
  have hparams : bounds.params = funParamsOf tcx (tcx.predicatesOf d) := by simpa using hscan.params
  have hreturns : bounds.returns = funReturnsOf tcx (tcx.predicatesOf d) := by
    simpa using hscan.returns
  have hnd₁ : bounds.params.keys.Nodup := hscan.params_nodup (by simp [Assoc.keys])
  have hnd₂ : bounds.returns.keys.Nodup := hscan.returns_nodup (by simp [Assoc.keys])
  obtain ⟨hmoves₂, plain, hm₂, hplain⟩ := extractTparams_ok _ (hok.tparam_kind d hcl)
    (by simpa [Assoc.keys] using hok.tparam_index d) h2
  rw [List.nil_append] at hm₂
  subst hm₂
  rw [plainParams_eq hparams] at hplain
  have hidx : m.keys = (plainParamsOf tcx d).map (·.index) := tparamImages_keys hplain
  have hplain_nodup : m.keys.Nodup := by
    rw [hidx]
    exact (hok.tparam_index d).sublist (List.filter_sublist.map _)
  have hperm := tcx.iterOrder.perm (.tparamToFunParams d) bounds.params
  have hrep := replaceHofParams_ok hadt _ (((hperm.map Prod.fst).nodup_iff).mpr hnd₁)
    hplain_nodup h3
  rw [hparams, hreturns] at hrep
  refine ⟨?_, ⟨?_, ?_, ?_⟩, ⟨hrep.defId, hrep.nodup, ?_⟩, rfl⟩
  · have hmoves := (hscan.warns.adtMoves.trans hmoves₂).trans hrep.moves
    have hw : ∅ ∪ ∅ ∪ boundsAdts tcx (tcx.iterOrder.iter (.tparamToFunParams d)
        (funParamsOf tcx (tcx.predicatesOf d))) (funReturnsOf tcx (tcx.predicatesOf d)) =
        genericsAdts tcx d := by
      simp only [boundsAdts, genericsAdts, tcx.iterOrder.mem_iter, Set.empty_union]
    rwa [hw] at hmoves
  · rw [← hparams]; exact hnd₁
  · rw [← hreturns]; exact hnd₂
  · rw [← hidx]; exact hrep.order
  · obtain ⟨hofs, hm, hhofs⟩ := hrep.entries
    exact ⟨m, hofs, hm, hplain.imp fun _ _ hp => hp.mono hrep.moves.grows.did, hhofs⟩

end Replace

end Stainless
