import RustStainless.Extraction.AdtMoves

/-!
# Extraction computes the image

When the extraction of a type returns, its result is the image of the type under the ids of the
final state. Images only depend on the ids and type parameters that are there, so a result stays
the image of its type in every later state.
-/

namespace Stainless

open Rustc St Lib Extraction

variable {tcx : Tcx}

/-! ## Images and growing maps -/

section Mono

variable {ids ids' : DefId → Option SymbolIdentifier} {tps tps' : Nat → Option TyParam}

mutual

theorem tyImage_mono (hi : ∀ d id, ids d = some id → ids' d = some id)
    (ht : ∀ i p, tps i = some p → tps' i = some p) :
    ∀ (ty : Ty) {t : Tpe}, tyImage tcx ids tps ty = some t → tyImage tcx ids' tps' ty = some t
  | .bool, t, h | .int _, t, h | .uint _, t, h | .ref _ .mut, t, h | .char, t, h | .str, t, h
  | .never, t, h | .fnDef _ _, t, h | .closure _ _, t, h | .other _, t, h => by
    simpa only [tyImage] using h
  | .tuple tys, t, h => by
    simp only [tyImage] at h ⊢
    cases hx : tysImage tcx ids tps tys with
    | none => simp [hx] at h
    | some tpes =>
      rw [tysImage_mono hi ht tys hx]
      rwa [hx] at h
  | .adt did substs, t, h => by
    simp only [tyImage] at h ⊢
    split
    · next hb => rwa [if_pos hb] at h
    · next hb =>
      rw [if_neg hb] at h
      split
      · next hx =>
        rw [if_pos hx] at h
        exact tyImageAt0_mono hi ht substs h
      · next hx =>
        rw [if_neg hx] at h
        split
        · next hs =>
          rw [if_pos hs] at h
          obtain ⟨u, hu, rfl⟩ := Option.map_eq_some_iff.mp h
          rw [tyImageAt0_mono hi ht substs hu]
          rfl
        · next hs =>
          rw [if_neg hs] at h
          cases hd : ids did with
          | none => simp [hd] at h
          | some id =>
            cases hx : tysImage tcx ids tps substs with
            | none => simp [hd, hx] at h
            | some tpes =>
              rw [hi did id hd, tysImage_mono hi ht substs hx]
              rwa [hd, hx] at h
  | .ref ty .not, t, h => by
    simp only [tyImage] at h ⊢
    exact tyImage_mono hi ht ty h
  | .param i, t, h => by
    simp only [tyImage] at h ⊢
    obtain ⟨p, hp, rfl⟩ := Option.map_eq_some_iff.mp h
    rw [ht i p hp]
    rfl

theorem tysImage_mono (hi : ∀ d id, ids d = some id → ids' d = some id)
    (ht : ∀ i p, tps i = some p → tps' i = some p) :
    ∀ (tys : List Ty) {ts : List Tpe},
      tysImage tcx ids tps tys = some ts → tysImage tcx ids' tps' tys = some ts
  | [], ts, h => h
  | ty :: tys, ts, h => by
    simp only [tysImage] at h ⊢
    cases hx : tyImage tcx ids tps ty with
    | none => simp [hx] at h
    | some t =>
      cases hy : tysImage tcx ids tps tys with
      | none => simp [hx, hy] at h
      | some us =>
        rw [tyImage_mono hi ht ty hx, tysImage_mono hi ht tys hy]
        rwa [hx, hy] at h

theorem tyImageAt0_mono (hi : ∀ d id, ids d = some id → ids' d = some id)
    (ht : ∀ i p, tps i = some p → tps' i = some p) :
    ∀ (tys : List Ty) {t : Tpe},
      tyImageAt0 tcx ids tps tys = some t → tyImageAt0 tcx ids' tps' tys = some t
  | [], t, h => by simp [tyImageAt0] at h
  | ty :: _, t, h => by
    simp only [tyImageAt0] at h ⊢
    exact tyImage_mono hi ht ty h

end

end Mono

/-! ## An image needs its type parameters -/

section Params

variable {ids : DefId → Option SymbolIdentifier} {tps : Nat → Option TyParam}

mutual

theorem tyImage_params : ∀ (ty : Ty) {t : Tpe}, tyImage tcx ids tps ty = some t →
    ∀ i ∈ tyParams tcx ty, tps i ≠ none
  | .bool, _, _ | .int _, _, _ | .uint _, _, _ | .ref _ .mut, _, _ | .char, _, _ | .str, _, _
  | .never, _, _ | .fnDef _ _, _, _ | .closure _ _, _, _ | .other _, _, _ => by simp [tyParams]
  | .tuple tys, t, h => by
    simp only [tyImage] at h
    simp only [tyParams]
    cases hx : tysImage tcx ids tps tys with
    | none => simp [hx] at h
    | some tpes => exact tysImage_params tys hx
  | .adt did substs, t, h => by
    simp only [tyImage] at h
    simp only [tyParams]
    split
    · simp
    · next hb =>
      rw [if_neg hb] at h
      split
      · next hx =>
        rw [if_pos hx] at h
        exact tyImageAt0_params substs h
      · next hx =>
        rw [if_neg hx] at h
        split
        · next hs =>
          rw [if_pos hs] at h
          obtain ⟨u, hu, rfl⟩ := Option.map_eq_some_iff.mp h
          exact tyImageAt0_params substs hu
        · next hs =>
          rw [if_neg hs] at h
          cases hx : tysImage tcx ids tps substs with
          | none => simp [hx] at h
          | some tpes => exact tysImage_params substs hx
  | .ref ty .not, t, h => by
    simp only [tyImage] at h
    simp only [tyParams]
    exact tyImage_params ty h
  | .param i, t, h => by
    simp only [tyImage] at h
    obtain ⟨p, hp, -⟩ := Option.map_eq_some_iff.mp h
    simp [tyParams, hp]

theorem tysImage_params : ∀ (tys : List Ty) {ts : List Tpe}, tysImage tcx ids tps tys = some ts →
    ∀ i ∈ tysParams tcx tys, tps i ≠ none
  | [], _, _ => by simp [tysParams]
  | ty :: tys, ts, h => by
    simp only [tysImage] at h
    cases hx : tyImage tcx ids tps ty with
    | none => simp [hx] at h
    | some t =>
      cases hy : tysImage tcx ids tps tys with
      | none => simp [hx, hy] at h
      | some us =>
        intro i hi
        simp only [tysParams, List.mem_append] at hi
        rcases hi with hi | hi
        · exact tyImage_params ty hx i hi
        · exact tysImage_params tys hy i hi

theorem tyImageAt0_params : ∀ (tys : List Ty) {t : Tpe}, tyImageAt0 tcx ids tps tys = some t →
    ∀ i ∈ tyParamsAt0 tcx tys, tps i ≠ none
  | [], _, h => by simp [tyImageAt0] at h
  | ty :: _, t, h => by
    simp only [tyImageAt0] at h
    simp only [tyParamsAt0]
    exact tyImage_params ty h

end

end Params

/-! ## What an image depends on -/

section Depends

variable {ids : DefId → Option SymbolIdentifier} {tps tps' : Nat → Option TyParam}

mutual

/-- An image depends on the type parameters that the type mentions. -/
theorem tyImage_congr : ∀ ty : Ty, (∀ i ∈ tyParams tcx ty, tps i = tps' i) →
    tyImage tcx ids tps ty = tyImage tcx ids tps' ty
  | .tuple tys, h => by
    rw [tyParams] at h
    rw [tyImage, tyImage, tysImage_congr tys h]
  | .adt did substs, h => by
    rw [tyParams] at h
    rw [tyImage, tyImage]
    split
    · rfl
    · next hb =>
      rw [if_neg hb] at h
      split
      · next hx =>
        rw [if_pos hx] at h
        exact tyImageAt0_congr substs h
      · next hx =>
        rw [if_neg hx] at h
        split
        · next hs =>
          rw [if_pos hs] at h
          rw [tyImageAt0_congr substs h]
        · next hs =>
          rw [if_neg hs] at h
          rw [tysImage_congr substs h]
  | .ref ty .not, h => by
    rw [tyParams] at h
    rw [tyImage, tyImage, tyImage_congr ty h]
  | .param index, h => by
    rw [tyImage, tyImage, h index (by simp [tyParams])]
  | .bool, _ | .int _, _ | .uint _, _ | .ref _ .mut, _ | .char, _ | .str, _ | .never, _
  | .fnDef _ _, _ | .closure _ _, _ | .other _, _ => by
    rw [tyImage, tyImage]

theorem tysImage_congr : ∀ tys : List Ty, (∀ i ∈ tysParams tcx tys, tps i = tps' i) →
    tysImage tcx ids tps tys = tysImage tcx ids tps' tys
  | [], _ => rfl
  | ty :: tys, h => by
    simp only [tysParams, List.mem_append] at h
    rw [tysImage, tysImage, tyImage_congr ty fun i hi => h i (.inl hi),
      tysImage_congr tys fun i hi => h i (.inr hi)]

theorem tyImageAt0_congr : ∀ tys : List Ty, (∀ i ∈ tyParamsAt0 tcx tys, tps i = tps' i) →
    tyImageAt0 tcx ids tps tys = tyImageAt0 tcx ids tps' tys
  | [], _ => rfl
  | ty :: _, h => by
    rw [tyImageAt0, tyImageAt0]
    exact tyImage_congr ty (by simpa only [tyParamsAt0] using h)

end

end Depends

/-! ## Extraction -/

/-- What the extraction of types relies on when it asks for the id of an ADT. -/
structure AdtIdSpec (tcx : Tcx) (adtId : DefId → Xtor SymbolIdentifier) : Prop where
  moves : ∀ d, Run.MovesBy (adtRel tcx) {d} (adtId d)
  image : ∀ d s id s', adtId d s = .ok (id, s') → s'.didId d = some id

section Extract

variable {adtId : DefId → Xtor SymbolIdentifier} (txtcx : TyExtractionCtxt)

mutual

theorem extractTyWith_image (hadt : AdtIdSpec tcx adtId) :
    ∀ (ty : Ty) {s s' : Extraction} {t : Tpe}, extractTyWith tcx adtId txtcx ty s = .ok (t, s') →
      tyImage tcx s'.didId txtcx.indexToTparam.get? ty = some t
  | .bool, s, s', t, h => by
    rw [(Run.pure_ok.mp h).1.symm]
    rfl
  | .int w, s, s', t, h => by
    simp only [extractTyWith] at h
    cases hw : w.bitWidth with
    | none =>
      rw [hw] at h
      obtain ⟨_, _, -, h⟩ := Run.bind_ok.mp h
      rw [(Run.pure_ok.mp h).1.symm]
      simp only [tyImage, hw]
    | some size =>
      rw [hw] at h
      rw [(Run.pure_ok.mp h).1.symm]
      simp only [tyImage, hw]
  | .uint w, s, s', t, h => by
    simp only [extractTyWith] at h
    cases hw : w.bitWidth with
    | none =>
      rw [hw] at h
      obtain ⟨_, _, -, h⟩ := Run.bind_ok.mp h
      rw [(Run.pure_ok.mp h).1.symm]
      simp only [tyImage, hw]
    | some size =>
      rw [hw] at h
      rw [(Run.pure_ok.mp h).1.symm]
      simp only [tyImage, hw]
  | .tuple tys, s, s', t, h => by
    simp only [extractTyWith] at h
    obtain ⟨tpes, s₁, h1, h2⟩ := Run.bind_ok.mp h
    have himg := extractTysWith_image hadt tys h1
    simp only [tyImage]
    match tpes, himg, h2 with
    | [], himg, h2 =>
      obtain ⟨rfl, rfl⟩ := Run.pure_ok.mp h2
      rw [himg]
    | [_], himg, h2 =>
      obtain ⟨_, s₂, h3, h4⟩ := Run.bind_ok.mp h2
      obtain ⟨rfl, rfl⟩ := Run.pure_ok.mp h4
      have hids : s₂.didId = s₁.didId := by rw [report_ok.mp h3]; rfl
      rw [hids, himg]
    | _ :: _ :: _, himg, h2 =>
      obtain ⟨rfl, rfl⟩ := Run.pure_ok.mp h2
      rw [himg]
  | .adt did substs, s, s', t, h => by
    rw [extractTyWith] at h
    simp only [tyImage]
    split
    · next hb =>
      rw [if_pos hb] at h
      rw [(Run.pure_ok.mp h).1.symm]
    · next hb =>
      rw [if_neg hb] at h
      split
      · next hx =>
        rw [if_pos hx] at h
        exact extractTyAt0_image hadt substs h
      · next hx =>
        rw [if_neg hx] at h
        split
        · next hs =>
          rw [if_pos hs] at h
          obtain ⟨u, s₁, h1, h2⟩ := Run.bind_ok.mp h
          obtain ⟨rfl, rfl⟩ := Run.pure_ok.mp h2
          rw [extractTyAt0_image hadt substs h1]
          rfl
        · next hs =>
          rw [if_neg hs] at h
          obtain ⟨id, s₁, h1, h2⟩ := Run.bind_ok.mp h
          obtain ⟨tpes, s₂, h3, h4⟩ := Run.bind_ok.mp h2
          obtain ⟨rfl, rfl⟩ := Run.pure_ok.mp h4
          have hgrow := (extractTysWith_movesBy txtcx hadt.moves substs s₁ tpes s₂ h3).grows
          rw [hgrow.did did id (hadt.image did s id s₁ h1), extractTysWith_image hadt substs h3]
  | .ref ty .not, s, s', t, h => by
    rw [extractTyWith] at h
    simp only [tyImage]
    exact extractTyWith_image hadt ty h
  | .param i, s, s', t, h => by
    simp only [extractTyWith] at h
    simp only [tyImage]
    cases hp : txtcx.indexToTparam.get? i with
    | none => simp [hp] at h
    | some p =>
      rw [hp] at h
      rw [(Run.pure_ok.mp h).1.symm]
      rfl
  | .ref _ .mut, s, s', t, h | .char, s, s', t, h | .str, s, s', t, h | .never, s, s', t, h
  | .fnDef _ _, s, s', t, h | .closure _ _, s, s', t, h | .other _, s, s', t, h => by
    simp only [extractTyWith] at h
    obtain ⟨_, _, -, h⟩ := Run.bind_ok.mp h
    rw [(Run.pure_ok.mp h).1.symm]
    simp only [tyImage]

theorem extractTysWith_image (hadt : AdtIdSpec tcx adtId) :
    ∀ (tys : List Ty) {s s' : Extraction} {ts : List Tpe},
      extractTysWith tcx adtId txtcx tys s = .ok (ts, s') →
      tysImage tcx s'.didId txtcx.indexToTparam.get? tys = some ts
  | [], s, s', ts, h => by
    rw [(Run.pure_ok.mp h).1.symm]
    rfl
  | ty :: tys, s, s', ts, h => by
    rw [extractTysWith] at h
    obtain ⟨t, s₁, h1, h2⟩ := Run.bind_ok.mp h
    obtain ⟨us, s₂, h3, h4⟩ := Run.bind_ok.mp h2
    obtain ⟨rfl, rfl⟩ := Run.pure_ok.mp h4
    have hgrow := (extractTysWith_movesBy txtcx hadt.moves tys s₁ us s₂ h3).grows
    have himg := tyImage_mono hgrow.did (fun _ _ hp => hp) ty (extractTyWith_image hadt ty h1)
    simp only [tysImage]
    rw [himg, extractTysWith_image hadt tys h3]

theorem extractTyAt0_image (hadt : AdtIdSpec tcx adtId) :
    ∀ (tys : List Ty) {s s' : Extraction} {t : Tpe},
      extractTyAt0 tcx adtId txtcx tys s = .ok (t, s') →
      tyImageAt0 tcx s'.didId txtcx.indexToTparam.get? tys = some t
  | [], s, s', t, h => by simp [extractTyAt0] at h
  | ty :: _, s, s', t, h => by
    rw [extractTyAt0] at h
    simp only [tyImageAt0]
    exact extractTyWith_image hadt ty h

end

end Extract

end Stainless
