import RustStainless.Extraction.Ids
import RustStainless.Extraction.Mentions

/-!
# Which ids the extraction of types and ADTs registers

`AdtMoves tcx w s s'` says what happens between two states when the ids of the ADTs `w` were asked
for: they all have ids afterwards, an ADT that got its id on the way has been extracted (so what it
mentions has ids too), and it is reached from one of `w`. Types, generics, fields and ADTs move the
state in this way, each by the ADTs it mentions.
-/

namespace Stainless

open Rustc St Lib Extraction

/-- The ADT got its id between the two states. -/
def Registered (tcx : Tcx) (s s' : Extraction) (d : DefId) : Prop :=
  tcx.defKind d = .adt ∧ s.didId d = none ∧ s'.didId d ≠ none

/-- The definitions that the extraction of types registers, besides ADTs. -/
def IsAdtPart (k : DefKind) : Prop := k = .variant ∨ k = .field ∨ k = .tyParam

structure AdtMoves (tcx : Tcx) (w : Set DefId) (s s' : Extraction) : Prop where
  grows : Grows s s'
  ids : IdsOk tcx s → IdsOk tcx s'
  adts : s'.adts = s.adts
  functions : s'.functions = s.functions
  functionRefs : s'.functionRefs = s.functionRefs
  hids : s'.mapping.hidToStid = s.mapping.hidToStid
  served : ∀ d ∈ w, s'.didId d ≠ none
  closed : ∀ d, Registered tcx s s' d → ∀ e, AdtMentions tcx d e → s'.didId e ≠ none
  reached : ∀ d, Registered tcx s s' d → ∃ r ∈ w, Reaches tcx r d
  checked : ∀ d, Registered tcx s s' d → GenericsOk tcx d
  kinds : ∀ d, s.didId d = none → s'.didId d ≠ none →
    tcx.defKind d = .adt ∨ IsAdtPart (tcx.defKind d)

theorem Grows.didId_ne_none {s s' : Extraction} (h : Grows s s') {d : DefId}
    (hd : s.didId d ≠ none) : s'.didId d ≠ none := by
  obtain ⟨id, hid⟩ := Option.ne_none_iff_exists'.mp hd
  rw [h.did d id hid]
  simp

section

variable {tcx : Tcx}

/-- A step that registers no ADT serves no request. -/
theorem AdtMoves.quiet {s s' : Extraction} (grows : Grows s s') (ids : IdsOk tcx s → IdsOk tcx s')
    (adts : s'.adts = s.adts) (functions : s'.functions = s.functions)
    (functionRefs : s'.functionRefs = s.functionRefs)
    (hids : s'.mapping.hidToStid = s.mapping.hidToStid)
    (hnew : ∀ d, s.didId d = none → s'.didId d ≠ none → IsAdtPart (tcx.defKind d)) :
    AdtMoves tcx ∅ s s' :=
  have hnone : ∀ d, ¬ Registered tcx s s' d := by
    rintro d ⟨hk, hn, hs⟩
    have := hnew d hn hs
    simp [hk, IsAdtPart] at this
  { grows := grows
    ids := ids
    adts := adts
    functions := functions
    functionRefs := functionRefs
    hids := hids
    served := by simp
    closed := fun d hd => absurd hd (hnone d)
    reached := fun d hd => absurd hd (hnone d)
    checked := fun d hd => absurd hd (hnone d)
    kinds := fun d hn hs => .inr (hnew d hn hs) }

theorem AdtMoves.refl (s : Extraction) : AdtMoves tcx ∅ s s :=
  .quiet (.refl s) id rfl rfl rfl rfl fun _ hn hs => absurd hn hs

theorem AdtMoves.trans {v w : Set DefId} {s s' s'' : Extraction} (h : AdtMoves tcx v s s')
    (h' : AdtMoves tcx w s' s'') : AdtMoves tcx (v ∪ w) s s'' where
  grows := h.grows.trans h'.grows
  ids := fun hi => h'.ids (h.ids hi)
  adts := h'.adts.trans h.adts
  functions := h'.functions.trans h.functions
  functionRefs := h'.functionRefs.trans h.functionRefs
  hids := h'.hids.trans h.hids
  served := by
    rintro d (hd | hd)
    · exact h'.grows.didId_ne_none (h.served d hd)
    · exact h'.served d hd
  closed := by
    rintro d ⟨hk, hn, hs⟩ e he
    by_cases hd : s'.didId d = none
    · exact h'.closed d ⟨hk, hd, hs⟩ e he
    · exact h'.grows.didId_ne_none (h.closed d ⟨hk, hn, hd⟩ e he)
  reached := by
    rintro d ⟨hk, hn, hs⟩
    by_cases hd : s'.didId d = none
    · obtain ⟨r, hr, hrd⟩ := h'.reached d ⟨hk, hd, hs⟩
      exact ⟨r, Or.inr hr, hrd⟩
    · obtain ⟨r, hr, hrd⟩ := h.reached d ⟨hk, hn, hd⟩
      exact ⟨r, Or.inl hr, hrd⟩
  checked := by
    rintro d ⟨hk, hn, hs⟩
    by_cases hd : s'.didId d = none
    · exact h'.checked d ⟨hk, hd, hs⟩
    · exact h.checked d ⟨hk, hn, hd⟩
  kinds := by
    intro d hn hs
    by_cases hd : s'.didId d = none
    · exact h'.kinds d hd hs
    · exact h.kinds d hn hd

/-- The graded relation of the extraction of types and ADTs. -/
def adtRel (tcx : Tcx) : GradedRel DefId Extraction where
  rel := AdtMoves tcx
  refl := AdtMoves.refl
  trans := AdtMoves.trans

theorem adtMoves_report (m : Diag) (s : Extraction) :
    AdtMoves tcx ∅ s { s with diags := s.diags ++ [m] } :=
  .quiet (grows_report m) (fun h => h.of_mapping rfl) rfl rfl rfl rfl fun _ hn hs => absurd hn hs

/-- Registering a part of an ADT asks for nothing. -/
theorem adtMoves_withDef {s : Extraction} {d : DefId} (hk : IsAdtPart (tcx.defKind d))
    (hd : s.didId d = none) : AdtMoves tcx ∅ s (s.withDef tcx d) := by
  refine .quiet (grows_withDef hd) (fun h => h.withDef hd) rfl rfl rfl rfl ?_
  intro e hn hs
  rw [withDef_didId tcx hd] at hs
  split at hs
  · next he => exact he ▸ hk
  · exact absurd hn hs

/-! ## Primitives -/

theorem report_movesBy (m : Diag) : Run.MovesBy (adtRel tcx) ∅ (report m) := by
  intro s a s' h
  rw [report_ok.mp h]
  exact adtMoves_report m s

theorem unsupported_movesBy (msg : String) : Run.MovesBy (adtRel tcx) ∅ (unsupported msg) :=
  report_movesBy _

theorem getOrRegisterDef_movesBy {d : DefId} (hk : IsAdtPart (tcx.defKind d)) :
    Run.MovesBy (adtRel tcx) ∅ (getOrRegisterDef tcx d) := by
  intro s a s' h
  rcases getOrRegisterDef_ok.mp h with ⟨-, rfl⟩ | ⟨hd, -, rfl⟩
  · exact AdtMoves.refl s'
  · exact adtMoves_withDef hk hd

/-! ## Types -/

section

variable {adtId : DefId → Xtor SymbolIdentifier} (txtcx : TyExtractionCtxt)

mutual

theorem extractTyWith_movesBy (hadt : ∀ d, Run.MovesBy (adtRel tcx) {d} (adtId d)) :
    ∀ ty : Ty, Run.MovesBy (adtRel tcx) {e | e ∈ tyAdts tcx ty}
      (extractTyWith tcx adtId txtcx ty)
  | .bool => by
    simp only [extractTyWith, tyAdts, List.not_mem_nil, Set.ofPred_false]
    exact .pure _
  | .int t => by
    simp only [extractTyWith, tyAdts, List.not_mem_nil, Set.ofPred_false]
    split
    · exact .pure _
    · exact .bind (unsupported_movesBy _) fun _ => .pure _
  | .uint t => by
    simp only [extractTyWith, tyAdts, List.not_mem_nil, Set.ofPred_false]
    split
    · exact .pure _
    · exact .bind (unsupported_movesBy _) fun _ => .pure _
  | .tuple tys => by
    simp only [extractTyWith, tyAdts]
    refine .bind (extractTysWith_movesBy hadt tys) (w := ∅) fun tpes => ?_
    split
    · exact .pure _
    · exact .bind (unsupported_movesBy _) fun _ => .pure _
    · exact .pure _
  | .adt did substs => by
    rw [extractTyWith, tyAdts]
    split
    · simp only [List.not_mem_nil, Set.ofPred_false]
      exact .pure _
    · split
      · exact extractTyAt0_movesBy hadt substs
      · split
        · exact .bind (extractTyAt0_movesBy hadt substs) fun _ => .pure _
        · refine .bind (hadt did) (w := {e | e ∈ tysAdts tcx substs}) (fun id => ?_) ?_
          · exact .bind (extractTysWith_movesBy hadt substs) fun _ => .pure _
          · ext e
            exact List.mem_cons
  | .ref ty .not => by
    rw [extractTyWith, tyAdts]
    exact extractTyWith_movesBy hadt ty
  | .param index => by
    simp only [extractTyWith, tyAdts, List.not_mem_nil, Set.ofPred_false]
    split
    · exact .pure _
    · exact .panic _ _
  | .ref _ .mut | .char | .str | .never | .fnDef _ _ | .closure _ _ | .other _ => by
    simp only [extractTyWith, tyAdts, List.not_mem_nil, Set.ofPred_false]
    exact .bind (unsupported_movesBy _) fun _ => .pure _

theorem extractTysWith_movesBy (hadt : ∀ d, Run.MovesBy (adtRel tcx) {d} (adtId d)) :
    ∀ tys : List Ty, Run.MovesBy (adtRel tcx) {e | e ∈ tysAdts tcx tys}
      (extractTysWith tcx adtId txtcx tys)
  | [] => by
    simp only [extractTysWith, tysAdts, List.not_mem_nil, Set.ofPred_false]
    exact .pure _
  | ty :: tys => by
    rw [extractTysWith, tysAdts]
    refine .bind (extractTyWith_movesBy hadt ty) (w := {e | e ∈ tysAdts tcx tys})
      (fun _ => ?_) ?_
    · exact .bind (extractTysWith_movesBy hadt tys) fun _ => .pure _
    · ext e; simp

theorem extractTyAt0_movesBy (hadt : ∀ d, Run.MovesBy (adtRel tcx) {d} (adtId d)) :
    ∀ tys : List Ty, Run.MovesBy (adtRel tcx) {e | e ∈ tyAdtsAt0 tcx tys}
      (extractTyAt0 tcx adtId txtcx tys)
  | [] => .panic _ _
  | ty :: _ => by
    rw [extractTyAt0, tyAdtsAt0]
    exact extractTyWith_movesBy hadt ty

end

end

/-! ## Generics -/

/-- Nothing happened but warnings. -/
def WarnsOnly (s s' : Extraction) : Prop :=
  ∃ ms : List Diag, (∀ m ∈ ms, m.isError = false) ∧ s' = { s with diags := s.diags ++ ms }

theorem WarnsOnly.refl (s : Extraction) : WarnsOnly s s := ⟨[], by simp, by simp⟩

theorem WarnsOnly.trans {s s' s'' : Extraction} (h : WarnsOnly s s') (h' : WarnsOnly s' s'') :
    WarnsOnly s s'' := by
  obtain ⟨ms, hm, rfl⟩ := h
  obtain ⟨ms', hm', rfl⟩ := h'
  refine ⟨ms ++ ms', ?_, by simp⟩
  intro m hmem
  rcases List.mem_append.mp hmem with hmem | hmem
  · exact hm m hmem
  · exact hm' m hmem

theorem spanWarn_ok {msg : String} {s s' : Extraction} {u : Unit}
    (h : spanWarn msg s = .ok (u, s')) : WarnsOnly s s' := by
  rw [report_ok.mp h]
  exact ⟨[.warning msg], by simp [Diag.isError], rfl⟩

theorem WarnsOnly.grows {s s' : Extraction} (h : WarnsOnly s s') : Grows s s' := by
  obtain ⟨ms, -, rfl⟩ := h
  exact ⟨Nat.le_refl _, fun _ _ h => h, fun _ _ h => h, fun _ _ h => h, fun _ h => h,
    fun _ _ h => h, ms, rfl⟩

theorem WarnsOnly.adtMoves {s s' : Extraction} (h : WarnsOnly s s') : AdtMoves tcx ∅ s s' := by
  have hg := h.grows
  obtain ⟨ms, -, rfl⟩ := h
  exact .quiet hg (fun h => h.of_mapping rfl) rfl rfl rfl rfl fun _ hn hs => absurd hn hs

/-- What a scan of bounds does: it finds the `Fn`-like ones and otherwise only warns. -/
structure Scanned (tcx : Tcx) (ps : List Predicate) (b b' : FunBounds) (s s' : Extraction) :
    Prop where
  params : b'.params = b.params ++ funParamsOf tcx ps
  returns : b'.returns = b.returns ++ funReturnsOf tcx ps
  warns : WarnsOnly s s'
  params_nodup : b.params.keys.Nodup → b'.params.keys.Nodup
  returns_nodup : b.returns.keys.Nodup → b'.returns.keys.Nodup

theorem Scanned.skip {p : Predicate} {ps : List Predicate} {b b' : FunBounds}
    {s t s' : Extraction} (hp : funParamsOf tcx (p :: ps) = funParamsOf tcx ps)
    (hr : funReturnsOf tcx (p :: ps) = funReturnsOf tcx ps) (hw : WarnsOnly s t)
    (h : Scanned tcx ps b b' t s') : Scanned tcx (p :: ps) b b' s s' where
  params := by rw [hp]; exact h.params
  returns := by rw [hr]; exact h.returns
  warns := hw.trans h.warns
  params_nodup := h.params_nodup
  returns_nodup := h.returns_nodup

theorem scanPredicates_ok : ∀ (ps : List Predicate) {b b' : FunBounds} {s s' : Extraction},
    scanPredicates tcx ps b s = .ok (b', s') → Scanned tcx ps b b' s s' := by
  intro ps
  induction ps with
  | nil =>
    intro b b' s s' h
    obtain ⟨rfl, rfl⟩ := Run.pure_ok.mp h
    exact ⟨by simp [funParamsOf], by simp [funReturnsOf], .refl s, id, id⟩
  | cons p ps ih =>
    intro b b' s s' h
    cases p with
    | trait did selfTy paramTys =>
      cases selfTy with
      | param index =>
        simp only [scanPredicates] at h
        split at h
        · next hi =>
          exact (ih h).skip (by simp [funParamsOf, hi]) (by simp [funReturnsOf]) (.refl s)
        · next hi =>
          split at h
          · next hf =>
            split at h
            · simp at h
            · next hc =>
              have hn : b.params.get? index = none := by simpa [Assoc.contains] using hc
              have hs := ih h
              refine ⟨?_, ?_, hs.warns, ?_, hs.returns_nodup⟩
              · rw [hs.params, Assoc.insert_of_get?_none hn]
                simp [funParamsOf, hi, hf]
              · rw [hs.returns]
                simp [funReturnsOf]
              · exact fun hnd => hs.params_nodup (Assoc.nodup_keys_insert hnd _ _)
          · next hf =>
            obtain ⟨_, t, hw, h⟩ := Run.bind_ok.mp h
            exact (ih h).skip (by simp [funParamsOf, hi, hf]) (by simp [funReturnsOf])
              (spanWarn_ok hw)
      | _ =>
        simp only [scanPredicates] at h
        split at h
        · exact (ih h).skip (by simp [funParamsOf]) (by simp [funReturnsOf]) (.refl s)
        · obtain ⟨_, t, hw, h⟩ := Run.bind_ok.mp h
          exact (ih h).skip (by simp [funParamsOf]) (by simp [funReturnsOf]) (spanWarn_ok hw)
    | projection did selfTy ty =>
      cases selfTy with
      | param index =>
        simp only [scanPredicates] at h
        split at h
        · next hf =>
          split at h
          · simp at h
          · next hc =>
            have hn : b.returns.get? index = none := by simpa [Assoc.contains] using hc
            have hs := ih h
            refine ⟨?_, ?_, hs.warns, hs.params_nodup, ?_⟩
            · rw [hs.params]
              simp [funParamsOf]
            · rw [hs.returns, Assoc.insert_of_get?_none hn]
              simp [funReturnsOf, hf]
            · exact fun hnd => hs.returns_nodup (Assoc.nodup_keys_insert hnd _ _)
        · next hf =>
          obtain ⟨_, t, hw, h⟩ := Run.bind_ok.mp h
          exact (ih h).skip (by simp [funParamsOf]) (by simp [funReturnsOf, hf]) (spanWarn_ok hw)
      | _ =>
        obtain ⟨_, t, hw, h⟩ := Run.bind_ok.mp h
        exact (ih h).skip (by simp [funParamsOf]) (by simp [funReturnsOf]) (spanWarn_ok hw)
    | other =>
      obtain ⟨_, t, hw, h⟩ := Run.bind_ok.mp h
      exact (ih h).skip (by simp [funParamsOf]) (by simp [funReturnsOf]) (spanWarn_ok hw)

end

end Stainless
