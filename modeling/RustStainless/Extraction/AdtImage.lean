import RustStainless.Extraction.GenericsImage

/-!
# Extraction of ADTs

An ADT that has no id yet is extracted to the sort that its definition describes under the ids of
the final state, and whatever got its id on the way was extracted too.
-/

namespace Stainless

open Rustc St Lib Extraction

variable {tcx : Tcx}

/-! ## The sort of a definition -/

section Image

variable (tcx)

/-- The field that a field definition is extracted to. -/
def FieldImage (ids : DefId → Option SymbolIdentifier) (tps : Nat → Option TyParam) (f : FieldDef)
    (v : ValDef) : Prop :=
  ids f.did = some v.v.id ∧ tyImage tcx ids tps f.ty = some v.v.tpe

/-- The constructor that a variant is extracted to. -/
structure ConstructorImage (ids : DefId → Option SymbolIdentifier) (tps : Nat → Option TyParam)
    (sortId : SymbolIdentifier) (v : VariantDef) (c : ADTConstructor) : Prop where
  id : ids v.defId = some c.id
  sort : c.sort = sortId
  fields : List.Forall₂ (FieldImage tcx ids tps) v.fields c.fields

/-- The sort that an ADT is extracted to. Every id in it is the one that `ids` gives. -/
structure SortImage (ids : DefId → Option SymbolIdentifier) (d : DefId) (sort : ADTSort) :
    Prop where
  id : ids d = some sort.id
  shape : ∃ a txtcx, tcx.adtDef d = some a ∧ GenericsImage tcx ids d txtcx ∧
    sort.tparams = tparamDefs tcx txtcx ∧
    List.Forall₂ (ConstructorImage tcx ids txtcx.indexToTparam.get? sort.id) a.variants
      sort.constructors

end Image

section Mono

variable {ids ids' : DefId → Option SymbolIdentifier}

theorem FieldImage.mono (hi : ∀ d id, ids d = some id → ids' d = some id)
    {tps : Nat → Option TyParam} {f : FieldDef} {v : ValDef} (h : FieldImage tcx ids tps f v) :
    FieldImage tcx ids' tps f v :=
  ⟨hi _ _ h.1, tyImage_mono hi (fun _ _ hp => hp) _ h.2⟩

theorem ConstructorImage.mono (hi : ∀ d id, ids d = some id → ids' d = some id)
    {tps : Nat → Option TyParam} {sortId : SymbolIdentifier} {v : VariantDef} {c : ADTConstructor}
    (h : ConstructorImage tcx ids tps sortId v c) : ConstructorImage tcx ids' tps sortId v c where
  id := hi _ _ h.id
  sort := h.sort
  fields := h.fields.imp fun _ _ hf => hf.mono hi

theorem SortImage.mono (hi : ∀ d id, ids d = some id → ids' d = some id) {d : DefId}
    {sort : ADTSort} (h : SortImage tcx ids d sort) : SortImage tcx ids' d sort where
  id := hi _ _ h.id
  shape := by
    obtain ⟨a, txtcx, ha, hgen, htps, hcons⟩ := h.shape
    exact ⟨a, txtcx, ha, hgen.mono hi, htps, hcons.imp fun _ _ hc => hc.mono hi⟩

end Mono

/-! ## Fields and constructors -/

section

variable {adtId : DefId → Xtor SymbolIdentifier} {txtcx : TyExtractionCtxt}

theorem getOrRegisterDef_didId {d : DefId} {id : SymbolIdentifier} {s s' : Extraction}
    (h : getOrRegisterDef tcx d s = .ok (id, s')) : s'.didId d = some id := by
  rcases getOrRegisterDef_ok.mp h with ⟨hd, rfl⟩ | ⟨hd, rfl, rfl⟩
  · exact hd
  · rw [withDef_didId tcx hd, if_pos rfl]

theorem extractFields_ok (hadt : AdtIdSpec tcx adtId) :
    ∀ (fs : List FieldDef) {m m' : Assoc String Flags} {s s' : Extraction} {vs : List ValDef},
    (∀ f ∈ fs, tcx.defKind f.did = .field) →
    extractFields tcx adtId txtcx fs m s = .ok ((vs, m'), s') →
    AdtMoves tcx {e | ∃ f ∈ fs, e ∈ tyAdts tcx f.ty} s s' ∧
      List.Forall₂ (FieldImage tcx s'.didId txtcx.indexToTparam.get?) fs vs := by
  intro fs
  induction fs with
  | nil =>
    intro m m' s s' vs _ h
    obtain ⟨heq, rfl⟩ := Run.pure_ok.mp h
    obtain ⟨rfl, rfl⟩ := Prod.mk.inj heq
    refine ⟨?_, .nil⟩
    simp only [List.not_mem_nil, false_and, exists_false, Set.ofPred_false]
    exact .refl s
  | cons f fs ih =>
    intro m m' s s' vs hk h
    rw [extractFields] at h
    obtain ⟨fieldId, s₁, h1, h⟩ := Run.bind_ok.mp h
    obtain ⟨fieldTy, s₂, h2, h⟩ := Run.bind_ok.mp h
    obtain ⟨⟨vs', m₂⟩, s₃, h3, h⟩ := Run.bind_ok.mp h
    obtain ⟨heq, rfl⟩ := Run.pure_ok.mp h
    obtain ⟨rfl, rfl⟩ := Prod.mk.inj heq
    obtain ⟨hmoves₃, hvs⟩ := ih (fun q hq => hk q (List.mem_cons_of_mem _ hq)) h3
    have hmoves₁ := getOrRegisterDef_movesBy
        (by simp [hk f List.mem_cons_self, IsAdtPart]) s _ s₁ h1
    have hmoves₂ := extractTyWith_movesBy txtcx hadt.moves f.ty s₁ _ s₂ h2
    have hg₂ := hmoves₂.grows.trans hmoves₃.grows
    refine ⟨?_, .cons ⟨?_, ?_⟩ hvs⟩
    · have hmoves := (hmoves₁.trans hmoves₂).trans hmoves₃
      have hw : {e | ∃ q ∈ f :: fs, e ∈ tyAdts tcx q.ty} =
          ∅ ∪ {e | e ∈ tyAdts tcx f.ty} ∪ {e | ∃ q ∈ fs, e ∈ tyAdts tcx q.ty} := by
        ext e
        simp
      rwa [hw]
    · exact hg₂.did _ _ (getOrRegisterDef_didId h1)
    · exact tyImage_mono hmoves₃.grows.did (fun _ _ hp => hp) _
        (extractTyWith_image txtcx hadt f.ty h2)

/-- A variant has an id of its own or that of the ADT, which is there already. -/
theorem variantId_movesBy {d : DefId} {s s' : Extraction} {v : DefId} {id : SymbolIdentifier}
    (hd : s.didId d ≠ none) (hv : v = d ∨ tcx.defKind v = .variant)
    (h : getOrRegisterDef tcx v s = .ok (id, s')) : AdtMoves tcx ∅ s s' := by
  rcases hv with rfl | hv
  · rcases getOrRegisterDef_ok.mp h with ⟨-, rfl⟩ | ⟨hn, -, -⟩
    · exact .refl s'
    · exact absurd hn hd
  · exact getOrRegisterDef_movesBy (by simp [hv, IsAdtPart]) s id s' h

theorem extractConstructors_ok (hadt : AdtIdSpec tcx adtId) {d : DefId}
    {sortId : SymbolIdentifier} :
    ∀ (vs : List VariantDef) {m m' : Assoc String Flags} {s s' : Extraction}
      {cs : List ADTConstructor},
    (∀ v ∈ vs, v.defId = d ∨ tcx.defKind v.defId = .variant) →
    (∀ v ∈ vs, ∀ f ∈ v.fields, tcx.defKind f.did = .field) → s.didId d ≠ none →
    extractConstructors tcx adtId txtcx sortId vs m s = .ok ((cs, m'), s') →
    AdtMoves tcx {e | ∃ v ∈ vs, ∃ f ∈ v.fields, e ∈ tyAdts tcx f.ty} s s' ∧
      List.Forall₂ (ConstructorImage tcx s'.didId txtcx.indexToTparam.get? sortId) vs cs := by
  intro vs
  induction vs with
  | nil =>
    intro m m' s s' cs _ _ _ h
    obtain ⟨heq, rfl⟩ := Run.pure_ok.mp h
    obtain ⟨rfl, rfl⟩ := Prod.mk.inj heq
    refine ⟨?_, .nil⟩
    simp only [List.not_mem_nil, false_and, exists_false, Set.ofPred_false]
    exact .refl s
  | cons v vs ih =>
    intro m m' s s' cs hkv hkf hd h
    rw [extractConstructors] at h
    obtain ⟨consId, s₁, h1, h⟩ := Run.bind_ok.mp h
    obtain ⟨⟨fields, m₁⟩, s₂, h2, h⟩ := Run.bind_ok.mp h
    obtain ⟨⟨cs', m₂⟩, s₃, h3, h⟩ := Run.bind_ok.mp h
    obtain ⟨heq, rfl⟩ := Run.pure_ok.mp h
    obtain ⟨rfl, rfl⟩ := Prod.mk.inj heq
    have hmoves₁ := variantId_movesBy hd (hkv v List.mem_cons_self) h1
    obtain ⟨hmoves₂, hfields⟩ := extractFields_ok hadt _ (hkf v List.mem_cons_self) h2
    have hd₂ := (hmoves₁.grows.trans hmoves₂.grows).didId_ne_none hd
    obtain ⟨hmoves₃, hcs⟩ := ih (fun q hq => hkv q (List.mem_cons_of_mem _ hq))
      (fun q hq => hkf q (List.mem_cons_of_mem _ hq)) hd₂ h3
    refine ⟨?_, .cons ⟨?_, rfl, ?_⟩ hcs⟩
    · have hmoves := (hmoves₁.trans hmoves₂).trans hmoves₃
      have hw : {e | ∃ q ∈ v :: vs, ∃ f ∈ q.fields, e ∈ tyAdts tcx f.ty} =
          ∅ ∪ {e | ∃ f ∈ v.fields, e ∈ tyAdts tcx f.ty} ∪
            {e | ∃ q ∈ vs, ∃ f ∈ q.fields, e ∈ tyAdts tcx f.ty} := by
        ext e
        simp
      rwa [hw]
    · exact (hmoves₂.grows.trans hmoves₃.grows).did _ _ (getOrRegisterDef_didId h1)
    · exact hfields.imp fun _ _ hf => hf.mono hmoves₃.grows.did

end

/-! ## Flags only warn -/

theorem extractFlagArgs_warns {flag : Flag} : ∀ (tokens : List Hir.TokenTree) {fs fs' : ItemFlags}
    {s s' : Extraction}, extractFlagArgs flag tokens fs s = .ok (fs', s') → WarnsOnly s s' := by
  intro tokens
  induction tokens with
  | nil =>
    intro fs fs' s s' h
    rw [(Run.pure_ok.mp h).2]
    exact .refl s'
  | cons t rest ih =>
    intro fs fs' s s' h
    match t, h with
    | .token .comma, h => exact ih h
    | .token (.ident _), h => exact ih h
    | .token (.litInteger _), h => exact ih h
    | .token .other, h | .delimited, h =>
      obtain ⟨_, s₁, h1, h2⟩ := Run.bind_ok.mp h
      rw [← (Run.pure_ok.mp h2).2]
      exact spanWarn_ok h1

theorem extractFlagsFrom_warns : ∀ (attrs : List Hir.Attribute) {fs fs' : ItemFlags}
    {s s' : Extraction}, extractFlagsFrom attrs fs s = .ok (fs', s') → WarnsOnly s s' := by
  intro attrs
  induction attrs with
  | nil =>
    intro fs fs' s s' h
    rw [(Run.pure_ok.mp h).2]
    exact .refl s'
  | cons a rest ih =>
    intro fs fs' s s' h
    cases a with
    | docComment => exact ih h
    | normal segments args =>
      rw [extractFlagsFrom] at h
      cases hf : extractFlagOf segments with
      | none => rw [hf] at h; exact ih h
      | some name =>
        rw [hf] at h
        simp only at h
        cases hn : flagFromName name with
        | none =>
          rw [hn] at h
          obtain ⟨_, s₁, h1, h2⟩ := Run.bind_ok.mp h
          exact (spanWarn_ok h1).trans (ih h2)
        | some flag =>
          rw [hn] at h
          cases args with
          | empty => exact ih h
          | delimited tokens =>
            obtain ⟨_, s₁, h1, h2⟩ := Run.bind_ok.mp h
            exact (extractFlagArgs_warns _ h1).trans (ih h2)
          | eq =>
            obtain ⟨_, s₁, h1, h2⟩ := Run.bind_ok.mp h
            exact (spanWarn_ok h1).trans (ih h2)

theorem reportUnusedFlags_warns {d : DefId} {m : Assoc String Flags} {u : Unit}
    {s s' : Extraction} (h : reportUnusedFlags tcx d m s = .ok (u, s')) : WarnsOnly s s' := by
  unfold reportUnusedFlags at h
  split at h
  · rw [(Run.pure_ok.mp h).2]
    exact .refl s'
  · exact spanWarn_ok h

theorem extractAdtFlags_warns {d : DefId} {fs : ItemFlags} {s s' : Extraction}
    (h : extractAdtFlags tcx d s = .ok (fs, s')) : WarnsOnly s s' := by
  unfold extractAdtFlags at h
  split at h
  · exact extractFlagsFrom_warns _ h
  · rw [← (Run.pure_ok.mp h).2]
    exact .refl _

theorem reportUnusedAdtFlags_warns {d : DefId} {m : Assoc String Flags} {u : Unit}
    {s s' : Extraction} (h : reportUnusedAdtFlags tcx d m s = .ok (u, s')) : WarnsOnly s s' := by
  unfold reportUnusedAdtFlags at h
  split at h
  · exact reportUnusedFlags_warns h
  · rw [← (Run.pure_ok.mp h).2]
    exact .refl _

/-! ## ADTs -/

/-- What `extract_adt` does to an ADT that has no id yet. -/
structure AdtExtracted (tcx : Tcx) (d : DefId) (sort : ADTSort) (s s' : Extraction) : Prop where
  fresh : s.didId d = none
  moves : AdtMoves tcx {d} s s'
  image : SortImage tcx s'.didId d sort

theorem getSort_eq {s : Extraction} {d : DefId} :
    getSort d s = .ok ((s.didId d).bind fun id => s.adts.get? id.globalId, s) := rfl

/-- Giving an ADT its id and then serving what it mentions serves the ADT. -/
theorem AdtMoves.register {d : DefId} {w : Set DefId} {s s' : Extraction}
    (hk : tcx.defKind d = .adt) (hd : s.didId d = none) (hw : ∀ e, AdtMentions tcx d e ↔ e ∈ w)
    (hgen : GenericsOk tcx d)
    (h : AdtMoves tcx w (s.withDef tcx d) s') : AdtMoves tcx {d} s s' where
  grows := (grows_withDef hd).trans h.grows
  ids := fun hi => h.ids (hi.withDef hd)
  adts := h.adts
  functions := h.functions
  functionRefs := h.functionRefs
  hids := h.hids
  served := by
    rintro e rfl
    refine h.grows.didId_ne_none ?_
    rw [withDef_didId tcx hd, if_pos rfl]
    simp
  closed := by
    rintro x ⟨hk, hn, hs⟩ e he
    by_cases hx : d = x
    · subst hx
      exact h.served e ((hw e).mp he)
    · refine h.closed x ⟨hk, ?_, hs⟩ e he
      rw [withDef_didId tcx hd, if_neg hx, hn]
  reached := by
    rintro x ⟨hk, hn, hs⟩
    refine ⟨d, rfl, ?_⟩
    by_cases hx : d = x
    · subst hx
      exact .refl
    · obtain ⟨r, hr, hrx⟩ := h.reached x ⟨hk, by rw [withDef_didId tcx hd, if_neg hx, hn], hs⟩
      exact .head ((hw r).mpr hr) hrx
  checked := by
    rintro x ⟨hk, hn, hs⟩
    by_cases hx : d = x
    · subst hx
      exact hgen
    · exact h.checked x ⟨hk, by rw [withDef_didId tcx hd, if_neg hx, hn], hs⟩
  kinds := by
    intro x hn hs
    by_cases hx : d = x
    · exact .inl (hx ▸ hk)
    · exact h.kinds x (by rw [withDef_didId tcx hd, if_neg hx, hn]) hs

theorem adtMentions_iff {d e : DefId} {a : AdtDef} (ha : tcx.adtDef d = some a) :
    AdtMentions tcx d e ↔
      e ∈ genericsAdts tcx d ∪ {e | ∃ v ∈ a.variants, ∃ f ∈ v.fields, e ∈ tyAdts tcx f.ty} := by
  simp [AdtMentions, ha]

/-- Asking for an id that is there changes nothing. -/
theorem AdtMoves.known {d : DefId} {s : Extraction} (hd : s.didId d ≠ none) :
    AdtMoves tcx {d} s s :=
  { AdtMoves.refl s with
    served := by rintro e rfl; exact hd
    closed := fun x hx => absurd hx.2.1 hx.2.2
    reached := fun x hx => absurd hx.2.1 hx.2.2
    checked := fun x hx => absurd hx.2.1 hx.2.2
    kinds := fun x hn hs => absurd hn hs }

theorem extractAdtWith_fresh (hok : TcxOk tcx) {depth : Nat}
    (hadt : AdtIdSpec tcx (extractAdtIdWith (extractAdtWith tcx depth))) {d : DefId}
    {s s' : Extraction} {sort : ADTSort}
    (hn : (s.didId d).bind (fun id => s.adts.get? id.globalId) = none)
    (h : extractAdtWith tcx (depth + 1) d s = .ok (sort, s')) :
    AdtExtracted tcx d sort s s' := by
  rw [extractAdtWith, Run.bind_eq getSort_eq, hn] at h
  obtain ⟨adtId, s₁, h1, h⟩ := Run.bind_ok.mp h
  obtain ⟨hd, rfl, rfl⟩ := registerDef_ok.mp h1
  cases ha : tcx.adtDef d with
  | none => simp [ha] at h
  | some a =>
    rw [ha] at h
    have hmem := Tcx.adtDef_mem ha
    have hdid := Tcx.adtDef_did ha
    obtain ⟨flags, s₂, h2, h⟩ := Run.bind_ok.mp h
    obtain ⟨⟨tparams, txtcx⟩, s₃, h3, h⟩ := Run.bind_ok.mp h
    obtain ⟨⟨cs, m⟩, s₄, h4, h⟩ := Run.bind_ok.mp h
    obtain ⟨_, s₅, h5, h⟩ := Run.bind_ok.mp h
    obtain ⟨rfl, rfl⟩ := Run.pure_ok.mp h
    have hw₂ := extractAdtFlags_warns h2
    have hw₅ := reportUnusedAdtFlags_warns h5
    have hgen := extractGenericsWith_ok hok hadt (hdid ▸ hok.adt_not_closure a hmem) h3
    have hself : (s.withDef tcx d).didId d = some (s.defIdent tcx d) := by
      rw [withDef_didId tcx hd, if_pos rfl]
    have hg₃ := hw₂.grows.trans hgen.moves.grows
    have hself₃ := hg₃.did _ _ hself
    obtain ⟨hmoves₄, hcs⟩ := extractConstructors_ok hadt (d := d) _
      (hdid ▸ hok.variant_kind a hmem) (hok.field_kind a hmem) (by simp [hself₃]) h4
    have hg₅ := hw₅.grows
    refine ⟨hd, ?_, ⟨?_, a, txtcx, ha, ?_, hgen.tparams, ?_⟩⟩
    · have hmoves := ((hw₂.adtMoves.trans hgen.moves).trans hmoves₄).trans hw₅.adtMoves
      rw [Set.empty_union, Set.union_empty] at hmoves
      have hkind := hdid ▸ hok.adt_kind a hmem
      exact .register hkind hd (fun e => adtMentions_iff ha) hgen.checked hmoves
    · exact hg₅.did _ _ (hmoves₄.grows.did _ _ hself₃)
    · exact (hgen.image.mono hmoves₄.grows.did).mono hg₅.did
    · exact hcs.imp fun _ _ hc => hc.mono hg₅.did

theorem extractAdtIdWith_spec (hok : TcxOk tcx) :
    ∀ depth, AdtIdSpec tcx (extractAdtIdWith (extractAdtWith tcx depth)) := by
  intro depth
  have key : ∀ d s id s', extractAdtIdWith (extractAdtWith tcx depth) d s = .ok (id, s') →
      AdtMoves tcx {d} s s' ∧ s'.didId d = some id := by
    induction depth with
    | zero =>
      intro d s id s' h
      unfold extractAdtIdWith at h
      rw [Run.bind_eq getIdFromDef_eq] at h
      cases hd : s.didId d with
      | none =>
        rw [hd] at h
        obtain ⟨sort, s₁, h1, -⟩ := Run.bind_ok.mp h
        simp [extractAdtWith] at h1
      | some i =>
        rw [hd] at h
        obtain ⟨rfl, rfl⟩ := Run.pure_ok.mp h
        exact ⟨.known (by simp [hd]), hd⟩
    | succ depth ih =>
      intro d s id s' h
      unfold extractAdtIdWith at h
      rw [Run.bind_eq getIdFromDef_eq] at h
      cases hd : s.didId d with
      | none =>
        rw [hd] at h
        obtain ⟨sort, s₁, h1, h2⟩ := Run.bind_ok.mp h
        obtain ⟨rfl, rfl⟩ := Run.pure_ok.mp h2
        have hex := extractAdtWith_fresh hok
          ⟨fun d s id s' h => (ih d s id s' h).1, fun d s id s' h => (ih d s id s' h).2⟩
          (by simp [hd]) h1
        exact ⟨hex.moves, hex.image.id⟩
      | some i =>
        rw [hd] at h
        obtain ⟨rfl, rfl⟩ := Run.pure_ok.mp h
        exact ⟨.known (by simp [hd]), hd⟩
  exact ⟨fun d s id s' h => (key d s id s' h).1, fun d s id s' h => (key d s id s' h).2⟩

/-- **`extract_adt` on an ADT whose sort is not stored extracts it, and it had no id before.** -/
theorem extractAdt_fresh (hok : TcxOk tcx) {d : DefId} {s s' : Extraction} {sort : ADTSort}
    (hn : (s.didId d).bind (fun id => s.adts.get? id.globalId) = none)
    (h : extractAdt tcx d s = .ok (sort, s')) : AdtExtracted tcx d sort s s' :=
  extractAdtWith_fresh hok (extractAdtIdWith_spec hok _) hn h

theorem extractAdtId_spec (hok : TcxOk tcx) : AdtIdSpec tcx (extractAdtId tcx) :=
  extractAdtIdWith_spec hok _

end Stainless
