import RustStainless.Extraction.AdtReturns

/-!
# The loop over the local ADTs

`process_crate` extracts and adds each local ADT in the order in which it visits them. A field type
gives the ADT that it mentions an id and extracts it, but does not add it; when the loop comes to
that ADT it extracts it again, and registers it a second time. So the loop goes through exactly
when no ADT is reached from one that is visited before it.
-/

namespace Stainless

open Rustc St Lib Extraction

/-- The local ADTs, each once, in the order in which they are visited. -/
structure VisitOrder (tcx : Tcx) (order : List DefId) : Prop where
  nodup : order.Nodup
  mem : ∀ d, d ∈ order ↔ d.isLocal = true ∧ ∃ a, tcx.adtDef d = some a

/-- An entry of the store: the sort of the ADT under the key of the id that the ADT has. -/
def SortEntry (tcx : Tcx) (s : Extraction) (d : DefId) (e : Int × ADTSort) : Prop :=
  e.1 = e.2.id.globalId ∧ SortImage tcx s.didId d e.2

/--
The store holds exactly one sort for each of the given ADTs, each under its own key. Every id in a
sort, the ones inside the types of its fields included, is the one that the ADT, constructor or
field it names has.
-/
structure StoreOk (tcx : Tcx) (order : List DefId) (s : Extraction) : Prop where
  sorts : List.Forall₂ (SortEntry tcx s) order s.adts
  keys : s.adts.keys.Nodup

variable {tcx : Tcx}

/-! ## The invariant of the loop -/

/-- What holds when the ADTs `done` have been visited. -/
structure LoopInv (tcx : Tcx) (done : List DefId) (s : Extraction) : Prop where
  ids : IdsOk tcx s
  store : StoreOk tcx done s
  closed : ∀ d, tcx.defKind d = .adt → s.didId d ≠ none →
    ∀ e, AdtMentions tcx d e → s.didId e ≠ none
  reached : ∀ d, tcx.defKind d = .adt → s.didId d ≠ none → ∃ r ∈ done, Reaches tcx r d
  checked : ∀ d, tcx.defKind d = .adt → s.didId d ≠ none → GenericsOk tcx d

theorem LoopInv.new (tcx : Tcx) : LoopInv tcx [] Extraction.new where
  ids := .new tcx
  store := ⟨.nil, by simp [Extraction.new, Assoc.keys]⟩
  closed := fun _ _ h => absurd rfl h
  reached := fun _ _ h => absurd rfl h
  checked := fun _ _ h => absurd rfl h

theorem SortEntry.mono {s s' : Extraction} (hg : Grows s s') {d : DefId} {e : Int × ADTSort}
    (h : SortEntry tcx s d e) : SortEntry tcx s' d e := ⟨h.1, h.2.mono hg.did⟩

namespace LoopInv

variable {done : List DefId} {s : Extraction}

theorem registered (h : LoopInv tcx done s) {d : DefId} (hd : d ∈ done) : s.didId d ≠ none := by
  obtain ⟨e, -, -, hsort⟩ := forall₂_mem_left h.store.sorts hd
  simp [hsort.id]

/-- A sort is stored only for what was visited. -/
theorem not_stored (h : LoopInv tcx done s) {d : DefId} (hd : d ∉ done) {id : SymbolIdentifier}
    (hid : s.didId d = some id) : s.adts.get? id.globalId = none := by
  rw [Assoc.get?_eq_none_iff]
  intro hk
  obtain ⟨e, he, hke⟩ := List.mem_map.mp hk
  obtain ⟨x, hx, hxk, hsort⟩ := forall₂_mem_right h.store.sorts he
  have : x = d := h.ids.did_inj x d _ _ hsort.id hid (by rw [← hxk, hke])
  exact hd (this ▸ hx)

theorem getSort_none (h : LoopInv tcx done s) {d : DefId} (hd : d ∉ done) :
    ((s.didId d).bind fun id => s.adts.get? id.globalId) = none := by
  cases hid : s.didId d with
  | none => rfl
  | some id => exact h.not_stored hd hid

/-- Whatever a registered ADT reaches is an ADT with an id. -/
theorem closed_reaches (hok : TcxOk tcx) (h : LoopInv tcx done s) {d e : DefId}
    (hk : tcx.defKind d = .adt) (hd : s.didId d ≠ none) (hde : Reaches tcx d e) :
    tcx.defKind e = .adt ∧ s.didId e ≠ none := by
  induction hde with
  | refl => exact ⟨hk, hd⟩
  | @tail x y _ hxy ih =>
    obtain ⟨a, ha⟩ := hok.mentions_adt x y hxy
    refine ⟨?_, h.closed x ih.1 ih.2 y hxy⟩
    rw [← Tcx.adtDef_did ha]
    exact hok.adt_kind a (Tcx.adtDef_mem ha)

end LoopInv

theorem adt_kind_of_adtDef (hok : TcxOk tcx) {d : DefId} (h : ∃ a, tcx.adtDef d = some a) :
    tcx.defKind d = .adt := by
  obtain ⟨a, ha⟩ := h
  rw [← Tcx.adtDef_did ha]
  exact hok.adt_kind a (Tcx.adtDef_mem ha)

/-- The key under which an extracted ADT is added is new. -/
theorem AdtExtracted.key_fresh {done : List DefId} {s s' : Extraction} {d : DefId} {sort : ADTSort}
    (hinv : LoopInv tcx done s) (hd : d ∉ done) (h : AdtExtracted tcx d sort s s') :
    s'.adts.get? sort.id.globalId = none := by
  rw [h.moves.adts, Assoc.get?_eq_none_iff]
  intro hk
  obtain ⟨e, he, hke⟩ := List.mem_map.mp hk
  obtain ⟨x, hx, hxk, hsort⟩ := forall₂_mem_right hinv.store.sorts he
  have hxid := h.moves.grows.did _ _ hsort.id
  have : x = d := (h.moves.ids hinv.ids).did_inj x d _ _ hxid h.image.id (by rw [← hxk, hke])
  exact hd (this ▸ hx)

/-- Extracting and adding one more ADT keeps the invariant. -/
theorem LoopInv.step {done : List DefId} {s s' : Extraction} {d : DefId} {sort : ADTSort}
    (hinv : LoopInv tcx done s) (hd : d ∉ done) (h : AdtExtracted tcx d sort s s') :
    LoopInv tcx (done ++ [d]) { s' with adts := s'.adts ++ [(sort.id.globalId, sort)] } where
  ids := (h.moves.ids hinv.ids).of_mapping rfl
  store := by
    refine ⟨?_, ?_⟩
    · show List.Forall₂ (SortEntry tcx s') (done ++ [d]) (s'.adts ++ [(sort.id.globalId, sort)])
      rw [h.moves.adts]
      exact List.rel_append (hinv.store.sorts.imp fun _ _ he => he.mono h.moves.grows)
        (.cons ⟨rfl, h.image⟩ .nil)
    · have hfresh := h.key_fresh hinv hd
      have hkeys : s'.adts.keys.Nodup := h.moves.adts ▸ hinv.store.keys
      have := Assoc.nodup_keys_insert hkeys sort.id.globalId sort
      rwa [Assoc.insert_of_get?_none hfresh] at this
  closed := by
    intro x hk hx e he
    by_cases hxs : s.didId x = none
    · exact h.moves.closed x ⟨hk, hxs, hx⟩ e he
    · exact h.moves.grows.didId_ne_none (hinv.closed x hk hxs e he)
  reached := by
    intro x hk hx
    by_cases hxs : s.didId x = none
    · obtain ⟨r, rfl, hr⟩ := h.moves.reached x ⟨hk, hxs, hx⟩
      exact ⟨r, by simp, hr⟩
    · obtain ⟨r, hr, hrx⟩ := hinv.reached x hk hxs
      exact ⟨r, List.mem_append_left _ hr, hrx⟩
  checked := by
    intro x hk hx
    by_cases hxs : s.didId x = none
    · exact h.moves.checked x ⟨hk, hxs, hx⟩
    · exact hinv.checked x hk hxs

/-! ## Runs of the loop -/

/-- What a run of the loop that returns tells about the ADTs it went through. -/
theorem extractLocalAdts_ok (hok : TcxOk tcx) :
    ∀ (rest done : List DefId) {s s' : Extraction} {u : Unit}, LoopInv tcx done s →
    (done ++ rest).Nodup → (∀ d ∈ done ++ rest, ∃ a, tcx.adtDef d = some a) →
    extractLocalAdts tcx rest s = .ok (u, s') →
    LoopInv tcx (done ++ rest) s' ∧ (∀ d ∈ rest, ∀ r ∈ done, ¬ Reaches tcx r d) ∧
      rest.Pairwise fun d e => ¬ Reaches tcx d e := by
  intro rest
  induction rest with
  | nil =>
    intro done s s' u hinv hnd hadt h
    obtain ⟨-, rfl⟩ := Run.pure_ok.mp h
    exact ⟨by simpa using hinv, by simp, .nil⟩
  | cons d rest ih =>
    intro done s s' u hinv hnd hadt h
    have hd : d ∉ done := fun hd => (List.nodup_append.mp hnd).2.2 d hd d List.mem_cons_self rfl
    rw [extractLocalAdts] at h
    obtain ⟨sort, s₁, h1, h⟩ := Run.bind_ok.mp h
    obtain ⟨_, s₂, h2, h3⟩ := Run.bind_ok.mp h
    have hex := extractAdt_fresh hok (hinv.getSort_none hd) h1
    obtain ⟨-, rfl⟩ := addAdt_ok.mp h2
    have happ : done ++ d :: rest = done ++ [d] ++ rest := by simp
    rw [happ] at hnd hadt ⊢
    obtain ⟨hinv', hrest, hpair⟩ := ih (done ++ [d]) (hinv.step hd hex) hnd hadt h3
    refine ⟨hinv', ?_, .cons (fun e he => hrest e he d (by simp)) hpair⟩
    intro e he r hr
    rcases List.mem_cons.mp he with rfl | he
    · intro hre
      have hrk := adt_kind_of_adtDef hok (hadt r (by simp [hr]))
      exact (hinv.closed_reaches hok hrk (hinv.registered hr) hre).2 hex.fresh
    · exact hrest e he r (List.mem_append_left _ hr)

/-- The loop returns when no ADT is reached from an earlier one. -/
theorem extractLocalAdts_returns (hok : TcxOk tcx) :
    ∀ (rest done : List DefId) {s : Extraction}, LoopInv tcx done s → (done ++ rest).Nodup →
    (∀ d ∈ rest, ∃ a, tcx.adtDef d = some a) →
    (done ++ rest).Pairwise (fun d e => ¬ Reaches tcx d e) → (∀ d ∈ rest, ReachesOk tcx d) →
    ∃ s', extractLocalAdts tcx rest s = .ok ((), s') := by
  intro rest
  induction rest with
  | nil => exact fun done s _ _ _ _ _ => ⟨s, rfl⟩
  | cons d rest ih =>
    intro done s hinv hnd hadt hpair hr
    have hd : d ∉ done := fun hd => (List.nodup_append.mp hnd).2.2 d hd d List.mem_cons_self rfl
    have hfresh : s.didId d = none := by
      by_contra hne
      have hk := adt_kind_of_adtDef hok (hadt d List.mem_cons_self)
      obtain ⟨r, hrd, hreach⟩ := hinv.reached d hk hne
      exact (List.pairwise_append.mp hpair).2.2 r hrd d List.mem_cons_self hreach
    obtain ⟨a, ha⟩ := hadt d List.mem_cons_self
    obtain ⟨sort, s₁, h1⟩ := extractAdt_returns hok ha (hr d List.mem_cons_self) hfresh
    have hex := extractAdt_fresh hok (hinv.getSort_none hd) h1
    have happ : done ++ d :: rest = done ++ [d] ++ rest := by simp
    rw [happ] at hnd hpair
    obtain ⟨s', h⟩ := ih (done ++ [d]) (hinv.step hd hex) hnd
      (fun e he => hadt e (List.mem_cons_of_mem _ he)) hpair
      (fun e he => hr e (List.mem_cons_of_mem _ he))
    refine ⟨s', ?_⟩
    rw [extractLocalAdts, Run.bind_eq h1,
      Run.bind_eq (addAdt_ok (u := ()) |>.mpr ⟨hex.key_fresh hinv hd, rfl⟩)]
    exact h

/--
**The loop over the local ADTs completes with exactly one sort for each of them if and only if no
ADT is reached, through field types and bounds, from one visited before it.** (And, as for every
extraction of generics, the `Fn`-like bounds of all ADTs reached are in order.)
-/
theorem extractLocalAdts_storeOk_iff (hok : TcxOk tcx) {order : List DefId}
    (hv : VisitOrder tcx order) :
    (∃ s', extractLocalAdts tcx order Extraction.new = .ok ((), s') ∧ StoreOk tcx order s') ↔
      order.Pairwise (fun d e => ¬ Reaches tcx d e) ∧ ∀ d ∈ order, ReachesOk tcx d := by
  have hadt : ∀ d ∈ order, ∃ a, tcx.adtDef d = some a := fun d hd => ((hv.mem d).mp hd).2
  constructor
  · rintro ⟨s', h, -⟩
    obtain ⟨hinv, -, hpair⟩ := extractLocalAdts_ok hok order [] (.new tcx) (by simpa using hv.nodup)
      (by simpa using hadt) h
    refine ⟨hpair, fun d hd e hde => ?_⟩
    have hreg := hinv.closed_reaches hok (adt_kind_of_adtDef hok (hadt d hd))
      (hinv.registered (by simpa using hd)) hde
    exact hinv.checked e hreg.1 hreg.2
  · rintro ⟨hpair, hr⟩
    obtain ⟨s', h⟩ := extractLocalAdts_returns hok order [] (.new tcx) (by simpa using hv.nodup)
      hadt (by simpa using hpair) hr
    have hinv := (extractLocalAdts_ok hok order [] (.new tcx) (by simpa using hv.nodup)
      (by simpa using hadt) h).1
    exact ⟨s', h, by simpa using hinv.store⟩

/-! ## Two structs -/

section TwoStructs

/-- `struct A { .. }` and `struct B { .. }`, each with one field of the given type. -/
def twoStructs (tyA tyB : Ty) : Tcx :=
  { Tcx.empty with
    defKind := fun d => if d.index ≤ 1 then .adt else .field
    defPathStr := fun d => if d.index = 0 then "A" else if d.index = 1 then "B" else "x"
    adtDefs :=
      [{ did := ⟨0, 0⟩
         isBox := false
         variants := [{ defId := ⟨0, 0⟩, fields := [{ did := ⟨0, 2⟩, name := "x", ty := tyA }] }] },
       { did := ⟨0, 1⟩
         isBox := false
         variants :=
          [{ defId := ⟨0, 1⟩, fields := [{ did := ⟨0, 3⟩, name := "x", ty := tyB }] }] }] }

/-- The type of the struct `B`. -/
abbrev structB : Ty := .adt ⟨0, 1⟩ []

/-- The type of the struct `A`. -/
abbrev structA : Ty := .adt ⟨0, 0⟩ []

theorem twoStructs_mentions {tyA tyB : Ty} {d e : DefId}
    (h : AdtMentions (twoStructs tyA tyB) d e) :
    (d = ⟨0, 0⟩ ∧ e ∈ tyAdts (twoStructs tyA tyB) tyA) ∨
      (d = ⟨0, 1⟩ ∧ e ∈ tyAdts (twoStructs tyA tyB) tyB) := by
  obtain ⟨a, ha, he⟩ := h
  have hmem := Tcx.adtDef_mem ha
  have hdid := Tcx.adtDef_did ha
  have hgen : e ∉ genericsAdts (twoStructs tyA tyB) d := by
    simp [genericsAdts, twoStructs, Tcx.empty, funParamsOf]
  obtain ⟨v, hv, f, hf, he⟩ := he.resolve_left hgen
  simp only [twoStructs, List.mem_cons, List.not_mem_nil, or_false] at hmem
  rcases hmem with rfl | rfl <;> simp_all

theorem twoStructs_ok {tyA tyB : Ty}
    (hA : tyParams (twoStructs tyA tyB) tyA = [] ∧ TyApplied (twoStructs tyA tyB) tyA ∧
      ∀ e ∈ tyAdts (twoStructs tyA tyB) tyA, e = ⟨0, 0⟩ ∨ e = ⟨0, 1⟩)
    (hB : tyParams (twoStructs tyA tyB) tyB = [] ∧ TyApplied (twoStructs tyA tyB) tyB ∧
      ∀ e ∈ tyAdts (twoStructs tyA tyB) tyB, e = ⟨0, 0⟩ ∨ e = ⟨0, 1⟩) :
    TcxOk (twoStructs tyA tyB) where
  adt_kind := by simp [twoStructs]
  variant_kind := by simp [twoStructs]
  field_kind := by simp [twoStructs]
  tparam_kind := by simp [twoStructs, Tcx.empty, allGenericParamsOf, allGenericParams]
  tparam_index := by simp [twoStructs, Tcx.empty, allGenericParamsOf, allGenericParams]
  tparam_inj := by simp [twoStructs, Tcx.empty, allGenericParamsOf, allGenericParams]
  adt_not_closure := by simp [twoStructs, Tcx.empty]
  mentions_adt := by
    intro d e h
    have he : e = ⟨0, 0⟩ ∨ e = ⟨0, 1⟩ := by
      rcases twoStructs_mentions h with ⟨-, he⟩ | ⟨-, he⟩
      · exact hA.2.2 e he
      · exact hB.2.2 e he
    rcases he with rfl | rfl <;> simp [Tcx.adtDef, twoStructs]
  field_params := by
    intro a ha v hv f hf
    simp only [twoStructs, List.mem_cons, List.not_mem_nil, or_false] at ha
    rcases ha with rfl | rfl
    · simp only [List.mem_singleton] at hv
      subst hv
      simp only [List.mem_singleton] at hf
      subst hf
      simp [hA.1]
    · simp only [List.mem_singleton] at hv
      subst hv
      simp only [List.mem_singleton] at hf
      subst hf
      simp [hB.1]
  field_applied := by
    intro a ha v hv f hf
    simp only [twoStructs, List.mem_cons, List.not_mem_nil, or_false] at ha
    rcases ha with rfl | rfl
    · simp only [List.mem_singleton] at hv
      subst hv
      simp only [List.mem_singleton] at hf
      subst hf
      exact hA.2.1
    · simp only [List.mem_singleton] at hv
      subst hv
      simp only [List.mem_singleton] at hf
      subst hf
      exact hB.2.1
  params_applied := by simp [twoStructs, Tcx.empty, funParamsOf]
  returns_applied := by simp [twoStructs, Tcx.empty, funReturnsOf]

theorem twoStructs_visitOrder (tyA tyB : Ty) :
    VisitOrder (twoStructs tyA tyB) [⟨0, 0⟩, ⟨0, 1⟩] where
  nodup := by decide
  mem := by
    intro d
    constructor
    · intro hd
      simp only [List.mem_cons, List.not_mem_nil, or_false] at hd
      rcases hd with rfl | rfl <;> simp [DefId.isLocal, Tcx.adtDef, twoStructs]
    · rintro ⟨-, a, ha⟩
      have hmem := Tcx.adtDef_mem ha
      rw [← Tcx.adtDef_did ha]
      simp only [twoStructs, List.mem_cons, List.not_mem_nil, or_false] at hmem
      rcases hmem with rfl | rfl <;> simp

/-- `struct A { x: i32 }` before `struct B { x: A }`. -/
theorem extractLocalAdts_storeOk_backward :
    ∃ s', extractLocalAdts (twoStructs (.int .i32) structA) [⟨0, 0⟩, ⟨0, 1⟩] Extraction.new =
        .ok ((), s') ∧
      StoreOk (twoStructs (.int .i32) structA) [⟨0, 0⟩, ⟨0, 1⟩] s' := by
  have hadts : tyAdts (twoStructs (.int .i32) structA) structA = [⟨0, 0⟩] := by
    simp [tyAdts, tysAdts, twoStructs, Tcx.isBigint, Tcx.isBox, Tcx.adtDef, Tcx.empty,
      StdItems.defToItemOpt]
  have hok : TcxOk (twoStructs (.int .i32) structA) := by
    refine twoStructs_ok ⟨by simp [tyParams], by simp [TyApplied], by simp [tyAdts]⟩ ⟨?_, ?_, ?_⟩
    · simp [tyParams, tysParams, twoStructs, Tcx.isBigint, Tcx.isBox, Tcx.adtDef, Tcx.empty,
        StdItems.defToItemOpt]
    · simp [TyApplied, TysApplied, twoStructs, Tcx.isBigint, Tcx.isBox, Tcx.adtDef, Tcx.empty,
        StdItems.defToItemOpt]
    · simp [hadts]
  have hreach : ∀ {e}, Reaches (twoStructs (.int .i32) structA) ⟨0, 0⟩ e → e = ⟨0, 0⟩ := by
    intro e he
    induction he with
    | refl => rfl
    | tail _ hxy ih =>
      subst ih
      rcases twoStructs_mentions hxy with ⟨-, he⟩ | ⟨h, -⟩
      · simp [tyAdts] at he
      · simp at h
  refine (extractLocalAdts_storeOk_iff hok (twoStructs_visitOrder _ _)).mpr ⟨?_, ?_⟩
  · refine .cons (fun e he hr => ?_) (.cons (by simp) .nil)
    have := hreach hr
    simp_all
  · intro d _ e _
    exact ⟨by simp [twoStructs, Tcx.empty, funParamsOf, Assoc.keys],
      by simp [twoStructs, Tcx.empty, funReturnsOf, Assoc.keys],
      by simp [twoStructs, Tcx.empty, funParamsOf, IterOrder.insertion, HofOrderOk]⟩

/--
`struct A { x: B }` before `struct B { x: i32 }`: extracting `A` gives `B` its id, and the visit of
`B` fails the assertion that it has none.
-/
theorem extractLocalAdts_forward_panics :
    TcxOk (twoStructs structB (.int .i32)) ∧
      VisitOrder (twoStructs structB (.int .i32)) [⟨0, 0⟩, ⟨0, 1⟩] ∧
      extractLocalAdts (twoStructs structB (.int .i32)) [⟨0, 0⟩, ⟨0, 1⟩] Extraction.new =
        .error .registerDef := by
  refine ⟨twoStructs_ok ⟨?_, ?_, ?_⟩ ⟨by simp [tyParams], by simp [TyApplied], by simp [tyAdts]⟩,
    twoStructs_visitOrder _ _, by rfl⟩
  · simp [tyParams, tysParams, twoStructs, Tcx.isBigint, Tcx.isBox, Tcx.adtDef, Tcx.empty,
      StdItems.defToItemOpt]
  · simp [TyApplied, TysApplied, twoStructs, Tcx.isBigint, Tcx.isBox, Tcx.adtDef, Tcx.empty,
      StdItems.defToItemOpt]
  · simp [tyAdts, tysAdts, twoStructs, Tcx.isBigint, Tcx.isBox, Tcx.adtDef, Tcx.empty,
      StdItems.defToItemOpt]

end TwoStructs

end Stainless
