import Mathlib.Data.List.Rotate
import RustStainless.Extraction.HofOrders

/-!
# When the extraction of generics is total and free of order

`extract_generics` asserts that no type parameter has two `Fn`-like bounds, and looks up every type
parameter of a bound in a context that it fills in hash order. So it panics on definitions that are
fine in Rust; and where two bounds mention new ADTs, their ids show the order.
-/

namespace Stainless

open Rustc St Lib Extraction

variable {tcx : Tcx} {d : DefId}

/-! ## The property and the condition -/

/--
`extract_generics` never panics, and no order of its hash map shows in the type parameters. This is
said of every state whose ids are consistent, whether or not a run reaches it.
-/
structure GenericsTotal (tcx : Tcx) (d : DefId) : Prop where
  returns : ∀ s o, IdsOk tcx s → ∃ r s', extractGenericsIn tcx o d s = .ok (r, s')
  same : ∀ s o o' r r' s' s'', IdsOk tcx s → extractGenericsIn tcx o d s = .ok (r, s') →
    extractGenericsIn tcx o' d s = .ok (r', s'') →
    ∀ i, r.2.indexToTparam.get? i = r'.2.indexToTparam.get? i

/-- The bounds of a definition leave the order of its `Fn`-bounded type parameters free. -/
structure BoundsFree (tcx : Tcx) (d : DefId) : Prop where
  params_nodup : (funParamsOf tcx (tcx.predicatesOf d)).keys.Nodup
  returns_nodup : (funReturnsOf tcx (tcx.predicatesOf d)).keys.Nodup
  returns : ∀ p ∈ funParamsOf tcx (tcx.predicatesOf d),
    (funReturnsOf tcx (tcx.predicatesOf d)).get? p.1 ≠ none
  /-- Bounds mention only parameters that have no such bound. -/
  plain : ∀ p ∈ funParamsOf tcx (tcx.predicatesOf d), ∀ i ∈ tysParams tcx (boundTys tcx d p),
    i ∈ (plainParamsOf tcx d).map (·.index)
  /-- The ADTs that are reached can be extracted. -/
  adts : ∀ e ∈ genericsAdts tcx d, ReachesOk tcx e
  /-- The ADTs come first in the same order in all bounds, as far as each goes. -/
  comparable : (funParamsOf tcx (tcx.predicatesOf d)).Pairwise fun p q =>
    PrefixComparable (tysAdts tcx (boundTys tcx d p)) (tysAdts tcx (boundTys tcx d q))

theorem mem_genericsAdts {p : Nat × List Ty} (hp : p ∈ funParamsOf tcx (tcx.predicatesOf d))
    {e : DefId} (he : e ∈ tysAdts tcx (boundTys tcx d p)) : e ∈ genericsAdts tcx d := by
  rw [boundTys, tysAdts_append, List.mem_append] at he
  refine ⟨p, hp, he.imp_right fun he => ?_⟩
  cases hr : (funReturnsOf tcx (tcx.predicatesOf d)).get? p.1 with
  | none => simp [hr, tysAdts] at he
  | some ty => exact ⟨ty, rfl, by simpa [hr, tysAdts] using he⟩

theorem not_mem_genericsAdts
    (h : ∀ p ∈ funParamsOf tcx (tcx.predicatesOf d), tysAdts tcx (boundTys tcx d p) = [])
    (e : DefId) : e ∉ genericsAdts tcx d := by
  rintro ⟨p, hp, he⟩
  have hnone := h p hp
  rw [boundTys, tysAdts_append, List.append_eq_nil_iff] at hnone
  rcases he with he | ⟨ty, hty, he⟩
  · simp [hnone.1] at he
  · simp [hty, tysAdts] at hnone
    simp [hnone.2] at he

/-! ## The condition is enough -/

theorem mem_hofsIn {o : IterOrder HashSite} {p : Nat × List Ty} :
    p ∈ hofsIn tcx o d ↔ p ∈ funParamsOf tcx (tcx.predicatesOf d) := o.mem_iter

theorem boundsAdts_hofsIn (o : IterOrder HashSite) :
    boundsAdts tcx (hofsIn tcx o d) (funReturnsOf tcx (tcx.predicatesOf d)) =
      genericsAdts tcx d := by
  simp only [boundsAdts, genericsAdts, mem_hofsIn]

/-- The order is one in which every lookup succeeds. -/
theorem BoundsFree.order (h : BoundsFree tcx d) (o : IterOrder HashSite) :
    HofOrderOk tcx ((plainParamsOf tcx d).map (·.index)) (hofsIn tcx o d)
      (funReturnsOf tcx (tcx.predicatesOf d)) := by
  have hnd : (hofsIn tcx o d).keys.Nodup :=
    (((o.perm _ _).map Prod.fst).nodup_iff).mpr h.params_nodup
  refine hofOrderOk_of_known hnd (fun p hp hmem => ?_) (fun p hp => h.returns p (mem_hofsIn.mp hp))
    fun p hp => h.plain p (mem_hofsIn.mp hp)
  obtain ⟨q, hq, hqp⟩ := List.mem_map.mp hmem
  have hfun : isFunParam tcx d q.index = true := by
    rw [hqp]
    exact Assoc.get?_isSome_iff.mpr (List.mem_map_of_mem (mem_hofsIn.mp hp))
  have hplain := (List.mem_filter.mp hq).2
  simp [hfun] at hplain

theorem BoundsFree.total (hok : TcxOk tcx) (hcl : tcx.isClosure d = false)
    (hadts : ∀ e ∈ genericsAdts tcx d, ∃ a, tcx.adtDef e = some a) (h : BoundsFree tcx d)
    (s : Extraction) (o : IterOrder HashSite) :
    ∃ r s', extractGenericsIn tcx o d s = .ok (r, s') := by
  obtain ⟨bounds, m, s₁, h1⟩ := prepareGenerics_returns h.params_nodup h.returns_nodup s
  have hprep := prepareGenerics_ok hok hcl h1
  have hpre := pendingAdts_stable tcx (tcx.adtDefs.length + 1)
  obtain ⟨txtcx, s₂, h2, -, -⟩ := replaceHofParams_returns hpre (hofsIn tcx o d)
    (funReturnsOf tcx (tcx.predicatesOf d)) { defId := d, indexToTparam := m }
    (by rw [hprep.keys]; exact h.order o)
    (fun p hp => hok.params_applied d p (mem_hofsIn.mp hp))
    (hok.returns_applied d)
    ((((o.perm _ _).map Prod.fst).nodup_iff).mpr h.params_nodup)
    (fun e he => by
      rw [boundsAdts_hofsIn] at he
      exact extractAdtIdWith_returns hok _ e (hadts e he) (h.adts e he))
    s₁ (Nat.le_succ_of_le (List.length_filter_le _ _))
  refine ⟨(tparamDefs (tcx.withOrder o) txtcx, txtcx), s₂, ?_⟩
  rw [extractGenericsIn_eq hcl, Run.bind_eq h1]
  simp only [hprep.params, hprep.returns]
  exact Run.bind_eq h2

/-- The function type for a parameter depends on the ids and on what its bound looks up. -/
theorem HofImage.unique {ids : DefId → Option SymbolIdentifier} {tps tps' : Nat → Option TyParam}
    {returns : Assoc Nat Ty} {p : Nat × List Ty} {e e' : Nat × TyParam}
    (htps : ∀ i ∈ boundParams tcx returns p, tps i = tps' i)
    (h : HofImage tcx ids tps returns p e) (h' : HofImage tcx ids tps' returns p e') : e = e' := by
  obtain ⟨hidx, tpes, ty, tpe, h1, h2, h3, he⟩ := h
  obtain ⟨hidx', tpes', ty', tpe', h1', h2', h3', he'⟩ := h'
  rw [h2] at h2'
  cases h2'
  rw [tysImage_congr p.2 fun i hi => htps i (mem_boundParams.mpr (.inl hi)), h1'] at h1
  rw [tyImage_congr ty fun i hi => htps i (mem_boundParams.mpr (.inr ⟨ty, h2, hi⟩)), h3'] at h3
  cases h1
  cases h3
  exact Prod.ext (hidx.trans hidx'.symm) (he.trans he'.symm)

/-- Two orders lead to the same type parameters, if to the same ids. -/
theorem BoundsFree.replaced_same (h : BoundsFree tcx d) {o o' : IterOrder HashSite}
    {m : Assoc Nat TyParam} (hkeys : m.keys = (plainParamsOf tcx d).map (·.index))
    {txtcx txtcx' : TyExtractionCtxt} {s s' s'' : Extraction}
    (hr : Replaced tcx (hofsIn tcx o d) (funReturnsOf tcx (tcx.predicatesOf d))
      { defId := d, indexToTparam := m } txtcx s s')
    (hr' : Replaced tcx (hofsIn tcx o' d) (funReturnsOf tcx (tcx.predicatesOf d))
      { defId := d, indexToTparam := m } txtcx' s s'') (hids : s'.didId = s''.didId) {i : Nat}
    {t : TyParam} (hi : txtcx.indexToTparam.get? i = some t) :
    txtcx'.indexToTparam.get? i = some t := by
  obtain ⟨hofs, hm, hhofs⟩ := hr.entries
  obtain ⟨hofs', hm', hhofs'⟩ := hr'.entries
  have hplain : ∀ j ∈ m.keys, txtcx.indexToTparam.get? j = txtcx'.indexToTparam.get? j := by
    intro j hj
    obtain ⟨q, hq⟩ := Option.isSome_iff_exists.mp (Assoc.get?_isSome_iff.mpr hj)
    rw [hm, hm', Assoc.get?_append, Assoc.get?_append, hq]
    rfl
  by_cases hmem : i ∈ m.keys
  · rw [← hplain i hmem]
    exact hi
  · -- It is the entry of a bounded parameter, and so is the one in the other order.
    have he := Assoc.mem_of_get? hi
    rw [hm, List.mem_append] at he
    rcases he with he | he
    · exact absurd (List.mem_map_of_mem he) hmem
    · obtain ⟨p, hp, himg⟩ := forall₂_mem_right hhofs he
      obtain ⟨e', he', himg'⟩ := forall₂_mem_left hhofs' (mem_hofsIn.mpr (mem_hofsIn.mp hp))
      rw [hids] at himg
      have heq : (i, t) = e' := himg.unique
        (fun j hj => hplain j (hkeys ▸ h.plain p (mem_hofsIn.mp hp) j hj)) himg'
      refine Assoc.get?_of_mem hr'.nodup ?_
      rw [hm', heq]
      exact List.mem_append_right _ he'

theorem BoundsFree.same (hok : TcxOk tcx) (hcl : tcx.isClosure d = false) (h : BoundsFree tcx d)
    {s s' s'' : Extraction} {o o' : IterOrder HashSite}
    {r r' : List TypeParameterDef × TyExtractionCtxt}
    (hr : extractGenericsIn tcx o d s = .ok (r, s'))
    (hr' : extractGenericsIn tcx o' d s = .ok (r', s'')) (i : Nat) :
    r.2.indexToTparam.get? i = r'.2.indexToTparam.get? i := by
  obtain ⟨bounds, m, s₁, h1, hrep, t, hask, ht⟩ := extractGenericsIn_ok hok hcl hr
  obtain ⟨bounds', m', s₁', h1', hrep', t', hask', ht'⟩ := extractGenericsIn_ok hok hcl hr'
  cases h1.symm.trans h1'
  have hkeys := (prepareGenerics_ok hok hcl h1).keys
  -- The ADTs come first in the same order.
  have hperm : (hofsIn tcx o d).Perm (hofsIn tcx o' d) := (o.perm _ _).trans (o'.perm _ _).symm
  have hfirsts := firsts_flatMap_perm (f := boundAdts tcx (funReturnsOf tcx (tcx.predicatesOf d)))
    hperm (((o.perm _ _).pairwise_iff fun h => h.symm).mpr h.comparable)
  rw [← Memo.askAll_firsts, hfirsts, Memo.askAll_firsts] at hask
  cases hask.symm.trans hask'
  have hids : s'.didId = s''.didId := ht.didId.symm.trans ht'.didId
  cases hx : r.2.indexToTparam.get? i with
  | some t => exact (h.replaced_same hkeys hrep hrep' hids hx).symm
  | none =>
    cases hy : r'.2.indexToTparam.get? i with
    | none => rfl
    | some t => rw [h.replaced_same hkeys hrep' hrep hids.symm hy] at hx; cases hx

/-! ## The condition is needed -/

/-- An ADT without an id gets the next one. -/
theorem extractAdtId_new {e : DefId} {id : SymbolIdentifier} {s s' : Extraction}
    (he : s.didId e = none) (h : extractAdtId tcx e s = .ok (id, s')) :
    s'.didId e = some (s.defIdent tcx e) := by
  unfold extractAdtId extractAdtIdWith at h
  rw [Run.bind_eq getIdFromDef_eq, he] at h
  obtain ⟨sort, s₁, h1, h⟩ := Run.bind_ok.mp h
  obtain ⟨-, rfl⟩ := Run.pure_ok.mp h
  unfold extractAdt adtDepth at h1
  rw [extractAdtWith, Run.bind_eq getSort_eq, he] at h1
  simp only [Option.bind_none] at h1
  rw [Run.bind_eq (registerDef_eq he)] at h1
  cases ha : tcx.adtDef e with
  | none => simp [ha] at h1
  | some a =>
    simp only [ha] at h1
    have hgrow := (extractSort_byOps (extractAdtIdWith_byOps (extractAdtWith_byOps _)) _ e a).grows
      _ sort s₁ h1
    exact hgrow.did e _ (by rw [withDef_didId tcx he, if_pos rfl])

/-- The first ADT without an id that is asked for gets the next one. -/
theorem askAll_first {hok : TcxOk tcx} {ds rest c x : List DefId} {a : DefId} {s t : Extraction}
    (hfirsts : firsts ds = c ++ a :: x) (hc : ∀ e ∈ c, s.didId e ≠ none) (ha : s.didId a = none)
    (h : (adtMemo hok).askAll (ds ++ rest) s = .ok (⟨⟩, t)) :
    t.didId a = some (s.defIdent tcx a) := by
  rw [← Memo.askAll_firsts, firsts_append, hfirsts, List.append_assoc, List.cons_append,
    Memo.askAll_append, Run.bind_eq (Memo.askAll_known _ hc), Memo.askAll] at h
  obtain ⟨⟨⟩, s₁, h1, h⟩ := Run.bind_ok.mp h
  obtain ⟨id, s₂, h2, h1⟩ := Run.bind_ok.mp h1
  obtain ⟨-, rfl⟩ := Run.pure_ok.mp h1
  have hgrow : Run.Moves Grows ((adtMemo hok).askAll (x ++ (firsts rest).filter (· ∉ ds))) := by
    generalize x ++ (firsts rest).filter (· ∉ ds) = ds'
    induction ds' with
    | nil => exact .pure Grows.refl _
    | cons d ds' ih =>
      exact .bind (R := Grows) (fun h h' => h.trans h')
        (ByOps.bind (extractAdtId_byOps d) fun _ => .pure _).grows fun _ => ih
  exact (hgrow _ _ _ h).did a _ (extractAdtId_new ha h2)

/-- There is a state in which exactly the given definitions have ids. -/
theorem exists_registered (tcx : Tcx) (ds : List DefId) :
    ∃ s, IdsOk tcx s ∧ ∀ d, s.didId d ≠ none ↔ d ∈ ds := by
  induction ds with
  | nil => exact ⟨.new, .new tcx, by simp [didId, Extraction.new]⟩
  | cons e ds ih =>
    obtain ⟨s, hids, hs⟩ := ih
    cases he : s.didId e with
    | some id =>
      refine ⟨s, hids, fun d => ?_⟩
      rw [hs, List.mem_cons]
      refine ⟨.inr, ?_⟩
      rintro (rfl | hd)
      · exact (hs d).mp (by simp [he])
      · exact hd
    | none =>
      refine ⟨s.withDef tcx e, hids.withDef he, fun d => ?_⟩
      rw [withDef_didId tcx he, List.mem_cons]
      by_cases hd : d = e
      · simp [hd]
      · simp [hd, Ne.symm hd, hs]

/-- The order in which the entries come rotated. -/
def rotated (k : Nat) : IterOrder HashSite where
  iter := fun _ l => l.rotate k
  perm := fun _ l => l.rotate_perm k

/-- Any bounded parameter may come first. -/
theorem exists_hofsIn_cons {p : Nat × List Ty} (hp : p ∈ funParamsOf tcx (tcx.predicatesOf d)) :
    ∃ o rest, hofsIn tcx o d = p :: rest := by
  obtain ⟨l, l', hl⟩ := List.append_of_mem hp
  refine ⟨rotated l.length, l' ++ l, ?_⟩
  show (funParamsOf tcx (tcx.predicatesOf d)).rotate l.length = _
  rw [hl, List.rotate_append_length_eq]
  rfl

/-- The first ADT that the first bound mentions gets the next id. -/
theorem extractGenericsIn_first (hok : TcxOk tcx) (hcl : tcx.isClosure d = false)
    {o : IterOrder HashSite} {p : Nat × List Ty} {rest : Assoc Nat (List Ty)}
    (ho : hofsIn tcx o d = p :: rest) {c x : List DefId} {a : DefId}
    (hfirsts : firsts (tysAdts tcx (boundTys tcx d p)) = c ++ a :: x)
    (hkind : tcx.defKind a = .adt) {s s' : Extraction} (hc : ∀ e, s.didId e ≠ none ↔ e ∈ c)
    {r : List TypeParameterDef × TyExtractionCtxt}
    (h : extractGenericsIn tcx o d s = .ok (r, s')) :
    ∃ q s₁, prepareGenerics tcx d s = .ok (q, s₁) ∧ s'.didId a = some (s₁.defIdent tcx a) := by
  obtain ⟨bounds, m, s₁, h1, -, t, hask, ht⟩ := extractGenericsIn_ok hok hcl h
  refine ⟨(bounds, m), s₁, h1, ?_⟩
  have hmoves := (prepareGenerics_ok hok hcl h1).moves
  have hnd := nodup_firsts (tysAdts tcx (boundTys tcx d p))
  rw [hfirsts] at hnd
  have hac : a ∉ c := fun hmem => (List.nodup_append.mp hnd).2.2 a hmem a List.mem_cons_self rfl
  have hold : s.didId a = none := by
    by_contra hne
    exact hac ((hc a).mp hne)
  have hnew : s₁.didId a = none := by
    by_contra hne
    obtain ⟨r, hr, -⟩ := hmoves.reached a ⟨hkind, hold, hne⟩
    exact hr
  rw [ho, List.flatMap_cons] at hask
  have hfirst := askAll_first hfirsts
    (fun e he => hmoves.grows.didId_ne_none ((hc e).mpr he)) hnew hask
  rwa [ht.didId] at hfirst

/-- The entries of a bounded parameter are equal only if its ADTs have the same ids. -/
theorem Replaced.ids {o o' : IterOrder HashSite} {m m' : Assoc Nat TyParam}
    {txtcx txtcx' : TyExtractionCtxt} {s s' t t' : Extraction}
    (hr : Replaced tcx (hofsIn tcx o d) (funReturnsOf tcx (tcx.predicatesOf d))
      { defId := d, indexToTparam := m } txtcx s s')
    (hr' : Replaced tcx (hofsIn tcx o' d) (funReturnsOf tcx (tcx.predicatesOf d))
      { defId := d, indexToTparam := m' } txtcx' t t') {p : Nat × List Ty}
    (hp : p ∈ funParamsOf tcx (tcx.predicatesOf d))
    (hone : OneTupleFrees tcx (boundTys tcx d p))
    (hsame : txtcx.indexToTparam.get? p.1 = txtcx'.indexToTparam.get? p.1) :
    ∀ a ∈ tysAdts tcx (boundTys tcx d p), s'.didId a = t'.didId a := by
  obtain ⟨hofs, hm, hhofs⟩ := hr.entries
  obtain ⟨hofs', hm', hhofs'⟩ := hr'.entries
  obtain ⟨e, he, hidx, tpes, ty, tpe, h1, h2, h3, heq⟩ :=
    forall₂_mem_left hhofs (mem_hofsIn.mpr hp)
  obtain ⟨e', he', hidx', tpes', ty', tpe', h1', h2', h3', heq'⟩ :=
    forall₂_mem_left hhofs' (mem_hofsIn.mpr hp)
  have hget : txtcx.indexToTparam.get? p.1 = some e.2 := by
    refine Assoc.get?_of_mem hr.nodup ?_
    rw [hm, ← hidx]
    exact List.mem_append_right _ he
  have hget' : txtcx'.indexToTparam.get? p.1 = some e'.2 := by
    refine Assoc.get?_of_mem hr'.nodup ?_
    rw [hm', ← hidx']
    exact List.mem_append_right _ he'
  rw [hget, hget', heq, heq'] at hsame
  cases hsame
  cases h2.symm.trans h2'
  have hbound : boundTys tcx d p = p.2 ++ [ty] := by
    rw [boundTys, h2]
    rfl
  intro a ha
  rw [hbound] at hone
  rw [hbound, tysAdts_append, List.mem_append] at ha
  obtain ⟨hone₁, hone₂⟩ := (oneTupleFrees_append _ _).mp hone
  rcases ha with ha | ha
  · exact tysImage_ids p.2 hone₁ h1 h1' a ha
  · exact tyImage_ids ty hone₂.1 h3 h3' a (by simpa [tysAdts] using ha)

theorem GenericsTotal.comparable (hok : TcxOk tcx) (hcl : tcx.isClosure d = false)
    (hadts : ∀ e ∈ genericsAdts tcx d, ∃ a, tcx.adtDef e = some a)
    (hone : ∀ p ∈ funParamsOf tcx (tcx.predicatesOf d), OneTupleFrees tcx (boundTys tcx d p))
    (h : GenericsTotal tcx d) {p q : Nat × List Ty}
    (hp : p ∈ funParamsOf tcx (tcx.predicatesOf d))
    (hq : q ∈ funParamsOf tcx (tcx.predicatesOf d)) :
    PrefixComparable (tysAdts tcx (boundTys tcx d p)) (tysAdts tcx (boundTys tcx d q)) := by
  by_contra hno
  obtain ⟨hno, hno'⟩ := not_or.mp hno
  obtain ⟨c, a, x, b, y, hfp, hfq, hab⟩ := exists_apart hno hno'
  have hkind : ∀ r ∈ funParamsOf tcx (tcx.predicatesOf d),
      ∀ e ∈ tysAdts tcx (boundTys tcx d r), tcx.defKind e = .adt := by
    intro r hr e he
    obtain ⟨a, ha⟩ := hadts e (mem_genericsAdts hr he)
    exact Tcx.adtDef_did ha ▸ hok.adt_kind a (Tcx.adtDef_mem ha)
  have hap : a ∈ tysAdts tcx (boundTys tcx d p) := by
    rw [← mem_firsts, hfp]
    simp
  have hbq : b ∈ tysAdts tcx (boundTys tcx d q) := by
    rw [← mem_firsts, hfq]
    simp
  -- Where only what they share has ids, each of the two is the first if its bound is.
  obtain ⟨s, hids, hc⟩ := exists_registered tcx c
  obtain ⟨o, rest, ho⟩ := exists_hofsIn_cons hp
  obtain ⟨o', rest', ho'⟩ := exists_hofsIn_cons hq
  obtain ⟨r, s', hr⟩ := h.returns s o hids
  obtain ⟨r', s'', hr'⟩ := h.returns s o' hids
  obtain ⟨u, s₁, h1, ha⟩ := extractGenericsIn_first hok hcl ho hfp (hkind p hp a hap) hc hr
  obtain ⟨u', s₁', h1', hb⟩ := extractGenericsIn_first hok hcl ho' hfq (hkind q hq b hbq) hc hr'
  cases h1.symm.trans h1'
  obtain ⟨_, _, t, ht, hrep, -⟩ := extractGenericsIn_ok hok hcl hr
  obtain ⟨_, _, t', ht', hrep', -⟩ := extractGenericsIn_ok hok hcl hr'
  have hsame := hrep.ids hrep' hp (hone p hp) (h.same s o o' r r' s' s'' hids hr hr' p.1) a hap
  rw [ha] at hsame
  have hids'' : IdsOk tcx s'' := hrep'.moves.ids ((prepareGenerics_ok hok hcl ht').moves.ids hids)
  exact hab (hids''.did_inj a b _ _ hsame.symm hb rfl)

/-- What is reached from the bounds gets its id on the way, and so was extracted. -/
theorem GenericsTotal.reachesOk (hok : TcxOk tcx) (hcl : tcx.isClosure d = false)
    (hadts : ∀ e ∈ genericsAdts tcx d, ∃ a, tcx.adtDef e = some a) (h : GenericsTotal tcx d)
    {e : DefId} (he : e ∈ genericsAdts tcx d) : ReachesOk tcx e := by
  obtain ⟨r, s', hr⟩ := h.returns .new .insertion (.new tcx)
  obtain ⟨_, m, s₁, h1, hrep, -⟩ := extractGenericsIn_ok hok hcl hr
  have hmoves := (prepareGenerics_ok hok hcl h1).moves.trans hrep.moves
  have hregistered : ∀ {x a}, tcx.adtDef x = some a → s'.didId x ≠ none →
      Registered tcx .new s' x := fun hx hs =>
    ⟨Tcx.adtDef_did hx ▸ hok.adt_kind _ (Tcx.adtDef_mem hx), by simp [didId, Extraction.new], hs⟩
  have hreached : ∀ x, Reaches tcx e x → (∃ a, tcx.adtDef x = some a) ∧ s'.didId x ≠ none := by
    intro x hx
    induction hx with
    | refl =>
      refine ⟨hadts e he, hmoves.served e (.inr ?_)⟩
      rw [boundsAdts_hofsIn]
      exact he
    | tail _ hyz ih =>
      obtain ⟨⟨a, ha⟩, hs⟩ := ih
      exact ⟨hok.mentions_adt _ _ hyz, hmoves.closed _ (hregistered ha hs) _ hyz⟩
  intro x hx
  obtain ⟨⟨a, ha⟩, hs⟩ := hreached x hx
  exact hmoves.checked x (hregistered ha hs)

theorem GenericsTotal.boundsFree (hok : TcxOk tcx) (hcl : tcx.isClosure d = false)
    (hadts : ∀ e ∈ genericsAdts tcx d, ∃ a, tcx.adtDef e = some a)
    (hone : ∀ p ∈ funParamsOf tcx (tcx.predicatesOf d), OneTupleFrees tcx (boundTys tcx d p))
    (h : GenericsTotal tcx d) : BoundsFree tcx d := by
  obtain ⟨r, s', hr⟩ := h.returns .new .insertion (.new tcx)
  obtain ⟨r', s'', hr'⟩ := h.returns .new .reversed (.new tcx)
  obtain ⟨_, m, s₁, h1, hrep, -⟩ := extractGenericsIn_ok hok hcl hr
  obtain ⟨_, m', s₁', h1', hrep', -⟩ := extractGenericsIn_ok hok hcl hr'
  cases h1.symm.trans h1'
  have hprep := prepareGenerics_ok hok hcl h1
  have hknown : ∀ p ∈ funParamsOf tcx (tcx.predicatesOf d), _ := fun p hp =>
    known_of_hofOrderOk hprep.params_nodup hrep.order hrep'.order hp
  exact
    { params_nodup := hprep.params_nodup
      returns_nodup := hprep.returns_nodup
      returns := fun p hp => (hknown p hp).1
      plain := fun p hp i hi => hprep.keys ▸ (hknown p hp).2 i hi
      adts := fun e he => h.reachesOk hok hcl hadts he
      comparable := hprep.params_nodup.of_map.pairwise_of_forall_ne fun p hp q hq _ =>
        h.comparable hok hcl hadts hone hp hq }

/--
**The extraction of generics is total and free of order if the bounds are free**, and only then,
apart from bounds with one-tuples: their image is the same whatever is in them.
-/
theorem genericsTotal_of_boundsFree (hok : TcxOk tcx) (hcl : tcx.isClosure d = false)
    (hadts : ∀ e ∈ genericsAdts tcx d, ∃ a, tcx.adtDef e = some a) :
    (BoundsFree tcx d → GenericsTotal tcx d) ∧
      ((∀ p ∈ funParamsOf tcx (tcx.predicatesOf d), OneTupleFrees tcx (boundTys tcx d p)) →
        GenericsTotal tcx d → BoundsFree tcx d) :=
  ⟨fun h =>
    { returns := fun s o _ => h.total hok hcl hadts s o
      same := fun _ _ _ _ _ _ _ _ hr hr' => h.same hok hcl hr hr' },
    fun hone h => h.boundsFree hok hcl hadts hone⟩

/-! ## Three type parameters -/

/-- Items with the type parameters `T`, `F` and `G`, where `F: Fn(fArgs) -> fRet` and
`G: Fn(gArgs) -> gRet`. -/
def tfgTcx (fArgs : List Ty) (fRet : Ty) (gArgs : List Ty) (gRet : Ty) : Tcx :=
  { Tcx.empty with
    defKind := fun _ => .tyParam
    genericsOf := fun _ => .root [⟨0, ⟨0, 1⟩, .type⟩, ⟨1, ⟨0, 2⟩, .type⟩, ⟨2, ⟨0, 3⟩, .type⟩]
    predicatesOf := fun _ =>
      [.trait ⟨1, 0⟩ (.param 1) fArgs, .projection ⟨1, 2⟩ (.param 1) fRet,
        .trait ⟨1, 0⟩ (.param 2) gArgs, .projection ⟨1, 2⟩ (.param 2) gRet] }

section

variable {fArgs gArgs : List Ty} {fRet gRet : Ty}

theorem tfgTcx_ok (hargs : TysApplied (tfgTcx fArgs fRet gArgs gRet) fArgs ∧
      TysApplied (tfgTcx fArgs fRet gArgs gRet) gArgs)
    (hrets : TyApplied (tfgTcx fArgs fRet gArgs gRet) fRet ∧
      TyApplied (tfgTcx fArgs fRet gArgs gRet) gRet) :
    TcxOk (tfgTcx fArgs fRet gArgs gRet) where
  adt_kind := fun _ h => absurd h List.not_mem_nil
  variant_kind := fun _ h => absurd h List.not_mem_nil
  field_kind := fun _ h => absurd h List.not_mem_nil
  tparam_kind := fun _ _ _ _ _ => rfl
  tparam_index := fun _ => show [0, 1, 2].Nodup by decide
  tparam_inj := fun _ _ => show [DefId.mk 0 1, DefId.mk 0 2, DefId.mk 0 3].Nodup by decide
  adt_not_closure := fun _ h => absurd h List.not_mem_nil
  mentions_adt := by
    rintro _ _ ⟨a, ha, -⟩
    cases ha
  field_params := fun _ h => absurd h List.not_mem_nil
  field_applied := fun _ h => absurd h List.not_mem_nil
  params_applied := by
    intro _ p hp
    rcases List.mem_cons.mp (show p ∈ [(1, fArgs), (2, gArgs)] from hp) with rfl | hp
    · exact hargs.1
    · exact List.mem_singleton.mp hp ▸ hargs.2
  returns_applied := by
    intro _ p hp
    rcases List.mem_cons.mp (show p ∈ [(1, fRet), (2, gRet)] from hp) with rfl | hp
    · exact hrets.1
    · exact List.mem_singleton.mp hp ▸ hrets.2

end

/-- `<T, F: Fn(T) -> T, G: Fn(T, i32) -> bool>` -/
theorem genericsTotal_of_boundsFree_apart :
    GenericsTotal (tfgTcx [.param 0] (.param 0) [.param 0, .int .i32] .bool) ⟨0, 0⟩ := by
  have hok : TcxOk (tfgTcx [.param 0] (.param 0) [.param 0, .int .i32] .bool) :=
    tfgTcx_ok (by simp [TysApplied, TyApplied]) (by simp [TyApplied])
  have hnone := not_mem_genericsAdts (show ∀ p ∈ funParamsOf _ _, tysAdts
    (tfgTcx [.param 0] (.param 0) [.param 0, .int .i32] .bool) (boundTys _ ⟨0, 0⟩ p) = [] by decide)
  refine (genericsTotal_of_boundsFree hok rfl fun e he => absurd he (hnone e)).1 ?_
  exact
    { params_nodup := by decide
      returns_nodup := by decide
      returns := by decide
      plain := by decide
      adts := fun e he => absurd he (hnone e)
      comparable := by decide }

/-- `<T, F: Fn(G) -> bool, G: Fn(T) -> bool>`, with `F` first. -/
theorem not_genericsTotal_hofInHof :
    ¬ ∀ tcx d, TcxOk tcx → tcx.isClosure d = false →
      (∀ e ∈ genericsAdts tcx d, ∃ a, tcx.adtDef e = some a) → GenericsTotal tcx d := by
  intro h
  have hok : TcxOk (tfgTcx [.param 2] .bool [.param 0] .bool) :=
    tfgTcx_ok (by simp [TysApplied, TyApplied]) (by simp [TyApplied])
  have hnone := not_mem_genericsAdts (show ∀ p ∈ funParamsOf _ _,
    tysAdts (tfgTcx [.param 2] .bool [.param 0] .bool) (boundTys _ ⟨0, 0⟩ p) = [] by decide)
  obtain ⟨r, s', hr⟩ := (h _ ⟨0, 0⟩ hok rfl fun e he => absurd he (hnone e)).returns .new
    .insertion (.new _)
  cases hr

end Stainless
