/-!
# Hash maps as association lists

A hash map is the list of its entries, each key once. Looking up and inserting do not depend on the
order of the list, iterating does: an `IterOrder` gives, for every place a program iterates at,
some permutation of the entries. A result that holds for every `IterOrder` holds for every
iteration order of the real map.
-/

namespace Lib

/-- The entries of a hash map. -/
abbrev Assoc (K V : Type) := List (K × V)

namespace Assoc

variable {K V : Type} [DecidableEq K]

/-- The value stored for a key. -/
def get? (m : Assoc K V) (k : K) : Option V := (m.find? (fun e => e.1 = k)).map Prod.snd

/-- Is there an entry for the key? -/
def contains (m : Assoc K V) (k : K) : Bool := (m.get? k).isSome

/-- Store a value, over the old one if the key has an entry. -/
def insert (m : Assoc K V) (k : K) (v : V) : Assoc K V :=
  if m.contains k then m.map (fun e => if e.1 = k then (k, v) else e) else m ++ [(k, v)]

/-- Drop the entry of a key. -/
def remove (m : Assoc K V) (k : K) : Assoc K V := m.filter (fun e => e.1 ≠ k)

/-- The keys, each as often as it has an entry. -/
def keys (m : Assoc K V) : List K := m.map Prod.fst

/-- The values, in the order of the entries. -/
def values (m : Assoc K V) : List V := m.map Prod.snd

@[simp] theorem get?_nil (k : K) : get? ([] : Assoc K V) k = none := rfl

@[simp] theorem get?_cons (e : K × V) (m : Assoc K V) (k : K) :
    get? (e :: m) k = if e.1 = k then some e.2 else get? m k := by
  unfold get?
  by_cases h : e.1 = k <;> simp [List.find?, h]

theorem get?_append (m n : Assoc K V) (k : K) :
    get? (m ++ n) k = (get? m k).or (get? n k) := by
  induction m with
  | nil => simp
  | cons e m ih =>
    rw [List.cons_append, get?_cons, get?_cons, ih]
    split <;> simp

theorem get?_concat (m : Assoc K V) (k : K) (v : V) (j : K) :
    get? (m ++ [(k, v)]) j = (get? m j).or (if k = j then some v else none) := by
  rw [get?_append, get?_cons, get?_nil]

theorem get?_isSome_iff {m : Assoc K V} {k : K} : (m.get? k).isSome ↔ k ∈ m.keys := by
  induction m with
  | nil => simp [keys]
  | cons e m ih =>
    simp only [keys, List.map_cons, List.mem_cons] at *
    rw [get?_cons]
    by_cases h : e.1 = k
    · simp [h]
    · simp [h, ih, Ne.symm h]

theorem get?_eq_none_iff {m : Assoc K V} {k : K} : m.get? k = none ↔ k ∉ m.keys := by
  rw [← get?_isSome_iff]
  cases m.get? k <;> simp

theorem mem_of_get? {m : Assoc K V} {k : K} {v : V} (h : m.get? k = some v) : (k, v) ∈ m := by
  induction m with
  | nil => simp at h
  | cons e m ih =>
    rw [get?_cons] at h
    split at h
    · next he => simp [← he, ← Option.some.inj h]
    · exact List.mem_cons_of_mem _ (ih h)

theorem get?_of_mem {m : Assoc K V} (hnd : m.keys.Nodup) {k : K} {v : V} (h : (k, v) ∈ m) :
    m.get? k = some v := by
  induction m with
  | nil => simp at h
  | cons e m ih =>
    simp only [keys, List.map_cons, List.nodup_cons] at hnd
    rcases List.mem_cons.mp h with he | hm
    · simp [← he]
    · have hne : e.1 ≠ k := by
        intro hek
        exact hnd.1 (List.mem_map.mpr ⟨(k, v), hm, hek.symm⟩)
      rw [get?_cons, if_neg hne, ih hnd.2 hm]

theorem contains_eq_false {m : Assoc K V} {k : K} : m.contains k = false ↔ m.get? k = none := by
  unfold contains
  cases m.get? k <;> simp

theorem insert_of_get?_none {m : Assoc K V} {k : K} (h : m.get? k = none) (v : V) :
    m.insert k v = m ++ [(k, v)] := by
  simp [insert, contains, h]

theorem get?_insert_of_none {m : Assoc K V} {k : K} (h : m.get? k = none) (v : V) (j : K) :
    (m.insert k v).get? j = if k = j then some v else m.get? j := by
  rw [insert_of_get?_none h, get?_append]
  by_cases hj : k = j
  · subst hj; simp [h]
  · simp [hj]

/-- Storing changes what is found for its key, and for no other. -/
theorem get?_insert (m : Assoc K V) (k : K) (v : V) (j : K) :
    (m.insert k v).get? j = if k = j then some v else m.get? j := by
  cases h : m.get? k with
  | none => exact get?_insert_of_none h v j
  | some w =>
    have hc : m.contains k = true := by simp [contains, h]
    rw [insert, if_pos hc]
    clear hc
    induction m with
    | nil => simp at h
    | cons e m ih =>
      rw [List.map_cons, get?_cons, get?_cons]
      by_cases he : e.1 = k
      · -- The entry that is overwritten: what follows may hold the key again, but is not seen.
        subst he
        by_cases hj : e.1 = j
        · simp [hj]
        · rw [if_pos rfl, if_neg hj, if_neg hj, if_neg hj]
          clear ih h
          induction m with
          | nil => rfl
          | cons e' m ih' =>
            rw [List.map_cons, get?_cons, get?_cons, ih']
            by_cases he' : e'.1 = e.1
            · rw [if_pos he', if_neg hj, if_neg (fun hj' => hj (he'.symm.trans hj'))]
            · rw [if_neg he']
      · rw [get?_cons, if_neg he] at h
        rw [if_neg he, ih h]
        by_cases hej : e.1 = j
        · rw [if_pos hej, if_pos hej, if_neg (fun hkj => he (hej.trans hkj.symm))]
        · rw [if_neg hej, if_neg hej]

theorem keys_insert_of_none {m : Assoc K V} {k : K} (h : m.get? k = none) (v : V) :
    (m.insert k v).keys = m.keys ++ [k] := by
  simp [insert_of_get?_none h, keys]

theorem keys_insert_of_some {m : Assoc K V} {k : K} {w : V} (h : m.get? k = some w) (v : V) :
    (m.insert k v).keys = m.keys := by
  have hc : m.contains k = true := by simp [contains, h]
  rw [insert, if_pos hc, keys, keys, List.map_map]
  refine List.map_congr_left fun e _ => ?_
  show (if e.1 = k then (k, v) else e).1 = e.1
  split
  · next he => exact he.symm
  · rfl

theorem nodup_keys_insert {m : Assoc K V} (hnd : m.keys.Nodup) (k : K) (v : V) :
    (m.insert k v).keys.Nodup := by
  cases h : m.get? k with
  | none =>
    rw [keys_insert_of_none h]
    refine List.nodup_append.mpr ⟨hnd, by simp, ?_⟩
    rintro j hj i hi rfl
    rw [List.mem_singleton.mp hi] at hj
    exact get?_eq_none_iff.mp h hj
  | some w =>
    rw [keys_insert_of_some h]
    exact hnd

theorem mem_of_mem_insert {m : Assoc K V} {k : K} {v : V} {e : K × V} (h : e ∈ m.insert k v) :
    e = (k, v) ∨ e ∈ m := by
  unfold insert at h
  split at h
  · obtain ⟨e', he', rfl⟩ := List.mem_map.mp h
    split
    · exact .inl rfl
    · exact .inr he'
  · rcases List.mem_append.mp h with h | h
    · exact .inr h
    · exact .inl (List.mem_singleton.mp h)

theorem get?_remove_of_ne {m : Assoc K V} {k j : K} (h : j ≠ k) :
    (m.remove k).get? j = m.get? j := by
  induction m with
  | nil => rfl
  | cons e m ih =>
    unfold remove at *
    by_cases he : e.1 = k
    · have hej : ¬ e.1 = j := fun hj => h (hj.symm.trans he)
      rw [List.filter_cons_of_neg (by simp [he]), ih, get?_cons, if_neg hej]
    · rw [List.filter_cons_of_pos (by simp [he]), get?_cons, get?_cons, ih]

theorem get?_remove_self {m : Assoc K V} {k : K} : (m.remove k).get? k = none := by
  rw [get?_eq_none_iff]
  simp [remove, keys]

/-- Removing a key leaves the other entries. -/
theorem get?_of_remove {m : Assoc K V} {k j : K} {v : V} (h : (m.remove k).get? j = some v) :
    m.get? j = some v := by
  by_cases hj : j = k
  · rw [hj, get?_remove_self] at h
    simp at h
  · rwa [get?_remove_of_ne hj] at h

/-- Looking up does not depend on the order of the entries. -/
theorem get?_perm {m n : Assoc K V} (h : m.Perm n) (hnd : m.keys.Nodup) (k : K) :
    m.get? k = n.get? k := by
  have hnd' : n.keys.Nodup := ((h.map Prod.fst).nodup_iff).mp hnd
  cases hm : m.get? k with
  | some v => exact (get?_of_mem hnd' (h.mem_iff.mp (mem_of_get? hm))).symm
  | none =>
    have hk : k ∉ n.keys := fun hk =>
      get?_eq_none_iff.mp hm (((h.map Prod.fst).mem_iff).mpr hk)
    exact (get?_eq_none_iff.mpr hk).symm

/-! ## Entries in another order -/

theorem contains_perm {m n : Assoc K V} (h : m.Perm n) (k : K) : m.contains k = n.contains k := by
  unfold contains
  rw [Bool.eq_iff_iff, get?_isSome_iff, get?_isSome_iff]
  exact (h.map Prod.fst).mem_iff

theorem contains_insert_of_ne {m : Assoc K V} {k j : K} (h : k ≠ j) (v : V) :
    (m.insert k v).contains j = m.contains j := by
  unfold contains
  rw [get?_insert, if_neg h]

theorem length_insert_le (m : Assoc K V) (k : K) (v : V) :
    (m.insert k v).length ≤ m.length + 1 := by
  unfold insert
  split <;> simp

theorem insert_perm {m n : Assoc K V} (h : m.Perm n) (k : K) (v : V) :
    (m.insert k v).Perm (n.insert k v) := by
  unfold insert
  rw [contains_perm h]
  split
  · exact h.map _
  · exact h.append_right _

/-- Two different keys may be stored in either order. -/
theorem insert_comm_perm (m : Assoc K V) {k j : K} (h : k ≠ j) (v w : V) :
    ((m.insert k v).insert j w).Perm ((m.insert j w).insert k v) := by
  have hk := contains_insert_of_ne (m := m) h v
  have hj := contains_insert_of_ne (m := m) h.symm w
  rw [insert, insert.eq_1 (m.insert j w), hk, hj]
  cases hck : m.contains k <;> cases hcj : m.contains j <;>
    simp only [insert, hck, hcj, if_true, if_false, Bool.false_eq_true]
  · rw [List.append_assoc, List.append_assoc]
    exact List.Perm.append_left _ (List.Perm.swap _ _ _)
  · rw [List.map_append, List.map_cons, List.map_nil, if_neg h]
  · rw [List.map_append, List.map_cons, List.map_nil, if_neg h.symm]
  · rw [List.map_map, List.map_map]
    refine List.Perm.of_eq (List.map_congr_left fun e _ => ?_)
    simp only [Function.comp_apply]
    by_cases hek : e.1 = k
    · rw [if_pos hek, if_neg h, if_neg (fun he => h (hek.symm.trans he)), if_pos hek]
    · by_cases hej : e.1 = j
      · rw [if_neg hek, if_pos hej, if_neg (Ne.symm h)]
      · rw [if_neg hek, if_neg hej, if_neg hek]

/-- An entry and all the others. -/
theorem perm_cons_remove {m : Assoc K V} (hnd : m.keys.Nodup) {k : K} {v : V}
    (h : m.get? k = some v) : m.Perm ((k, v) :: m.remove k) := by
  have hfirst : ∀ e ∈ m, e.1 = k → e = (k, v) := by
    intro e he hk
    have hget := get?_of_mem hnd (show (k, e.2) ∈ m from hk ▸ he)
    obtain rfl := Option.some.inj (hget.symm.trans h)
    exact Prod.ext hk rfl
  induction m with
  | nil => simp at h
  | cons e m ih =>
    obtain ⟨hnot, hnd⟩ := List.nodup_cons.mp hnd
    unfold remove
    by_cases hk : e.1 = k
    · -- No other entry has the key.
      have hrest : m.filter (fun e => e.1 ≠ k) = m := by
        refine List.filter_eq_self.mpr fun e' he' => ?_
        refine decide_eq_true fun hk' => hnot ?_
        rw [hk, ← hk']
        exact List.mem_map.mpr ⟨e', he', rfl⟩
      rw [List.filter_cons_of_neg (by simp [hk]), hrest, hfirst e List.mem_cons_self hk]
    · rw [get?_cons, if_neg hk] at h
      rw [List.filter_cons_of_pos (by simp [hk])]
      have hperm := ih hnd h fun e' he' => hfirst e' (List.mem_cons_of_mem _ he')
      exact (hperm.cons e).trans (List.Perm.swap _ _ _)

theorem remove_comm (m : Assoc K V) (k j : K) : (m.remove k).remove j = (m.remove j).remove k := by
  simp only [remove, List.filter_filter, Bool.and_comm]

end Assoc

/-! ## Iteration orders -/

/-- For every place of iteration, the order in which the entries come out. -/
structure IterOrder (Site : Type) where
  iter : {α : Type} → Site → List α → List α
  perm : ∀ {α : Type} (site : Site) (l : List α), (iter site l).Perm l

namespace IterOrder

variable {Site : Type}

/-- The order in which the entries were inserted. -/
def insertion : IterOrder Site where
  iter := fun _ l => l
  perm := fun _ _ => List.Perm.refl _

/-- The reverse of the order in which the entries were inserted. -/
def reversed : IterOrder Site where
  iter := fun _ l => l.reverse
  perm := fun _ l => List.reverse_perm l

theorem mem_iter (o : IterOrder Site) {α : Type} {site : Site} {l : List α} {a : α} :
    a ∈ o.iter site l ↔ a ∈ l := (o.perm site l).mem_iff

/-- With at most one entry there is only one order. -/
theorem iter_of_length_le_one (o : IterOrder Site) {α : Type} {site : Site} {l : List α}
    (h : l.length ≤ 1) : o.iter site l = l := by
  have hp := o.perm site l
  match l, h with
  | [], _ => exact hp.eq_nil
  | [a], _ => exact List.perm_singleton.mp hp

end IterOrder

end Lib
