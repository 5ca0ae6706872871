import RustStainless.Macros.Implementation

/-!
# Names of spec functions

The name that the macro gives to a spec function is read back by the extractor, and the extractor
reads nothing else as the name of a spec function.
-/

namespace StainlessMacros

open Stainless

/-! ## Parts of a name -/

theorem underscore_not_numeric : Rust.isNumeric '_' = false := by decide

/-- The parts of a name around a run of numeric characters. -/
theorem numeric_ne_underscore {d : List Char} (h : d.all Rust.isNumeric) : ∀ c ∈ d, c ≠ '_' := by
  rintro c hc rfl
  have := List.all_eq_true.mp h _ hc
  simp [underscore_not_numeric] at this

theorem name_ne_underscore (t : SpecType) : ∀ c ∈ t.name.toList, c ≠ '_' := by
  rintro c hc rfl
  cases t <;> simp [SpecType.name] at hc

theorem digit_numeric {c : Char} (h : c.isDigit) : Rust.isNumeric c := by
  have hc : 48 ≤ c.toNat ∧ c.toNat ≤ 57 := by
    simpa [Char.isDigit, UInt32.le_iff_toNat_le] using h
  have hmem : (0x30, 0x39) ∈ Rust.numericRanges := List.mem_cons_self
  refine List.any_eq_true.mpr ⟨(0x30, 0x39), hmem, ?_⟩
  simpa using hc

theorem index_numeric (i : Nat) : (toString i).toList.all Rust.isNumeric := by
  rw [List.all_eq_true]
  intro c hc
  rw [Nat.toString_eq_ofList_toDigits, String.toList_ofList] at hc
  exact digit_numeric (Nat.isDigit_of_mem_toDigits (by decide) (by decide) hc)

/-- The extractor knows the names of the macro. -/
theorem tryFrom_name (t : SpecType) : SpecType.tryFrom t.name.toList = some t := by
  cases t <;> decide

theorem tryFrom_eq_some {l : List Char} {t : SpecType} (h : SpecType.tryFrom l = some t) :
    l = t.name.toList := by
  unfold SpecType.tryFrom at h
  split at h
  · next hl => rw [← Option.some.inj h, hl]; rfl
  · split at h
    · next hl => rw [← Option.some.inj h, hl]; rfl
    · split at h
      · next hl => rw [← Option.some.inj h, hl]; rfl
      · simp at h

/-! ## The grammar -/

/-- What stands in front of the index. -/
def specPrefix (t : SpecType) : List Char := '_' :: '_' :: (t.name.toList ++ ['_'])

/-- Splitting a name up to its index. -/
theorem splitChar_specPrefix (t : SpecType) (l : List Char) :
    Rust.splitChar '_' (specPrefix t ++ l) = [] :: [] :: t.name.toList :: Rust.splitChar '_' l := by
  have h := Rust.splitChar_append '_' t.name.toList l (name_ne_underscore t)
  simp [specPrefix, Rust.splitChar, h]

/-- The names without a function name behind the index, and those with one. -/
theorem parse_eq_some_iff {s : String} {t : SpecType} {n : String} :
    SpecType.parseSpecTypeFnName s = some (t, n) ↔
      ∃ d : List Char, d.all Rust.isNumeric ∧
        (s.toList = specPrefix t ++ d ∧ n = "" ∨
          s.toList = specPrefix t ++ (d ++ '_' :: n.toList)) := by
  constructor
  · intro h
    unfold SpecType.parseSpecTypeFnName at h
    split at h
    · next specType index parts hsplit =>
      split at h
      · next hindex =>
        obtain ⟨t', ht, heq⟩ := Option.map_eq_some_iff.mp h
        obtain ⟨rfl, rfl⟩ := Prod.mk.inj heq
        have hs := Rust.joinChar_splitChar '_' s.toList
        rw [hsplit, tryFrom_eq_some ht] at hs
        refine ⟨index, hindex, ?_⟩
        cases parts with
        | nil =>
          refine .inl ⟨?_, rfl⟩
          rw [← hs]
          simp [Rust.joinChar, specPrefix]
        | cons part parts =>
          refine .inr ?_
          rw [← hs]
          simp [Rust.joinChar, specPrefix]
      · simp at h
    · simp at h
  · rintro ⟨d, hd, ⟨hs, rfl⟩ | hs⟩
    · have hsplit := Rust.splitChar_of_not_mem '_' d (numeric_ne_underscore hd)
      unfold SpecType.parseSpecTypeFnName
      rw [hs, splitChar_specPrefix, hsplit]
      simp [hd, tryFrom_name, Rust.joinChar]
    · have hsplit := Rust.splitChar_append '_' d n.toList (numeric_ne_underscore hd)
      unfold SpecType.parseSpecTypeFnName
      rw [hs, splitChar_specPrefix, hsplit]
      simp [hd, tryFrom_name, Rust.joinChar_splitChar]

theorem specText_toList (t : SpecType) (i : Nat) (n : String) :
    (specText t i n).toList = specPrefix t ++ ((toString i).toList ++ '_' :: n.toList) := by
  simp [specText, specPrefix]

/-- The extractor reads back what the macro has written. -/
theorem parse_specText (t : SpecType) (i : Nat) (n : String) :
    SpecType.parseSpecTypeFnName (specText t i n) = some (t, n) :=
  parse_eq_some_iff.mpr ⟨_, index_numeric i, .inr (specText_toList t i n)⟩

/-- The type, the index and the function name can be told from the name. -/
theorem specText_inj {t t' : SpecType} {i i' : Nat} {n n' : String}
    (h : specText t i n = specText t' i' n') : t = t' ∧ i = i' ∧ n = n' := by
  have hparse := parse_specText t i n
  rw [h, parse_specText] at hparse
  obtain ⟨rfl, rfl⟩ := Prod.mk.inj (Option.some.inj hparse)
  refine ⟨rfl, ?_, rfl⟩
  have hlist := specText_toList t' i n'
  rw [h, specText_toList] at hlist
  have hidx := List.append_cancel_right (List.append_cancel_left hlist)
  rw [Nat.toString_eq_ofList_toDigits, Nat.toString_eq_ofList_toDigits, String.toList_ofList,
    String.toList_ofList] at hidx
  rw [← Nat.ofDigitChars_ten_toDigits (n := i), ← hidx, Nat.ofDigitChars_ten_toDigits]

/-! ## Raw identifiers -/

/-- The text of a raw identifier has a `#` in it, that of any other has none. -/
def IsRaw (name : String) : Prop := '#' ∈ name.toList

instance (name : String) : Decidable (IsRaw name) := inferInstanceAs (Decidable (_ ∈ _))

theorem hash_not_mem_specPrefix (t : SpecType) : '#' ∉ specPrefix t := by
  cases t <;> decide

theorem hash_not_mem_index (i : Nat) : '#' ∉ (toString i).toList := by
  intro h
  have hnumeric := List.all_eq_true.mp (index_numeric i) _ h
  exact absurd hnumeric (by decide)

/-- Only a raw name is no part of an identifier. -/
theorem isRaw_specText {t : SpecType} {i : Nat} {n : String} :
    IsRaw (specText t i n) ↔ IsRaw n := by
  have hhash : '#' ≠ '_' := by decide
  rw [IsRaw, specText_toList, List.mem_append, List.mem_append, List.mem_cons]
  constructor
  · rintro (h | h | h | h)
    · exact absurd h (hash_not_mem_specPrefix t)
    · exact absurd h (hash_not_mem_index i)
    · exact absurd h hhash
    · exact h
  · exact fun h => .inr (.inr (.inr h))

theorem specIdent_eq_some {t : SpecType} {i : Nat} {n name : String} :
    specIdent t i n = some name ↔ ¬ IsRaw n ∧ name = specText t i n := by
  rw [specIdent, Syn.formatIdent, ← isRaw_specText (t := t) (i := i), IsRaw]
  split
  · next h => simp [h]
  · next h => simp [h, eq_comm]

theorem specIdent_eq_none {t : SpecType} {i : Nat} {n : String} :
    specIdent t i n = none ↔ IsRaw n := by
  rw [specIdent, Syn.formatIdent, ← isRaw_specText (t := t) (i := i), IsRaw]
  split
  · next h => simp [h]
  · next h => simp [h]

/-! ## The round trip -/

theorem eq_specName_iff {s d : String} {t : SpecType} :
    s = "__" ++ t.name ++ "_" ++ d ↔ s.toList = specPrefix t ++ d.toList := by
  rw [← String.toList_inj]
  simp [specPrefix]

/--
**Spec names round-trip between the macros and the extractor, and the extractor accepts exactly
`__{type}_{index}` and `__{type}_{index}_{name}` with a run of numeric characters as the index.**
The macros name the specs of every function but one with a raw identifier as its name, for which
they panic.
-/
theorem specName_roundtrip :
    (∀ (t : SpecType) (i : Nat) (n name : String), specIdent t i n = some name →
      SpecType.parseSpecTypeFnName name = some (t, n)) ∧
    (∀ (t : SpecType) (i : Nat) (n : String), specIdent t i n = none ↔ IsRaw n) ∧
    ∀ (s : String) (t : SpecType) (n : String),
      SpecType.parseSpecTypeFnName s = some (t, n) ↔
        ∃ d : String, d.toList.all Rust.isNumeric ∧
          (s = "__" ++ t.name ++ "_" ++ d ∧ n = "" ∨
            s = "__" ++ t.name ++ "_" ++ d ++ "_" ++ n) := by
  refine ⟨fun t i n name h => ?_, fun t i n => specIdent_eq_none, fun s t n =>
    parse_eq_some_iff.trans ?_⟩
  · obtain ⟨-, rfl⟩ := specIdent_eq_some.mp h
    exact parse_specText t i n
  · have hname : ∀ d : String, "__" ++ t.name ++ "_" ++ d ++ "_" ++ n =
        "__" ++ t.name ++ "_" ++ (d ++ "_" ++ n) := by
      intro d
      simp only [String.append_assoc]
    constructor
    · rintro ⟨d, hd, h⟩
      refine ⟨String.ofList d, by simpa using hd, ?_⟩
      rw [hname, eq_specName_iff, eq_specName_iff]
      simpa using h
    · rintro ⟨d, hd, h⟩
      refine ⟨d.toList, hd, ?_⟩
      rw [hname, eq_specName_iff, eq_specName_iff] at h
      simpa using h

theorem specName_roundtrip_underscores :
    specIdent .pre 1 "a__b_2" = some "__pre_1_a__b_2" ∧
      SpecType.parseSpecTypeFnName "__pre_1_a__b_2" = some (.pre, "a__b_2") ∧
      specIdent .pre 1 "r#match" = none := by
  have hname : specIdent .pre 1 "a__b_2" = some "__pre_1_a__b_2" := by decide
  refine ⟨hname, specName_roundtrip.1 _ _ _ _ hname, (specName_roundtrip.2.1 _ _ _).mpr ?_⟩
  show '#' ∈ "r#match".toList
  decide

end StainlessMacros
