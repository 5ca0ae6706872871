import Mathlib.Data.List.Nodup
import RustStainless.Macros.Signatures
import RustStainless.Macros.SpecNames

/-!
# Repeated expansion

Each expansion takes its own attribute and those of a single segment. A spec attribute with a longer
path stays on the function, and the compiler expands it later, in an expansion that counts from one
again.
-/

namespace StainlessMacros

open Syn Stainless Lib

section Compiler

variable (resolve : Path → Option SpecType)

/-! ## What the compiler does -/

def isSpecAttr (attr : Attribute) : Bool := (resolve attr.path).isSome

/-- The first spec attribute, which is expanded first, and the other attributes. -/
def takeSpec : List Attribute → Option (SpecType × Option Expr × List Attribute)
  | [] => none
  | attr :: attrs =>
    match resolve attr.path with
    | some typ => some (typ, attr.args, attrs)
    | none => (takeSpec attrs).map fun r => (r.1, r.2.1, attr :: r.2.2)

/-- Expand the spec attributes of a function one after the other, until none is left. -/
def followExpansion : Nat → ItemFn → Except ExpandError (List ItemFn × ItemFn)
  | 0, item => .ok ([], item)
  | fuel + 1, item =>
    match takeSpec resolve item.attrs with
    | none => .ok ([], item)
    | some (typ, args, rest) => do
      let out ← extractSpecsAndExpand typ args (item.withAttrs rest)
      let (more, last) ← followExpansion fuel (itemAfter item out)
      .ok (generatedFns item out ++ more, last)

/-! ## The spec attributes of a function -/

/-- The specs that an expansion recognises. -/
def shortTypes (attrs : List Attribute) : List SpecType := attrs.filterMap SpecType.ofAttribute

/-- The specs that it leaves to a later expansion. -/
def longTypes (attrs : List Attribute) : List SpecType :=
  attrs.filterMap fun attr =>
    if (SpecType.ofAttribute attr).isSome then none else resolve attr.path

/-- The types of the attributes that start an expansion: the first one, and all others with a longer
path. -/
def starters (attrs : List Attribute) : List SpecType :=
  match takeSpec resolve attrs with
  | none => []
  | some (typ, _, rest) => typ :: longTypes resolve rest

/-- The identifiers for some specs, the first of which has the index `i`. -/
def specIdents (fnName : String) : Nat → List SpecType → List String
  | _, [] => []
  | i, t :: ts => specText t (i + 1) fnName :: specIdents fnName (i + 1) ts

/-- The names of all spec functions that come out of some attributes. -/
def expansionNames (fnName : String) (attrs : List Attribute) : List String :=
  match takeSpec resolve attrs with
  | none => []
  | some (typ, _, rest) =>
    specIdents fnName 0 (typ :: shortTypes rest) ++
      (longTypes resolve rest).map fun t => specText t 1 fnName

/--
A spec function can be made of the arguments of a spec attribute: they are an expression, its tokens
parse again, and the name of the function is no raw identifier.
-/
def AttrExpands (item : ItemFn) (t : SpecType) (args : Option Expr) : Prop :=
  ¬ IsRaw item.sig.ident ∧ ∃ expr, args = some expr ∧ SpecParses item t expr

/-- Every spec attribute can be made a spec function. -/
def AttrsOk (item : ItemFn) (attrs : List Attribute) : Prop :=
  ∀ attr ∈ attrs, ∀ t, resolve attr.path = some t → AttrExpands item t attr.args

end Compiler

/-! ## Names -/

theorem specIdents_length (fnName : String) : ∀ (ts : List SpecType) (i : Nat),
    (specIdents fnName i ts).length = ts.length
  | [], _ => rfl
  | _ :: ts, i => by simp [specIdents, specIdents_length fnName ts]

theorem mem_specIdents {fnName s : String} : ∀ {ts : List SpecType} {i : Nat},
    s ∈ specIdents fnName i ts → ∃ t k, i < k ∧ s = specText t k fnName
  | [], _, h => by simp [specIdents] at h
  | t :: ts, i, h => by
    rcases List.mem_cons.mp h with rfl | h
    · exact ⟨t, i + 1, by omega, rfl⟩
    · obtain ⟨t', k, hk, rfl⟩ := mem_specIdents h
      exact ⟨t', k, by omega, rfl⟩

/-- The names of one expansion are apart: each has an index of its own. -/
theorem specIdents_nodup (fnName : String) : ∀ (ts : List SpecType) (i : Nat),
    (specIdents fnName i ts).Nodup
  | [], _ => List.nodup_nil
  | t :: ts, i => by
    refine List.nodup_cons.mpr ⟨fun h => ?_, specIdents_nodup fnName ts (i + 1)⟩
    obtain ⟨t', k, hk, heq⟩ := mem_specIdents h
    have := (specText_inj heq).2.1
    omega

theorem names_nodup_iff {fnName : String} {t : SpecType} {short long : List SpecType} :
    (specIdents fnName 0 (t :: short) ++ long.map fun t => specText t 1 fnName).Nodup ↔
      (t :: long).Nodup := by
  have hinj : ∀ a b : SpecType, specText a 1 fnName = specText b 1 fnName → a = b :=
    fun a b h => (specText_inj h).1
  have hmap : (long.map fun t => specText t 1 fnName).Nodup ↔ long.Nodup :=
    List.nodup_map_iff hinj
  -- Only the first name of an expansion can meet the names of the later ones.
  have hshort : ∀ s ∈ specIdents fnName 1 short, s ∉ long.map fun t => specText t 1 fnName := by
    intro s hs hl
    obtain ⟨t', k, hk, rfl⟩ := mem_specIdents hs
    obtain ⟨t'', -, heq⟩ := List.mem_map.mp hl
    have := (specText_inj heq).2.1
    omega
  have hfirst : specText t 1 fnName ∉ long.map (fun t => specText t 1 fnName) ↔ t ∉ long := by
    rw [List.mem_map]
    constructor
    · exact fun h ht => h ⟨t, ht, rfl⟩
    · rintro h ⟨t', ht', heq⟩
      exact h (hinj _ _ heq ▸ ht')
  have hnodup := List.nodup_cons.mp (specIdents_nodup fnName (t :: short) 0)
  rw [specIdents, List.cons_append, List.nodup_cons, List.nodup_append, List.nodup_cons, hmap,
    List.mem_append, not_or, hfirst]
  constructor
  · rintro ⟨⟨-, h1⟩, -, h2, -⟩
    exact ⟨h1, h2⟩
  · rintro ⟨h1, h2⟩
    exact ⟨⟨hnodup.1, h1⟩, hnodup.2, h2, fun a ha b hb hab => hshort a ha (hab ▸ hb)⟩

/-! ## One expansion -/

/-- The types and arguments of the specs that an expansion recognises. -/
def shortSpecs (attrs : List Attribute) : List (SpecType × Option Expr) :=
  attrs.filterMap fun attr => (SpecType.ofAttribute attr).map fun t => (t, attr.args)

theorem shortSpecs_types (attrs : List Attribute) :
    (shortSpecs attrs).map Prod.fst = shortTypes attrs := by
  rw [shortSpecs, List.map_filterMap, shortTypes]
  refine List.filterMap_congr fun attr _ => ?_
  cases SpecType.ofAttribute attr <;> rfl

/-- All recognised specs are parsed, if their arguments are expressions. -/
theorem parseSpecs_eq_ok : ∀ {attrs : List Attribute} {specs : List Spec},
    parseSpecs attrs = .ok specs ↔
      shortSpecs attrs = specs.map fun spec => (spec.typ, some spec.expr) := by
  intro attrs
  induction attrs with
  | nil =>
    intro specs
    rw [parseSpecs, shortSpecs, List.filterMap_nil, Except.ok.injEq, eq_comm, List.nil_eq,
      List.map_eq_nil_iff]
  | cons attr attrs ih =>
    intro specs
    rw [parseSpecs, shortSpecs]
    cases ht : SpecType.ofAttribute attr with
    | none =>
      rw [List.filterMap_cons_none (by rw [ht]; rfl)]
      exact ih
    | some t =>
      rw [List.filterMap_cons_some (b := (t, attr.args)) (by rw [ht]; rfl)]
      cases ha : attr.args with
      | none =>
        cases specs <;> simp
      | some expr =>
        show _ ↔ (t, some expr) :: shortSpecs attrs = _
        cases hrest : parseSpecs attrs with
        | error e =>
          have hno : ∀ specs : List Spec,
              shortSpecs attrs ≠ specs.map fun spec => (spec.typ, some spec.expr) := by
            intro specs h
            rw [ih.mpr h] at hrest
            cases hrest
          cases specs with
          | nil => simp [bind, Except.bind]
          | cons spec specs => simp [bind, Except.bind, hno specs]
        | ok rest =>
          rw [ih.mp hrest]
          have hinj : Function.Injective fun spec : Spec => (spec.typ, some spec.expr) := by
            rintro ⟨t, e⟩ ⟨t', e'⟩ h
            obtain ⟨rfl, h⟩ := Prod.mk.inj h
            obtain rfl := Option.some.inj h
            rfl
          show _ ↔ ({ typ := t, expr := expr } :: rest : List Spec).map
            (fun spec => (spec.typ, some spec.expr)) = _
          rw [(List.map_injective_iff.mpr hinj).eq_iff]
          simp [bind, Except.bind]

theorem parseSpecs_exists : ∀ {attrs : List Attribute},
    (∀ attr ∈ attrs, SpecType.ofAttribute attr ≠ none → attr.args ≠ none) →
    ∃ specs, parseSpecs attrs = .ok specs := by
  intro attrs
  induction attrs with
  | nil => exact fun _ => ⟨[], rfl⟩
  | cons attr attrs ih =>
    intro h
    obtain ⟨rest, hrest⟩ := ih fun a ha => h a (List.mem_cons_of_mem _ ha)
    rw [parseSpecs]
    cases ht : SpecType.ofAttribute attr with
    | none => exact ⟨rest, hrest⟩
    | some t =>
      have hargs := h attr List.mem_cons_self (by simp [ht])
      cases ha : attr.args with
      | none => exact absurd ha hargs
      | some expr =>
        exact ⟨{ typ := t, expr := expr } :: rest, by simp only [hrest, bind, Except.bind]⟩

theorem makeSpecFns_idents {item : ItemFn} : ∀ {specs : List Spec} {i : Nat} {fs : List ItemFn},
    makeSpecFns item i specs = .ok fs →
    fs.map (fun f => f.sig.ident) = specIdents item.sig.ident i (specs.map Spec.typ) := by
  intro specs
  induction specs with
  | nil =>
    intro i fs h
    obtain rfl := Except.ok.inj h
    rfl
  | cons spec specs ih =>
    intro i fs h
    obtain ⟨f, rest, hf, hrest, rfl⟩ := makeSpecFns_cons.mp h
    rcases makeSpecFn_cases item i spec with ⟨-, -, inputs, body, hg, -⟩ | ⟨-, e, herr⟩
    · obtain rfl := Except.ok.inj (hf.symm.trans hg)
      rw [List.map_cons, ih hrest]
      rfl
    · rw [herr] at hf
      cases hf

/-- The function without the spec attributes that an expansion recognises. -/
def keepItem (item : ItemFn) (attrs : List Attribute) : ItemFn :=
  item.withAttrs (attrs.filter fun attr => (SpecType.ofAttribute attr).isNone)

@[simp] theorem keepItem_sig (item : ItemFn) (attrs : List Attribute) :
    (keepItem item attrs).sig = item.sig := by simp [keepItem]

theorem extractSpecsAndExpand_ok {typ : SpecType} {args : Option Expr} {item : ItemFn}
    {rest : List Attribute} {out : List ItemFn} :
    extractSpecsAndExpand typ args (item.withAttrs rest) = .ok out ↔
      ∃ expr specs, args = some expr ∧ parseSpecs rest = .ok specs ∧
        generateFnWithSpec (keepItem item rest) ({ typ := typ, expr := expr } :: specs) =
          .ok out := by
  have hkeep : (item.withAttrs rest).withAttrs
      (rest.filter fun attr => (SpecType.ofAttribute attr).isNone) = keepItem item rest := by
    cases item
    rfl
  unfold extractSpecsAndExpand tryParse
  simp only [withAttrs_attrs, hkeep]
  cases args with
  | none => simp [bind, Except.bind]
  | some expr =>
    cases parseSpecs rest with
    | error e => simp [bind, Except.bind]
    | ok specs => simp [bind, Except.bind]

/-- What one expansion does to a function with the attributes `rest` besides its own. -/
structure Expanded (item : ItemFn) (typ : SpecType) (args : Option Expr) (rest : List Attribute)
    (out : List ItemFn) : Prop where
  names : (generatedFns item out).map (fun f => f.sig.ident) =
    specIdents item.sig.ident 0 (typ :: shortTypes rest)
  attrs : (itemAfter item out).attrs =
    rest.filter fun attr => (SpecType.ofAttribute attr).isNone
  sig : (itemAfter item out).sig = item.sig
  first : AttrExpands item typ args
  rest : ∀ attr ∈ rest, ∀ t, SpecType.ofAttribute attr = some t → AttrExpands item t attr.args

/-- Whether a spec function can be made is up to the signature. -/
theorem AttrExpands.congr {item item' : ItemFn} (hsig : item'.sig = item.sig) (t : SpecType)
    (args : Option Expr) : AttrExpands item' t args ↔ AttrExpands item t args := by
  have hparses : ∀ expr, SpecParses item' t expr ↔ SpecParses item t expr := by
    intro expr
    constructor
    · exact fun h => ⟨fun hpost => by rw [TakesRet, ← hsig]; exact h.ret hpost, h.body⟩
    · exact fun h => ⟨fun hpost => by rw [TakesRet, hsig]; exact h.ret hpost, h.body⟩
  simp only [AttrExpands, hsig, hparses]

/-- The specs of an expansion are made if all of its attributes can be. -/
theorem attrExpands_iff {item : ItemFn} (typ : SpecType) (expr : Expr) {rest : List Attribute}
    {specs : List Spec} (hspecs : parseSpecs rest = .ok specs) :
    (∀ spec ∈ ({ typ := typ, expr := expr } :: specs : List Spec),
      ¬ IsRaw item.sig.ident ∧ SpecParses item spec.typ spec.expr) ↔
    AttrExpands item typ (some expr) ∧
      ∀ attr ∈ rest, ∀ t, SpecType.ofAttribute attr = some t → AttrExpands item t attr.args := by
  have hone : ∀ (t : SpecType) (e : Expr),
      AttrExpands item t (some e) ↔ ¬ IsRaw item.sig.ident ∧ SpecParses item t e := by
    intro t e
    simp [AttrExpands]
  have hmem : ∀ (t : SpecType) (args : Option Expr),
      (∃ attr ∈ rest, SpecType.ofAttribute attr = some t ∧ attr.args = args) ↔
        ∃ spec ∈ specs, spec.typ = t ∧ some spec.expr = args := by
    intro t args
    have h : (t, args) ∈ shortSpecs rest ↔
        (t, args) ∈ specs.map fun spec => (spec.typ, some spec.expr) := by
      rw [parseSpecs_eq_ok.mp hspecs]
    simpa [shortSpecs, List.mem_filterMap] using h
  rw [List.forall_mem_cons, hone]
  refine and_congr_right fun _ => ⟨fun h attr hattr t ht => ?_, fun h spec hspec => ?_⟩
  · obtain ⟨spec, hspec, rfl, hargs⟩ := (hmem t attr.args).mp ⟨attr, hattr, ht, rfl⟩
    rw [← hargs, hone]
    exact h spec hspec
  · obtain ⟨attr, hattr, ht, hargs⟩ := (hmem spec.typ (some spec.expr)).mpr ⟨spec, hspec, rfl, rfl⟩
    rw [← hone, ← hargs]
    exact h attr hattr _ ht

theorem expand_ok {typ : SpecType} {args : Option Expr} {item : ItemFn} {rest : List Attribute}
    {out : List ItemFn} (h : extractSpecsAndExpand typ args (item.withAttrs rest) = .ok out) :
    Expanded item typ args rest out := by
  obtain ⟨expr, specs, rfl, hspecs, hgen⟩ := extractSpecsAndExpand_ok.mp h
  obtain ⟨fns, hmake, rfl⟩ := generateFnWithSpec_ok.mp hgen
  have htypes : specs.map Spec.typ = shortTypes rest := by
    rw [← shortSpecs_types, parseSpecs_eq_ok.mp hspecs, List.map_map]
    rfl
  have hbefore : ∀ out, generatedFns item out = generatedFns (keepItem item rest) out := by
    intro out
    cases hlast : out.getLast? with
    | none => simp [generatedFns, generatedAt, itemAfter, hlast, keepItem]
    | some last => simp [generatedFns, generatedAt, itemAfter, hlast, keepItem]
  have hmade : ∀ spec ∈ ({ typ := typ, expr := expr } :: specs : List Spec),
      ¬ IsRaw (keepItem item rest).sig.ident ∧
        SpecParses (keepItem item rest) spec.typ spec.expr := by
    intro spec hspec
    obtain ⟨f, -, hf⟩ := forall₂_mem_left (makeSpecFns_forall₂ hmake) hspec
    exact ⟨hf.ident, hf.parses⟩
  obtain ⟨hfirst, hrest⟩ := (attrExpands_iff typ expr hspecs).mp hmade
  have hcongr := AttrExpands.congr (keepItem_sig item rest)
  refine ⟨?_, ?_, ?_, (hcongr _ _).mp hfirst, fun attr hattr t ht => ?_⟩
  · rw [hbefore, generatedFns_eq, makeSpecFns_idents hmake, keepItem_sig, List.map_cons, htypes]
  · unfold itemAfter
    split <;> simp [keepItem]
  · unfold itemAfter
    split <;> simp
  · exact (hcongr _ _).mp (hrest attr hattr t ht)

theorem expand_exists {typ : SpecType} {args : Option Expr} {item : ItemFn}
    {rest : List Attribute} (hfirst : AttrExpands item typ args)
    (hrest : ∀ attr ∈ rest, ∀ t, SpecType.ofAttribute attr = some t →
      AttrExpands item t attr.args) :
    ∃ out, extractSpecsAndExpand typ args (item.withAttrs rest) = .ok out := by
  obtain ⟨expr, rfl, -⟩ := hfirst.2
  obtain ⟨specs, hspecs⟩ := parseSpecs_exists fun attr hattr hne => by
    obtain ⟨t, ht⟩ := Option.ne_none_iff_exists'.mp hne
    obtain ⟨-, expr, hexpr, -⟩ := hrest attr hattr t ht
    simp [hexpr]
  have hcongr := AttrExpands.congr (keepItem_sig item rest)
  have hmade := (attrExpands_iff typ expr hspecs).mpr
    ⟨(hcongr _ _).mpr hfirst, fun attr hattr t ht => (hcongr _ _).mpr (hrest attr hattr t ht)⟩
  obtain ⟨fns, hfns⟩ := makeSpecFns_ok 0 hmade
  exact ⟨_, extractSpecsAndExpand_ok.mpr
    ⟨expr, specs, rfl, hspecs, generateFnWithSpec_ok.mpr ⟨fns, hfns, rfl⟩⟩⟩

/-! ## All expansions -/

section Run

variable {resolve : Path → Option SpecType}

theorem takeSpec_none : ∀ {attrs : List Attribute}, takeSpec resolve attrs = none →
    ∀ attr ∈ attrs, resolve attr.path = none := by
  intro attrs
  induction attrs with
  | nil => simp
  | cons attr attrs ih =>
    intro h
    rw [takeSpec] at h
    cases ht : resolve attr.path with
    | some t => simp [ht] at h
    | none =>
      rw [ht] at h
      simpa [ht] using ih (by simpa using h)

/-- The first spec attribute, with other attributes in front of it. -/
theorem takeSpec_some : ∀ {attrs : List Attribute} {t : SpecType} {args : Option Expr}
    {rest : List Attribute}, takeSpec resolve attrs = some (t, args, rest) →
    ∃ before attr after, attrs = before ++ attr :: after ∧ rest = before ++ after ∧
      resolve attr.path = some t ∧ args = attr.args ∧ ∀ a ∈ before, resolve a.path = none := by
  intro attrs
  induction attrs with
  | nil =>
    intro t args rest h
    simp [takeSpec] at h
  | cons attr attrs ih =>
    intro t args rest h
    rw [takeSpec] at h
    cases ht : resolve attr.path with
    | some t' =>
      rw [ht] at h
      simp only [Option.some.injEq, Prod.mk.injEq] at h
      obtain ⟨rfl, rfl, rfl⟩ := h
      exact ⟨[], attr, attrs, rfl, rfl, ht, rfl, by simp⟩
    | none =>
      rw [ht] at h
      obtain ⟨⟨t', args', rest'⟩, hr, heq⟩ := Option.map_eq_some_iff.mp h
      simp only [Prod.mk.injEq] at heq
      obtain ⟨rfl, rfl, rfl⟩ := heq
      obtain ⟨before, a, after, rfl, rfl, ha, rfl, hbefore⟩ := ih hr
      exact ⟨attr :: before, a, after, rfl, rfl, ha, rfl, by simpa [ht] using hbefore⟩

variable (hres : ∀ segment, resolve [segment] = SpecType.ofString segment)

include hres

theorem resolve_of_ofAttribute {attr : Attribute} {t : SpecType}
    (h : SpecType.ofAttribute attr = some t) : resolve attr.path = some t := by
  unfold SpecType.ofAttribute at h
  split at h
  · next segment hp => rw [hp, hres, h]
  · simp at h

/-- The attributes that an expansion leaves: spec attributes with longer paths, and others. -/
theorem attrsOk_keep {item item' : ItemFn} (hsig : item'.sig = item.sig)
    (rest : List Attribute) :
    AttrsOk resolve item rest ↔
      (∀ attr ∈ rest, ∀ t, SpecType.ofAttribute attr = some t →
        AttrExpands item t attr.args) ∧
      AttrsOk resolve item' (rest.filter fun attr => (SpecType.ofAttribute attr).isNone) := by
  constructor
  · intro h
    refine ⟨fun attr ha t ht => h attr ha t (resolve_of_ofAttribute hres ht), ?_⟩
    intro attr ha t ht
    rw [AttrExpands.congr hsig]
    exact h attr (List.mem_filter.mp ha).1 t ht
  · rintro ⟨h1, h2⟩ attr ha t ht
    cases hshort : SpecType.ofAttribute attr with
    | some t' =>
      have htt : t' = t := Option.some.inj ((resolve_of_ofAttribute hres hshort).symm.trans ht)
      exact h1 attr ha t (htt ▸ hshort)
    | none =>
      rw [← AttrExpands.congr hsig]
      exact h2 attr (List.mem_filter.mpr ⟨ha, by simp [hshort]⟩) t ht

omit hres in
theorem longTypes_keep (attrs : List Attribute) :
    longTypes resolve (attrs.filter fun attr => (SpecType.ofAttribute attr).isNone) =
      longTypes resolve attrs := by
  induction attrs with
  | nil => rfl
  | cons attr attrs ih =>
    cases ht : SpecType.ofAttribute attr with
    | none =>
      rw [List.filter_cons_of_pos (by simp [ht])]
      simp only [longTypes, List.filterMap_cons] at *
      rw [ih]
    | some t =>
      rw [List.filter_cons_of_neg (by simp [ht]), ih]
      simp [longTypes, ht]

omit hres in
/-- Where no spec attribute is short, each has an expansion of its own. -/
theorem expansionNames_long {fnName : String} {attrs : List Attribute}
    (h : ∀ attr ∈ attrs, SpecType.ofAttribute attr = none) :
    expansionNames resolve fnName attrs =
      (longTypes resolve attrs).map fun t => specText t 1 fnName := by
  unfold expansionNames
  cases ht : takeSpec resolve attrs with
  | none =>
    have hnone : longTypes resolve attrs = [] := by
      refine List.filterMap_eq_nil_iff.mpr fun attr ha => ?_
      simp [h attr ha, takeSpec_none ht attr ha]
    simp [hnone]
  | some r =>
    obtain ⟨t, args, rest⟩ := r
    obtain ⟨before, attr, after, rfl, rfl, ha, -, hbefore⟩ := takeSpec_some ht
    have hshort : shortTypes (before ++ after) = [] := by
      refine List.filterMap_eq_nil_iff.mpr fun a hmem => h a ?_
      rcases List.mem_append.mp hmem with hm | hm
      · exact List.mem_append_left _ hm
      · exact List.mem_append_right _ (List.mem_cons_of_mem _ hm)
    have hnone : longTypes resolve before = [] := by
      refine List.filterMap_eq_nil_iff.mpr fun a hmem => ?_
      simp [h a (List.mem_append_left _ hmem), hbefore a hmem]
    have hattr := h attr (by simp)
    simp only [longTypes] at hnone
    simp [hshort, specIdents, longTypes, hnone, hattr, ha]

/-- The attributes that are no specs. -/
abbrev otherAttrs (resolve : Path → Option SpecType) (attrs : List Attribute) : List Attribute :=
  attrs.filter fun attr => !isSpecAttr resolve attr

theorem otherAttrs_keep (attrs : List Attribute) :
    otherAttrs resolve (attrs.filter fun attr => (SpecType.ofAttribute attr).isNone) =
      otherAttrs resolve attrs := by
  rw [otherAttrs, List.filter_filter]
  refine List.filter_congr fun attr _ => ?_
  cases ht : SpecType.ofAttribute attr with
  | none => simp
  | some t => simp [isSpecAttr, resolve_of_ofAttribute hres ht]

/-- What a function is turned into when all its spec attributes are expanded. -/
structure FullyExpanded (resolve : Path → Option SpecType) (item : ItemFn) (fns : List ItemFn)
    (last : ItemFn) : Prop where
  names : fns.map (fun f => f.sig.ident) = expansionNames resolve item.sig.ident item.attrs
  attrs : last.attrs = otherAttrs resolve item.attrs
  checked : AttrsOk resolve item item.attrs

theorem followExpansion_ok : ∀ (fuel : Nat) {item last : ItemFn} {fns : List ItemFn},
    item.attrs.length ≤ fuel → followExpansion resolve fuel item = .ok (fns, last) →
    FullyExpanded resolve item fns last := by
  intro fuel
  induction fuel with
  | zero =>
    intro item last fns hlen h
    obtain ⟨rfl, rfl⟩ := Prod.mk.inj (Except.ok.inj h)
    have hnil : item.attrs = [] := List.length_eq_zero_iff.mp (by omega)
    exact ⟨by simp [expansionNames, hnil, takeSpec], by simp [hnil], by simp [AttrsOk, hnil]⟩
  | succ fuel ih =>
    intro item last fns hlen h
    rw [followExpansion] at h
    cases ht : takeSpec resolve item.attrs with
    | none =>
      rw [ht] at h
      obtain ⟨rfl, rfl⟩ := Prod.mk.inj (Except.ok.inj h)
      have hnone := takeSpec_none ht
      refine ⟨by simp [expansionNames, ht], ?_, fun attr ha t hr => ?_⟩
      · exact (List.filter_eq_self.mpr fun attr ha => by simp [isSpecAttr, hnone attr ha]).symm
      · simp [hnone attr ha] at hr
    | some r =>
      obtain ⟨t, args, rest⟩ := r
      rw [ht] at h
      cases hout : extractSpecsAndExpand t args (item.withAttrs rest) with
      | error e => simp [hout, bind, Except.bind] at h
      | ok out =>
        cases hmore : followExpansion resolve fuel (itemAfter item out) with
        | error e => simp [hout, hmore, bind, Except.bind] at h
        | ok p =>
          obtain ⟨more, last'⟩ := p
          simp only [hout, hmore, bind, Except.bind, Except.ok.injEq, Prod.mk.injEq] at h
          obtain ⟨rfl, rfl⟩ := h
          have hex := expand_ok hout
          obtain ⟨before, attr, after, hattrs, hrest, hresolve, hargs, hbefore⟩ := takeSpec_some ht
          have hfuel : (itemAfter item out).attrs.length ≤ fuel := by
            rw [hex.attrs]
            have hfilter := List.length_filter_le
              (fun attr => (SpecType.ofAttribute attr).isNone) rest
            rw [hattrs] at hlen
            rw [hrest] at hfilter ⊢
            simp only [List.length_append, List.length_cons] at hlen hfilter
            omega
          -- The attribute itself is gone, so the fuel is enough for the later expansions.
          have hlater := ih hfuel hmore
          have hkeep := attrsOk_keep hres hex.sig rest
          refine ⟨?_, ?_, ?_⟩
          · -- Only longer paths are left, and each of them starts an expansion of its own.
            rw [List.map_append, hex.names, hlater.names, hex.attrs, hex.sig,
              expansionNames_long fun a ha => by simpa using (List.mem_filter.mp ha).2,
              longTypes_keep]
            simp only [expansionNames, ht]
          · rw [hlater.attrs, hex.attrs, otherAttrs_keep hres, hattrs, hrest]
            simp [otherAttrs, isSpecAttr, hresolve]
          · have hchecked := hlater.checked
            rw [hex.attrs] at hchecked
            have hok := hkeep.mpr ⟨hex.rest, hchecked⟩
            rw [hattrs]
            intro a ha t' hr
            rw [hrest] at hok
            rcases List.mem_append.mp ha with hm | hm
            · exact hok a (List.mem_append_left _ hm) t' hr
            · rcases List.mem_cons.mp hm with rfl | hm
              · obtain rfl := Option.some.inj (hresolve.symm.trans hr)
                exact hargs ▸ hex.first
              · exact hok a (List.mem_append_right _ hm) t' hr

theorem followExpansion_exists : ∀ (fuel : Nat) {item : ItemFn}, AttrsOk resolve item item.attrs →
    ∃ fns last, followExpansion resolve fuel item = .ok (fns, last) := by
  intro fuel
  induction fuel with
  | zero => exact fun _ => ⟨[], _, rfl⟩
  | succ fuel ih =>
    intro item h
    cases ht : takeSpec resolve item.attrs with
    | none => exact ⟨[], item, by simp only [followExpansion, ht]⟩
    | some r =>
      obtain ⟨t, args, rest⟩ := r
      obtain ⟨before, attr, after, hattrs, hrest, hresolve, hargs, -⟩ := takeSpec_some ht
      have hsub : ∀ a ∈ rest, a ∈ item.attrs := by
        intro a ha
        rw [hattrs]
        rw [hrest] at ha
        rcases List.mem_append.mp ha with hm | hm
        · exact List.mem_append_left _ hm
        · exact List.mem_append_right _ (List.mem_cons_of_mem _ hm)
      have hfirst := h attr (by simp [hattrs]) t hresolve
      have hshort : ∀ a ∈ rest, ∀ t, SpecType.ofAttribute a = some t →
          AttrExpands item t a.args :=
        fun a ha t ht => h a (hsub a ha) t (resolve_of_ofAttribute hres ht)
      obtain ⟨out, hout⟩ := expand_exists (hargs ▸ hfirst) hshort
      have hex := expand_ok hout
      have hok : AttrsOk resolve (itemAfter item out) (itemAfter item out).attrs := by
        rw [hex.attrs]
        exact ((attrsOk_keep hres hex.sig rest).mp fun a ha => h a (hsub a ha)).2
      obtain ⟨more, last, hmore⟩ := ih hok
      exact ⟨generatedFns item out ++ more, last,
        by simp only [followExpansion, ht, hout, hmore, bind, Except.bind]⟩

/-- A spec attribute is short or long. -/
theorem specAttrs_length (attrs : List Attribute) :
    (attrs.filter (isSpecAttr resolve)).length =
      (shortTypes attrs).length + (longTypes resolve attrs).length := by
  induction attrs with
  | nil => rfl
  | cons attr attrs ih =>
    cases ht : SpecType.ofAttribute attr with
    | some t =>
      have hspec : isSpecAttr resolve attr := by
        simp [isSpecAttr, resolve_of_ofAttribute hres ht]
      rw [List.filter_cons_of_pos hspec]
      simp only [shortTypes, longTypes, List.filterMap_cons, ht, List.length_cons] at *
      simp only [Option.isSome_some, if_true]
      omega
    | none =>
      cases hr : resolve attr.path with
      | some t =>
        rw [List.filter_cons_of_pos (by simp [isSpecAttr, hr])]
        simp only [shortTypes, longTypes, List.filterMap_cons, ht, hr, List.length_cons] at *
        simp only [Option.isSome_none, Bool.false_eq_true, if_false, List.length_cons]
        omega
      | none =>
        rw [List.filter_cons_of_neg (by simp [isSpecAttr, hr])]
        simp only [shortTypes, longTypes, List.filterMap_cons, ht, hr] at *
        simpa using ih

/-- There are as many names as spec attributes. -/
theorem expansionNames_length (fnName : String) (attrs : List Attribute) :
    (expansionNames resolve fnName attrs).length =
      (attrs.filter (isSpecAttr resolve)).length := by
  unfold expansionNames
  cases ht : takeSpec resolve attrs with
  | none =>
    have hnone := takeSpec_none ht
    have hnil : attrs.filter (isSpecAttr resolve) = [] :=
      List.filter_eq_nil_iff.mpr fun attr ha => by simp [isSpecAttr, hnone attr ha]
    simp [hnil]
  | some r =>
    obtain ⟨t, args, rest⟩ := r
    obtain ⟨before, attr, after, rfl, rfl, hresolve, -, -⟩ := takeSpec_some ht
    have hlen := specAttrs_length hres (before ++ after)
    rw [List.filter_append, List.length_append] at hlen
    rw [List.filter_append, List.filter_cons_of_pos (by simp [isSpecAttr, hresolve])]
    simp only [specIdents, List.length_append, List.length_cons, List.length_map,
      specIdents_length]
    omega

/-- The expansions of a function go through and generate a function of its own name for each spec
attribute, and keep the other attributes. -/
def ExpandsDistinctly (resolve : Path → Option SpecType) (item : ItemFn) : Prop :=
  ∃ fns last, followExpansion resolve item.attrs.length item = .ok (fns, last) ∧
    (fns.map fun f => f.sig.ident).Nodup ∧
    fns.length = (item.attrs.filter (isSpecAttr resolve)).length ∧
    last.attrs = otherAttrs resolve item.attrs

/--
**Repeated expansion keeps spec names distinct iff the attributes that start an expansion have
different types**, where the expansions go through at all.
-/
theorem expandsDistinctly_iff (item : ItemFn) :
    ExpandsDistinctly resolve item ↔
      (starters resolve item.attrs).Nodup ∧ AttrsOk resolve item item.attrs := by
  have hnames : (expansionNames resolve item.sig.ident item.attrs).Nodup ↔
      (starters resolve item.attrs).Nodup := by
    unfold expansionNames starters
    cases takeSpec resolve item.attrs with
    | none => simp
    | some r => exact names_nodup_iff
  constructor
  · rintro ⟨fns, last, hfollow, hnodup, -, -⟩
    have hfull := followExpansion_ok hres _ (Nat.le_refl _) hfollow
    rw [hfull.names] at hnodup
    exact ⟨hnames.mp hnodup, hfull.checked⟩
  · rintro ⟨hnodup, hchecked⟩
    obtain ⟨fns, last, hfollow⟩ := followExpansion_exists hres item.attrs.length hchecked
    have hfull := followExpansion_ok hres _ (Nat.le_refl _) hfollow
    refine ⟨fns, last, hfollow, ?_, ?_, hfull.attrs⟩
    · rw [hfull.names]
      exact hnames.mpr hnodup
    · rw [← List.length_map (fun f : ItemFn => f.sig.ident), hfull.names,
        expansionNames_length hres]

end Run

/-! ## Two spellings of one attribute -/

/-- The macros in scope, by their last segment. -/
def resolveLast (path : Path) : Option SpecType := path.getLast?.bind SpecType.ofString

/-- `fn half(x: i32) -> i32` under some attributes. -/
def halfItem (attrs : List Attribute) : ItemFn :=
  .mk attrs
    { ident := "half"
      generics := { params := [], whereClause := [] }
      inputs := .single (.typed "x" (.plain "i32"))
      output := some (.plain "i32") }
    [.expr "x / 2"]

/-- `#[pre(x >= 0)] #[stainless::pre(x < 100)]`: both spec functions are `__pre_1_half`. -/
theorem not_expandsDistinctly_twoSpellings :
    ¬ ExpandsDistinctly resolveLast (halfItem
      [{ path := ["pre"], args := some (.whole "x >= 0") },
        { path := ["stainless", "pre"], args := some (.whole "x < 100") }]) := by
  rintro ⟨fns, last, hfollow, hnodup, -⟩
  have hfull := followExpansion_ok (fun _ => rfl) _ (Nat.le_refl _) hfollow
  rw [hfull.names] at hnodup
  exact absurd hnodup (by decide)

/-- `#[pre(x >= 0)] #[stainless::post(ret <= x)]` gives two names. -/
theorem expandsDistinctly_twoTypes :
    ExpandsDistinctly resolveLast (halfItem
      [{ path := ["pre"], args := some (.whole "x >= 0") },
        { path := ["stainless", "post"], args := some (.whole "ret <= x") }]) := by
  refine (expandsDistinctly_iff (fun _ => rfl) _).mpr ⟨by decide, ?_⟩
  intro attr ha t _
  have hret : TakesRet (halfItem
      [{ path := ["pre"], args := some (.whole "x >= 0") },
        { path := ["stainless", "post"], args := some (.whole "ret <= x") }]) :=
    ⟨by simp [halfItem, ItemFn.sig, Punctuated.single], rfl⟩
  simp only [halfItem, ItemFn.attrs, List.mem_cons, List.not_mem_nil, or_false] at ha
  rcases ha with rfl | rfl
  · exact ⟨by decide, _, rfl, fun _ => hret, rfl⟩
  · exact ⟨by decide, _, rfl, fun _ => hret, rfl⟩

end StainlessMacros
