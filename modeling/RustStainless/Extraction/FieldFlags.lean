import Mathlib.Data.List.TakeWhile
import RustStainless.Lib.Lists
import RustStainless.Extraction.AdtImage

/-!
# The flags of fields

The annotations of an ADT are collected by the names in their arguments. The loop over the variants
takes the flags of a name out of the map at the first field that has it, so a field of a later
variant with the same name gets none.
-/

namespace Stainless

open Rustc St Lib Extraction

/-! ## What annotations say -/

/-- The parameter or field that an argument names. `fn` stands for the item itself. -/
def argName : Hir.TokenTree → Option String
  | .token (.ident symbol) => if symbol = "fn" then none else some symbol
  | .token (.litInteger symbol) => some symbol
  | _ => none

/-- An argument that is understood. Behind another one, the annotation is not read. -/
def isKnownArg : Hir.TokenTree → Bool
  | .token .other | .delimited => false
  | .token _ => true

/-- The flag and the arguments of a stainless annotation. -/
def annotationOf : Hir.Attribute → Option (Flag × List Hir.TokenTree)
  | .normal segments (.delimited tokens) =>
    ((extractFlagOf segments).bind flagFromName).map fun flag => (flag, tokens)
  | _ => none

/-- An annotation with the flag has the name among its arguments. -/
def Names (attrs : List Hir.Attribute) (flag : Flag) (name : String) : Prop :=
  ∃ attr ∈ attrs, ∃ tokens, annotationOf attr = some (flag, tokens) ∧
    name ∈ tokens.filterMap argName

/-- The names among the arguments that are read. -/
def readNames (tokens : List Hir.TokenTree) : List String :=
  (tokens.takeWhile isKnownArg).filterMap argName

theorem readNames_unknown {token : Hir.TokenTree} (rest : List Hir.TokenTree)
    (h : isKnownArg token = false) : readNames (token :: rest) = [] := by
  rw [readNames, List.takeWhile_cons_of_neg (by simp [h]), List.filterMap_nil]

theorem readNames_known {token : Hir.TokenTree} (rest : List Hir.TokenTree)
    (h : isKnownArg token = true) :
    readNames (token :: rest) = (argName token).toList ++ readNames rest := by
  rw [readNames, List.takeWhile_cons_of_pos h, List.filterMap_cons]
  cases argName token <;> rfl

/-- An annotation with the flag has the name among the arguments that are read. -/
def Reads (attrs : List Hir.Attribute) (flag : Flag) (name : String) : Prop :=
  ∃ attr ∈ attrs, ∃ tokens, annotationOf attr = some (flag, tokens) ∧ name ∈ readNames tokens

theorem Reads.names {attrs : List Hir.Attribute} {flag : Flag} {name : String}
    (h : Reads attrs flag name) : Names attrs flag name := by
  obtain ⟨attr, hattr, tokens, hof, hname⟩ := h
  exact ⟨attr, hattr, tokens, hof,
    ((List.takeWhile_sublist _).filterMap _).mem hname⟩

theorem reads_cons {attr : Hir.Attribute} {attrs : List Hir.Attribute} {flag : Flag}
    {name : String} : Reads (attr :: attrs) flag name ↔
      (∃ tokens, annotationOf attr = some (flag, tokens) ∧ name ∈ readNames tokens) ∨
        Reads attrs flag name := by
  unfold Reads
  simp

/-! ## The map of the flags -/

/-- The map has the flag for the name. -/
def HasFlag (m : Assoc String Flags) (flag : Flag) (name : String) : Prop :=
  ∃ fs, m.get? name = some fs ∧ flag ∈ fs.set

theorem mem_add {fs : Flags} {flag flag' : Flag} :
    flag' ∈ (fs.add flag).set ↔ flag' ∈ fs.set ∨ flag' = flag := by
  unfold Flags.add
  split
  · next h =>
    constructor
    · exact .inl
    · rintro (h' | rfl)
      · exact h'
      · exact h
  · simp

theorem hasFlag_addBySymbol {fs : ItemFlags} {flag flag' : Flag} {symbol name : String} :
    HasFlag (fs.addBySymbol flag symbol).bySymbol flag' name ↔
      HasFlag fs.bySymbol flag' name ∨ flag' = flag ∧ name = symbol := by
  unfold HasFlag ItemFlags.addBySymbol
  simp only [Assoc.get?_insert]
  by_cases h : name = symbol
  · subst h
    cases hget : fs.bySymbol.get? name with
    | none => simp [mem_add, Flags.new]
    | some fs' => simp [mem_add]
  · simp [h, Ne.symm h]

/-- No name is in the map without a flag. -/
def Filled (m : Assoc String Flags) : Prop := ∀ name fs, m.get? name = some fs → fs.set ≠ []

theorem Filled.mem_keys {m : Assoc String Flags} (h : Filled m) {name : String} :
    name ∈ m.keys ↔ ∃ flag, HasFlag m flag name := by
  rw [← Assoc.get?_isSome_iff, Option.isSome_iff_exists]
  constructor
  · rintro ⟨fs, hfs⟩
    obtain ⟨flag, hflag⟩ := List.exists_mem_of_ne_nil _ (h name fs hfs)
    exact ⟨flag, fs, hfs, hflag⟩
  · rintro ⟨flag, fs, hfs, -⟩
    exact ⟨fs, hfs⟩

theorem Filled.addBySymbol {fs : ItemFlags} (h : Filled fs.bySymbol) (flag : Flag)
    (symbol : String) : Filled (fs.addBySymbol flag symbol).bySymbol := by
  intro name fs' hget
  unfold ItemFlags.addBySymbol at hget
  rw [Assoc.get?_insert] at hget
  split at hget
  · cases hget
    have hmem : flag ∈ ((((fs.bySymbol.get? symbol).getD .new).add flag)).set :=
      mem_add.mpr (.inr rfl)
    exact List.ne_nil_of_mem hmem
  · exact h name fs' hget

/-! ## Reading the annotations -/

/-- The map holds what the annotations say. -/
structure Collected (m : Assoc String Flags) (given : Flag → String → Prop) : Prop where
  has : ∀ flag name, HasFlag m flag name ↔ given flag name
  filled : Filled m

theorem Collected.congr {m : Assoc String Flags} {given given' : Flag → String → Prop}
    (h : Collected m given) (heq : ∀ flag name, given flag name ↔ given' flag name) :
    Collected m given' :=
  ⟨fun flag name => (h.has flag name).trans (heq flag name), h.filled⟩

theorem Collected.addBySymbol {fs : ItemFlags} {given : Flag → String → Prop}
    (h : Collected fs.bySymbol given) (flag : Flag) (symbol : String) :
    Collected (fs.addBySymbol flag symbol).bySymbol fun flag' name =>
      given flag' name ∨ flag' = flag ∧ name = symbol :=
  ⟨fun flag' name => hasFlag_addBySymbol.trans (or_congr_left (h.has flag' name)),
    h.filled.addBySymbol flag symbol⟩

theorem extractFlagArgs_collected {flag : Flag} : ∀ (tokens : List Hir.TokenTree)
    {fs fs' : ItemFlags} {given : Flag → String → Prop} {s s' : Extraction},
    extractFlagArgs flag tokens fs s = .ok (fs', s') → Collected fs.bySymbol given →
    Collected fs'.bySymbol fun flag' name => given flag' name ∨
      flag' = flag ∧ name ∈ readNames tokens := by
  intro tokens
  induction tokens with
  | nil =>
    intro fs fs' given s s' h hfs
    obtain ⟨rfl, -⟩ := Run.pure_ok.mp h
    exact hfs.congr (by simp [readNames])
  | cons token rest ih =>
    intro fs fs' given s s' h hfs
    -- An unknown argument ends the annotation.
    have hunknown : isKnownArg token = false → fs = fs' → Collected fs'.bySymbol
        fun flag' name => given flag' name ∨ flag' = flag ∧ name ∈ readNames (token :: rest) := by
      rintro hknown rfl
      exact hfs.congr (by simp [readNames_unknown rest hknown])
    have hname : ∀ symbol, isKnownArg token = true → argName token = some symbol →
        extractFlagArgs flag rest (fs.addBySymbol flag symbol) s = .ok (fs', s') →
        Collected fs'.bySymbol
          fun flag' name => given flag' name ∨ flag' = flag ∧ name ∈ readNames (token :: rest) := by
      intro symbol hknown harg h
      refine (ih h (hfs.addBySymbol flag symbol)).congr fun flag' name => ?_
      rw [readNames_known rest hknown, harg, Option.toList_some, List.singleton_append,
        List.mem_cons, or_assoc, ← and_or_left]
    have hno : ∀ fs₁ : ItemFlags, Collected fs₁.bySymbol given → isKnownArg token = true →
        argName token = none → extractFlagArgs flag rest fs₁ s = .ok (fs', s') →
        Collected fs'.bySymbol
          fun flag' name => given flag' name ∨ flag' = flag ∧ name ∈ readNames (token :: rest) :=
      fun _ hfs₁ hknown harg h =>
        (ih h hfs₁).congr (by simp [readNames_known rest hknown, harg])
    cases token with
    | delimited =>
      obtain ⟨_, s₁, -, h⟩ := Run.bind_ok.mp h
      exact hunknown rfl (Run.pure_ok.mp h).1
    | token kind =>
      cases kind with
      | other =>
        obtain ⟨_, s₁, -, h⟩ := Run.bind_ok.mp h
        exact hunknown rfl (Run.pure_ok.mp h).1
      | comma => exact hno fs hfs rfl rfl h
      | litInteger symbol => exact hname symbol rfl rfl h
      | ident symbol =>
        rw [extractFlagArgs] at h
        by_cases hfn : symbol = "fn"
        · -- `fn` is not a name: the flag is the carrier's.
          rw [if_pos hfn] at h
          exact hno (fs.addCarrier flag) hfs rfl (if_pos hfn) h
        · rw [if_neg hfn] at h
          exact hname symbol rfl (if_neg hfn) h

theorem extractFlagsFrom_collected : ∀ (attrs : List Hir.Attribute) {fs fs' : ItemFlags}
    {given : Flag → String → Prop} {s s' : Extraction},
    extractFlagsFrom attrs fs s = .ok (fs', s') → Collected fs.bySymbol given →
    Collected fs'.bySymbol fun flag name => given flag name ∨ Reads attrs flag name := by
  intro attrs
  induction attrs with
  | nil =>
    intro fs fs' given s s' h hfs
    obtain ⟨rfl, -⟩ := Run.pure_ok.mp h
    exact hfs.congr (by simp [Reads])
  | cons attr rest ih =>
    intro fs fs' given s s' h hfs
    -- An attribute that is no annotation with arguments names nothing.
    have hskip : annotationOf attr = none → ∀ {t}, extractFlagsFrom rest fs t = .ok (fs', s') →
        Collected fs'.bySymbol fun flag name => given flag name ∨ Reads (attr :: rest) flag name :=
      fun hnone t h => (ih h hfs).congr (by simp [reads_cons, hnone])
    cases attr with
    | docComment => exact hskip rfl h
    | normal segments args =>
      rw [extractFlagsFrom] at h
      cases hname : extractFlagOf segments with
      | none =>
        rw [hname] at h
        exact hskip (by cases args <;> simp [annotationOf, hname]) h
      | some name =>
        rw [hname] at h
        cases hflag : flagFromName name with
        | none =>
          simp only [hflag] at h
          obtain ⟨_, s₁, -, h⟩ := Run.bind_ok.mp h
          exact hskip (by cases args <;> simp [annotationOf, hname, hflag]) h
        | some flag =>
          simp only [hflag] at h
          cases args with
          | empty =>
            exact (ih h hfs).congr (by simp [reads_cons, annotationOf])
          | eq =>
            obtain ⟨_, s₁, -, h⟩ := Run.bind_ok.mp h
            exact hskip (by simp [annotationOf]) h
          | delimited tokens =>
            obtain ⟨fs₁, s₁, h1, h⟩ := Run.bind_ok.mp h
            refine (ih h (extractFlagArgs_collected tokens h1 hfs)).congr fun flag' name => ?_
            simp [reads_cons, annotationOf, hname, hflag]
            grind

/-- The flags by symbol are those that the annotations name. -/
theorem extractFlags_collected {tcx : Tcx} {d : DefId} {fs : ItemFlags} {s s' : Extraction}
    (h : extractFlags tcx d s = .ok (fs, s')) : Collected fs.bySymbol (Reads (tcx.attrs d)) := by
  have hnew : Collected ([] : Assoc String Flags) fun _ _ => False :=
    ⟨by simp [HasFlag], by simp [Filled]⟩
  have hcollected := extractFlagsFrom_collected _ h hnew
  exact ⟨fun flag name => (hcollected.has flag name).trans (by simp), hcollected.filled⟩

/-! ## The loop over the fields -/

/-- Fields in a row, each of which takes the flags of its name out of the map. -/
inductive Consumes : Assoc String Flags → List FieldDef → List ValDef → Assoc String Flags → Prop
  | nil {m} : Consumes m [] [] m
  | cons {m field fields vd vds m'} (hflags : ∀ flag, flag ∈ vd.v.flags ↔ HasFlag m flag field.name)
      (hrest : Consumes (m.remove field.name) fields vds m') :
      Consumes m (field :: fields) (vd :: vds) m'

theorem Consumes.append {m m₁ m₂ : Assoc String Flags} {fs gs : List FieldDef}
    {vs ws : List ValDef} (h₁ : Consumes m fs vs m₁) (h₂ : Consumes m₁ gs ws m₂) :
    Consumes m (fs ++ gs) (vs ++ ws) m₂ := by
  induction h₁ with
  | nil => exact h₂
  | cons hflags _ ih => exact .cons hflags (ih h₂)

theorem extractFields_consumes {tcx : Tcx} {adtId : DefId → Xtor SymbolIdentifier}
    {txtcx : TyExtractionCtxt} : ∀ (fields : List FieldDef) {m m' : Assoc String Flags}
    {vds : List ValDef} {s s' : Extraction},
    extractFields tcx adtId txtcx fields m s = .ok ((vds, m'), s') →
    Consumes m fields vds m' ∧ vds.length = fields.length := by
  intro fields
  induction fields with
  | nil =>
    intro m m' vds s s' h
    obtain ⟨h, -⟩ := Run.pure_ok.mp h
    cases h
    exact ⟨.nil, rfl⟩
  | cons field fields ih =>
    intro m m' vds s s' h
    rw [extractFields] at h
    obtain ⟨_, s₁, -, h⟩ := Run.bind_ok.mp h
    obtain ⟨_, s₂, -, h⟩ := Run.bind_ok.mp h
    obtain ⟨⟨vds', m₁⟩, s₃, hrest, h⟩ := Run.bind_ok.mp h
    obtain ⟨h, -⟩ := Run.pure_ok.mp h
    cases h
    obtain ⟨hconsumes, hlength⟩ := ih hrest
    refine ⟨.cons (fun flag => ?_) hconsumes, by simp [hlength]⟩
    unfold HasFlag
    cases hget : m.get? field.name with
    | none => simp
    | some fs => simp [Flags.toStainless, IterOrder.mem_iter]

/-- The fields of a constructor are those of its variant. -/
def SameFields (variant : VariantDef) (constructor : ADTConstructor) : Prop :=
  constructor.fields.length = variant.fields.length

/-- The variants take their flags one after the other. -/
theorem extractConstructors_consumes {tcx : Tcx} {adtId : DefId → Xtor SymbolIdentifier}
    {txtcx : TyExtractionCtxt} {sortId : SymbolIdentifier} : ∀ (variants : List VariantDef)
    {m m' : Assoc String Flags} {constructors : List ADTConstructor} {s s' : Extraction},
    extractConstructors tcx adtId txtcx sortId variants m s = .ok ((constructors, m'), s') →
    Consumes m (variants.flatMap VariantDef.fields)
      (constructors.flatMap ADTConstructor.fields) m' ∧
      List.Forall₂ SameFields variants constructors := by
  intro variants
  induction variants with
  | nil =>
    intro m m' constructors s s' h
    obtain ⟨h, -⟩ := Run.pure_ok.mp h
    cases h
    exact ⟨.nil, .nil⟩
  | cons variant variants ih =>
    intro m m' constructors s s' h
    rw [extractConstructors] at h
    obtain ⟨_, s₁, -, h⟩ := Run.bind_ok.mp h
    obtain ⟨⟨fields, m₁⟩, s₂, hfields, h⟩ := Run.bind_ok.mp h
    obtain ⟨⟨constructors', m₂⟩, s₃, hrest, h⟩ := Run.bind_ok.mp h
    obtain ⟨h, -⟩ := Run.pure_ok.mp h
    cases h
    obtain ⟨hconsumes, hlength⟩ := extractFields_consumes _ hfields
    obtain ⟨hconsumes', hsame⟩ := ih hrest
    exact ⟨hconsumes.append hconsumes', .cons hlength hsame⟩

/-! ## Where the flags end up -/

/-- The field carries exactly the flags of the annotations that name it. -/
def CarriesNamed (attrs : List Hir.Attribute) (field : FieldDef) (vd : ValDef) : Prop :=
  ∀ flag, flag ∈ vd.v.flags ↔ Names attrs flag field.name

/-- What the map holds when the fields with the names in `seen` are done. -/
def Remaining (attrs : List Hir.Attribute) (seen : List String) (flag : Flag) (name : String) :
    Prop :=
  Reads attrs flag name ∧ name ∉ seen

theorem Collected.remove {m : Assoc String Flags} {attrs : List Hir.Attribute}
    {seen : List String} (h : Collected m (Remaining attrs seen)) (name : String) :
    Collected (m.remove name) (Remaining attrs (name :: seen)) := by
  constructor
  · intro flag name'
    by_cases hname : name' = name
    · subst hname
      simp [HasFlag, Assoc.get?_remove_self, Remaining]
    · have hhas := h.has flag name'
      unfold HasFlag at hhas ⊢
      rw [Assoc.get?_remove_of_ne hname, hhas]
      simp [Remaining, hname]
  · intro name' fs hfs
    exact h.filled name' fs (Assoc.get?_of_remove hfs)

/-- What is left are the names that no field has. -/
theorem Consumes.leftover {m m' : Assoc String Flags} {attrs : List Hir.Attribute}
    {fields : List FieldDef} {vds : List ValDef} (h : Consumes m fields vds m')
    {seen : List String} (hm : Collected m (Remaining attrs seen)) {name : String} :
    name ∈ m'.keys ↔ (∃ flag, Reads attrs flag name) ∧ name ∉ seen ∧
      ∀ field ∈ fields, field.name ≠ name := by
  induction h generalizing seen with
  | nil =>
    rw [hm.filled.mem_keys]
    simp [hm.has, Remaining]
  | @cons m field fields vd vds m' _ _ ih =>
    rw [ih (hm.remove field.name)]
    simp only [List.mem_cons, not_or]
    grind

/-- Each field has its flags if they are read and no field before has the same name. -/
theorem Consumes.carries_iff {m m' : Assoc String Flags} {attrs : List Hir.Attribute}
    {fields : List FieldDef} {vds : List ValDef} (h : Consumes m fields vds m')
    {seen : List String} (hm : Collected m (Remaining attrs seen)) :
    List.Forall₂ (CarriesNamed attrs) fields vds ↔
      (fields.Pairwise fun f g => f.name = g.name → ∀ flag, ¬Names attrs flag f.name) ∧
        ∀ field ∈ fields, ∀ flag, Names attrs flag field.name →
          field.name ∉ seen ∧ Reads attrs flag field.name := by
  induction h generalizing seen with
  | nil => simp
  | @cons m field fields vd vds m' hflags _ ih =>
    have hhead : CarriesNamed attrs field vd ↔ ∀ flag, Names attrs flag field.name →
        field.name ∉ seen ∧ Reads attrs flag field.name := by
      refine forall_congr' fun flag => ?_
      rw [hflags flag, hm.has, Remaining]
      have hread : Reads attrs flag field.name → Names attrs flag field.name := Reads.names
      tauto
    rw [List.forall₂_cons, hhead, ih (hm.remove field.name), List.pairwise_cons,
      List.forall_mem_cons]
    simp only [List.mem_cons, not_or]
    grind

/-- The fields of all variants. -/
def AdtDef.allFields (a : AdtDef) : List FieldDef := a.variants.flatMap VariantDef.fields

/-- The warning about names that are given flags although nothing has them. -/
def unusedWarning : List String → List Diag
  | [] => []
  | names@(_ :: _) => [.warning ("Stainless annotations for non-existent parameters: " ++
      String.intercalate ", " names)]

/-- The extraction of an ADT that has no id yet, up to the end of the loop over its variants. -/
def extractVariants (tcx : Tcx) (a : AdtDef) :
    Xtor (List ADTConstructor × Assoc String Flags) := do
  let adtId := extractAdtIdWith (extractAdtWith tcx tcx.adtDefs.length)
  let sortId ← registerDef tcx a.did
  let flags ← extractAdtFlags tcx a.did
  let (_, txtcx) ← extractGenericsWith tcx adtId a.did
  extractConstructors tcx adtId txtcx sortId a.variants flags.bySymbol

/-- Behind the loop over the variants, the extraction of an ADT has reported these names as unused,
and nothing else. -/
def Reports (tcx : Tcx) (a : AdtDef) (names : List String) (s s' : Extraction) : Prop :=
  ∃ r s₁, extractVariants tcx a s = .ok (r, s₁) ∧ s'.diags = s₁.diags ++ unusedWarning names

theorem reportUnusedFlags_diags {tcx : Tcx} {d : DefId} {m : Assoc String Flags} {u : Unit}
    {s s' : Extraction} (h : reportUnusedFlags tcx d m s = .ok (u, s')) :
    ∃ names, names.Perm m.keys ∧ s'.diags = s.diags ++ unusedWarning names := by
  refine ⟨_, tcx.iterOrder.perm (.flagsBySymbol d) m.keys, ?_⟩
  unfold reportUnusedFlags at h
  split at h
  · next hm =>
    obtain ⟨-, rfl⟩ := Run.pure_ok.mp h
    have hnil : tcx.iterOrder.iter (.flagsBySymbol d) m.keys = [] := by
      rw [hm]
      exact (tcx.iterOrder.perm _ _).eq_nil
    rw [hnil, unusedWarning, List.append_nil]
  · next hm =>
    rw [spanWarn, report_ok] at h
    subst h
    cases hnames : tcx.iterOrder.iter (.flagsBySymbol d) m.keys with
    | nil =>
      have hkeys := (tcx.iterOrder.perm (.flagsBySymbol d) m.keys).symm
      rw [hnames] at hkeys
      exact absurd (List.map_eq_nil_iff.mp hkeys.eq_nil) hm
    | cons name names => rfl

/-- Flags reach every field that they name, and the names of no field are reported. -/
structure FlagsReach (attrs : List Hir.Attribute) (a : AdtDef) (sort : ADTSort)
    (reported : List String) : Prop where
  fields : List.Forall₂
    (fun variant constructor =>
      List.Forall₂ (CarriesNamed attrs) variant.fields constructor.fields)
    a.variants sort.constructors
  unused : ∀ name, name ∈ reported ↔
    (∃ flag, Names attrs flag name) ∧ ∀ field ∈ AdtDef.allFields a, field.name ≠ name

/--
No two fields share a name that an annotation has, and what stands behind an unknown argument does
not matter: it is also said where it is read.
-/
structure FlagsReadable (attrs : List Hir.Attribute) (fields : List FieldDef) : Prop where
  once : fields.Pairwise fun f g => f.name = g.name → ∀ flag, ¬Names attrs flag f.name
  read : ∀ field ∈ fields, ∀ flag, Names attrs flag field.name → Reads attrs flag field.name
  unused : ∀ name, (∀ field ∈ fields, field.name ≠ name) → (∃ flag, Names attrs flag name) →
    ∃ flag, Reads attrs flag name

theorem flagsReach_iff {attrs : List Hir.Attribute} {a : AdtDef} {sort : ADTSort}
    {flags leftover : Assoc String Flags} {reported : List String}
    (hflags : Collected flags (Reads attrs)) (hreported : reported.Perm leftover.keys)
    (hconsumes : Consumes flags (AdtDef.allFields a)
      (sort.constructors.flatMap ADTConstructor.fields) leftover)
    (hsame : List.Forall₂ SameFields a.variants sort.constructors) :
    FlagsReach attrs a sort reported ↔ FlagsReadable attrs (AdtDef.allFields a) := by
  have hstart : Collected flags (Remaining attrs []) := hflags.congr (by simp [Remaining])
  have hfields := hconsumes.carries_iff hstart
  rw [AdtDef.allFields, forall₂_flatMap_iff (hsame.imp fun _ _ h => h.symm)] at hfields
  have hleft : ∀ name, name ∈ reported ↔ (∃ flag, Reads attrs flag name) ∧
      ∀ field ∈ AdtDef.allFields a, field.name ≠ name := fun name => by
    rw [hreported.mem_iff]
    simpa using hconsumes.leftover hstart
  constructor
  · rintro ⟨hreach, hunused⟩
    obtain ⟨honce, hread⟩ := hfields.mp hreach
    refine ⟨honce, fun f hf flag hname => (hread f hf flag hname).2, fun name hno hname => ?_⟩
    exact ((hleft name).mp ((hunused name).mpr ⟨hname, hno⟩)).1
  · rintro ⟨honce, hread, hunused⟩
    refine ⟨hfields.mpr ⟨honce, fun f hf flag hname => ⟨by simp, hread f hf flag hname⟩⟩, ?_⟩
    intro name
    rw [hleft name]
    constructor
    · rintro ⟨⟨flag, hflag⟩, hno⟩
      exact ⟨⟨flag, hflag.names⟩, hno⟩
    · rintro ⟨hname, hno⟩
      exact ⟨hunused name hno hname, hno⟩

/--
**Field annotations reach every field they name, and the names of no field are reported**, exactly
if no two fields share a name that is given flags, and no name is only given behind an argument that
is unknown.
-/
theorem fieldFlags_iff {tcx : Tcx} {d : DefId} {a : AdtDef} {sort : ADTSort} {s s' : Extraction}
    (hlocal : d.isLocal = true) (hdef : tcx.adtDef d = some a) (hnew : s.didId d = none)
    (hrun : extractAdt tcx d s = .ok (sort, s')) :
    ∃ reported, Reports tcx a reported s s' ∧
      (FlagsReach (tcx.attrs d) a sort reported ↔
        FlagsReadable (tcx.attrs d) (AdtDef.allFields a)) := by
  obtain rfl := Tcx.adtDef_did hdef
  rw [extractAdt, adtDepth, extractAdtWith, Run.bind_eq getSort_eq, hnew, Option.bind_none] at hrun
  obtain ⟨id, s₁, hid, hrun⟩ := Run.bind_ok.mp hrun
  simp only [hdef] at hrun
  rw [extractSort] at hrun
  obtain ⟨flags, s₂, hflags, hrun⟩ := Run.bind_ok.mp hrun
  obtain ⟨⟨tparams, txtcx⟩, s₃, hgen, hrun⟩ := Run.bind_ok.mp hrun
  obtain ⟨⟨constructors, leftover⟩, s₄, hconstructors, hrun⟩ := Run.bind_ok.mp hrun
  obtain ⟨_, s₅, hreport, hrun⟩ := Run.bind_ok.mp hrun
  obtain ⟨rfl, rfl⟩ := Run.pure_ok.mp hrun
  -- Up to here the run is that of the loop, and only the warning comes behind it.
  have hloop : extractVariants tcx a s = .ok ((constructors, leftover), s₄) :=
    (Run.bind_eq hid).trans ((Run.bind_eq hflags).trans ((Run.bind_eq hgen).trans hconstructors))
  rw [extractAdtFlags, if_pos hlocal] at hflags
  rw [reportUnusedAdtFlags, if_pos hlocal] at hreport
  obtain ⟨reported, hperm, hdiags⟩ := reportUnusedFlags_diags hreport
  obtain ⟨hconsumes, hsame⟩ := extractConstructors_consumes _ hconstructors
  refine ⟨reported, ⟨_, s₄, hloop, hdiags⟩, ?_⟩
  exact flagsReach_iff (extractFlags_collected hflags) hperm hconsumes hsame

/-! ## Annotated enums -/

/-- The variant with index `n` of an enum, with fields of these names. -/
def variantOf (n : Nat) (names : List String) : VariantDef where
  defId := ⟨0, 10 * n + 1⟩
  fields := names.mapIdx fun i name => { did := ⟨0, 10 * n + i + 2⟩, name := name, ty := .bool }

/-- An enum of which the variants have fields of these names. -/
def enumOf (variants : List (List String)) : AdtDef :=
  { did := ⟨0, 0⟩, isBox := false, variants := variants.mapIdx variantOf }

/-- The enum has the annotation `#[clippy::stainless::var(..)]`. -/
def varFields (variants : List (List String)) (args : List Hir.TokenTree) : Tcx :=
  { Tcx.empty with
    defKind := fun d => if d.index = 0 then .adt else .field
    defPathStr := fun d => if d.index = 0 then "E" else "f"
    adtDefs := [enumOf variants]
    attrs := fun d => if d.index = 0 then
      [.normal ["clippy", "stainless", "var"] (.delimited args)] else [] }

theorem names_iff_mem {args : List Hir.TokenTree} {flag : Flag} {name : String} :
    Names [.normal ["clippy", "stainless", "var"] (.delimited args)] flag name ↔
      flag = .isVar ∧ name ∈ args.filterMap argName := by
  constructor
  · rintro ⟨attr, hattr, tokens, hof, hname⟩
    obtain rfl := List.mem_singleton.mp hattr
    cases hof
    exact ⟨rfl, hname⟩
  · rintro ⟨rfl, hname⟩
    exact ⟨_, List.mem_singleton.mpr rfl, args, rfl, hname⟩

theorem reads_of_known {args : List Hir.TokenTree} (hknown : ∀ token ∈ args, isKnownArg token)
    {flag : Flag} {name : String}
    (h : Names [.normal ["clippy", "stainless", "var"] (.delimited args)] flag name) :
    Reads [.normal ["clippy", "stainless", "var"] (.delimited args)] flag name := by
  obtain ⟨rfl, hname⟩ := names_iff_mem.mp h
  refine ⟨_, List.mem_singleton.mpr rfl, args, rfl, ?_⟩
  rwa [readNames, List.takeWhile_eq_self_iff.mpr hknown]

/-- `#[clippy::stainless::var(0, x, y)] enum E { A(bool, bool), B { x: bool } }`. -/
def unusedArg : Tcx :=
  varFields [["0", "1"], ["x"]]
    [.token (.litInteger "0"), .token .comma, .token (.ident "x"), .token .comma,
      .token (.ident "y")]

/-- The fields `0` and `x` get their flags, and `y` is reported. -/
theorem fieldFlags_unusedArg : ∃ sort s' reported,
    extractAdt unusedArg ⟨0, 0⟩ .new = .ok (sort, s') ∧
      s'.diags = [.warning "Stainless annotations for non-existent parameters: y"] ∧
      Reports unusedArg (enumOf [["0", "1"], ["x"]]) reported .new s' ∧
      FlagsReach (unusedArg.attrs ⟨0, 0⟩) (enumOf [["0", "1"], ["x"]]) sort reported ∧
      "y" ∈ reported := by
  obtain ⟨sort, s', hrun, hdiags⟩ : ∃ sort s', extractAdt unusedArg ⟨0, 0⟩ .new = .ok (sort, s') ∧
      s'.diags = [.warning "Stainless annotations for non-existent parameters: y"] :=
    ⟨_, _, rfl, rfl⟩
  obtain ⟨reported, hreports, hiff⟩ := fieldFlags_iff rfl rfl rfl hrun
  have hknown : ∀ flag name, Names (unusedArg.attrs ⟨0, 0⟩) flag name →
      Reads (unusedArg.attrs ⟨0, 0⟩) flag name := fun _ _ => reads_of_known (by decide)
  have hreach := hiff.mpr
    { once := by
        have hnodup :
            ((AdtDef.allFields (enumOf [["0", "1"], ["x"]])).map FieldDef.name).Nodup := by
          decide
        exact (List.pairwise_map.mp hnodup).imp fun hne heq => absurd heq hne
      read := fun _ _ flag h => hknown flag _ h
      unused := fun name _ ⟨flag, h⟩ => ⟨flag, hknown flag name h⟩ }
  refine ⟨sort, s', reported, hrun, hdiags, hreports, hreach, (hreach.unused "y").mpr ⟨?_, ?_⟩⟩
  · exact ⟨.isVar, names_iff_mem.mpr ⟨rfl, by decide⟩⟩
  · decide

/-- `#[clippy::stainless::var(0)] enum E { A(bool), B(bool) }`. -/
def sharedName : Tcx := varFields [["0"], ["0"]] [.token (.litInteger "0")]

/-- The field of the second variant gets no flag. -/
theorem not_flagsReach_twoVariants : ∃ sort s',
    extractAdt sharedName ⟨0, 0⟩ .new = .ok (sort, s') ∧
      ∀ reported, ¬FlagsReach (sharedName.attrs ⟨0, 0⟩) (enumOf [["0"], ["0"]]) sort reported := by
  refine ⟨_, _, rfl, fun reported hreach => ?_⟩
  obtain ⟨_, hrest⟩ := List.forall₂_cons.mp hreach.fields
  obtain ⟨hsecond, -⟩ := List.forall₂_cons.mp hrest
  obtain ⟨hcarries, -⟩ := List.forall₂_cons.mp hsecond
  have hnames : Names (sharedName.attrs ⟨0, 0⟩) .isVar "0" := names_iff_mem.mpr ⟨rfl, by decide⟩
  exact absurd ((hcarries .isVar).mpr hnames) (by decide)

end Stainless
