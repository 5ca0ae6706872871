import RustStainless.Extraction.OrderedGenerics

/-!
# ADTs in two iteration orders

The flags of an ADT and of its fields come in the order of a set. When an ADT is calm, its sort is
the same in both runs. Of an ADT of another crate only the ids are the same; no more is used of it.
-/

namespace Stainless

open Rustc St Lib Extraction

variable {tcx : Tcx} {ids : KnownIds} (o : IterOrder HashSite)

/-! ## Flags -/

@[simp] theorem extractFlags_withOrder (d : DefId) :
    extractFlags (tcx.withOrder o) d = extractFlags tcx d := rfl

theorem extractFlags_steady {ids : KnownIds} (d : DefId) : Steady ids (extractFlags tcx d) :=
  extractFlagsFrom_steady _ _

/-- Whatever the state, these are the flags of the item. -/
theorem extractFlags_eq {d : DefId} {fs : ItemFlags} {s s' : Extraction}
    (h : extractFlags tcx d s = .ok (fs, s')) : fs = itemFlags tcx d := by
  have hknows : ∀ s, Knows (fun _ => none) s := by simp [Knows]
  unfold itemFlags
  have hsteady : Steady (fun _ => none) (extractFlags tcx d) := extractFlags_steady d
  rcases hsteady with ⟨a, ms, hx⟩ | ⟨e, hx⟩
  · rw [hx s (hknows s)] at h
    rw [hx .new (hknows .new)]
    exact (Prod.mk.inj (Except.ok.inj h)).1.symm
  · rw [hx s (hknows s)] at h
    cases h

/-- A single flag has only one order. -/
theorem Flags.toStainless_withOrder {carrier : DefId} {symbol : Option String} {fs : Flags}
    (h : fs.set.length ≤ 1) :
    fs.toStainless (tcx.withOrder o) carrier symbol = fs.toStainless tcx carrier symbol := by
  unfold Flags.toStainless
  rw [iterOrder_withOrder, o.iter_of_length_le_one h, tcx.iterOrder.iter_of_length_le_one h]

/-- No name has more than one flag. -/
def SingleFlags (names : String → Prop) (flagsBySymbol : Assoc String Flags) : Prop :=
  ∀ name, names name → ∀ fs, flagsBySymbol.get? name = some fs → fs.set.length ≤ 1

theorem SingleFlags.remove {names : String → Prop} {flagsBySymbol : Assoc String Flags}
    (h : SingleFlags names flagsBySymbol) (name : String) :
    SingleFlags names (flagsBySymbol.remove name) :=
  fun n hn fs hfs => h n hn fs (Assoc.get?_of_remove hfs)

theorem singleFlags_of_symbolFlags {d : DefId} {names : String → Prop}
    (h : ∀ name, names name → (symbolFlags tcx d name).length ≤ 1) :
    SingleFlags names (itemFlags tcx d).bySymbol := by
  intro name hname fs hfs
  have hlen := h name hname
  rwa [symbolFlags, hfs] at hlen

theorem reportUnusedFlags_follows (d : DefId) (bySymbol : Assoc String Flags) :
    FollowsIn tcx ids (reportUnusedFlags tcx d bySymbol)
      (reportUnusedFlags (tcx.withOrder o) d bySymbol) Eq := by
  unfold reportUnusedFlags
  split
  · exact .pure rfl
  · exact report_follows _ _

theorem reportUnusedAdtFlags_follows (d : DefId) (bySymbol : Assoc String Flags) :
    FollowsIn tcx ids (reportUnusedAdtFlags tcx d bySymbol)
      (reportUnusedAdtFlags (tcx.withOrder o) d bySymbol) Eq := by
  unfold reportUnusedAdtFlags
  split
  · exact reportUnusedFlags_follows o d bySymbol
  · exact .pure rfl

theorem extractAdtFlags_follows (d : DefId) :
    FollowsIn tcx ids (extractAdtFlags tcx d) (extractAdtFlags (tcx.withOrder o) d) Eq := by
  unfold extractAdtFlags
  rw [extractFlags_withOrder]
  split
  · exact (extractFlags_steady d).follows
  · exact .pure rfl

/-- The flags of an ADT, and none for one of another crate. -/
def adtFlags (tcx : Tcx) (d : DefId) : ItemFlags :=
  if d.isLocal then itemFlags tcx d else { carrier := .new, bySymbol := [] }

theorem extractAdtFlags_eq {d : DefId} {fs : ItemFlags} {s s' : Extraction}
    (h : extractAdtFlags tcx d s = .ok (fs, s')) : fs = adtFlags tcx d := by
  unfold extractAdtFlags at h
  unfold adtFlags
  split
  · next hd =>
    rw [if_pos hd] at h
    exact extractFlags_eq h
  · next hd =>
    rw [if_neg hd] at h
    exact (Run.pure_ok.mp h).1.symm

/-! ## Fields and constructors -/

section Fields

variable {adtId adtId' : DefId → Xtor SymbolIdentifier} {txtcx txtcx' : TyExtractionCtxt}

/-- The flags of a field or parameter, if any name it. -/
theorem namedFlags_withOrder {names : String → Prop} {flagsBySymbol : Assoc String Flags}
    (hflags : SingleFlags names flagsBySymbol) {name : String} (hname : names name) (d : DefId) :
    (flagsBySymbol.get? name).map (Flags.toStainless (tcx.withOrder o) d (some name)) =
      (flagsBySymbol.get? name).map (Flags.toStainless tcx d (some name)) := by
  cases hfs : flagsBySymbol.get? name with
  | none => rfl
  | some fs =>
    rw [Option.map_some, Option.map_some,
      Flags.toStainless_withOrder o (hflags name hname fs hfs)]

/-- No name gets new flags. -/
theorem extractFields_flags (names : String → Prop) : ∀ (fields : List FieldDef)
    {flagsBySymbol : Assoc String Flags} {r : List ValDef × Assoc String Flags}
    {s s' : Extraction}, extractFields tcx adtId txtcx fields flagsBySymbol s = .ok (r, s') →
    SingleFlags names flagsBySymbol → SingleFlags names r.2 := by
  intro fields
  induction fields with
  | nil =>
    intro flagsBySymbol r s s' h hflags
    obtain ⟨rfl, -⟩ := Run.pure_ok.mp h
    exact hflags
  | cons f fields ih =>
    intro flagsBySymbol r s s' h hflags
    rw [extractFields] at h
    obtain ⟨_, s₁, -, h⟩ := Run.bind_ok.mp h
    obtain ⟨_, s₂, -, h⟩ := Run.bind_ok.mp h
    obtain ⟨r', s₃, hrest, h⟩ := Run.bind_ok.mp h
    obtain ⟨rfl, -⟩ := Run.pure_ok.mp h
    have hr := ih hrest (hflags.remove _)
    exact hr

variable (hadt : ∀ d, FollowsIn tcx ids (adtId d) (adtId' d) Eq)

include hadt

theorem extractFields_follows {names : String → Prop} (hctx : CtxAlike txtcx txtcx') :
    ∀ (fields : List FieldDef) (flagsBySymbol : Assoc String Flags),
    (∀ f ∈ fields, names f.name) → SingleFlags names flagsBySymbol →
    FollowsIn tcx ids (extractFields tcx adtId txtcx fields flagsBySymbol)
      (extractFields (tcx.withOrder o) adtId' txtcx' fields flagsBySymbol) Eq
  | [], _, _, _ => .pure rfl
  | field :: rest, flagsBySymbol, hnames, hflags => by
    rw [extractFields, extractFields, getOrRegisterDef_withOrder, extractTyWith_withOrder,
      hctx.defId]
    refine (getOrRegisterDef_follows _).bind_eq fun fieldId => ?_
    refine (extractTyWith_follows hadt hctx _).bind_eq fun fieldTy => ?_
    have hrest := extractFields_follows hctx rest (flagsBySymbol.remove field.name)
      (fun f hf => hnames f (List.mem_cons_of_mem _ hf)) (hflags.remove _)
    refine hrest.bind_eq fun r => ?_
    rw [namedFlags_withOrder o hflags (hnames field List.mem_cons_self)]
    exact .pure rfl

theorem extractConstructors_follows {names : String → Prop} (hctx : CtxAlike txtcx txtcx')
    (sortId : SymbolIdentifier) :
    ∀ (variants : List VariantDef) (flagsBySymbol : Assoc String Flags),
    (∀ v ∈ variants, ∀ f ∈ v.fields, names f.name) → SingleFlags names flagsBySymbol →
    FollowsIn tcx ids (extractConstructors tcx adtId txtcx sortId variants flagsBySymbol)
      (extractConstructors (tcx.withOrder o) adtId' txtcx' sortId variants flagsBySymbol) Eq
  | [], _, _, _ => .pure rfl
  | v :: rest, flagsBySymbol, hnames, hflags => by
    rw [extractConstructors, extractConstructors, getOrRegisterDef_withOrder]
    refine (getOrRegisterDef_follows _).bind_eq fun consId => ?_
    have hfields := extractFields_follows o hadt hctx v.fields flagsBySymbol
      (hnames v List.mem_cons_self) hflags
    refine hfields.bind_post (fun s r s' h => extractFields_flags names _ h) fun r hr => ?_
    have hrest := extractConstructors_follows hctx sortId rest r.2
      (fun w hw => hnames w (List.mem_cons_of_mem _ hw)) (hr hflags)
    exact hrest.bind_eq fun _ => .pure rfl

end Fields

/-! ## Sorts -/

/-- The sort of an ADT in the two runs. -/
structure SortAlike (d : DefId) (a b : ADTSort) : Prop where
  id : a.id = b.id
  constructors : a.constructors = b.constructors
  same : d.isLocal = true → a = b

theorem SortAlike.refl (d : DefId) (a : ADTSort) : SortAlike d a a := ⟨rfl, rfl, fun _ => rfl⟩

theorem adtFlags_single {a : AdtDef} (h : AdtCalm tcx a) :
    SingleFlags (fun name => ∃ v ∈ a.variants, ∃ f ∈ v.fields, f.name = name)
      (adtFlags tcx a.did).bySymbol := by
  unfold adtFlags
  split
  · next hlocal =>
    refine singleFlags_of_symbolFlags fun name hname => ?_
    obtain ⟨v, hv, f, hf, rfl⟩ := hname
    exact h.fieldFlags hlocal v hv f hf
  · intro name _ fs hfs
    simp at hfs

section Sorts

variable {adtId adtId' : DefId → Xtor SymbolIdentifier}
  (hops : ∀ d, ByOps tcx (adtId d))
  (hid : ∀ d, ids d ≠ none → Steady ids (adtId d))
  (hself : ∀ d, FollowsIn tcx ids (adtId d) (adtId d) Eq)
  (hadt : ∀ d, FollowsIn tcx ids (adtId d) (adtId' d) Eq)

include hops hid hself hadt

theorem extractSort_follows {a : AdtDef} (hcalm : AdtCalm tcx a) (sortId : SymbolIdentifier) :
    FollowsIn tcx ids (extractSort tcx adtId sortId a.did a)
      (extractSort (tcx.withOrder o) adtId' sortId a.did a) (SortAlike a.did) := by
  unfold extractSort
  refine (extractAdtFlags_follows o a.did).bind_post (fun _ _ _ h => extractAdtFlags_eq h)
    fun flags hflags => ?_
  subst hflags
  have hgenerics := extractGenericsWith_follows o (fun _ hk => hk.elim) hcalm.bounds hid hself hadt
  refine hgenerics.bind (fun r => ?_) fun r r' hr => ?_
  · have hrest := extractConstructors_byOps hops r.2 sortId a.variants (adtFlags tcx a.did).bySymbol
    exact (hrest.bind fun rc => .bind (reportUnusedAdtFlags_byOps a.did _) fun _ => .pure _).grows
  · obtain ⟨tparams, txtcx⟩ := r
    obtain ⟨tparams', txtcx'⟩ := r'
    have hcons := extractConstructors_follows o hadt hr.ctx sortId a.variants
      (adtFlags tcx a.did).bySymbol (fun v hv f hf => ⟨v, hv, f, hf, rfl⟩) (adtFlags_single hcalm)
    refine hcons.bind_eq fun rc => (reportUnusedAdtFlags_follows o a.did _).bind_eq fun _ => ?_
    refine .pure ⟨rfl, rfl, fun hlocal => ?_⟩
    have htparams : tparams = tparams' := hr.tparams (hcalm.tparams hlocal)
    have hflags : (adtFlags tcx a.did).carrier.set.length ≤ 1 := by
      rw [adtFlags, if_pos hlocal]
      exact hcalm.flags hlocal
    rw [htparams, Flags.toStainless_withOrder o hflags]

end Sorts

/-! ## ADTs -/

theorem extractAdtIdWith_follows {adt adt' : DefId → Xtor ADTSort}
    (hadt : ∀ d, FollowsIn tcx ids (adt d) (adt' d) (SortAlike d)) (d : DefId) :
    FollowsIn tcx ids (extractAdtIdWith adt d) (extractAdtIdWith adt' d) Eq := by
  refine (getIdFromDef_follows d).bind_eq fun id => ?_
  cases id with
  | some id => exact .pure rfl
  | none =>
    exact (hadt d).bind (fun _ => .pure Grows.refl _) fun sort sort' h => .pure h.id

/-- The induction is on how deep the ADTs are nested, for both runs and for the first one alone. -/
theorem extractAdtWith_follows : ∀ (depth : Nat) (o : IterOrder HashSite) (d : DefId),
    FollowsIn tcx ids (extractAdtWith tcx depth d) (extractAdtWith (tcx.withOrder o) depth d)
      (SortAlike d)
  | 0, _, _ => .panic _
  | depth + 1, o, d => by
    rw [extractAdtWith, extractAdtWith, registerDef_withOrder, adtDef_withOrder]
    refine (getSort_follows d).bind_eq fun sort => ?_
    cases sort with
    | some sort => exact .pure (.refl d sort)
    | none =>
      refine (registerDef_calm d).bind (fun id => ?_) fun id id' h => ?_
      · cases tcx.adtDef d with
        | none => exact .panic _
        | some a =>
          refine (extractSort_byOps ?_ id d a).grows
          exact extractAdtIdWith_byOps (extractAdtWith_byOps depth)
      · obtain ⟨rfl, hcalm⟩ := h
        cases ha : tcx.adtDef d with
        | none => exact .panic _
        | some a =>
          obtain rfl := tcx.adtDef_did ha
          exact extractSort_follows o (extractAdtIdWith_byOps (extractAdtWith_byOps depth))
            (fun _ hk => extractAdtIdWith_steady hk)
            (extractAdtIdWith_follows fun e =>
              extractAdtWith_follows depth tcx.iterOrder e)
            (extractAdtIdWith_follows fun e => extractAdtWith_follows depth o e)
            (hcalm a ha) id

theorem extractAdt_follows (d : DefId) :
    FollowsIn tcx ids (extractAdt tcx d) (extractAdt (tcx.withOrder o) d) (SortAlike d) :=
  extractAdtWith_follows _ o d

theorem extractAdtId_follows (d : DefId) :
    FollowsIn tcx ids (extractAdtId tcx d) (extractAdtId (tcx.withOrder o) d) Eq :=
  extractAdtIdWith_follows (extractAdt_follows o) d

theorem extractTy_follows {txtcx txtcx' : TyExtractionCtxt} (hctx : CtxAlike txtcx txtcx')
    (ty : Ty) :
    FollowsIn tcx ids (extractTy tcx txtcx ty) (extractTy (tcx.withOrder o) txtcx' ty) Eq := by
  unfold extractTy
  rw [extractTyWith_withOrder]
  exact extractTyWith_follows (extractAdtId_follows o) hctx ty

theorem extractTys_follows {txtcx txtcx' : TyExtractionCtxt} (hctx : CtxAlike txtcx txtcx')
    (tys : List Ty) :
    FollowsIn tcx ids (extractTys tcx txtcx tys) (extractTys (tcx.withOrder o) txtcx' tys) Eq := by
  unfold extractTys
  rw [extractTysWith_withOrder]
  exact extractTysWith_follows (extractAdtId_follows o) hctx tys

theorem extractGenerics_follows {known : DefId → Prop} {d : DefId}
    (hknown : ∀ a, known a → ids a ≠ none) (hcalm : BoundsCalm tcx known d) :
    FollowsIn tcx ids (extractGenerics tcx d) (extractGenerics (tcx.withOrder o) d)
      (GenericsAlike tcx d) :=
  extractGenericsWith_follows o hknown hcalm (fun _ hk => extractAdtIdWith_steady hk)
    (extractAdtId_follows tcx.iterOrder) (extractAdtId_follows o)

/-- The ADTs of the crate are local, so their sorts are the same. -/
theorem extractLocalAdts_follows : ∀ ds : List DefId, (∀ d ∈ ds, d.isLocal = true) →
    FollowsIn tcx ids (extractLocalAdts tcx ds) (extractLocalAdts (tcx.withOrder o) ds) Eq
  | [], _ => .pure rfl
  | d :: ds, hlocal => by
    rw [extractLocalAdts, extractLocalAdts]
    refine (extractAdt_follows o d).bind (fun sort => ?_) fun sort sort' h => ?_
    · have hrest : ByOps tcx (extractLocalAdts tcx ds) := extractLocalAdts_byOps ds
      exact ((addAdt_byOps sort).bind fun _ => hrest).grows
    · obtain rfl := h.same (hlocal d List.mem_cons_self)
      refine (addAdt_follows _ _).bind_eq fun _ => ?_
      exact extractLocalAdts_follows ds fun e he => hlocal e (List.mem_cons_of_mem _ he)

end Stainless
