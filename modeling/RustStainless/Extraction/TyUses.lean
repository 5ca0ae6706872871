import RustStainless.Data.Refs
import RustStainless.Extraction.GenericsImage

/-!
# The ADTs of a type

A type uses the ADTs that stand in it, and a type parameter with an `Fn`-like bound uses those of
the bound: it is replaced by a function type. The sorts in the image of a type are those of the ADTs
that the type uses.
-/

namespace Stainless

open Rustc St Lib Extraction

variable {tcx : Tcx} {d : DefId}

/-! ## What a type uses -/

/-- An ADT that is extracted to a sort of its own. -/
structure IsPlainAdt (tcx : Tcx) (did : DefId) : Prop where
  notBigint : tcx.isBigint did = false
  notBox : tcx.isBox did = false
  notSet : tcx.stdItems.defToItemOpt did ≠ some .setType

/-- The ADTs that a type uses in the definition `d`. -/
inductive TyUses (tcx : Tcx) (d : DefId) : Ty → DefId → Prop
  | adt {did substs} : IsPlainAdt tcx did → TyUses tcx d (.adt did substs) did
  | adtArg {did substs ty e} : IsPlainAdt tcx did → ty ∈ substs → TyUses tcx d ty e →
      TyUses tcx d (.adt did substs) e
  | boxArg {did ty substs e} : tcx.isBigint did = false → tcx.isBox did = true →
      TyUses tcx d ty e → TyUses tcx d (.adt did (ty :: substs)) e
  | setArg {did ty substs e} : tcx.isBigint did = false → tcx.isBox did = false →
      tcx.stdItems.defToItemOpt did = some .setType →
      TyUses tcx d ty e → TyUses tcx d (.adt did (ty :: substs)) e
  | tuple {tys ty e} : tys.length ≠ 1 → ty ∈ tys → TyUses tcx d ty e → TyUses tcx d (.tuple tys) e
  | ref {ty e} : TyUses tcx d ty e → TyUses tcx d (.ref ty .not) e
  | boundArg {index tys ty e} : (index, tys) ∈ funParamsOf tcx (tcx.predicatesOf d) → ty ∈ tys →
      TyUses tcx d ty e → TyUses tcx d (.param index) e
  | boundReturn {index tys ty e} : (index, tys) ∈ funParamsOf tcx (tcx.predicatesOf d) →
      (funReturnsOf tcx (tcx.predicatesOf d)).get? index = some ty →
      TyUses tcx d ty e → TyUses tcx d (.param index) e

/-- The reference to the sort of an ADT, if the ADT has an id. -/
def sortRef (ids : DefId → Option SymbolIdentifier) (e : DefId) : Option Ref :=
  (ids e).map fun id => .sort id.globalId

/-! ## Type parameters -/

section Params

variable {ids : DefId → Option SymbolIdentifier} {txtcx : TyExtractionCtxt} {index : Nat}
  {p : TyParam}

/-- A type parameter of the context is extracted as one, or replaced. -/
theorem GenericsImage.param (h : GenericsImage tcx ids d txtcx)
    (hp : txtcx.indexToTparam.get? index = some p) :
    (∃ tp, p = .extracted tp) ∨ ∃ tys, (index, tys) ∈ funParamsOf tcx (tcx.predicatesOf d) ∧
      HofImage tcx ids txtcx.indexToTparam.get? (funReturnsOf tcx (tcx.predicatesOf d))
        (index, tys) (index, p) := by
  obtain ⟨plain, hofs, hentries, hplain, hhofs⟩ := h.entries
  have hmem := Assoc.mem_of_get? hp
  rw [hentries] at hmem
  rcases List.mem_append.mp hmem with hmem | hmem
  · obtain ⟨q, -, -, id, -, hq⟩ := forall₂_mem_right hplain hmem
    exact .inl ⟨_, hq⟩
  · obtain ⟨⟨i, tys⟩, hf, himg⟩ := forall₂_mem_right hhofs hmem
    obtain rfl : index = i := himg.1
    exact .inr ⟨tys, tcx.iterOrder.mem_iter.mp hf, himg⟩

/-- A parameter with an `Fn`-like bound is replaced by the function type of the bound. -/
theorem GenericsImage.replaced (h : GenericsImage tcx ids d txtcx) {tys : List Ty}
    (hf : (index, tys) ∈ funParamsOf tcx (tcx.predicatesOf d))
    (hp : txtcx.indexToTparam.get? index = some p) :
    ∃ tpes returnTy tpe, tysImage tcx ids txtcx.indexToTparam.get? tys = some tpes ∧
      (funReturnsOf tcx (tcx.predicatesOf d)).get? index = some returnTy ∧
      tyImage tcx ids txtcx.indexToTparam.get? returnTy = some tpe ∧
      p = .replaced (.functionType tpes tpe) := by
  obtain ⟨plain, hofs, hentries, hplain, hhofs⟩ := h.entries
  obtain ⟨⟨i, q⟩, hmem, hi, tpes, returnTy, tpe, h1, h2, h3, hq⟩ :=
    forall₂_mem_left hhofs (tcx.iterOrder.mem_iter.mpr hf)
  obtain rfl : i = index := hi
  have hget : txtcx.indexToTparam.get? i = some q := by
    refine Assoc.get?_of_mem h.nodup ?_
    rw [hentries]
    exact List.mem_append_right _ hmem
  obtain rfl : q = p := Option.some.inj (hget.symm.trans hp)
  exact ⟨tpes, returnTy, tpe, h1, h2, h3, hq⟩

end Params

/-! ## The sorts in an image -/

-- The recursion over lists needs the context too, for the recursion over types.
section Image

variable {ids : DefId → Option SymbolIdentifier} {txtcx : TyExtractionCtxt}
  {tps : Nat → Option TyParam} {t : Tpe} {r : Ref}

theorem tysImage_forall₂ {tys : List Ty} {ts : List Tpe} (h : tysImage tcx ids tps tys = some ts) :
    List.Forall₂ (fun ty t => tyImage tcx ids tps ty = some t) tys ts := by
  induction tys generalizing ts with
  | nil =>
    obtain rfl := Option.some.inj h
    exact .nil
  | cons ty tys ih =>
    simp only [tysImage] at h
    cases hx : tyImage tcx ids tps ty with
    | none => simp [hx] at h
    | some u =>
      cases hy : tysImage tcx ids tps tys with
      | none => simp [hx, hy] at h
      | some us =>
        rw [hx, hy] at h
        obtain rfl := Option.some.inj h
        exact .cons hx (ih hy)

/-- The image of a type with a single argument that is looked at. -/
theorem tyImageAt0_some {tys : List Ty} (h : tyImageAt0 tcx ids tps tys = some t) :
    ∃ ty rest, tys = ty :: rest ∧ tyImage tcx ids tps ty = some t := by
  cases tys with
  | nil => simp [tyImageAt0] at h
  | cons ty rest => exact ⟨ty, rest, rfl, h⟩

/-- The image of an ADT: one case for each kind that the extraction tells apart. -/
theorem tyImage_adt {did : DefId} {substs : List Ty}
    (h : tyImage tcx ids tps (.adt did substs) = some t) :
    (tcx.isBigint did = true ∧ t = .integerType) ∨
    (tcx.isBigint did = false ∧ tcx.isBox did = true ∧ tyImageAt0 tcx ids tps substs = some t) ∨
    (tcx.isBigint did = false ∧ tcx.isBox did = false ∧
      tcx.stdItems.defToItemOpt did = some .setType ∧
      ∃ u, tyImageAt0 tcx ids tps substs = some u ∧ t = .setType u) ∨
    (IsPlainAdt tcx did ∧ ∃ id us, ids did = some id ∧ tysImage tcx ids tps substs = some us ∧
      t = .adtType id us) := by
  simp only [tyImage] at h
  split at h
  · next hbig => exact .inl ⟨hbig, (Option.some.inj h).symm⟩
  · next hbig =>
    have hbig : tcx.isBigint did = false := by simpa using hbig
    split at h
    · next hbox => exact .inr (.inl ⟨hbig, hbox, h⟩)
    · next hbox =>
      have hbox : tcx.isBox did = false := by simpa using hbox
      split at h
      · next hset =>
        obtain ⟨u, hu, rfl⟩ := Option.map_eq_some_iff.mp h
        exact .inr (.inr (.inl ⟨hbig, hbox, hset, u, hu, rfl⟩))
      · next hset =>
        cases hid : ids did with
        | none => simp [hid] at h
        | some id =>
          cases hus : tysImage tcx ids tps substs with
          | none => simp [hid, hus] at h
          | some us =>
            rw [hid, hus] at h
            exact .inr (.inr (.inr ⟨⟨hbig, hbox, hset⟩, id, us, rfl, rfl,
              (Option.some.inj h).symm⟩))

theorem IsPlainAdt.image {did : DefId} (hplain : IsPlainAdt tcx did) {substs : List Ty}
    (h : tyImage tcx ids tps (.adt did substs) = some t) :
    ∃ id us, ids did = some id ∧ tysImage tcx ids tps substs = some us ∧ t = .adtType id us := by
  rcases tyImage_adt h with ⟨hbig, -⟩ | ⟨-, hbox, -⟩ | ⟨-, -, hset, -⟩ | ⟨-, himg⟩
  · simp [hplain.notBigint] at hbig
  · simp [hplain.notBox] at hbox
  · exact absurd hset hplain.notSet
  · exact himg

theorem tyImage_tuple {tys : List Ty} (h : tyImage tcx ids tps (.tuple tys) = some t) :
    (tys.length = 1 ∧ t = .untyped) ∨ (tys = [] ∧ t = .unitType) ∨
    ∃ ts, tys.length ≠ 1 ∧ tysImage tcx ids tps tys = some ts ∧ t = .tupleType ts := by
  simp only [tyImage] at h
  cases hts : tysImage tcx ids tps tys with
  | none => simp [hts] at h
  | some ts =>
    rw [hts] at h
    have hlength := (tysImage_forall₂ hts).length_eq
    cases ts with
    | nil => exact .inr (.inl ⟨List.length_eq_zero_iff.mp hlength, (Option.some.inj h).symm⟩)
    | cons u ts =>
      cases ts with
      | nil => exact .inl ⟨hlength, (Option.some.inj h).symm⟩
      | cons v ts =>
        refine .inr (.inr ⟨u :: v :: ts, ?_, rfl, (Option.some.inj h).symm⟩)
        simp only [hlength, List.length_cons]
        omega

/-- The parameters are looked up in the context of the definition. -/
def ParamsOf (txtcx : TyExtractionCtxt) (tps : Nat → Option TyParam) : Prop :=
  ∀ index p, tps index = some p → txtcx.indexToTparam.get? index = some p

variable (hgen : GenericsImage tcx ids d txtcx)

include hgen

omit hgen in
mutual

/-- A sort in the image is that of an ADT that the type uses. The recursion is on the image first: a
parameter is replaced by the image of its bound, which stands nowhere in the type. -/
theorem uses_of_mem_refs (hgen : GenericsImage tcx ids d txtcx)
    {tps : Nat → Option TyParam} (htps : ParamsOf txtcx tps) :
    ∀ (ty : Ty) (t : Tpe), tyImage tcx ids tps ty = some t → r ∈ t.refs →
      ∃ e, TyUses tcx d ty e ∧ sortRef ids e = some r
  | .tuple tys, t, h, hr => by
    rcases tyImage_tuple h with ⟨-, rfl⟩ | ⟨-, rfl⟩ | ⟨ts, hlength, hts, rfl⟩
    · simp [Tpe.refs] at hr
    · simp [Tpe.refs] at hr
    · obtain ⟨ty, hty, e, he, hid⟩ := uses_of_mem_listRefs hgen htps tys ts hts hr
      exact ⟨e, .tuple hlength hty he, hid⟩
  | .adt did substs, t, h, hr => by
    rcases tyImage_adt h with ⟨-, rfl⟩ | ⟨hbig, hbox, h⟩ | ⟨hbig, hbox, hset, u, hu, rfl⟩ |
      ⟨hplain, id, us, hid, hus, rfl⟩
    · simp [Tpe.refs] at hr
    · obtain ⟨ty, rest, rfl, h⟩ := tyImageAt0_some h
      obtain ⟨e, he, hid⟩ := uses_of_mem_refs hgen htps ty t h hr
      exact ⟨e, .boxArg hbig hbox he, hid⟩
    · obtain ⟨ty, rest, rfl, hu⟩ := tyImageAt0_some hu
      obtain ⟨e, he, hid⟩ := uses_of_mem_refs hgen htps ty u hu hr
      exact ⟨e, .setArg hbig hbox hset he, hid⟩
    · rcases List.mem_cons.mp hr with rfl | hr
      · exact ⟨did, .adt hplain, by rw [sortRef, hid]; rfl⟩
      · obtain ⟨ty, hty, e, he, hid⟩ := uses_of_mem_listRefs hgen htps substs us hus hr
        exact ⟨e, .adtArg hplain hty he, hid⟩
  | .ref ty .not, t, h, hr => by
    simp only [tyImage] at h
    obtain ⟨e, he, hid⟩ := uses_of_mem_refs hgen htps ty t h hr
    exact ⟨e, .ref he, hid⟩
  | .param index, t, h, hr => by
    simp only [tyImage] at h
    obtain ⟨p, hp, rfl⟩ := Option.map_eq_some_iff.mp h
    rcases hgen.param (htps index p hp) with ⟨tp, rfl⟩ | ⟨tys, hf, -, tpes, returnTy, tpe, h1, h2,
      h3, hq⟩
    · simp [TyParam.toTpe, Tpe.refs] at hr
    · obtain rfl : p = .replaced (.functionType tpes tpe) := hq
      have hself : ParamsOf txtcx txtcx.indexToTparam.get? := fun _ _ hp => hp
      have hparams : sizeOf tpes < sizeOf (TyParam.replaced (.functionType tpes tpe)).toTpe := by
        rw [TyParam.toTpe, Tpe.functionType.sizeOf_spec]
        omega
      have hresult : sizeOf tpe < sizeOf (TyParam.replaced (.functionType tpes tpe)).toTpe := by
        rw [TyParam.toTpe, Tpe.functionType.sizeOf_spec]
        omega
      rcases List.mem_append.mp hr with hr | hr
      · obtain ⟨ty, hty, e, he, hid⟩ := uses_of_mem_listRefs hgen hself tys tpes h1 hr
        exact ⟨e, .boundArg hf hty he, hid⟩
      · obtain ⟨e, he, hid⟩ := uses_of_mem_refs hgen hself returnTy tpe h3 hr
        exact ⟨e, .boundReturn hf h2 he, hid⟩
  | .int w, t, h, hr | .uint w, t, h, hr => by
    simp only [tyImage, Option.some.injEq] at h
    subst h
    cases hw : w.bitWidth <;> simp [hw, Tpe.refs] at hr
  | .bool, t, h, hr | .ref _ .mut, t, h, hr | .char, t, h, hr | .str, t, h, hr | .never, t, h, hr
  | .fnDef _ _, t, h, hr | .closure _ _, t, h, hr | .other _, t, h, hr => by
    simp only [tyImage, Option.some.injEq] at h
    subst h
    simp [Tpe.refs] at hr
termination_by ty t => (sizeOf t, sizeOf ty)

theorem uses_of_mem_listRefs (hgen : GenericsImage tcx ids d txtcx)
    {tps : Nat → Option TyParam} (htps : ParamsOf txtcx tps) :
    ∀ (tys : List Ty) (ts : List Tpe), tysImage tcx ids tps tys = some ts → r ∈ Tpe.listRefs ts →
      ∃ ty ∈ tys, ∃ e, TyUses tcx d ty e ∧ sortRef ids e = some r
  | [], ts, h, hr => by
    obtain rfl := Option.some.inj h
    simp [Tpe.listRefs] at hr
  | ty :: tys, ts, h, hr => by
    simp only [tysImage] at h
    cases hx : tyImage tcx ids tps ty with
    | none => simp [hx] at h
    | some u =>
      cases hy : tysImage tcx ids tps tys with
      | none => simp [hx, hy] at h
      | some us =>
        rw [hx, hy] at h
        have hts : ts = u :: us := (Option.some.inj h).symm
        have hhead : sizeOf u < sizeOf ts := by
          rw [hts, List.cons.sizeOf_spec]
          omega
        have htail : sizeOf us < sizeOf ts := by
          rw [hts, List.cons.sizeOf_spec]
          omega
        rw [hts] at hr
        rcases List.mem_append.mp hr with hr | hr
        · exact ⟨ty, List.mem_cons_self, uses_of_mem_refs hgen htps ty u hx hr⟩
        · obtain ⟨ty', hty', he⟩ := uses_of_mem_listRefs hgen htps tys us hy hr
          exact ⟨ty', List.mem_cons_of_mem _ hty', he⟩
termination_by tys ts => (sizeOf ts, sizeOf tys)

end

/-- The other way round: whatever a type uses has its sort in the image. -/
theorem TyUses.mem_refs {ty : Ty} {e : DefId} (h : TyUses tcx d ty e) :
    ∀ {tps : Nat → Option TyParam} {t : Tpe}, ParamsOf txtcx tps →
      tyImage tcx ids tps ty = some t → ∃ r ∈ t.refs, sortRef ids e = some r := by
  induction h with
  | @adt did substs hplain =>
    intro tps t htps h
    obtain ⟨id, us, hid, -, rfl⟩ := hplain.image h
    exact ⟨.sort id.globalId, List.mem_cons_self, by rw [sortRef, hid]; rfl⟩
  | adtArg hplain hty _ ih =>
    intro tps t htps h
    obtain ⟨id, us, -, hus, rfl⟩ := hplain.image h
    obtain ⟨u, hu, himg⟩ := forall₂_mem_left (tysImage_forall₂ hus) hty
    obtain ⟨r, hr, hid⟩ := ih htps himg
    exact ⟨r, List.mem_cons_of_mem _ (Tpe.mem_listRefs.mpr ⟨u, hu, hr⟩), hid⟩
  | boxArg hbig hbox _ ih =>
    intro tps t htps h
    rw [tyImage, if_neg (by simp [hbig]), if_pos hbox] at h
    exact ih htps h
  | setArg hbig hbox hset _ ih =>
    intro tps t htps h
    rw [tyImage, if_neg (by simp [hbig]), if_neg (by simp [hbox]), if_pos hset] at h
    obtain ⟨u, hu, rfl⟩ := Option.map_eq_some_iff.mp h
    obtain ⟨r, hr, hid⟩ := ih htps hu
    exact ⟨r, hr, hid⟩
  | tuple hlength hty _ ih =>
    intro tps t htps h
    rcases tyImage_tuple h with ⟨hone, -⟩ | ⟨rfl, -⟩ | ⟨ts, -, hts, rfl⟩
    · exact absurd hone hlength
    · cases hty
    · obtain ⟨u, hu, himg⟩ := forall₂_mem_left (tysImage_forall₂ hts) hty
      obtain ⟨r, hr, hid⟩ := ih htps himg
      exact ⟨r, Tpe.mem_listRefs.mpr ⟨u, hu, hr⟩, hid⟩
  | ref _ ih =>
    intro tps t htps h
    simp only [tyImage] at h
    exact ih htps h
  | boundArg hf hty _ ih =>
    intro tps t htps h
    simp only [tyImage] at h
    obtain ⟨p, hp, rfl⟩ := Option.map_eq_some_iff.mp h
    obtain ⟨tpes, returnTy, tpe, h1, -, -, rfl⟩ := hgen.replaced hf (htps _ _ hp)
    obtain ⟨u, hu, himg⟩ := forall₂_mem_left (tysImage_forall₂ h1) hty
    obtain ⟨r, hr, hid⟩ := ih (fun _ _ hp => hp) himg
    exact ⟨r, List.mem_append_left _ (Tpe.mem_listRefs.mpr ⟨u, hu, hr⟩), hid⟩
  | boundReturn hf hreturn _ ih =>
    intro tps t htps h
    simp only [tyImage] at h
    obtain ⟨p, hp, rfl⟩ := Option.map_eq_some_iff.mp h
    obtain ⟨tpes, returnTy, tpe, -, h2, h3, rfl⟩ := hgen.replaced hf (htps _ _ hp)
    obtain rfl := Option.some.inj (h2.symm.trans hreturn)
    obtain ⟨r, hr, hid⟩ := ih (fun _ _ hp => hp) h3
    exact ⟨r, List.mem_append_right _ hr, hid⟩

/-- **The sorts in the image of a type are those of the ADTs that it uses.** -/
theorem tyImage_refs (htps : ParamsOf txtcx tps) {ty : Ty} (h : tyImage tcx ids tps ty = some t)
    (o : Option Ref) : (∃ r ∈ t.refs, o = some r) ↔ ∃ e, TyUses tcx d ty e ∧ o = sortRef ids e := by
  constructor
  · rintro ⟨r, hr, rfl⟩
    obtain ⟨e, he, hid⟩ := uses_of_mem_refs hgen htps ty t h hr
    exact ⟨e, he, hid.symm⟩
  · rintro ⟨e, he, rfl⟩
    obtain ⟨r, hr, hid⟩ := he.mem_refs hgen htps h
    exact ⟨r, hr, hid⟩

end Image

end Stainless
