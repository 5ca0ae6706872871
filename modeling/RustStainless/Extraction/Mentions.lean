import Mathlib.Data.Set.Basic
import Mathlib.Logic.Relation
import RustStainless.Extraction.Adt

/-!
# What the extraction of a type looks at

For a type: the ADTs whose ids it asks for, the type parameters it looks up, and its image once all
ids are known. For a definition: the bounds that turn a type parameter into a function type, and
the ADTs that extracting it asks for. All of it is read off the definitions, without a state.
-/

namespace Stainless

open Rustc St Lib

/-! ## Types -/

section Ty

variable (tcx : Tcx)

mutual

/-- The ADTs whose ids the extraction of a type asks for. -/
def tyAdts : Ty → List DefId
  | .tuple tys => tysAdts tys
  | .adt did substs =>
    if tcx.isBigint did then []
    else if tcx.isBox did then tyAdtsAt0 substs
    else if tcx.stdItems.defToItemOpt did = some .setType then tyAdtsAt0 substs
    else did :: tysAdts substs
  | .ref ty .not => tyAdts ty
  | .ref _ .mut | .bool | .int _ | .uint _ | .param _ | .char | .str | .never | .fnDef _ _
  | .closure _ _ | .other _ => []

def tysAdts : List Ty → List DefId
  | [] => []
  | ty :: tys => tyAdts ty ++ tysAdts tys

def tyAdtsAt0 : List Ty → List DefId
  | [] => []
  | ty :: _ => tyAdts ty

end

mutual

/-- The type parameters that the extraction of a type looks up. -/
def tyParams : Ty → List Nat
  | .tuple tys => tysParams tys
  | .adt did substs =>
    if tcx.isBigint did then []
    else if tcx.isBox did then tyParamsAt0 substs
    else if tcx.stdItems.defToItemOpt did = some .setType then tyParamsAt0 substs
    else tysParams substs
  | .ref ty .not => tyParams ty
  | .param index => [index]
  | .ref _ .mut | .bool | .int _ | .uint _ | .char | .str | .never | .fnDef _ _
  | .closure _ _ | .other _ => []

def tysParams : List Ty → List Nat
  | [] => []
  | ty :: tys => tyParams ty ++ tysParams tys

def tyParamsAt0 : List Ty → List Nat
  | [] => []
  | ty :: _ => tyParams ty

end

mutual

/-- Every box and every set that the extraction of a type meets has its argument. -/
def TyApplied : Ty → Prop
  | .tuple tys => TysApplied tys
  | .adt did substs =>
    if tcx.isBigint did then True
    else if tcx.isBox did then TyAppliedAt0 substs
    else if tcx.stdItems.defToItemOpt did = some .setType then TyAppliedAt0 substs
    else TysApplied substs
  | .ref ty .not => TyApplied ty
  | .ref _ .mut | .bool | .int _ | .uint _ | .param _ | .char | .str | .never | .fnDef _ _
  | .closure _ _ | .other _ => True

def TysApplied : List Ty → Prop
  | [] => True
  | ty :: tys => TyApplied ty ∧ TysApplied tys

def TyAppliedAt0 : List Ty → Prop
  | [] => False
  | ty :: _ => TyApplied ty

end

variable (ids : DefId → Option SymbolIdentifier) (tparams : Nat → Option TyParam)

mutual

/-- What a type is extracted to when the ADTs have the given ids. -/
def tyImage : Ty → Option Tpe
  | .bool => some .booleanType
  | .int t => some (match t.bitWidth with | some size => .bvType true size | none => .untyped)
  | .uint t => some (match t.bitWidth with | some size => .bvType false size | none => .untyped)
  | .tuple tys =>
    match tysImage tys with
    | none => none
    | some [] => some .unitType
    | some [_] => some .untyped
    | some tpes => some (.tupleType tpes)
  | .adt did substs =>
    if tcx.isBigint did then some .integerType
    else if tcx.isBox did then tyImageAt0 substs
    else if tcx.stdItems.defToItemOpt did = some .setType then (tyImageAt0 substs).map .setType
    else
      match ids did, tysImage substs with
      | some id, some tps => some (.adtType id tps)
      | _, _ => none
  | .ref ty .not => tyImage ty
  | .param index => (tparams index).map TyParam.toTpe
  | .ref _ .mut | .char | .str | .never | .fnDef _ _ | .closure _ _ | .other _ => some .untyped

def tysImage : List Ty → Option (List Tpe)
  | [] => some []
  | ty :: tys =>
    match tyImage ty, tysImage tys with
    | some tpe, some tpes => some (tpe :: tpes)
    | _, _ => none

def tyImageAt0 : List Ty → Option Tpe
  | [] => none
  | ty :: _ => tyImage ty

end

end Ty

/-! ## Generics -/

section Generics

variable (tcx : Tcx)

/-- The argument types of the `Fn`-like bounds, by the parameter they bound. -/
def funParamsOf : List Predicate → Assoc Nat (List Ty)
  | [] => []
  | .trait did (.param index) paramTys :: rest =>
    if tcx.shouldSilentlyIgnoreTrait did then funParamsOf rest
    else if tcx.isFnLikeTrait did then (index, paramTys) :: funParamsOf rest
    else funParamsOf rest
  | _ :: rest => funParamsOf rest

/-- The return types of the `Fn`-like bounds, by the parameter they bound. -/
def funReturnsOf : List Predicate → Assoc Nat Ty
  | [] => []
  | .projection did (.param index) ty :: rest =>
    if tcx.isFnLikeTrait did then (index, ty) :: funReturnsOf rest
    else funReturnsOf rest
  | _ :: rest => funReturnsOf rest

/-- Is the type parameter replaced by a function type? -/
def isFunParam (d : DefId) (index : Nat) : Bool :=
  (funParamsOf tcx (tcx.predicatesOf d)).contains index

/-- The parameters that stay type parameters. -/
def plainParamsOf (d : DefId) : List GenericParamDef :=
  (allGenericParamsOf tcx d).filter fun p => p.kind = .type && !isFunParam tcx d p.index

/--
Replacing the parameters in the given order never looks up a parameter that is not there yet:
`known` are those that are.
-/
def HofOrderOk (known : List Nat) : Assoc Nat (List Ty) → Assoc Nat Ty → Prop
  | [], _ => True
  | (index, paramTys) :: rest, returns =>
    (∀ i ∈ tysParams tcx paramTys, i ∈ known) ∧
    (∃ returnTy, returns.get? index = some returnTy ∧ ∀ i ∈ tyParams tcx returnTy, i ∈ known) ∧
    index ∉ known ∧
    HofOrderOk (index :: known) rest (returns.remove index)

/-- None of the assertions and lookups of `extract_generics` fails on the definition. -/
structure GenericsOk (d : DefId) : Prop where
  params_nodup : (funParamsOf tcx (tcx.predicatesOf d)).keys.Nodup
  returns_nodup : (funReturnsOf tcx (tcx.predicatesOf d)).keys.Nodup
  order : HofOrderOk tcx ((plainParamsOf tcx d).map (·.index))
    (tcx.iterOrder.iter (.tparamToFunParams d) (funParamsOf tcx (tcx.predicatesOf d)))
    (funReturnsOf tcx (tcx.predicatesOf d))

/-- The ADTs that the `Fn`-like bounds of a definition mention. -/
def genericsAdts (d : DefId) : Set DefId :=
  {e | ∃ p ∈ funParamsOf tcx (tcx.predicatesOf d), e ∈ tysAdts tcx p.2 ∨
    ∃ ty, (funReturnsOf tcx (tcx.predicatesOf d)).get? p.1 = some ty ∧ e ∈ tyAdts tcx ty}

end Generics

/-! ## The reference graph of the ADTs -/

section Graph

variable (tcx : Tcx)

/-- The ADT `d` mentions the ADT `e`, in a field type or in a bound. -/
def AdtMentions (d e : DefId) : Prop :=
  ∃ a, tcx.adtDef d = some a ∧
    (e ∈ genericsAdts tcx d ∨ ∃ v ∈ a.variants, ∃ f ∈ v.fields, e ∈ tyAdts tcx f.ty)

/-- The ADT `e` is reached from `d` through field types and bounds. -/
def Reaches (d e : DefId) : Prop := Relation.ReflTransGen (AdtMentions tcx) d e

end Graph

/-! ## What rustc guarantees -/

/-- The facts about the definitions of a crate and its dependencies that rustc enforces. -/
structure TcxOk (tcx : Tcx) : Prop where
  adt_kind : ∀ a ∈ tcx.adtDefs, tcx.defKind a.did = .adt
  variant_kind : ∀ a ∈ tcx.adtDefs, ∀ v ∈ a.variants,
    v.defId = a.did ∨ tcx.defKind v.defId = .variant
  field_kind : ∀ a ∈ tcx.adtDefs, ∀ v ∈ a.variants, ∀ f ∈ v.fields, tcx.defKind f.did = .field
  tparam_kind : ∀ d, tcx.isClosure d = false → ∀ p ∈ allGenericParamsOf tcx d, p.kind = .type →
    tcx.defKind p.defId = .tyParam
  tparam_index : ∀ d, ((allGenericParamsOf tcx d).map (·.index)).Nodup
  tparam_inj : ∀ d, tcx.isClosure d = false → ((allGenericParamsOf tcx d).map (·.defId)).Nodup
  adt_not_closure : ∀ a ∈ tcx.adtDefs, tcx.isClosure a.did = false
  mentions_adt : ∀ d e, AdtMentions tcx d e → ∃ a, tcx.adtDef e = some a
  field_params : ∀ a ∈ tcx.adtDefs, ∀ v ∈ a.variants, ∀ f ∈ v.fields, ∀ i ∈ tyParams tcx f.ty,
    ∃ p ∈ allGenericParamsOf tcx a.did, p.index = i ∧ p.kind = .type
  field_applied : ∀ a ∈ tcx.adtDefs, ∀ v ∈ a.variants, ∀ f ∈ v.fields, TyApplied tcx f.ty
  params_applied : ∀ d, ∀ p ∈ funParamsOf tcx (tcx.predicatesOf d), TysApplied tcx p.2
  returns_applied : ∀ d, ∀ p ∈ funReturnsOf tcx (tcx.predicatesOf d), TyApplied tcx p.2

/-- Little is left to guarantee without generic parameters, bounds and fields. -/
theorem TcxOk.of_noFields {tcx : Tcx} (hclosure : ∀ d, tcx.isClosure d = false)
    (hgenerics : ∀ d, allGenericParamsOf tcx d = []) (hbounds : ∀ d, tcx.predicatesOf d = [])
    (hadts : ∀ a ∈ tcx.adtDefs, tcx.defKind a.did = .adt ∧ ∀ v ∈ a.variants,
      v.fields = [] ∧ (v.defId = a.did ∨ tcx.defKind v.defId = .variant)) : TcxOk tcx := by
  have hfields : ∀ a ∈ tcx.adtDefs, ∀ v ∈ a.variants, ∀ f ∈ v.fields, False := by
    intro a ha v hv f hf
    rw [((hadts a ha).2 v hv).1] at hf
    cases hf
  exact
    { adt_kind := fun a ha => (hadts a ha).1
      variant_kind := fun a ha v hv => ((hadts a ha).2 v hv).2
      field_kind := fun a ha v hv f hf => (hfields a ha v hv f hf).elim
      tparam_kind := fun d => by simp [hgenerics d]
      tparam_index := fun d => by simp [hgenerics d]
      tparam_inj := fun d => by simp [hgenerics d]
      adt_not_closure := fun a _ => hclosure a.did
      mentions_adt := by
        rintro d e ⟨a, ha, hbound | ⟨v, hv, f, hf, -⟩⟩
        · simp [genericsAdts, hbounds, funParamsOf] at hbound
        · exact (hfields a (Tcx.adtDef_mem ha) v hv f hf).elim
      field_params := fun a ha v hv f hf => (hfields a ha v hv f hf).elim
      field_applied := fun a ha v hv f hf => (hfields a ha v hv f hf).elim
      params_applied := fun d => by simp [hbounds d, funParamsOf]
      returns_applied := fun d => by simp [hbounds d, funReturnsOf] }

end Stainless
