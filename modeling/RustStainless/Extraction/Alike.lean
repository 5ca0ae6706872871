import RustStainless.Lib.MonadRel
import RustStainless.Extraction.Adt

/-!
# Extractions that are alike

The extraction of types and generics and that of an ADT differ only in what gives the id of an ADT.
So any relation that programs and the operations below keep holds between two of them as soon as it
holds between the two ways to get an id.
-/

namespace Stainless

open Rustc St Lib

variable {tcx : Tcx} {R : MonadRel (Run Panic Extraction) (Run Panic Extraction)}

/-- The operations that the extraction of types and ADTs calls keep the relation. -/
structure KeepsRel (tcx : Tcx) (R : MonadRel (Run Panic Extraction) (Run Panic Extraction)) :
    Prop where
  report : ∀ m, R.rel (report m) (report m)
  getOrRegisterDef : ∀ d, R.rel (getOrRegisterDef tcx d) (getOrRegisterDef tcx d)
  panic : ∀ {α : Type} (e : Panic), e ≠ .tooDeep →
    R.rel (Run.panic e : Xtor α) (Run.panic e)

section

variable (h : KeepsRel tcx R)

include h

theorem unsupported_rel (msg : String) : R.rel (unsupported msg) (unsupported msg) :=
  h.report _

theorem spanWarn_rel (msg : String) : R.rel (spanWarn msg) (spanWarn msg) := h.report _

/-! ## Flags -/

theorem extractFlagArgs_rel (flag : Flag) : ∀ (ts : List Hir.TokenTree) (fs : ItemFlags),
    R.rel (extractFlagArgs flag ts fs) (extractFlagArgs flag ts fs)
  | [], _ => R.pure _
  | .token .comma :: rest, fs => extractFlagArgs_rel flag rest fs
  | .token (.ident _) :: rest, _ => extractFlagArgs_rel flag rest _
  | .token (.litInteger _) :: rest, _ => extractFlagArgs_rel flag rest _
  | .token .other :: _, _ | .delimited :: _, _ => R.bind (spanWarn_rel h _) fun _ => R.pure _

theorem extractFlagsFrom_rel : ∀ (attrs : List Hir.Attribute) (fs : ItemFlags),
    R.rel (extractFlagsFrom attrs fs) (extractFlagsFrom attrs fs)
  | [], fs => R.pure fs
  | .docComment :: rest, fs => extractFlagsFrom_rel rest fs
  | .normal segments args :: rest, fs => by
    rw [extractFlagsFrom]
    cases extractFlagOf segments with
    | none => exact extractFlagsFrom_rel rest fs
    | some name =>
      dsimp only
      cases flagFromName name with
      | none => exact R.bind (spanWarn_rel h _) fun _ => extractFlagsFrom_rel rest fs
      | some flag =>
        cases args with
        | empty => exact extractFlagsFrom_rel rest _
        | delimited tokens =>
          exact R.bind (extractFlagArgs_rel h flag tokens fs) fun _ => extractFlagsFrom_rel rest _
        | eq => exact R.bind (spanWarn_rel h _) fun _ => extractFlagsFrom_rel rest fs

theorem extractFlags_rel (d : DefId) : R.rel (extractFlags tcx d) (extractFlags tcx d) :=
  extractFlagsFrom_rel h _ _

theorem reportUnusedFlags_rel (d : DefId) (bySymbol : Assoc String Flags) :
    R.rel (reportUnusedFlags tcx d bySymbol) (reportUnusedFlags tcx d bySymbol) := by
  unfold reportUnusedFlags
  split
  · exact R.pure _
  · exact spanWarn_rel h _

end

/-! ## Types -/

section

variable {adtId adtId' : DefId → Xtor SymbolIdentifier} (txtcx : TyExtractionCtxt)

mutual

theorem extractTyWith_rel (h : KeepsRel tcx R) (hadt : ∀ d, R.rel (adtId d) (adtId' d)) :
    ∀ ty : Ty, R.rel (extractTyWith tcx adtId txtcx ty) (extractTyWith tcx adtId' txtcx ty)
  | .bool => by
    rw [extractTyWith, extractTyWith]
    exact R.pure _
  | .int t => by
    rw [extractTyWith, extractTyWith]
    split
    · exact R.pure _
    · exact R.bind (unsupported_rel h _) fun _ => R.pure _
  | .uint t => by
    rw [extractTyWith, extractTyWith]
    split
    · exact R.pure _
    · exact R.bind (unsupported_rel h _) fun _ => R.pure _
  | .tuple tys => by
    rw [extractTyWith, extractTyWith]
    refine R.bind (extractTysWith_rel h hadt tys) fun tpes => ?_
    split
    · exact R.pure _
    · exact R.bind (unsupported_rel h _) fun _ => R.pure _
    · exact R.pure _
  | .adt did substs => by
    rw [extractTyWith, extractTyWith]
    refine R.ite (fun _ => R.pure _) fun _ => ?_
    refine R.ite (fun _ => extractTyAt0_rel h hadt substs) fun _ => ?_
    refine R.ite (fun _ => R.bind (extractTyAt0_rel h hadt substs) fun _ => R.pure _) fun _ => ?_
    exact R.bind (hadt did) fun _ => R.bind (extractTysWith_rel h hadt substs) fun _ => R.pure _
  | .ref ty .not => by
    rw [extractTyWith, extractTyWith]
    exact extractTyWith_rel h hadt ty
  | .param index => by
    rw [extractTyWith, extractTyWith]
    split
    · exact R.pure _
    · exact h.panic _ (by decide)
  | .ref _ .mut | .char | .str | .never | .fnDef _ _ | .closure _ _ | .other _ => by
    rw [extractTyWith, extractTyWith]
    exact R.bind (unsupported_rel h _) fun _ => R.pure _

theorem extractTysWith_rel (h : KeepsRel tcx R) (hadt : ∀ d, R.rel (adtId d) (adtId' d)) :
    ∀ tys : List Ty, R.rel (extractTysWith tcx adtId txtcx tys)
      (extractTysWith tcx adtId' txtcx tys)
  | [] => by
    rw [extractTysWith, extractTysWith]
    exact R.pure _
  | ty :: tys => by
    rw [extractTysWith, extractTysWith]
    exact R.bind (extractTyWith_rel h hadt ty) fun _ =>
      R.bind (extractTysWith_rel h hadt tys) fun _ => R.pure _

theorem extractTyAt0_rel (h : KeepsRel tcx R) (hadt : ∀ d, R.rel (adtId d) (adtId' d)) :
    ∀ tys : List Ty, R.rel (extractTyAt0 tcx adtId txtcx tys) (extractTyAt0 tcx adtId' txtcx tys)
  | [] => by
    rw [extractTyAt0, extractTyAt0]
    exact h.panic _ (by decide)
  | ty :: _ => by
    rw [extractTyAt0, extractTyAt0]
    exact extractTyWith_rel h hadt ty

end

end

/-! ## Generics -/

section

variable (h : KeepsRel tcx R)

include h

theorem scanPredicates_rel (ps : List Predicate) :
    ∀ b : FunBounds, R.rel (scanPredicates tcx ps b) (scanPredicates tcx ps b) := by
  induction ps with
  | nil => exact fun b => R.pure b
  | cons p ps ih =>
    intro b
    have hskip : ∀ msg, R.rel
        (do spanWarn msg; scanPredicates tcx ps b)
        (do spanWarn msg; scanPredicates tcx ps b) :=
      fun msg => R.bind (spanWarn_rel h msg) fun _ => ih b
    cases p with
    | trait did selfTy paramTys =>
      cases selfTy with
      | param index =>
        simp only [scanPredicates]
        refine R.ite (fun _ => ih b) fun _ => R.ite (fun _ => ?_) fun _ => hskip _
        exact R.ite (fun _ => h.panic _ (by decide)) fun _ => ih _
      | _ => exact R.ite (fun _ => ih b) fun _ => hskip _
    | projection did selfTy ty =>
      cases selfTy with
      | param index =>
        refine R.ite (fun _ => ?_) fun _ => hskip _
        exact R.ite (fun _ => h.panic _ (by decide)) fun _ => ih _
      | _ => exact hskip _
    | other => exact hskip _

theorem extractTparams_rel (b : FunBounds) : ∀ (params : List GenericParamDef)
    (m : Assoc Nat TyParam),
    R.rel (extractTparams tcx b params m) (extractTparams tcx b params m)
  | [], m => R.pure m
  | param :: rest, m => by
    rw [extractTparams]
    cases param.kind with
    | type =>
      refine R.ite (fun _ => extractTparams_rel b rest m) fun _ => ?_
      exact R.bind (h.getOrRegisterDef _) fun _ => extractTparams_rel b rest _
    | lifetime | const => exact R.bind (unsupported_rel h _) fun _ => extractTparams_rel b rest m

end

section

variable {adtId adtId' : DefId → Xtor SymbolIdentifier} (h : KeepsRel tcx R)
  (hadt : ∀ d, R.rel (adtId d) (adtId' d))

include h hadt

theorem replaceHofParams_rel : ∀ (ps : Assoc Nat (List Ty)) (returns : Assoc Nat Ty)
    (txtcx : TyExtractionCtxt), R.rel (replaceHofParams tcx adtId ps returns txtcx)
      (replaceHofParams tcx adtId' ps returns txtcx)
  | [], _, txtcx => R.pure txtcx
  | (index, paramTys) :: rest, returns, txtcx => by
    rw [replaceHofParams, replaceHofParams]
    refine R.bind (extractTysWith_rel txtcx h hadt paramTys) fun tps => ?_
    cases returns.get? index with
    | none => exact h.panic _ (by decide)
    | some returnTy =>
      refine R.bind (extractTyWith_rel txtcx h hadt returnTy) fun t => ?_
      exact R.ite (fun _ => h.panic _ (by decide)) fun _ => replaceHofParams_rel rest _ _

theorem extractGenericsWith_rel (d : DefId) :
    R.rel (extractGenericsWith tcx adtId d) (extractGenericsWith tcx adtId' d) := by
  unfold extractGenericsWith
  refine R.ite (fun _ => ?_) fun _ => ?_
  · exact R.ite (fun _ => R.pure _) fun _ => h.panic _ (by decide)
  · refine R.bind (scanPredicates_rel h _ _) fun b => ?_
    refine R.bind (extractTparams_rel h b _ _) fun m => ?_
    exact R.bind (replaceHofParams_rel h hadt _ _ _) fun _ => R.pure _

/-! ## ADTs -/

theorem extractFields_rel (txtcx : TyExtractionCtxt) : ∀ (fields : List FieldDef)
    (flags : Assoc String Flags), R.rel (extractFields tcx adtId txtcx fields flags)
      (extractFields tcx adtId' txtcx fields flags)
  | [], _ => R.pure _
  | field :: rest, flags => by
    rw [extractFields, extractFields]
    refine R.bind (h.getOrRegisterDef _) fun id => ?_
    refine R.bind (extractTyWith_rel txtcx h hadt _) fun t => ?_
    exact R.bind (extractFields_rel txtcx rest _) fun _ => R.pure _

theorem extractConstructors_rel (txtcx : TyExtractionCtxt) (sortId : SymbolIdentifier) :
    ∀ (variants : List VariantDef) (flags : Assoc String Flags),
    R.rel (extractConstructors tcx adtId txtcx sortId variants flags)
      (extractConstructors tcx adtId' txtcx sortId variants flags)
  | [], _ => R.pure _
  | variant :: rest, flags => by
    rw [extractConstructors, extractConstructors]
    refine R.bind (h.getOrRegisterDef _) fun id => ?_
    refine R.bind (extractFields_rel h hadt txtcx _ _) fun r => ?_
    exact R.bind (extractConstructors_rel txtcx sortId rest _) fun _ => R.pure _

/-- What is behind the registration of an ADT. -/
theorem extractSort_rel (sortId : SymbolIdentifier) (d : DefId) (adtDef : AdtDef) :
    R.rel (extractSort tcx adtId sortId d adtDef)
      (extractSort tcx adtId' sortId d adtDef) := by
  unfold extractSort
  refine R.bind (R.ite (fun _ => extractFlags_rel h d) fun _ => R.pure _) fun flags => ?_
  refine R.bind (extractGenericsWith_rel h hadt d) fun g => ?_
  refine R.bind (extractConstructors_rel h hadt _ _ _ _) fun r => ?_
  exact R.bind (R.ite (fun _ => reportUnusedFlags_rel h d _) fun _ => R.pure _) fun _ => R.pure _

end

end Stainless
