import RustStainless.Extraction.Uses
import RustStainless.Extraction.KrateImage
import RustStainless.Extraction.ImageExtracts

/-!
# What a crate uses

A function uses what is in its signature, in its body and in the bodies of its specs, where the
parameters have the types of those of the function. A measure without the trailing `;` is extracted
and dropped. ADTs use the types of their fields, and stubs the types of their signatures.
-/

namespace Stainless

open Rustc St Lib Extraction

/-! ## Measures -/

/-- Of the three, only a block that ends with the unit literal can be a measure. -/
inductive BodyShape where
  | unit
  | unitBlock
  | other
deriving DecidableEq

/-- How a translation looks like. -/
def treeShape : St.Expr → BodyShape
  | .literal .unit => .unit
  | .block (_ :: _) (.literal .unit) => .unitBlock
  | _ => .other

/-- A call that is replaced by its argument. -/
def isErasedCall (tcx : Tcx) : Ty → Bool
  | .fnDef did _ =>
    (tcx.stdItems.defToItemOpt did).all
      (· ∈ [.fnTrait, .fnMutTrait, .fnOnceTrait, .sizedTrait, .setType]) && isBoxNewPath tcx did
  | _ => false

def isExprStmt : Hair.Stmt → Bool
  | .expr _ => true
  | .letS _ _ => false

def blockShape (stmts : List Hair.Stmt) (last : BodyShape) : BodyShape :=
  if stmts.isEmpty then last
  else if stmts.all isExprStmt && last == .unit then .unitBlock
  else .other

section Shape

variable (tcx : Tcx)

mutual

/-- How the translation of a body looks like. -/
def bodyShape : Hair.Expr → BodyShape
  | .literal _ konst => if konst.ty.isUnit then .unit else .other
  | .tuple _ fields => if fields.isEmpty then .unit else .other
  | .call _ funTy args => if isErasedCall tcx funTy then headShape args else .other
  | .block _ _ stmts expr => blockShape stmts (optShape expr)
  | .scope _ arg | .use _ arg | .neverToAny _ arg | .deref _ arg | .borrow _ _ arg => bodyShape arg
  | .unary _ _ _ | .binary _ _ _ _ | .logicalOp _ _ _ _ | .field _ _ _ | .varRef _ _
  | .adt _ _ _ _ _ _ | .matchE _ _ _ | .other _ _ => .other

def headShape : List Hair.Expr → BodyShape
  | [] => .other
  | e :: _ => bodyShape e

/-- A block without a final expression ends with the unit literal. -/
def optShape : Option Hair.Expr → BodyShape
  | none => .unit
  | some e => bodyShape e

end

end Shape

/-! ## Bodies -/

/-- The type of a binding of a body. -/
def bindingTy (body : Hir.Body) (h : HirId) : Option Ty := Assoc.get? body.bindings h

section Uses

variable (tcx : Tcx)

/-- The types of the parameters of a function. -/
def paramTys (f : DefId) : List (Option Ty) :=
  (paramHirIds (tcx.bodyOf f)).map (bindingTy (tcx.bodyOf f))

def fnCtxt (f : DefId) : UseCtxt where
  fn := f
  varTy := bindingTy (tcx.bodyOf f)

/--
In the body of a spec, the parameters are those of the function, and behind them the value that is
returned if there is one.
-/
def specCtxt (f : DefId) (returns : Option Ty) (spec : DefId) : UseCtxt where
  fn := f
  varTy := fun h =>
    (Assoc.get? ((paramHirIds (tcx.bodyOf spec)).zip
      (paramTys tcx f ++ returns.toList.map some)) h).getD (bindingTy (tcx.bodyOf spec) h)

def bodyUses (c : UseCtxt) (d : DefId) : List BodyUse := exprUses tcx c (tcx.bodyOf d).value

def specUses (f : DefId) (returns : Option Ty) (specs : List DefId) : List BodyUse :=
  specs.flatMap fun spec => bodyUses tcx (specCtxt tcx f returns spec) spec

/-- The measure is kept if its translation ends with the unit literal of a trailing `;`. -/
def keptMeasure (measure : Option DefId) : List DefId :=
  measure.toList.filter fun m => bodyShape tcx (tcx.bodyOf m).value = .unitBlock

/-! ## Definitions -/

def signatureUses (f : DefId) : List BodyUse :=
  (paramHirIds (tcx.bodyOf f)).flatMap (fnCtxt tcx f).varUses ++ [.type f (tcx.fnSig f).output]

def fnUses (f : DefId) (specs : FnSpecs) : List BodyUse :=
  signatureUses tcx f ++ bodyUses tcx (fnCtxt tcx f) f ++
    specUses tcx f none (keptMeasure tcx specs.measureFns.head?) ++
    specUses tcx f none specs.preFns ++ specUses tcx f (some (tcx.fnSig f).output) specs.postFns

/--
What is met in the bodies that are extracted for a function, also in a measure that is dropped.
-/
def metUses (f : DefId) (specs : FnSpecs) : List BodyUse :=
  bodyUses tcx (fnCtxt tcx f) f ++ specUses tcx f none specs.measureFns.head?.toList ++
    specUses tcx f none specs.preFns ++ specUses tcx f (some (tcx.fnSig f).output) specs.postFns

def adtUses (d : DefId) : List BodyUse :=
  (tcx.adtDef d).toList.flatMap fun a =>
    a.variants.flatMap fun v => v.fields.map fun field => .type d field.ty

def stubUses (d : DefId) : List BodyUse :=
  (tcx.fnSig d).inputs.map (.type d) ++ [.type d (tcx.fnSig d).output]

/-! ## Crates -/

/-- The functions that are met in the bodies of a crate. -/
def ItemVisitor.callees (v : ItemVisitor) : List DefId :=
  v.functions.flatMap fun f => Stainless.callees (metUses tcx f.defId (v.fnSpecs f.defId))

/-- The functions of other crates that get a stub. -/
def ItemVisitor.externals (v : ItemVisitor) : List DefId :=
  (v.callees tcx).filter fun d => !d.isLocal

def ItemVisitor.uses (v : ItemVisitor) : List BodyUse :=
  v.adts.flatMap (adtUses tcx) ++
    v.functions.flatMap (fun f => fnUses tcx f.defId (v.fnSpecs f.defId)) ++
    (v.externals tcx).flatMap (stubUses tcx)

end Uses

end Stainless
