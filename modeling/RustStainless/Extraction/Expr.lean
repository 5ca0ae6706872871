import Mathlib.Data.List.Sort
import RustStainless.Extraction.Adt

/-!
# Extraction of bodies

The traversal of a HAIR body. It asks the extraction around it for ids, types and variables and
reports what it cannot extract; `BodyOps` are these questions. `xtorOps` answers them by running
the extraction. The traversal itself is the same whoever answers, so what it builds can also be
read off the ids of a final state (`Extraction/Image.lean`).
-/

namespace Stainless

open Rustc St Lib

/-! ## What the traversal asks for -/

/-- The ids that the traversal reads of a constructor: its own, and those of its fields. -/
structure ConstructorIds where
  id : SymbolIdentifier
  fields : List SymbolIdentifier
deriving DecidableEq

/-- The ids that the traversal reads of a sort. -/
def sortIds (sort : ADTSort) : List ConstructorIds :=
  sort.constructors.map fun c => { id := c.id, fields := c.fields.map fun f => f.v.id }

structure BodyOps (m : Type → Type) where
  unsupported : String → m Unit
  panic : {α : Type} → Panic → m α
  extractAdt : DefId → m (List ConstructorIds)
  extractFnRef : DefId → m SymbolIdentifier
  extractTy : Ty → m Tpe
  extractTys : List Ty → m (List Tpe)
  fetchVar : HirId → m Variable

/-- The context of a body: its type parameters, and the variables of the `DefContext`. -/
structure BodyCtxt where
  txtcx : TyExtractionCtxt
  vars : Assoc HirId Variable

def fetchVar (ctx : BodyCtxt) (h : HirId) : Xtor Variable :=
  match ctx.vars.get? h with
  | some v => pure v
  | none => Run.panic .unregisteredVariable

/-- A body extractor asks the extraction. -/
def xtorOps (tcx : Tcx) (ctx : BodyCtxt) : BodyOps Xtor where
  unsupported := unsupported
  panic := Run.panic
  extractAdt := fun d => do
    let sort ← extractAdt tcx d
    pure (sortIds sort)
  extractFnRef := extractFnRef tcx
  extractTy := extractTy tcx ctx.txtcx
  extractTys := extractTys tcx ctx.txtcx
  fetchVar := fetchVar ctx

/-! ## Literals -/

/-- A `u128` read as an `i128`. -/
def asI128 (value : Nat) : Int :=
  if value < 1 <<< 127 then value else (value : Int) - (1 <<< 128 : Nat)

/-- `Literal::try_from`: no literal for an unsupported kind, a panic for a boolean without bits. -/
def literalTryFrom (konst : Const) : Except Panic (Option St.Literal) :=
  if konst.ty.isUnit then .ok (some .unit)
  else
    match konst.ty with
    | .bool =>
      match konst.val.tryToBits with
      | some bits => .ok (some (.boolean (bits == 1)))
      | none => .error .assertion
    | .int t =>
      .ok (t.bitWidth.bind fun size =>
        konst.val.tryToBits.map fun value => .bv true (asI128 value) size)
    | .uint t =>
      .ok (t.bitWidth.bind fun size =>
        konst.val.tryToBits.map fun value => .bv false value size)
    | .ref .str _ =>
      match konst.val with
      | .slice text => .ok (some (.string text))
      | _ => .ok none
    | _ => .ok none

section Traversal

variable {m : Type → Type} [Monad m] (tcx : Tcx) (ops : BodyOps m)

def unsupportedExpr (msg : String) : m St.Expr := do
  ops.unsupported msg
  pure (.noTree .untyped)

def unsupportedPattern (msg : String) : m Pattern := do
  ops.unsupported msg
  pure (.wildcard none)

def extractLiteral (konst : Const) : m St.Expr :=
  match literalTryFrom konst with
  | .ok (some lit) => pure (.literal lit)
  | .ok none => unsupportedExpr ops "Unsupported kind of literal"
  | .error p => ops.panic p

/-! ## Operators -/

def extractUnary (op : Hair.UnOp) (argTy : Ty) (arg : St.Expr) : m St.Expr :=
  match op with
  | .not =>
    if isBvType argTy then pure (.unary .bvNot arg)
    else if argTy.isBool then pure (.unary .not arg)
    else ops.panic .unexpected
  | .neg =>
    if isBvType argTy || tcx.isBigintType argTy then pure (.unary .uMinus arg)
    else ops.panic .unexpected

/-- The right operand of a shift, widened to the type of the left one where that is possible. -/
def widenShiftArg (ty1 ty2 : Ty) (arg2 : St.Expr) : Except String St.Expr :=
  if ty1 = ty2 then .ok arg2
  else
    match ty1, ty2 with
    | .int intTy1, .int intTy2 =>
      match intTy1.bitWidth, intTy2.bitWidth with
      | some width1, some width2 =>
        if width1 > width2 then .ok (.bvWideningCast arg2 (.bvType true width1))
        else .error "Adapting lhs shift argument would change result type"
      | _, _ => .error "Cannot adapt shift arguments of unknown bit widths"
    | .uint uintTy1, .uint uintTy2 =>
      match uintTy1.bitWidth, uintTy2.bitWidth with
      | some width1, some width2 =>
        if width1 > width2 then .ok (.bvWideningCast arg2 (.bvType false width1))
        else .error "Adapting lhs shift argument would change result type"
      | _, _ => .error "Cannot adapt shift arguments of unknown bit widths"
    | _, _ => .error "Cannot extract shift mixing signed and unsigned operands"

/--
Stainless requires matching bitvector types on all operations, so the right operand is widened
where possible. Operands of different signedness are rejected.
-/
def extractShift (ty1 ty2 : Ty) (isShl : Bool) (arg1 arg2 : St.Expr) : m St.Expr :=
  match widenShiftArg ty1 ty2 arg2 with
  | .error msg => unsupportedExpr ops msg
  | .ok arg2 =>
    if isShl then pure (.binary .bvShiftLeft arg1 arg2)
    else if isSignedBvType ty1 then pure (.binary .bvAShiftRight arg1 arg2)
    else pure (.binary .bvLShiftRight arg1 arg2)

def extractBinary (op : Hair.BinOp) (ty1 ty2 : Ty) (arg1 arg2 : St.Expr) : m St.Expr :=
  let argsAreBv := isBvType ty1 && isBvType ty2
  let argsAreBool := ty1.isBool && ty2.isBool
  let bvOnly (operator : BinaryOperator) : m St.Expr :=
    if argsAreBv then pure (.binary operator arg1 arg2)
    else unsupportedExpr ops "Cannot extract binary op"
  if !argsAreBv && !argsAreBool then unsupportedExpr ops "Cannot extract binary op"
  else
    match op with
    | .eq => pure (.binary .equals arg1 arg2)
    | .ne => pure (.unary .not (.binary .equals arg1 arg2))
    | .add => bvOnly .plus
    | .sub => bvOnly .minus
    | .mul => bvOnly .times
    | .div => bvOnly .division
    | .rem => bvOnly .remainder
    | .lt => bvOnly .lessThan
    | .le => bvOnly .lessEquals
    | .ge => bvOnly .greaterEquals
    | .gt => bvOnly .greaterThan
    | .bitXor => bvOnly .bvXor
    | .bitAnd => bvOnly .bvAnd
    | .bitOr => bvOnly .bvOr
    | .shl | .shr =>
      if argsAreBv then extractShift ops ty1 ty2 (op == .shl) arg1 arg2
      else unsupportedExpr ops "Cannot extract binary op"
    | .offset => unsupportedExpr ops "Cannot extract binary op"

/-! ## Patterns -/

/-- The variable of a binding pattern, or why there is none. Type ascriptions are erased. -/
def tryPatternToVar : Hair.Pat → Bool → m (Except String Variable)
  | .binding _ .mut _ _ _, _ => pure (.error "Mutable bindings are not supported")
  | .binding _ .not mode var subpattern, allowSubpattern =>
    if subpattern.isSome && !allowSubpattern then
      pure (.error "Subpatterns are not supported here")
    else
      match mode with
      | .byValue | .byRef .shared => do
        let v ← ops.fetchVar var
        pure (.ok v)
      | _ => pure (.error "Binding mode not allowed")
  | .ascribeUserType _ subpattern, allowSubpattern => tryPatternToVar subpattern allowSubpattern
  | _, _ => pure (.error "Expected a top-level binding")

/-- Keep the pairs in the order of their indices. The sort is stable. -/
def sortByIndex {α : Type} (fields : List (Nat × α)) : List (Nat × α) :=
  fields.insertionSort fun a b => a.1 ≤ b.1

/-- One pattern for each of the fields from `i` on. A field that is not listed gets a wildcard. -/
def extractSubpatternsFrom : Nat → Nat → List (Nat × m Pattern) → m (List Pattern)
  | _, 0, _ => pure []
  | i, numFields + 1, [] => do
    let rest ← extractSubpatternsFrom (i + 1) numFields []
    pure (.wildcard none :: rest)
  | i, numFields + 1, (index, pattern) :: fieldPats =>
    if index = i then do
      let next ← pattern
      let rest ← extractSubpatternsFrom (i + 1) numFields fieldPats
      pure (next :: rest)
    else do
      let rest ← extractSubpatternsFrom (i + 1) numFields ((index, pattern) :: fieldPats)
      pure (.wildcard none :: rest)

def extractSubpatterns (fieldPats : List (Nat × m Pattern)) (numFields : Nat) :
    m (List Pattern) :=
  extractSubpatternsFrom 0 numFields (sortByIndex fieldPats)

/-- The argument types of a call, a construction or a pattern, without the closure types. -/
def extractArgTypes (substs : List Ty) : m (List Tpe) :=
  ops.extractTys (substs.filter fun ty => !ty.isClosure)

mutual

def extractPattern : Hair.Pat → Option ValDef → m Pattern
  | .wild _, binder => pure (.wildcard binder)
  | .binding ty mutability mode var subpattern, binder =>
    if binder.isSome then ops.panic .assertion
    else do
      match ← tryPatternToVar ops (.binding ty mutability mode var subpattern) true with
      | .ok v => extractBound subpattern { v := v }
      | .error reason => unsupportedPattern ops ("Unsupported pattern binding: " ++ reason)
  | .variant _ did substs variantIndex subpatterns, binder => do
    let sort ← ops.extractAdt did
    match sort[variantIndex]? with
    | none => ops.panic .assertion
    | some constructor => do
      let argTps ← extractArgTypes ops substs
      let subpatterns ← extractSubpatterns (patternActions subpatterns) constructor.fields.length
      pure (.adt binder constructor.id argTps subpatterns)
  | .leaf ty subpatterns, binder =>
    match ty with
    | .adt did substs => do
      match ← ops.extractAdt did with
      | [constructor] => do
        let argTps ← extractArgTypes ops substs
        let subpatterns ← extractSubpatterns (patternActions subpatterns) constructor.fields.length
        pure (.adt binder constructor.id argTps subpatterns)
      | _ => ops.panic .assertion
    | .tuple tys => do
      let subpatterns ← extractSubpatterns (patternActions subpatterns) tys.length
      pure (.tuple binder subpatterns)
    | _ => unsupportedPattern ops "Encountered Leaf pattern, but type is not an ADT"
  | .constant _ konst, binder =>
    match literalTryFrom konst with
    | .ok (some lit) => pure (.literal binder lit)
    | .ok none => unsupportedPattern ops "Unsupported kind of literal in pattern"
    | .error p => ops.panic p
  | .deref _ subpattern, binder => extractPattern subpattern binder
  | .ascribeUserType _ _, _ | .other _, _ => unsupportedPattern ops "Unsupported kind of pattern"

/-- What a binding binds: its subpattern, with the binder passed down, or anything. -/
def extractBound : Option Hair.Pat → ValDef → m Pattern
  | some subpattern, binder => extractPattern subpattern (some binder)
  | none, binder => pure (.wildcard (some binder))

def patternActions : List (Nat × Hair.Pat) → List (Nat × m Pattern)
  | [] => []
  | (index, pattern) :: rest => (index, extractPattern pattern none) :: patternActions rest

end

/-! ## Calls -/

/-- Run the extractions from left to right. -/
def extractAll : List (m St.Expr) → m (List St.Expr)
  | [] => pure []
  | e :: es => do
    let e ← e
    let es ← extractAll es
    pure (e :: es)

def extractPanic (args : List (m St.Expr)) (isFmt : Bool) : m St.Expr :=
  match args with
  | [arg] =>
    if isFmt then unsupportedExpr ops "Cannot extract panic with formatted message"
    else do
      let arg ← arg
      pure (.block [arg] (.error .unitType "Panic"))
  | _ => ops.panic .assertion

def extractSetOp (operator : BinaryOperator) (args : List (m St.Expr)) : m St.Expr := do
  match ← extractAll args with
  | set :: arg :: _ => pure (.binary operator set arg)
  | _ => ops.panic .assertion

def extractSetCreation (args : List (m St.Expr)) (substs : List Ty) : m St.Expr := do
  let args ← extractAll args
  match substs with
  | [] => ops.panic .assertion
  | ty :: _ => do
    let ty ← ops.extractTy ty
    pure (.finiteSet args ty)

/-- The path of `Box::new`, which is erased. -/
def boxNewPath : List String := ["std", "boxed", "Box", "<T>", "new"]

def extractCall (did : DefId) (substs : List Ty) (args : List (m St.Expr)) : m St.Expr := do
  let fdId ← ops.extractFnRef did
  if fdId.symbolPath = boxNewPath then
    match args with
    | [] => ops.panic .assertion
    | arg :: _ => arg
  else do
    let argTps ← extractArgTypes ops substs
    let args ← extractAll args
    pure (.functionInvocation fdId argTps args)

/-- A call of a std item is extracted specially, any other to a target that is known is a call. -/
def extractCallLike (funTy : Ty) (args : List (m St.Expr)) : m St.Expr :=
  match funTy with
  | .fnDef did substs =>
    match tcx.stdItems.defToItemOpt did with
    | some .beginPanicFn => extractPanic ops args false
    | some .beginPanicFmtFn => extractPanic ops args true
    | some .setEmptyFn | some .setSingletonFn => extractSetCreation ops args substs
    | some .setAddFn => extractSetOp ops .setAdd args
    | some .setDifferenceFn => extractSetOp ops .setDifference args
    | some .setIntersectionFn => extractSetOp ops .setIntersection args
    | some .setUnionFn => extractSetOp ops .setUnion args
    | some .subsetOfFn => extractSetOp ops .subsetOf args
    | _ => extractCall ops did substs args
  | _ => unsupportedExpr ops "Cannot extract call without statically known target"

/-! ## Blocks -/

/-- A statement with its extraction pending. -/
inductive StmtAction (m : Type → Type) where
  | expr (e : m St.Expr)
  | letS (pattern : Hair.Pat) (initializer : Option (m St.Expr))

def finishBlock (exprs : List St.Expr) (finalExpr : St.Expr) : St.Expr :=
  match exprs with
  | [] => finalExpr
  | _ => .block exprs finalExpr

/-- A `let` that is not supported ends the block. -/
def bailBlock (accExprs : List St.Expr) (msg : String) : m St.Expr := do
  ops.unsupported msg
  pure (.block accExprs (.noTree .untyped))

def extractBlock_ : List (StmtAction m) → List St.Expr → St.Expr → m St.Expr
  | [], accExprs, finalExpr => pure (finishBlock accExprs finalExpr)
  | .letS pattern initializer :: stmts, accExprs, finalExpr => do
    match ← tryPatternToVar ops pattern false with
    | .error reason => bailBlock ops accExprs ("Cannot extract complex pattern in let: " ++ reason)
    | .ok v =>
      match initializer with
      | none => bailBlock ops accExprs "Cannot extract let without initializer"
      | some init => do
        let init ← init
        let bodyExpr ← extractBlock_ stmts [] finalExpr
        pure (finishBlock accExprs (.letIn { v := v } init bodyExpr))
  | .expr e :: stmts, accExprs, finalExpr => do
    let e ← e
    extractBlock_ stmts (accExprs ++ [e]) finalExpr

/-! ## Conditionals -/

def stripScopes : Hair.Expr → Hair.Expr
  | .scope _ value => stripScopes value
  | e => e

/--
Does the match correspond to an `if`? If so, is there an `else`? Two arms on a boolean, the first
`true` and the second `_`, are taken to be one; the second body must be a block then.
-/
def looksLikeIf (scrutinee : Hair.Expr) (arms : List Hair.Arm) : Except Panic (Option Bool) :=
  match arms with
  | [.mk (.constant _ konst) _ _, .mk (.wild _) _ elze] =>
    if scrutinee.ty.isBool then
      match literalTryFrom konst with
      | .error p => .error p
      | .ok (some (.boolean true)) =>
        match stripScopes elze with
        | .block _ _ stmts expr => .ok (some (!(stmts.isEmpty && expr.isNone)))
        | _ => .error .unexpected
      | .ok _ => .ok none
    else .ok none
  | _ => .ok none

/-- The patterns and the guards of the two arms are not looked at again. -/
def extractIf (cond : m St.Expr) (bodies : List (m St.Expr)) (hasElze : Bool) : m St.Expr :=
  match bodies with
  | [thenn, elze] => do
    let cond ← cond
    let thenn ← thenn
    let elze ← (if hasElze then elze else pure .unitLiteral)
    pure (.ifExpr cond thenn elze)
  | _ => ops.panic .assertion

/-! ## Expressions -/

mutual

def extractExprWith : Hair.Expr → m St.Expr
  | .literal _ konst => extractLiteral ops konst
  | .unary _ op arg => do
    let argE ← extractExprWith arg
    extractUnary tcx ops op arg.ty argE
  | .binary _ op lhs rhs => do
    let arg1 ← extractExprWith lhs
    let arg2 ← extractExprWith rhs
    extractBinary ops op lhs.ty rhs.ty arg1 arg2
  | .logicalOp _ op lhs rhs =>
    if lhs.ty.isBool && rhs.ty.isBool then do
      let arg1 ← extractExprWith lhs
      let arg2 ← extractExprWith rhs
      match op with
      | .and => pure (.and [arg1, arg2])
      | .or => pure (.or [arg1, arg2])
    else ops.panic .assertion
  | .tuple _ fields =>
    match fields.length with
    | 0 => pure .unitLiteral
    | 1 => unsupportedExpr ops "Cannot extract one-tuples"
    | _ => do
      let exprs ← extractAll (exprActions fields)
      pure (.tuple exprs)
  | .field _ lhs name =>
    match lhs.ty with
    | .tuple _ => do
      let lhs ← extractExprWith lhs
      pure (.tupleSelect lhs (name + 1))
    | .adt did _ => do
      match ← ops.extractAdt did with
      | [constructor] =>
        match constructor.fields[name]? with
        | some fieldId => do
          let lhs ← extractExprWith lhs
          pure (.adtSelector lhs fieldId)
        | none => ops.panic .assertion
      | _ => ops.panic .assertion
    | _ => ops.panic .unexpected
  | .varRef _ id => do
    let v ← ops.fetchVar id
    pure (.variable v)
  | .call _ funTy args => extractCallLike tcx ops funTy (exprActions args)
  | .adt _ did variantIndex substs fields base =>
    if base then unsupportedExpr ops "Cannot extract ADT constructions with bases"
    else do
      let sort ← ops.extractAdt did
      match sort[variantIndex]? with
      | none => ops.panic .assertion
      | some constructor => do
        let argTps ← extractArgTypes ops substs
        let args ← extractAll ((sortByIndex (fieldActions fields)).map Prod.snd)
        pure (.adt constructor.id argTps args)
  | .block _ safe stmts expr =>
    if safe then do
      -- The final expression is extracted before the statements.
      let finalExpr ← extractFinal expr
      extractBlock_ ops (stmtActions stmts) [] finalExpr
    else unsupportedExpr ops "Cannot extract unsafe block"
  | .matchE _ scrutinee arms =>
    match looksLikeIf scrutinee arms with
    | .error p => ops.panic p
    | .ok (some hasElze) => extractIf ops (extractExprWith scrutinee) (bodyActions arms) hasElze
    | .ok none => do
      let scrutinee ← extractExprWith scrutinee
      let cases ← extractArms arms
      pure (.matchExpr scrutinee cases)
  | .scope _ value => extractExprWith value
  | .use _ source => extractExprWith source
  | .neverToAny _ source => extractExprWith source
  | .deref _ arg => extractExprWith arg
  | .borrow _ .shared arg => extractExprWith arg
  | .borrow _ .shallow _ | .borrow _ .unique _ | .borrow _ .mut _ | .other _ _ =>
    unsupportedExpr ops "Cannot extract expr kind"

def extractFinal : Option Hair.Expr → m St.Expr
  | some e => extractExprWith e
  | none => pure .unitLiteral

def exprActions : List Hair.Expr → List (m St.Expr)
  | [] => []
  | e :: es => extractExprWith e :: exprActions es

def fieldActions : List (Nat × Hair.Expr) → List (Nat × m St.Expr)
  | [] => []
  | (index, e) :: rest => (index, extractExprWith e) :: fieldActions rest

def stmtActions : List Hair.Stmt → List (StmtAction m)
  | [] => []
  | .expr e :: rest => .expr (extractExprWith e) :: stmtActions rest
  | .letS pattern initializer :: rest => .letS pattern (initAction initializer) :: stmtActions rest

def initAction : Option Hair.Expr → Option (m St.Expr)
  | none => none
  | some e => some (extractExprWith e)

def bodyActions : List Hair.Arm → List (m St.Expr)
  | [] => []
  | .mk _ _ body :: rest => extractExprWith body :: bodyActions rest

def extractArms : List Hair.Arm → m (List MatchCase)
  | [] => pure []
  | .mk pattern guard body :: rest => do
    let pattern ← extractPattern ops pattern none
    let guard ← extractGuard guard
    let body ← extractExprWith body
    let rest ← extractArms rest
    pure (.mk pattern guard body :: rest)

def extractGuard : Option Hair.Expr → m (Option St.Expr)
  | none => pure none
  | some e => do
    let guard ← extractExprWith e
    pure (some guard)

end

end Traversal

/-- Extract an expression of a body. -/
def extractExpr (tcx : Tcx) (ctx : BodyCtxt) (e : Hair.Expr) : Xtor St.Expr :=
  extractExprWith tcx (xtorOps tcx ctx) e

end Stainless
