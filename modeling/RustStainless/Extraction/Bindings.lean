import RustStainless.Extraction.Adt
import RustStainless.Extraction.Expr

/-!
# Bindings

The variables of a body are registered before its expression is extracted: first the parameters,
then every binding that a visit of the HIR patterns meets. A binding that is registered already, as
the parameters of a spec function are, is left as it is.
-/

namespace Stainless

open Rustc St Lib

/-- The variables of a `DefContext`. -/
abbrev Vars := Assoc HirId Variable

def addVar (h : HirId) (v : Variable) (vars : Vars) : Xtor Vars :=
  if vars.contains h then Run.panic .addVar else pure (vars.insert h v)

/-- For the forbidden binding modes, the extraction goes on because failure will occur later. -/
def checkBindingMode (mode : Option Hir.BindMode) : Xtor Unit :=
  match mode with
  | some (.byValue .not) | some (.byReference .not) => pure ()
  | _ => unsupported "Only immutable bindings are supported"

section

variable (tcx : Tcx) (txtcx : TyExtractionCtxt)

/-- Extract a binding, if it hadn't been extracted before. -/
def extractBinding (pat : Hir.Pat) (flags : Option Flags) (vars : Vars) : Xtor Vars :=
  match vars.get? pat.hirId with
  | some _ => pure vars
  | none =>
    match pat with
    | .binding hirId name mode nodeType _ => do
      checkBindingMode mode
      let id ← registerHir tcx hirId name
      let tpe ← extractTy tcx txtcx nodeType
      let flags := (flags.map (Flags.toStainless tcx txtcx.defId (some name))).getD []
      addVar hirId { id := id, tpe := tpe, flags := flags } vars
    | .other _ _ => do
      unsupported "Cannot extract complex pattern in binding (cannot recover from this)"
      Run.panic .unexpected

/-- Bindings from the params. Each takes the flags that name it out of the map. -/
def extractParams : List Hir.Pat → Assoc String Flags → Vars → Xtor (Vars × Assoc String Flags)
  | [], flagsBySymbol, vars => pure (vars, flagsBySymbol)
  | param :: rest, flagsBySymbol, vars => do
    let flags := param.simpleIdent.bind flagsBySymbol.get?
    let flagsBySymbol := (param.simpleIdent.map flagsBySymbol.remove).getD flagsBySymbol
    let vars ← extractBinding tcx txtcx param flags vars
    extractParams rest flagsBySymbol vars

mutual

/-- The visit of a pattern by the `BindingsCollector`. -/
def visitPat : Hir.Pat → Vars → Xtor Vars
  | .binding hirId name mode nodeType subpattern, vars => do
    let vars ← extractBinding tcx txtcx (.binding hirId name mode nodeType subpattern) none vars
    visitOptPat subpattern vars
  | .other _ subpatterns, vars => visitPats subpatterns vars

def visitOptPat : Option Hir.Pat → Vars → Xtor Vars
  | none, vars => pure vars
  | some p, vars => visitPat p vars

def visitPats : List Hir.Pat → Vars → Xtor Vars
  | [], vars => pure vars
  | p :: ps, vars => do
    let vars ← visitPat p vars
    visitPats ps vars

end

/-- Build a `DefContext` that includes all variable bindings. -/
def populateDefContext (body : Hir.Body) (flagsBySymbol : Assoc String Flags) (vars : Vars) :
    Xtor (Vars × Assoc String Flags) := do
  let (vars, flagsBySymbol) ← extractParams tcx txtcx body.params flagsBySymbol vars
  let vars ← visitPats tcx txtcx body.params vars
  let vars ← visitPats tcx txtcx body.pats vars
  pure (vars, flagsBySymbol)

end

end Stainless
