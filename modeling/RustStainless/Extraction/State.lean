import RustStainless.Lib.Run
import RustStainless.Rust.Str
import RustStainless.Data.Ast
import RustStainless.Rustc.Tcx

/-!
# The state of an extraction

The counters, the mapping from Rust ids to Stainless ids, the extracted definitions and the
diagnostics of the session. Everything the extractor does is a run over this state that may panic.
-/

namespace Stainless

open Rustc St Lib

/-! ## Panics and diagnostics -/

/-- The assertions, `expect`s and `span_bug`s that stop the extractor. -/
inductive Panic where
  /-- `did_to_stid.insert(..).is_none()` -/
  | registerDef
  /-- `hid_to_stid.insert(..).is_none()` -/
  | registerHir
  /-- `adts.insert(..).is_none()` -/
  | addAdt
  /-- `function_refs.insert(..)` -/
  | addFunctionRef
  /-- `functions.insert(..).is_none()` -/
  | addFunction
  /-- `!self.vars.contains_key(..)` -/
  | addVar
  /-- "Missing type parameter identifier" -/
  | missingTypeParam
  /-- `tparam_to_fun_params.insert(..).is_none()` -/
  | funParams
  /-- `tparam_to_fun_return.insert(..).is_none()` -/
  | funReturn
  /-- "Got parameter types for HOF parameter but no return type" -/
  | missingFunReturn
  /-- `index_to_tparam.insert(..).is_none()` -/
  | replacedTparam
  /-- an assertion, index or `unwrap` on the shape of a definition or a tree -/
  | assertion
  /-- "unregistered variable" -/
  | unregisteredVariable
  /-- any other call of `unexpected`, and `unreachable!()` -/
  | unexpected
  /-- rustc has no such ADT -/
  | noAdtDef
  /-- the nesting of `extract_adt` is deeper than there are ADTs -/
  | tooDeep
deriving DecidableEq

/-- A message to the session. Debug output of rustc trees in a text is left out. -/
inductive Diag where
  | error (msg : String)
  | warning (msg : String)
deriving DecidableEq

def Diag.isError : Diag → Bool
  | .error _ => true
  | .warning _ => false

/-! ## The state -/

/-- `UniqueCounter` provides fresh ids with a name prefix. -/
structure UniqueCounter (K : Type) where
  next : Assoc K Nat

def UniqueCounter.fresh {K : Type} [DecidableEq K] (u : UniqueCounter K) (k : K) :
    Nat × UniqueCounter K :=
  match u.next.get? k with
  | none => (0, { next := u.next.insert k 1 })
  | some c => (c, { next := u.next.insert k (c + 1) })

/-- A mapping between Rust ids and Stainless ids. -/
structure SymbolMapping where
  globalIdCounter : UniqueCounter Unit
  localIdCounter : UniqueCounter String
  didToStid : Assoc DefId SymbolIdentifier
  hidToStid : Assoc HirId SymbolIdentifier

/--
`Extraction` encapsulates the state of extracting a Stainless program, here with the diagnostics of
the session. `adts` and `functions` are keyed by the global id of a symbol.
-/
structure Extraction where
  mapping : SymbolMapping
  adts : Assoc Int ADTSort
  functionRefs : List DefId
  functions : Assoc Int FunDef
  diags : List Diag

/-- `Extraction::new`. -/
def Extraction.new : Extraction where
  mapping :=
    { globalIdCounter := { next := [] }
      localIdCounter := { next := [] }
      didToStid := []
      hidToStid := [] }
  adts := []
  functionRefs := []
  functions := []
  diags := []

abbrev Xtor (α : Type) := Run Panic Extraction α

/-- No error was reported. -/
def Extraction.NoErrors (s : Extraction) : Prop := ∀ d ∈ s.diags, d.isError = false

/-! ## Diagnostics -/

def report (d : Diag) : Xtor Unit := modify fun s => { s with diags := s.diags ++ [d] }

def spanErr (msg : String) : Xtor Unit := report (.error msg)

def spanWarn (msg : String) : Xtor Unit := report (.warning msg)

def unsupported (msg : String) : Xtor Unit := spanErr ("Unsupported tree: " ++ msg)

/-! ## Identifiers -/

/-- `Extraction::fresh_id`. -/
def freshIdWithPath (name : String) (symbolPath : List String) : Xtor SymbolIdentifier := do
  let s ← get
  let (globalId, globalIdCounter) := s.mapping.globalIdCounter.fresh ()
  let (localId, localIdCounter) := s.mapping.localIdCounter.fresh name
  modify fun s =>
    { s with mapping :=
      { s.mapping with globalIdCounter := globalIdCounter, localIdCounter := localIdCounter } }
  pure { id := { name := name, globalId := globalId, id := localId }, symbolPath := symbolPath }

/-- `BaseExtractor::fresh_id`. -/
def freshId (name : String) : Xtor SymbolIdentifier := freshIdWithPath name [name]

def symbolPathFromDefId (tcx : Tcx) (d : DefId) : List String :=
  (Rust.splitPath (tcx.defPathStr d).toList).map String.ofList

/--
The name and the path under which a definition is registered. A name of numeric characters only
gets an underscore in front, also in the path.
-/
def symbolNameAndPath (symbolPath : List String) : String × List String :=
  let name := symbolPath.getLast?.getD ""
  if name.toList.all Rust.isNumeric then
    let newName := "_" ++ name
    (newName, symbolPath.take (symbolPath.length - 1) ++ [newName])
  else (name, symbolPath)

def registerDef (tcx : Tcx) (d : DefId) : Xtor SymbolIdentifier := do
  let nameAndPath := symbolNameAndPath (symbolPathFromDefId tcx d)
  let id ← freshIdWithPath nameAndPath.1 nameAndPath.2
  let s ← get
  if s.mapping.didToStid.contains d then Run.panic .registerDef
  else do
    modify fun s =>
      { s with mapping := { s.mapping with didToStid := s.mapping.didToStid.insert d id } }
    pure id

def getIdFromDef (d : DefId) : Xtor (Option SymbolIdentifier) := do
  let s ← get
  pure (s.mapping.didToStid.get? d)

def getOrRegisterDef (tcx : Tcx) (d : DefId) : Xtor SymbolIdentifier := do
  match ← getIdFromDef d with
  | some id => pure id
  | none => registerDef tcx d

def registerHir (tcx : Tcx) (h : HirId) (name : String) : Xtor SymbolIdentifier := do
  let id ← freshIdWithPath name (symbolPathFromDefId tcx h.owner ++ [name])
  let s ← get
  if s.mapping.hidToStid.contains h then Run.panic .registerHir
  else do
    modify fun s =>
      { s with mapping := { s.mapping with hidToStid := s.mapping.hidToStid.insert h id } }
    pure id

/-! ## ADTs and functions -/

def addAdt (id : SymbolIdentifier) (adt : ADTSort) : Xtor Unit := do
  let s ← get
  if s.adts.contains id.globalId then Run.panic .addAdt
  else modify fun s => { s with adts := s.adts.insert id.globalId adt }

def addFunctionRef (d : DefId) : Xtor Unit := do
  let s ← get
  if d ∈ s.functionRefs then Run.panic .addFunctionRef
  else modify fun s => { s with functionRefs := s.functionRefs ++ [d] }

def addFunction (id : SymbolIdentifier) (fd : FunDef) : Xtor Unit := do
  let s ← get
  if s.functions.contains id.globalId then Run.panic .addFunction
  else modify fun s => { s with functions := s.functions.insert id.globalId fd }

/-- Extract a function reference (regardless of whether it is local or external). -/
def extractFnRef (tcx : Tcx) (d : DefId) : Xtor SymbolIdentifier := do
  match ← getIdFromDef d with
  | some funId => pure funId
  | none => do
    addFunctionRef d
    registerDef tcx d

end Stainless
