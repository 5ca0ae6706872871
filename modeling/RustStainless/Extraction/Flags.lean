import RustStainless.Extraction.State

/-!
# Flags: the stainless annotations of an item

An annotation `#[clippy::stainless::flag(args)]` sets a flag on the item itself (no arguments, or
the argument `fn`) or on the parameters or fields that its arguments name.
-/

namespace Stainless

open Rustc St Lib

/-- A set of flags. -/
structure Flags where
  set : List Flag
deriving DecidableEq

def Flags.new : Flags := { set := [] }

def Flags.add (fs : Flags) (flag : Flag) : Flags :=
  if flag ∈ fs.set then fs else { set := fs.set ++ [flag] }

/-- The flags in the iteration order of their set. -/
def Flags.toStainless (tcx : Tcx) (carrier : DefId) (symbol : Option String) (fs : Flags) :
    List Flag :=
  tcx.iterOrder.iter (.flags carrier symbol) fs.set

def flagFromName (name : String) : Option Flag :=
  if name = "external" then some .external
  else if name = "pure" then some .isPure
  else if name = "mutable" then some .isMutable
  else if name = "var" then some .isVar
  else if name = "law" then some .law
  else none

/-- The flags found so far: those of the carrier, and those of the symbols named. -/
structure ItemFlags where
  carrier : Flags
  bySymbol : Assoc String Flags

def ItemFlags.addCarrier (fs : ItemFlags) (flag : Flag) : ItemFlags :=
  { fs with carrier := fs.carrier.add flag }

def ItemFlags.addBySymbol (fs : ItemFlags) (flag : Flag) (symbol : String) : ItemFlags :=
  { fs with bySymbol := fs.bySymbol.insert symbol (((fs.bySymbol.get? symbol).getD .new).add flag) }

/-- The arguments of one annotation. An unknown one ends the list. -/
def extractFlagArgs (flag : Flag) : List Hir.TokenTree → ItemFlags → Xtor ItemFlags
  | [], fs => pure fs
  | .token .comma :: rest, fs => extractFlagArgs flag rest fs
  | .token (.ident symbol) :: rest, fs =>
    extractFlagArgs flag rest
      (if symbol = "fn" then fs.addCarrier flag else fs.addBySymbol flag symbol)
  | .token (.litInteger symbol) :: rest, fs =>
    extractFlagArgs flag rest (fs.addBySymbol flag symbol)
  | .token .other :: _, fs | .delimited :: _, fs => do
    spanWarn "Unknown argument in stainless annotation"
    pure fs

/-- The flag that an attribute sets, if it is a stainless annotation. -/
def extractFlagOf (segments : List String) : Option String :=
  match segments with
  | [_, tool, name] => if tool = "stainless" then some name else none
  | _ => none

def extractFlagsFrom : List Hir.Attribute → ItemFlags → Xtor ItemFlags
  | [], fs => pure fs
  | .docComment :: rest, fs => extractFlagsFrom rest fs
  | .normal segments args :: rest, fs =>
    match extractFlagOf segments with
    | none => extractFlagsFrom rest fs
    | some name =>
      match flagFromName name with
      | none => do
        spanWarn ("Unknown stainless annotation: " ++ name)
        extractFlagsFrom rest fs
      | some flag =>
        match args with
        | .empty => extractFlagsFrom rest (fs.addCarrier flag)
        | .delimited tokens => do
          let fs ← extractFlagArgs flag tokens fs
          extractFlagsFrom rest fs
        | .eq => do
          spanWarn "Unsupported target specified on stainless annotation"
          extractFlagsFrom rest fs

def extractFlags (tcx : Tcx) (carrier : DefId) : Xtor ItemFlags :=
  extractFlagsFrom (tcx.attrs carrier) { carrier := .new, bySymbol := [] }

/-- Warn about unused flags. -/
def reportUnusedFlags (tcx : Tcx) (carrier : DefId) (bySymbol : Assoc String Flags) : Xtor Unit :=
  if bySymbol = [] then pure ()
  else
    spanWarn ("Stainless annotations for non-existent parameters: " ++
      String.intercalate ", " (tcx.iterOrder.iter (.flagsBySymbol carrier) bySymbol.keys))

end Stainless
