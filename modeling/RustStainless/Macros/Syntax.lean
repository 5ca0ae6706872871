/-!
# Syntax of the macro crate

What the spec macros read and write of `syn`: attributes, signatures and function items. Patterns
and bounds are only copied, so they are kept as their tokens. Of a type, its `impl Trait`s are
known, and of an expression how its tokens parse again at the start of a block.
-/

namespace Syn

/-- The text of some tokens that are only copied. -/
abbrev Tokens := String

/-- The segments of a path. -/
abbrev Path := List String

/--
An expression. At the start of a block, an expression with a block of its own, such as an `if` or a
`match`, is a whole statement. If an expression goes on behind one, the rest of it has to parse
there without it: `restParses` says whether it does, as `- 1` does and `== 1` does not. A `let`
guard is an expression as well, but at the start of a block it is a statement that needs a `;`.
-/
inductive Expr where
  | whole (tokens : Tokens)
  | blockThen (block rest : Tokens) (restParses : Bool)
  | letGuard (tokens : Tokens)
deriving DecidableEq

/-- An attribute. `args` are its arguments, if they parse as an expression. -/
structure Attribute where
  path : Path
  args : Option Expr
deriving DecidableEq

/-- A type, with the number of its `impl Trait`s. In the type of a parameter, each stands for a type
parameter without a name. -/
structure TypeTokens where
  tokens : Tokens
  implTraits : Nat
deriving DecidableEq

/-- A type without an `impl Trait`. -/
def TypeTokens.plain (tokens : Tokens) : TypeTokens where
  tokens := tokens
  implTraits := 0

/--
`format_ident!`, which panics on what is no identifier. Here this is what ends in a raw identifier,
the text of which is `r#` and a keyword.
-/
def formatIdent (text : String) : Option String := if '#' ∈ text.toList then none else some text

/-! ## Punctuated lists -/

/-- A comma-separated list. Only a list with an element may have a trailing comma. -/
structure Punctuated (α : Type) where
  elems : List α
  trailing : Bool
  trailing_ne_nil : trailing = true → elems ≠ []
deriving DecidableEq

/-- A token of a punctuated list. -/
inductive PunctToken (α : Type) where
  | value (a : α)
  | comma
deriving DecidableEq

variable {α : Type}

/-- Values with commas between them. -/
def separated : List α → List (PunctToken α)
  | [] => []
  | [a] => [.value a]
  | a :: b :: rest => .value a :: .comma :: separated (b :: rest)

/-- A punctuated list prints its elements and its separators, a trailing one as well. -/
def Punctuated.toTokens (p : Punctuated α) : List (PunctToken α) :=
  separated p.elems ++ if p.trailing then [.comma] else []

def Punctuated.empty : Punctuated α where
  elems := []
  trailing := false
  trailing_ne_nil := by simp

def Punctuated.single (a : α) : Punctuated α where
  elems := [a]
  trailing := false
  trailing_ne_nil := by simp

/-- Put an element with a comma in front. Before nothing, the comma is a trailing one. -/
def Punctuated.pushFront (a : α) (p : Punctuated α) : Punctuated α where
  elems := a :: p.elems
  trailing := p.elems.isEmpty || p.trailing
  trailing_ne_nil := by simp

/-- Parse up to the end of the tokens. -/
def Punctuated.parseTerminated : List (PunctToken α) → Option (Punctuated α)
  | [] => some .empty
  | [.value a] => some (.single a)
  | .value a :: .comma :: rest => (parseTerminated rest).map (.pushFront a)
  | .value _ :: .value _ :: _ | .comma :: _ => none

/-! ## Functions -/

inductive GenericParamKind where
  | lifetime
  | type
  | const
deriving DecidableEq

structure GenericParam where
  kind : GenericParamKind
  name : String
  bounds : List Tokens
deriving DecidableEq

/-- Generics: the angle-bracketed parameters and the predicates of the where clause. -/
structure Generics where
  params : List GenericParam
  whereClause : List Tokens
deriving DecidableEq

/-- Generics print only their angle-bracketed part. -/
def Generics.printed (g : Generics) : Generics := { g with whereClause := [] }

/-- An argument: the receiver, or a pattern with its type. -/
inductive FnArg where
  | receiver (tokens : Tokens)
  | typed (pat : Tokens) (ty : TypeTokens)
deriving DecidableEq

def FnArg.isReceiver : FnArg → Bool
  | .receiver _ => true
  | .typed _ _ => false

def FnArg.implTraits : FnArg → Nat
  | .receiver _ => 0
  | .typed _ ty => ty.implTraits

/-- A signature. Without an arrow, `output` is `none`. -/
structure Signature where
  ident : String
  generics : Generics
  inputs : Punctuated FnArg
  output : Option TypeTokens
deriving DecidableEq

mutual

/-- A function item: its attributes, its signature and the statements of its block. -/
inductive ItemFn where
  | mk (attrs : List Attribute) (sig : Signature) (stmts : List Stmt)

inductive Stmt where
  | fn (item : ItemFn)
  | semi (expr : Tokens)
  | expr (expr : Tokens)
  | other (tokens : Tokens)

end

def ItemFn.attrs : ItemFn → List Attribute
  | .mk attrs _ _ => attrs

def ItemFn.sig : ItemFn → Signature
  | .mk _ sig _ => sig

def ItemFn.stmts : ItemFn → List Stmt
  | .mk _ _ stmts => stmts

def ItemFn.withAttrs : ItemFn → List Attribute → ItemFn
  | .mk _ sig stmts, attrs => .mk attrs sig stmts

/-- Put statements at the start of the block. -/
def ItemFn.splice : ItemFn → List Stmt → ItemFn
  | .mk attrs sig stmts, new => .mk attrs sig (new ++ stmts)

def Stmt.asFn : Stmt → Option ItemFn
  | .fn item => some item
  | _ => none

/--
The statements that the tokens of an expression, with a `;` behind them or not, parse to at the
start of a block.
-/
def Expr.parseStmts (semi : Bool) : Expr → Option (List Stmt)
  | .whole tokens => some [if semi then .semi tokens else .expr tokens]
  | .blockThen block rest restParses =>
    if restParses then some [.expr block, if semi then .semi rest else .expr rest] else none
  | .letGuard tokens => if semi then some [.other tokens] else none

/-- Do the tokens parse at the start of a block, with a `;` behind them or not? -/
def Expr.reparses (semi : Bool) : Expr → Bool
  | .whole _ => true
  | .blockThen _ _ restParses => restParses
  | .letGuard _ => semi

section

variable (f : ItemFn) (attrs : List Attribute) (stmts : List Stmt)

@[simp] theorem withAttrs_attrs : (f.withAttrs attrs).attrs = attrs := by cases f; rfl

@[simp] theorem withAttrs_sig : (f.withAttrs attrs).sig = f.sig := by cases f; rfl

@[simp] theorem withAttrs_stmts : (f.withAttrs attrs).stmts = f.stmts := by cases f; rfl

@[simp] theorem splice_attrs : (f.splice stmts).attrs = f.attrs := by cases f; rfl

@[simp] theorem splice_sig : (f.splice stmts).sig = f.sig := by cases f; rfl

@[simp] theorem splice_stmts : (f.splice stmts).stmts = stmts ++ f.stmts := by cases f; rfl

end

end Syn
