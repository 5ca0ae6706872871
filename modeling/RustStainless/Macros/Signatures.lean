import RustStainless.Lib.Lists
import RustStainless.Macros.SpecNames

/-!
# Signatures of spec functions

The parameters of a spec function are spliced as tokens, with `, ret: T` behind them for a
postcondition. They parse as long as `ret` follows a parameter without a comma. The body has to
parse at the start of a block, and the name of the function has to be a part of an identifier. Of
the generics, only the angle-bracketed part is spliced.
-/

namespace Syn

variable {α : Type}

/-! ## Parsing what was printed -/

/-- Put elements in front, each with a comma. -/
def Punctuated.pushFronts (l : List α) (p : Punctuated α) : Punctuated α :=
  l.foldr .pushFront p

@[simp] theorem pushFronts_elems (l : List α) (p : Punctuated α) :
    (Punctuated.pushFronts l p).elems = l ++ p.elems := by
  induction l with
  | nil => rfl
  | cons a l ih => simpa [Punctuated.pushFronts, Punctuated.pushFront] using ih

/-- Elements, a comma, and then a list again. -/
theorem parse_separated_comma (rest : List (PunctToken α)) : ∀ (a : α) (l : List α),
    Punctuated.parseTerminated (separated (a :: l) ++ .comma :: rest) =
      (Punctuated.parseTerminated rest).map (.pushFronts (a :: l))
  | a, [] => by
    show Punctuated.parseTerminated (.value a :: .comma :: rest) = _
    rw [Punctuated.parseTerminated]
    rfl
  | a, b :: l => by
    show Punctuated.parseTerminated
      (.value a :: .comma :: (separated (b :: l) ++ .comma :: rest)) = _
    rw [Punctuated.parseTerminated, parse_separated_comma rest b l, Option.map_map]
    rfl

/-- Elements up to the end. -/
theorem parse_separated : ∀ l : List α, ∃ p : Punctuated α,
    Punctuated.parseTerminated (separated l) = some p ∧ p.elems = l
  | [] => ⟨.empty, rfl, rfl⟩
  | [a] => ⟨_, rfl, rfl⟩
  | a :: b :: l => by
    obtain ⟨p, hp, hl⟩ := parse_separated (b :: l)
    refine ⟨.pushFront a p, ?_, by simp [Punctuated.pushFront, hl]⟩
    rw [separated, Punctuated.parseTerminated, hp]
    rfl

/-- A list that is printed parses again, with the same elements. -/
theorem parse_toTokens (p : Punctuated α) : ∃ q : Punctuated α,
    Punctuated.parseTerminated p.toTokens = some q ∧ q.elems = p.elems := by
  obtain ⟨elems, trailing, hne⟩ := p
  cases trailing with
  | false => simpa [Punctuated.toTokens] using parse_separated elems
  | true =>
    cases elems with
    | nil => exact absurd rfl (hne rfl)
    | cons a l =>
      refine ⟨.pushFronts (a :: l) .empty, ?_, by simp [Punctuated.empty]⟩
      exact parse_separated_comma [] a l

/-- Another element with a comma in front parses only behind an element without one. -/
theorem parse_toTokens_concat (p : Punctuated α) (r : α) :
    (p.elems ≠ [] ∧ p.trailing = false ∧ ∃ q : Punctuated α,
      Punctuated.parseTerminated (p.toTokens ++ [.comma, .value r]) = some q ∧
        q.elems = p.elems ++ [r]) ∨
    (¬ (p.elems ≠ [] ∧ p.trailing = false) ∧
      Punctuated.parseTerminated (p.toTokens ++ [.comma, .value r]) = none) := by
  obtain ⟨elems, trailing, hne⟩ := p
  cases elems with
  | nil =>
    cases trailing with
    | true => exact absurd rfl (hne rfl)
    | false => exact .inr ⟨by simp, rfl⟩
  | cons a l =>
    cases trailing with
    | false =>
      refine .inl ⟨by simp, rfl, .pushFronts (a :: l) (.single r), ?_, ?_⟩
      · simp only [Punctuated.toTokens, Bool.false_eq_true, if_false, List.append_nil]
        exact parse_separated_comma [.value r] a l
      · simp [Punctuated.single]
    | true =>
      refine .inr ⟨by simp, ?_⟩
      simp only [Punctuated.toTokens, if_true, List.append_assoc, List.singleton_append]
      rw [parse_separated_comma]
      rfl

end Syn

namespace StainlessMacros

open Syn Stainless Lib

/-! ## What an expansion has generated -/

/-- The function itself is the last item of its expansion. -/
def itemAfter (item : ItemFn) (out : List ItemFn) : ItemFn := out.getLast?.getD item

/-- Where an expansion puts a function: next to the function it belongs to, or into its block. -/
inductive Place where
  | sibling
  | nested
deriving DecidableEq

/--
The functions that an expansion has put in front of the function, and those that it has put into the
block in front of the statements that were there.
-/
def generatedAt (before : ItemFn) (out : List ItemFn) : List (Place × ItemFn) :=
  let stmts := (itemAfter before out).stmts
  out.dropLast.map (Prod.mk .sibling) ++
    ((stmts.take (stmts.length - before.stmts.length)).filterMap Stmt.asFn).map (Prod.mk .nested)

/-- What an expansion has generated, wherever it stands. -/
def generatedFns (before : ItemFn) (out : List ItemFn) : List ItemFn :=
  (generatedAt before out).map Prod.snd

theorem generateFnWithSpec_ok {item : ItemFn} {specs : List Spec} {out : List ItemFn} :
    generateFnWithSpec item specs = .ok out ↔
      ∃ specFns, makeSpecFns item 0 specs = .ok specFns ∧
        out = if hasSelfParam item then specFns ++ [item] else [item.splice (specFns.map .fn)] := by
  unfold generateFnWithSpec
  cases h : makeSpecFns item 0 specs with
  | error e => simp [bind, Except.bind]
  | ok specFns =>
    simp only [bind, Except.bind, Except.ok.injEq, exists_eq_left']
    split <;> simp [eq_comm]

@[simp] theorem itemAfter_concat (item last : ItemFn) (fs : List ItemFn) :
    itemAfter item (fs ++ [last]) = last := by simp [itemAfter]

@[simp] theorem itemAfter_singleton (item last : ItemFn) : itemAfter item [last] = last := rfl

/-- They are the functions of the specs, all in the same place. -/
theorem generatedAt_eq (item : ItemFn) (specFns : List ItemFn) :
    generatedAt item
      (if hasSelfParam item then specFns ++ [item] else [item.splice (specFns.map .fn)]) =
        specFns.map (Prod.mk (if hasSelfParam item then .sibling else .nested)) := by
  split
  · simp [generatedAt]
  · simp [generatedAt, List.filterMap_map, Function.comp_def, Stmt.asFn]

theorem generatedFns_eq (item : ItemFn) (specFns : List ItemFn) :
    generatedFns item
      (if hasSelfParam item then specFns ++ [item] else [item.splice (specFns.map .fn)]) =
        specFns := by
  rw [generatedFns, generatedAt_eq, List.map_map]
  exact List.map_id specFns

/-- The function keeps its signature. -/
theorem itemAfter_sig (item : ItemFn) (specFns : List ItemFn) :
    (itemAfter item
      (if hasSelfParam item then specFns ++ [item] else [item.splice (specFns.map .fn)])).sig =
        item.sig := by
  split <;> simp

theorem makeSpecFns_cons {item : ItemFn} {i : Nat} {spec : Spec} {specs : List Spec}
    {fs : List ItemFn} : makeSpecFns item i (spec :: specs) = .ok fs ↔
      ∃ f rest, makeSpecFn item i spec = .ok f ∧ makeSpecFns item (i + 1) specs = .ok rest ∧
        fs = f :: rest := by
  rw [makeSpecFns]
  cases makeSpecFn item i spec with
  | error e => simp [bind, Except.bind]
  | ok f =>
    cases makeSpecFns item (i + 1) specs with
    | error e => simp [bind, Except.bind]
    | ok rest => simp [bind, Except.bind, eq_comm]

/-! ## The signature of a spec function -/

/-- The type that the result of a function has. -/
def resultTy (sig : Signature) : TypeTokens :=
  match sig.output with
  | some ty => ty
  | none => .plain "()"

/-- The parameter that a spec function has more than its function. -/
def retArg (item : ItemFn) : SpecType → List FnArg
  | .post => [.typed "ret" (resultTy item.sig)]
  | .pre | .measure => []

/-- The spec function has the parameters and the generics of the function. -/
structure SpecSignature (item : ItemFn) (spec : Spec) (f : ItemFn) : Prop where
  inputs : f.sig.inputs.elems = item.sig.inputs.elems ++ retArg item spec.typ
  generics : f.sig.generics = item.sig.generics

/-- Another parameter can follow the parameters of the function. -/
def TakesRet (item : ItemFn) : Prop :=
  item.sig.inputs.elems ≠ [] ∧ item.sig.inputs.trailing = false

/--
The tokens of the spec function parse: there is a place for `ret`, and the expression is a body.
Only that of a measure has a `;` behind it.
-/
structure SpecParses (item : ItemFn) (typ : SpecType) (expr : Expr) : Prop where
  ret : typ = .post → TakesRet item
  body : expr.reparses (typ = .measure)

theorem fnReturnTy_eq (item : ItemFn) : fnReturnTy item = resultTy item.sig := by
  unfold fnReturnTy resultTy
  cases item.sig.output <;> rfl

theorem parseStmts_cases (semi : Bool) (expr : Expr) :
    (expr.reparses semi = true ∧ ∃ body, expr.parseStmts semi = some body) ∨
    (expr.reparses semi = false ∧ expr.parseStmts semi = none) := by
  cases expr with
  | whole tokens => exact .inl ⟨rfl, _, rfl⟩
  | blockThen block rest restParses =>
    cases restParses with
    | true => exact .inl ⟨rfl, _, rfl⟩
    | false => exact .inr ⟨rfl, rfl⟩
  | letGuard tokens =>
    cases semi with
    | true => exact .inl ⟨rfl, _, rfl⟩
    | false => exact .inr ⟨rfl, rfl⟩

theorem specBody_eq (spec : Spec) : specBody spec = spec.expr.parseStmts (spec.typ = .measure) := by
  unfold specBody
  cases spec.typ <;> rfl

theorem parseInputs_cases (item : ItemFn) (typ : SpecType) :
    ((typ = .post → TakesRet item) ∧ ∃ inputs,
      Punctuated.parseTerminated (item.sig.inputs.toTokens ++ retParam item typ) = some inputs ∧
      inputs.elems = item.sig.inputs.elems ++ retArg item typ) ∨
    (¬ (typ = .post → TakesRet item) ∧
      Punctuated.parseTerminated (item.sig.inputs.toTokens ++ retParam item typ) = none) := by
  cases typ with
  | pre | measure =>
    obtain ⟨q, hq, helems⟩ := parse_toTokens item.sig.inputs
    refine .inl ⟨by simp, q, ?_, by simpa [retArg] using helems⟩
    simpa [retParam] using hq
  | post =>
    rcases parse_toTokens_concat item.sig.inputs (FnArg.typed "ret" (fnReturnTy item)) with
      ⟨hne, htr, q, hq, helems⟩ | ⟨hno, hq⟩
    · exact .inl ⟨fun _ => ⟨hne, htr⟩, q, hq, by rw [retArg, ← fnReturnTy_eq, helems]⟩
    · exact .inr ⟨fun h => hno (h rfl), hq⟩

/-- What `make_spec_fn` returns, and when. -/
theorem makeSpecFn_cases (item : ItemFn) (i : Nat) (spec : Spec) :
    (¬ IsRaw item.sig.ident ∧ SpecParses item spec.typ spec.expr ∧ ∃ inputs body,
      makeSpecFn item i spec = .ok (specFn item spec.typ
        (specText spec.typ (i + 1) item.sig.ident) inputs body) ∧
      inputs.elems = item.sig.inputs.elems ++ retArg item spec.typ) ∨
    (¬ (¬ IsRaw item.sig.ident ∧ SpecParses item spec.typ spec.expr) ∧
      ∃ e, makeSpecFn item i spec = .error e) := by
  unfold makeSpecFn
  -- The name comes first, then the parameters, and the body last.
  by_cases hraw : IsRaw item.sig.ident
  · have hnone := (specIdent_eq_none (t := spec.typ) (i := i + 1)).mpr hraw
    exact .inr ⟨fun h => h.1 hraw, .formatIdent, by rw [hnone]⟩
  · rw [specIdent_eq_some.mpr ⟨hraw, rfl⟩]
    rcases parseInputs_cases item spec.typ with ⟨hret, inputs, hinputs, helems⟩ | ⟨hno, hinputs⟩
    · rw [specBody_eq]
      rcases parseStmts_cases (spec.typ = .measure) spec.expr with
        ⟨hbody, body, hspec⟩ | ⟨hbody, hspec⟩
      · refine .inl ⟨hraw, ⟨hret, hbody⟩, inputs, body, ?_, helems⟩
        simp only [hinputs, hspec]
      · refine .inr ⟨fun h => ?_, .parseQuote, by simp only [hinputs, hspec]⟩
        rw [h.2.body] at hbody
        cases hbody
    · exact .inr ⟨fun h => hno h.2.ret, .parseQuote, by simp only [hinputs]⟩

/-- All spec functions are made if their names are identifiers and their tokens parse. -/
theorem makeSpecFns_ok {item : ItemFn} : ∀ {specs : List Spec} (i : Nat),
    (∀ spec ∈ specs, ¬ IsRaw item.sig.ident ∧ SpecParses item spec.typ spec.expr) →
    ∃ fs, makeSpecFns item i specs = .ok fs := by
  intro specs
  induction specs with
  | nil => exact fun i _ => ⟨[], rfl⟩
  | cons spec specs ih =>
    intro i h
    rcases makeSpecFn_cases item i spec with ⟨-, -, inputs, body, hf, -⟩ | ⟨hno, -⟩
    · obtain ⟨fs, hfs⟩ := ih (i + 1) fun s hs => h s (List.mem_cons_of_mem _ hs)
      exact ⟨_ :: fs, makeSpecFns_cons.mpr ⟨_, fs, hf, hfs, rfl⟩⟩
    · exact absurd (h spec List.mem_cons_self) hno

/-- What is known of a spec function, whatever its index is. -/
structure SpecFnOf (item : ItemFn) (spec : Spec) (f : ItemFn) : Prop where
  ident : ¬ IsRaw item.sig.ident
  parses : SpecParses item spec.typ spec.expr
  inputs : f.sig.inputs.elems = item.sig.inputs.elems ++ retArg item spec.typ
  generics : f.sig.generics = item.sig.generics.printed

theorem makeSpecFns_forall₂ {item : ItemFn} : ∀ {specs : List Spec} {i : Nat} {fs : List ItemFn},
    makeSpecFns item i specs = .ok fs → List.Forall₂ (SpecFnOf item) specs fs := by
  intro specs
  induction specs with
  | nil =>
    intro i fs h
    obtain rfl := Except.ok.inj h
    exact .nil
  | cons spec specs ih =>
    intro i fs h
    obtain ⟨f, rest, hf, hrest, rfl⟩ := makeSpecFns_cons.mp h
    refine .cons ?_ (ih hrest)
    rcases makeSpecFn_cases item i spec with
      ⟨hident, hparses, inputs, body, hg, hinputs⟩ | ⟨-, e, herr⟩
    · obtain rfl := Except.ok.inj (hf.symm.trans hg)
      exact ⟨hident, hparses, hinputs, rfl⟩
    · rw [herr] at hf
      cases hf

/-- Each spec gets a function with the signature of the specified one. -/
def SpecsHaveSignature (item : ItemFn) (specs : List Spec) : Prop :=
  ∃ out, generateFnWithSpec item specs = .ok out ∧
    List.Forall₂ (SpecSignature item) specs (generatedFns item out)

/--
**Every spec function has the signature of its function iff no postcondition meets a parameter list
that is empty or ends in a comma, every expression parses at the start of a block, and, if there are
specs, there is no where clause and the name is no raw identifier.**
-/
theorem specsHaveSignature_iff (item : ItemFn) (specs : List Spec) :
    SpecsHaveSignature item specs ↔
      (∀ spec ∈ specs,
        (spec.typ = .post → item.sig.inputs.elems ≠ [] ∧ item.sig.inputs.trailing = false) ∧
        spec.expr.reparses (spec.typ = .measure)) ∧
      (specs ≠ [] → item.sig.generics.whereClause = [] ∧ ¬ IsRaw item.sig.ident) := by
  have hprinted : item.sig.generics.printed = item.sig.generics ↔
      item.sig.generics.whereClause = [] := by
    constructor
    · intro h
      rw [← h, Generics.printed]
    · intro h
      rw [Generics.printed, ← h]
  constructor
  · rintro ⟨out, hout, hall⟩
    obtain ⟨specFns, hmake, rfl⟩ := generateFnWithSpec_ok.mp hout
    rw [generatedFns_eq] at hall
    have hfns := makeSpecFns_forall₂ hmake
    refine ⟨?_, fun hne => ?_⟩
    · intro spec hspec
      obtain ⟨f, -, h⟩ := forall₂_mem_left hfns hspec
      exact ⟨h.parses.ret, h.parses.body⟩
    · cases hall with
      | nil => exact absurd rfl hne
      | cons h _ =>
        cases hfns with
        | cons h' _ => exact ⟨hprinted.mp (h'.generics.symm.trans h.generics), h'.ident⟩
  · rintro ⟨hspecs, hne⟩
    have hmade : ∀ spec ∈ specs, ¬ IsRaw item.sig.ident ∧ SpecParses item spec.typ spec.expr :=
      fun spec hspec => ⟨(hne (List.ne_nil_of_mem hspec)).2, (hspecs spec hspec).1,
        (hspecs spec hspec).2⟩
    obtain ⟨specFns, hmake⟩ := makeSpecFns_ok 0 hmade
    refine ⟨_, generateFnWithSpec_ok.mpr ⟨specFns, hmake, rfl⟩, ?_⟩
    rw [generatedFns_eq]
    have hfns := makeSpecFns_forall₂ hmake
    cases specs with
    | nil =>
      cases hfns
      exact .nil
    | cons spec specs =>
      have hg := hprinted.mpr (hne (by simp)).1
      exact hfns.imp fun _ _ h => ⟨h.inputs, h.generics.trans hg⟩

/-- A postcondition on a function without parameters: the tokens `(, ret: i32)` do not parse. -/
theorem specsHaveSignature_noParams :
    ¬ SpecsHaveSignature
      (.mk []
        { ident := "answer"
          generics := { params := [], whereClause := [] }
          inputs := .empty
          output := some (.plain "i32") }
        [.expr "42"])
      [{ typ := .post, expr := .whole "ret > 0" }] := by
  rintro ⟨out, hout, -⟩
  cases hout

end StainlessMacros
