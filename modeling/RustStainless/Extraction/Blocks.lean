import RustStainless.Extraction.IfShape

/-!
# Flattening of blocks

A block becomes a spine: a `Block` for each run of expression statements and a `Let` for each `let`,
with everything that follows inside its body. What is at the end of the spine is the final
expression, which may be a block or a `let` itself.
-/

namespace Stainless

open Rustc St Lib

/-! ## Statements and spines -/

/-- A statement that is extracted. -/
inductive Item where
  | expr (e : St.Expr)
  | letS (vd : ValDef) (init : St.Expr)

/-- The statements are extracted one after the other, and no `let` among them is refused. -/
inductive ItemsExtract (tcx : Tcx) (ctx : BodyCtxt) :
    List Hair.Stmt → List Item → Extraction → Extraction → Prop
  | nil {s} : ItemsExtract tcx ctx [] [] s s
  | expr {e v stmts items s s' s''} (hexpr : extractExpr tcx ctx e s = .ok (v, s'))
      (hrest : ItemsExtract tcx ctx stmts items s' s'') :
      ItemsExtract tcx ctx (.expr e :: stmts) (.expr v :: items) s s''
  | letS {pattern init v i stmts items s s₁ s₂ s'}
      (hpattern : tryPatternToVar (xtorOps tcx ctx) pattern false s = .ok (.ok v, s₁))
      (hinit : extractExpr tcx ctx init s₁ = .ok (i, s₂))
      (hrest : ItemsExtract tcx ctx stmts items s₂ s') :
      ItemsExtract tcx ctx (.letS pattern (some init) :: stmts) (.letS { v := v } i :: items) s s'

/-- The final expression is extracted, if there is one. Otherwise it is unit. -/
inductive FinalExtracts (tcx : Tcx) (ctx : BodyCtxt) :
    Option Hair.Expr → St.Expr → Extraction → Extraction → Prop
  | absent {s} : FinalExtracts tcx ctx none .unitLiteral s s
  | present {e v s s'} (hexpr : extractExpr tcx ctx e s = .ok (v, s')) :
      FinalExtracts tcx ctx (some e) v s s'

def Item.IsLet : Item → Prop
  | .expr _ => False
  | .letS _ _ => True

/--
The tree is the spine of the items with `final` at its end. A `Block` holds all the expressions up
to the next `let` or to the end, and there is at least one.
-/
inductive Spine (final : St.Expr) : List Item → St.Expr → Prop
  | final : Spine final [] final
  | block {es items tree} (hne : es ≠ []) (hlet : ∀ item ∈ items.head?, item.IsLet)
      (hrest : Spine final items tree) :
      Spine final (es.map .expr ++ items) (.block es tree)
  | letIn {vd init items body} (hrest : Spine final items body) :
      Spine final (.letS vd init :: items) (.letIn vd init body)

/-- The first items of a tree, read from left to right, and what is behind them. -/
def readItems : Nat → St.Expr → List Item × St.Expr
  | 0, tree => ([], tree)
  | n + 1, .block es tree =>
    let (items, rest) := readItems (n + 1 - es.length) tree
    (es.map .expr ++ items, rest)
  | n + 1, .letIn vd init body =>
    let (items, rest) := readItems n body
    (.letS vd init :: items, rest)
  | _ + 1, tree => ([], tree)

/-- A spine can be read back: each item is in it once, in its place. -/
theorem Spine.readItems_eq {final tree : St.Expr} {items : List Item} (h : Spine final items tree) :
    readItems items.length tree = (items, final) := by
  induction h with
  | final => rw [List.length_nil, readItems]
  | @block es items tree hne _ _ ih =>
    obtain ⟨e, es', rfl⟩ := List.exists_cons_of_ne_nil hne
    have hlength : (List.map Item.expr (e :: es') ++ items).length =
        es'.length + items.length + 1 := by
      simp
    have hbehind : es'.length + items.length + 1 - (e :: es').length = items.length := by
      simp
    rw [hlength, readItems, hbehind, ih]
  | letIn _ ih => rw [List.length_cons, readItems, ih]

/-! ## The extractor builds a spine -/

theorem spine_finishBlock {final tree : St.Expr} {items : List Item} (acc : List St.Expr)
    (hlet : ∀ item ∈ items.head?, item.IsLet) (h : Spine final items tree) :
    Spine final (acc.map .expr ++ items) (finishBlock acc tree) := by
  cases acc with
  | nil => exact h
  | cons e acc => exact .block (List.cons_ne_nil _ _) hlet h

variable {tcx : Tcx} {ctx : BodyCtxt}

/-- The accumulated expressions are the items since the last `let`. -/
theorem extractBlock_spine {stmts : List Hair.Stmt} {items : List Item} {s s' : Extraction}
    (h : ItemsExtract tcx ctx stmts items s s') (acc : List St.Expr) (final : St.Expr) :
    ∃ tree, extractBlock_ (xtorOps tcx ctx) (stmtActions tcx (xtorOps tcx ctx) stmts) acc final s =
        .ok (tree, s') ∧
      Spine final (acc.map .expr ++ items) tree := by
  induction h generalizing acc with
  | nil =>
    refine ⟨finishBlock acc final, rfl, ?_⟩
    exact spine_finishBlock acc (by simp) .final
  | @expr e v stmts items s s' s'' hexpr _ ih =>
    obtain ⟨tree, hrun, hspine⟩ := ih (acc ++ [v])
    refine ⟨tree, (Run.bind_eq hexpr).trans hrun, ?_⟩
    simpa using hspine
  | @letS pattern init v i stmts items s s₁ s₂ s' hpattern hinit _ ih =>
    obtain ⟨body, hrun, hspine⟩ := ih []
    -- A `let` ends the block of the expressions in front of it, and what follows is its body.
    refine ⟨finishBlock acc (.letIn { v := v } i body), ?_, ?_⟩
    · rw [stmtActions, initAction, extractBlock_, Run.bind_eq hpattern]
      exact (Run.bind_eq hinit).trans ((Run.bind_eq hrun).trans rfl)
    · exact spine_finishBlock acc (by simp [Item.IsLet]) (.letIn hspine)

theorem FinalExtracts.run {expr : Option Hair.Expr} {final : St.Expr} {s s' : Extraction}
    (h : FinalExtracts tcx ctx expr final s s') :
    extractFinal tcx (xtorOps tcx ctx) expr s = .ok (final, s') := by
  cases h with
  | absent =>
    rw [extractFinal]
    rfl
  | present hexpr =>
    rw [extractFinal]
    exact hexpr

/-- **A block keeps its statements** in order and in scope: it is extracted to their spine, with the
final expression at its end, and unit if there is none. -/
theorem extractExpr_block {ty : Ty} {stmts : List Hair.Stmt} {expr : Option Hair.Expr}
    {final : St.Expr} {items : List Item} {s s₁ s' : Extraction}
    (hfinal : FinalExtracts tcx ctx expr final s s₁)
    (hitems : ItemsExtract tcx ctx stmts items s₁ s') :
    ∃ tree, extractExpr tcx ctx (.block ty true stmts expr) s = .ok (tree, s') ∧
      Spine final items tree ∧ readItems items.length tree = (items, final) := by
  obtain ⟨tree, hrun, hspine⟩ := extractBlock_spine hitems [] final
  refine ⟨tree, ?_, hspine, hspine.readItems_eq⟩
  rw [extractExpr, extractExprWith, if_pos rfl]
  exact (Run.bind_eq hfinal.run).trans hrun

/-- `{ true; let x = false; true; x }` -/
theorem extractExpr_block_oneLet :
    let x : Variable := { id := ⟨⟨"x", 0, 0⟩, ["x"]⟩, tpe := .booleanType, flags := [] }
    let ctx : BodyCtxt := { noVars with vars := [(⟨⟨0, 0⟩, 7⟩, x)] }
    let stmts : List Hair.Stmt :=
      [.expr (boolExpr true),
        .letS (.binding .bool .not .byValue ⟨⟨0, 0⟩, 7⟩ none) (some (boolExpr false)),
        .expr (boolExpr true)]
    let items : List Item :=
      [.expr (.literal (.boolean true)), .letS { v := x } (.literal (.boolean false)),
        .expr (.literal (.boolean true))]
    ∃ tree,
      extractExpr .empty ctx (.block .bool true stmts (some (.varRef .bool ⟨⟨0, 0⟩, 7⟩))) .new =
        .ok (tree, .new) ∧
      Spine (.variable x) items tree ∧ readItems 3 tree = (items, .variable x) := by
  intro x ctx stmts items
  have hitems : ItemsExtract .empty ctx stmts items .new .new :=
    .expr rfl (.letS rfl rfl (.expr rfl .nil))
  have hfinal : FinalExtracts .empty ctx (some (.varRef .bool ⟨⟨0, 0⟩, 7⟩))
      (.variable x) .new .new :=
    .present rfl
  exact extractExpr_block hfinal hitems

end Stainless
