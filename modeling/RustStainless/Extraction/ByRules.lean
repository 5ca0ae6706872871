import RustStainless.Extraction.ImageExtracts
import RustStainless.Extraction.KrateImage

/-!
# Functions by the rules

Without an error, the bodies of a crate are translations by the rules: of the functions and of their
spec functions. No rule has a placeholder as its translation, and the specs of a function are layers
around its body.
-/

namespace Stainless

open Rustc St Lib Extraction

/-! ## Layers -/

/-- One predicate for some predicates. -/
inductive Conjunction : List St.Expr → St.Expr → Prop
  | single {t} : Conjunction [t] t
  | and {t u ts} : Conjunction (t :: u :: ts) (.and (t :: u :: ts))

/-- `body` with its measure. -/
inductive DecreasesLayer (body : St.Expr) : Option St.Expr → St.Expr → Prop
  | absent : DecreasesLayer body none body
  | present {measure} : DecreasesLayer body (some measure) (.decreases measure body)

/-- `body` with its preconditions. -/
inductive RequireLayer (body : St.Expr) : List St.Expr → St.Expr → Prop
  | absent : RequireLayer body [] body
  | present {ts pred} : Conjunction ts pred → RequireLayer body ts (.require pred body)

/-- `body` with its postconditions, in which `ret` stands for its value. -/
inductive EnsuringLayer (ret : Variable) (body : St.Expr) : List St.Expr → St.Expr → Prop
  | absent : EnsuringLayer ret body [] body
  | present {ts pred} : Conjunction ts pred →
      EnsuringLayer ret body ts (.ensuring body [{ v := ret }] pred)

/-- `Ensuring(Require(Decreases(body)))`, without the layers of which there is no spec. -/
def FnParts.Layers (p : FnParts) (full : St.Expr) : Prop :=
  ∃ t u, DecreasesLayer p.bodyExpr p.measure t ∧ RequireLayer t p.preExprs u ∧
    EnsuringLayer p.returnVar u p.postExprs full

theorem makeAnd_conjunction : ∀ {ts : List St.Expr}, ts ≠ [] → Conjunction ts (makeAnd ts)
  | [], h => absurd rfl h
  | [_], _ => .single
  | _ :: _ :: _, _ => .and

theorem wrapDecreases_layer (measure : Option St.Expr) (body : St.Expr) :
    DecreasesLayer body measure (wrapDecreases measure body) := by
  cases measure with
  | none => exact .absent
  | some measure => exact .present

theorem wrapRequire_layer (ts : List St.Expr) (body : St.Expr) :
    RequireLayer body ts (wrapRequire ts body) := by
  cases ts with
  | nil => exact .absent
  | cons t ts => exact .present (makeAnd_conjunction (by simp))

theorem wrapEnsuring_layer (ts : List St.Expr) (ret : Variable) (body : St.Expr) :
    EnsuringLayer ret body ts (wrapEnsuring ts { v := ret } body) := by
  cases ts with
  | nil => exact .absent
  | cons t ts => exact .present (makeAnd_conjunction (by simp))

/-- With two preconditions and no other spec, there is one layer. -/
theorem FnParts.eq_require (p : FnParts) {full t u : St.Expr} (h : p.Layers full)
    (hmeasure : p.measure = none) (hpre : p.preExprs = [t, u]) (hpost : p.postExprs = []) :
    full = .require (.and [t, u]) p.bodyExpr := by
  rw [FnParts.Layers, hmeasure, hpre, hpost] at h
  obtain ⟨_, _, hdecreases, hrequire, hensuring⟩ := h
  cases hdecreases
  cases hensuring with
  | present hconj => cases hconj
  | absent =>
    cases hrequire with
    | present hconj =>
      cases hconj
      rfl

theorem FnParts.layers (p : FnParts) : p.Layers p.fullBody :=
  ⟨_, _, wrapDecreases_layer _ _, wrapRequire_layer _ _, wrapEnsuring_layer _ _ _⟩

/-! ## Bodies and functions -/

section Rules

variable (tcx : Tcx) (w : View)

/-- A body that is translated by the rules, with a variable for each of its bindings. -/
structure BodyExtracts (body : Hir.Body) (ctx : BodyCtxt) (vars : Vars) (t : St.Expr) : Prop where
  keeps : ∀ h v, ctx.vars.get? h = some v → vars.get? h = some v
  covers : ∀ b ∈ body.bindings, vars.get? b.1 ≠ none
  expr : ExprExtracts tcx w.ids { ctx with vars := vars } body.value t

/-- The body of a spec function, with the variables of the original function for its parameters. -/
def SpecExtracts (original : TyExtractionCtxt) (params : List ValDef) (returnVar : Option Variable)
    (d : DefId) (t : St.Expr) : Prop :=
  ∃ ctx vars, correlateSpecFn tcx d original params returnVar = .ok ctx ∧
    BodyExtracts tcx w (tcx.bodyOf d) ctx vars t

/-- A local function that is put together from `p`, with all parts translated by the rules. -/
structure FnExtracts (d : DefId) (pre post : List DefId) (measure : Option DefId) (fd : FunDef)
    (p : FnParts) : Prop where
  id : w.ids d = some fd.id
  generics : GenericsImage tcx w.ids d p.txtcx
  params : List.Forall₂ (fun h vd => p.vars.get? h = some vd.v) (paramHirIds (tcx.bodyOf d))
    fd.params
  returnType : suppImage tcx w.ids p.txtcx.indexToTparam.get? (tcx.fnSig d).output =
    some fd.returnType
  body : BodyExtracts tcx w (tcx.bodyOf d) { txtcx := p.txtcx, vars := [] } p.vars p.bodyExpr
  noMeasure : measure = none → p.measure = none
  measure : ∀ m ∈ measure, ∃ t, SpecExtracts tcx w p.txtcx fd.params none m t ∧
    measureOf t = .ok p.measure
  pre : List.Forall₂ (SpecExtracts tcx w p.txtcx fd.params none) pre p.preExprs
  post : List.Forall₂ (SpecExtracts tcx w p.txtcx fd.params (some p.returnVar)) post p.postExprs
  fullBody : p.Layers fd.fullBody

/-- Every function is one that the visitor found, by the rules, or a stub. -/
def FunctionsExtract (v : ItemVisitor) (functions : List FunDef) : Prop :=
  ∀ fd ∈ functions,
    (∃ f ∈ v.functions, ∃ p, FnExtracts tcx w f.defId (v.fnSpecs f.defId).preFns
      (v.fnSpecs f.defId).postFns (v.fnSpecs f.defId).measureFns.head? fd p) ∨
    ∃ d, d.isLocal = false ∧ ExternImage tcx w d fd

end Rules

variable {tcx : Tcx} {w : View}

theorem BodyImage.extracts {body : Hir.Body} {ctx : BodyCtxt} {vars : Vars} {t : St.Expr}
    (h : BodyImage tcx w body ctx vars t) : BodyExtracts tcx w body ctx vars t :=
  ⟨h.keeps, h.covers, exprImage_extracts _ _ h.expr⟩

theorem SpecImage.extracts {original : TyExtractionCtxt} {params : List ValDef}
    {returnVar : Option Variable} {d : DefId} {t : St.Expr}
    (h : SpecImage tcx w original params returnVar d t) :
    SpecExtracts tcx w original params returnVar d t := by
  obtain ⟨ctx, vars, hctx, hbody⟩ := h
  exact ⟨ctx, vars, hctx, hbody.extracts⟩

/-- What is put together from images is put together by the rules. -/
theorem FnImage.extracts {d : DefId} {pre post : List DefId} {measure : Option DefId} {fd : FunDef}
    {p : FnParts} (h : FnImage tcx w d pre post measure fd p) :
    FnExtracts tcx w d pre post measure fd p where
  id := h.id
  generics := h.generics
  params := h.params
  returnType := h.returnType
  body := h.body.extracts
  noMeasure := h.noMeasure
  measure := by
    intro m hm
    obtain ⟨t, ht, hmeasure⟩ := h.measure m hm
    exact ⟨t, ht.extracts, hmeasure⟩
  pre := h.pre.imp fun _ _ hd => hd.extracts
  post := h.post.imp fun _ _ hd => hd.extracts
  fullBody := by
    rw [h.fullBody]
    exact p.layers

/-- **A crate is extracted by the rules**, when no error is reported. -/
theorem processCrate_extracts (hok : TcxOk tcx) {krate : Hir.Crate} (hk : KrateOk tcx krate)
    {s : Extraction} (h : processCrate tcx krate .new = .ok ((), s)) (hn : s.NoErrors) :
    FunctionsExtract tcx s.view (.ofKrate tcx krate) s.functions.values := by
  obtain ⟨-, hex⟩ := processCrate_ok hok hk h hn
  obtain ⟨externals, entries, stubs, hfunctions, hentries, hstubs, hexternals⟩ := hex.functions
  rw [hfunctions]
  intro fd hfd
  obtain ⟨e, he, rfl⟩ := List.mem_map.mp hfd
  rcases List.mem_append.mp he with he | he
  · obtain ⟨f, hf, -, -, p, himg⟩ := forall₂_mem_right hentries he
    exact .inl ⟨f, hf, p, himg.extracts⟩
  · obtain ⟨d, hd, -, himg⟩ := forall₂_mem_right hstubs he
    exact .inr ⟨d, ((hexternals d).mp hd).2, himg⟩

end Stainless
