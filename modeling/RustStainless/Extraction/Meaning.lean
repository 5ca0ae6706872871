import RustStainless.Extraction.BlockMeaning
import RustStainless.Extraction.BindingsImage
import RustStainless.Extraction.KrateImage
import RustStainless.Extraction.ReadBack

/-!
# What expressions evaluate to

The translation of an expression has the image of its value, if Rust gets to the value without a
negative literal of fewer than 128 bits, and without a pattern with such a literal or with the empty
tuple.
-/

namespace Stainless

open Rustc St Lib

section Environments

variable {tcx : Tcx} {ids : Ids} {ctx : BodyCtxt} {P : Program} {ρ : Hair.Env} {σ : St.Env}

/-! ## Operators -/

theorem evalEq_image {u u' v : Hair.Value} {w w' : St.Value}
    (h : Hair.evalBinary .eq u u' = some v) (hw : valueImage tcx ids u = some w)
    (hw' : valueImage tcx ids u' = some w') : v = .bool (w.same w') := by
  cases u with
  | int s n x =>
    cases u' with
    | int s' n' y =>
      obtain rfl := Option.some.inj hw
      obtain rfl := Option.some.inj hw'
      simp only [Hair.evalBinary] at h
      split_ifs at h with hty
      obtain ⟨rfl, rfl⟩ := hty
      obtain rfl := Option.some.inj h
      simp [Value.same, Bool.beq_eq_decide_eq]
    | _ => cases h
  | bool a =>
    cases u' with
    | bool b =>
      obtain rfl := Option.some.inj hw
      obtain rfl := Option.some.inj hw'
      obtain rfl := Option.some.inj h
      rw [Value.same]
    | _ => cases h
  | _ => cases h

/-- `!=` is the negation of `==`. -/
theorem evalNe_eq {u u' v : Hair.Value} (h : Hair.evalBinary .ne u u' = some v) :
    ∃ b, Hair.evalBinary .eq u u' = some (.bool b) ∧ v = .bool (!b) := by
  cases u with
  | int s n x =>
    cases u' with
    | int s' n' y =>
      simp only [Hair.evalBinary] at h ⊢
      split_ifs at h ⊢ with hty
      obtain rfl := Option.some.inj h
      exact ⟨decide (x = y), rfl, by simp⟩
    | _ => cases h
  | bool a =>
    cases u' with
    | bool b =>
      obtain rfl := Option.some.inj h
      exact ⟨a == b, rfl, rfl⟩
    | _ => cases h
  | _ => cases h

/-- Operators on bit vectors give integers or booleans. -/
theorem evalInts_isSome (tcx : Tcx) (ids : Ids) {op : Hair.BinOp} {signed : Bool} {size : Nat}
    {x y : Int} {v : Hair.Value}
    (h : Hair.evalInts op signed size x y = some v) : ∃ w, valueImage tcx ids v = some w := by
  cases op with
  | div | rem =>
    simp only [Hair.evalInts] at h
    split_ifs at h
    obtain rfl := Option.some.inj h
    exact ⟨_, rfl⟩
  | shl | shr | offset => cases h
  | _ =>
    obtain rfl := Option.some.inj h
    exact ⟨_, rfl⟩

theorem evalShift_isSome (tcx : Tcx) (ids : Ids) {isShl signed : Bool} {size : Nat} {x y : Int}
    {v : Hair.Value}
    (h : Hair.evalShift isShl signed size x y = some v) : ∃ w, valueImage tcx ids v = some w := by
  unfold Hair.evalShift at h
  by_cases hy : 0 ≤ y ∧ y < size
  · rw [if_pos hy] at h
    obtain rfl := Option.some.inj h
    exact ⟨_, rfl⟩
  · simp [hy] at h

theorem evalBinary_bvOperator (ids : Ids) {op : Hair.BinOp} {operator : BinaryOperator}
    (hop : bvOperator op = some operator) {s s' : Bool} {n n' : Nat} {x y : Int} {v : Hair.Value}
    (h : Hair.evalBinary op (.int s n x) (.int s' n' y) = some v) {ty : Ty}
    (hfits : v.fits tcx ty = true) : ∃ w, valueImage tcx ids v = some w ∧
      evalBinary operator (.bv s x n) (.bv s' y n') = some w := by
  have hints : s = s' ∧ n = n' ∧ Hair.evalInts op s n x y = some v := by
    cases op with
    | shl | shr => cases hop
    | _ =>
      simp only [Hair.evalBinary] at h
      split_ifs at h with hty
      exact ⟨hty.1, hty.2, h⟩
  obtain ⟨rfl, rfl, hints⟩ := hints
  obtain ⟨w, hw⟩ := evalInts_isSome tcx ids hints
  have hne : operator ≠ .equals := by
    rintro rfl
    cases op <;> cases hop
  refine ⟨w, hw, ?_⟩
  rw [evalBinary, if_neg hne]
  show (if s = s ∧ n = n then bvBinary operator s n x y else none) = some w
  rw [if_pos ⟨rfl, rfl⟩, bvBinary_image hop hints hfits, hw]

theorem evalBinary_shiftOperator (ids : Ids) {op : Hair.BinOp} {operator : BinaryOperator}
    {ty1 : Ty}
    (hop : shiftOperator ty1 op = some operator) {s s' : Bool} {n n' : Nat} {x y : Int}
    {v : Hair.Value} (h : Hair.evalBinary op (.int s n x) (.int s' n' y) = some v)
    (hty : Hair.intType ty1 = some (s, n)) (hx : Hair.Representable s n x) {ty : Ty}
    (hfits : v.fits tcx ty = true) : ∃ w, valueImage tcx ids v = some w ∧
      evalBinary operator (.bv s x n) (.bv s y n) = some w := by
  have hsigned : isSignedBvType ty1 = s := by
    cases ty1 <;> simp_all [Hair.intType, isSignedBvType]
  have hshift : ∃ isShl, Hair.evalShift isShl s n x y = some v ∧
      operator = if isShl then .bvShiftLeft else if s then .bvAShiftRight else .bvLShiftRight := by
    cases op with
    | shl => exact ⟨true, h, (Option.some.inj hop).symm⟩
    | shr => exact ⟨false, h, hsigned ▸ (Option.some.inj hop).symm⟩
    | _ => cases hop
  obtain ⟨isShl, hshift, hoperator⟩ := hshift
  obtain ⟨w, hw⟩ := evalShift_isSome tcx ids hshift
  have hne : operator ≠ .equals := by
    rw [hoperator]
    cases isShl <;> cases s <;> simp
  refine ⟨w, hw, ?_⟩
  rw [evalBinary, if_neg hne]
  show (if s = s ∧ n = n then bvBinary operator s n x y else none) = some w
  rw [if_pos ⟨rfl, rfl⟩, hoperator, bvBinary_shift hshift hx hfits, hw]

/-! ## Fields -/

/-- The fields of a constructor have different ids. -/
def FieldsApart (tcx : Tcx) (ids : Ids) : Prop :=
  ∀ did sort, adtIds tcx ids did = some sort → ∀ c ∈ sort, (c.fields.map (·.globalId)).Nodup

/-- The program has the constructors with their fields. -/
def HasAdts (tcx : Tcx) (ids : Ids) (P : Program) : Prop :=
  ∀ did sort, adtIds tcx ids did = some sort → ∀ c ∈ sort,
    P.fields c.id.globalId = some (c.fields.map (·.globalId))

theorem evalTupleSelect_image {u v : Hair.Value} {tys : List Ty} {name : Nat} {w : St.Value}
    (hfits : u.fits tcx (.tuple tys) = true) (hv : u.field name = some v)
    (hw : valueImage tcx ids u = some w) :
    ∃ w', valueImage tcx ids v = some w' ∧ evalTupleSelect w (name + 1) = some w' := by
  cases u with
  | tuple vs =>
    obtain ⟨ws, hws, rfl⟩ := Option.map_eq_some_iff.mp hw
    have hv : vs[name]? = some v := hv
    have himgs := valueImages_eq_some.mp hws
    obtain ⟨hlt, -⟩ := List.getElem?_eq_some_iff.mp hv
    have hlt' : name < ws.length := himgs.length_eq ▸ hlt
    have hws : ws[name]? = some ws[name] := List.getElem?_eq_getElem hlt'
    obtain ⟨v', hv', himg⟩ := forall₂_getElem? himgs hws
    obtain rfl := Option.some.inj (hv.symm.trans hv')
    refine ⟨_, himg, ?_⟩
    cases ws with
    | nil => simp at hws
    | cons w' ws' => exact hws
  | adt did i vs => simp [Hair.Value.fits] at hfits
  | _ => cases hv

theorem evalSelector_image {u v : Hair.Value} {did : DefId} {substs : List Ty} {name : Nat}
    {w : St.Value} {constructor : ConstructorIds} {fieldId : SymbolIdentifier}
    (hP : HasAdts tcx ids P) (hfields : FieldsApart tcx ids)
    (hsort : adtIds tcx ids did = some [constructor])
    (hfield : constructor.fields[name]? = some fieldId)
    (hfits : u.fits tcx (.adt did substs) = true) (hv : u.field name = some v)
    (hw : valueImage tcx ids u = some w) :
    ∃ w', valueImage tcx ids v = some w' ∧ evalSelector P fieldId w = some w' := by
  cases u with
  | adt did' i vs =>
    cases i with
    | zero =>
      have hv : vs[name]? = some v := hv
      simp only [Hair.Value.fits, Bool.and_eq_true, decide_eq_true_eq] at hfits
      obtain rfl : did' = did := hfits.1.1
      obtain ⟨c, hc, hw⟩ := Option.bind_eq_some_iff.mp hw
      obtain ⟨ws, hws, rfl⟩ := Option.map_eq_some_iff.mp hw
      obtain ⟨sort, hsort', hc⟩ := Option.bind_eq_some_iff.mp hc
      obtain rfl := Option.some.inj (hsort.symm.trans hsort')
      obtain rfl : constructor.id.globalId = c := by simpa using hc
      have himgs := valueImages_eq_some.mp hws
      obtain ⟨hlt, -⟩ := List.getElem?_eq_some_iff.mp hv
      have hlt' : name < ws.length := himgs.length_eq ▸ hlt
      have hws : ws[name]? = some ws[name] := List.getElem?_eq_getElem hlt'
      obtain ⟨v', hv', himg⟩ := forall₂_getElem? himgs hws
      obtain rfl := Option.some.inj (hv.symm.trans hv')
      refine ⟨_, himg, ?_⟩
      -- The selector is the id of this field only.
      have hnodup := hfields did' _ hsort constructor List.mem_cons_self
      have hindex : (constructor.fields.map (·.globalId)).idxOf fieldId.globalId = name := by
        obtain ⟨hfieldLt, hget⟩ := List.getElem?_eq_some_iff.mp hfield
        have hkeyLt : name < (constructor.fields.map (·.globalId)).length := by simpa using hfieldLt
        have hkey : fieldId.globalId = (constructor.fields.map (·.globalId))[name] := by simp [hget]
        rw [hkey]
        exact hnodup.idxOf_getElem name hkeyLt
      rw [evalSelector, hP did' _ hsort constructor List.mem_cons_self, Option.bind_some, hindex,
        hws]
    | succ i => cases hv
  | tuple vs => simp [Hair.Value.fits] at hfits
  | _ => cases hv

/-- The values of a construction, in the order of the fields. -/
theorem evalFields_sorted {fields : List (Nat × Hair.Expr)} {vals : List (Nat × Hair.Value)}
    {n : Nat} {vs : List Hair.Value}
    (h : Hair.Expr.evalFields tcx faithful ρ fields = some vals)
    (hvs : Hair.fieldValues n vals = some vs) :
    Hair.Expr.evalAll tcx faithful ρ ((sortByIndex fields).map Prod.snd) = some vs := by
  obtain ⟨zs, rfl, rfl, hzs⟩ := evalFields_eq_some h
  rw [← fieldValues_eq_some hvs, sortByIndex_map (fun z : Hair.Expr × Hair.Value => z.1) zs,
    sortByIndex_map (fun z : Hair.Expr × Hair.Value => z.2) zs, List.map_map, List.map_map]
  exact evalAll_map fun z hz => hzs z (mem_sortByIndex.mp hz)

/-! ## Expressions -/

/-- The ids of `Box::new` have its path, and no standard item is called like it. -/
theorem isBoxNew_fnDef {did : DefId} {substs : List Ty}
    (h : Hair.isBoxNew tcx (.fnDef did substs) = true) :
    tcx.defPathStr did = "std::boxed::Box::<T>::new" ∧ tcx.stdItems.defToItemOpt did = none := by
  simpa [Hair.isBoxNew] using h

theorem boxNew_path (hpaths : PathIds tcx ids) {did : DefId} {fdId : SymbolIdentifier}
    (hpath : tcx.defPathStr did = "std::boxed::Box::<T>::new") (hid : ids did = some fdId) :
    fdId.symbolPath = boxNewPath := by
  rw [hpaths did fdId hid, symbolPathFromDefId, hpath]
  decide

/-- What is evaluated as a call is `Box::new` of the first argument. -/
theorem eval_call {ty : Ty} {did : DefId} {substs : List Ty} {args : List Hair.Expr}
    {v : Hair.Value}
    (hv : (Hair.Expr.call ty (.fnDef did substs) args).eval tcx faithful ρ = some v) :
    (tcx.defPathStr did = "std::boxed::Box::<T>::new" ∧ tcx.stdItems.defToItemOpt did = none) ∧
      ∃ arg rest u, args = arg :: rest ∧ arg.eval tcx faithful ρ = some u ∧ v = .box u := by
  rw [Hair.Expr.eval] at hv
  split_ifs at hv with hbox
  refine ⟨isBoxNew_fnDef hbox, ?_⟩
  obtain ⟨hv, -⟩ := Hair.checked_eq_some.mp hv
  obtain ⟨us, hus, hv⟩ := Option.bind_eq_some_iff.mp hv
  cases args with
  | nil =>
    obtain rfl : [] = us := by simpa [Hair.Expr.evalAll] using hus
    cases hv
  | cons arg rest =>
    rw [Hair.Expr.evalAll] at hus
    obtain ⟨u, hu, hus⟩ := Option.bind_eq_some_iff.mp hus
    obtain ⟨us', -, rfl⟩ := Option.map_eq_some_iff.mp hus
    exact ⟨arg, rest, u, rfl, hu, (Option.some.inj hv).symm⟩

/-! ### Operators -/

/-- A value and its image, where the expression and its translation have them. -/
structure HasValue (tcx : Tcx) (ids : Ids) (P : Program) (ρ : Hair.Env) (σ : St.Env) (e : Hair.Expr)
    (t : St.Expr) (v : Hair.Value) (w : St.Value) : Prop where
  value : e.eval tcx faithful ρ = some v
  fits : v.fits tcx e.ty = true
  image : valueImage tcx ids v = some w
  eval : t.eval P σ = some w

section Nodes

variable {ty : Ty} {e lhs rhs : Hair.Expr} {t a b : St.Expr} {v : Hair.Value}

theorem Means.hasValue (h : Means tcx ids ctx P e t) (henv : EnvImage tcx ids ctx ρ σ)
    (hv : e.eval tcx faithful ρ = some v) : ∃ w, HasValue tcx ids P ρ σ e t v w := by
  obtain ⟨w, hw, ht⟩ := h ρ σ v henv hv
  exact ⟨w, hv, eval_fits hv, hw, ht⟩

theorem unary_operand {op : Hair.UnOp} (hv : (Hair.Expr.unary ty op e).eval tcx faithful ρ = some v)
    (h : Means tcx ids ctx P e t) (henv : EnvImage tcx ids ctx ρ σ) :
    v.fits tcx ty = true ∧
      ∃ u w, Hair.evalUnary op u = some v ∧ HasValue tcx ids P ρ σ e t u w := by
  rw [Hair.Expr.eval] at hv
  obtain ⟨hv, hfits⟩ := Hair.checked_eq_some.mp hv
  obtain ⟨u, hu, hv⟩ := Option.bind_eq_some_iff.mp hv
  obtain ⟨w, hw⟩ := h.hasValue henv hu
  exact ⟨hfits, u, w, hv, hw⟩

theorem binary_operands {op : Hair.BinOp}
    (hv : (Hair.Expr.binary ty op lhs rhs).eval tcx faithful ρ = some v)
    (ha : Means tcx ids ctx P lhs a) (hb : Means tcx ids ctx P rhs b)
    (henv : EnvImage tcx ids ctx ρ σ) :
    v.fits tcx ty = true ∧ ∃ u u' w w', Hair.evalBinary op u u' = some v ∧
      HasValue tcx ids P ρ σ lhs a u w ∧ HasValue tcx ids P ρ σ rhs b u' w' := by
  rw [Hair.Expr.eval] at hv
  obtain ⟨hv, hfits⟩ := Hair.checked_eq_some.mp hv
  obtain ⟨u, hu, hv⟩ := Option.bind_eq_some_iff.mp hv
  obtain ⟨u', hu', hv⟩ := Option.bind_eq_some_iff.mp hv
  obtain ⟨w, hw⟩ := ha.hasValue henv hu
  obtain ⟨w', hw'⟩ := hb.hasValue henv hu'
  exact ⟨hfits, u, u', w, w', hv, hw, hw'⟩

theorem bvNot_means (h : Means tcx ids ctx P e t) (hty : isBvType e.ty) :
    Means tcx ids ctx P (.unary ty .not e) (.unary .bvNot t) := by
  intro ρ σ v henv hv
  obtain ⟨-, u, w, hv, hu⟩ := unary_operand hv h henv
  obtain ⟨s, n, x, rfl, -, -⟩ := Hair.Value.fits_bv hty hu.fits
  obtain rfl := Option.some.inj hu.image
  have himg := evalUnary_bvNot tcx ids hv
  obtain rfl := Option.some.inj hv
  refine ⟨_, rfl, ?_⟩
  rw [St.Expr.eval, hu.eval, Option.bind_some, himg]
  rfl

theorem boolNot_means (h : Means tcx ids ctx P e t) (hty : e.ty.isBool) :
    Means tcx ids ctx P (.unary ty .not e) (.unary .not t) := by
  intro ρ σ v henv hv
  obtain ⟨-, u, w, hv, hu⟩ := unary_operand hv h henv
  obtain ⟨b, rfl⟩ := Hair.Value.fits_bool hty hu.fits
  obtain rfl := Option.some.inj hu.image
  obtain rfl := Option.some.inj hv
  refine ⟨_, rfl, ?_⟩
  rw [St.Expr.eval, hu.eval, Option.bind_some, evalUnary]

theorem neg_means (h : Means tcx ids ctx P e t) :
    Means tcx ids ctx P (.unary ty .neg e) (.unary .uMinus t) := by
  intro ρ σ v henv hv
  obtain ⟨hfits, u, w, hv, hu⟩ := unary_operand hv h henv
  cases u with
  | int s n x =>
    obtain rfl := Option.some.inj hu.image
    have himg := evalUnary_uMinus ids hv hfits
    obtain rfl := Option.some.inj hv
    refine ⟨_, rfl, ?_⟩
    rw [St.Expr.eval, hu.eval, Option.bind_some, himg]
    rfl
  | _ => cases hv

theorem eval_equals {w w' : St.Value} (ha : a.eval P σ = some w) (hb : b.eval P σ = some w') :
    (St.Expr.binary .equals a b).eval P σ = some (.boolean (w.same w')) := by
  rw [St.Expr.eval, ha, Option.bind_some, hb, Option.bind_some]
  unfold evalBinary
  rw [if_pos rfl]

theorem eq_means (ha : Means tcx ids ctx P lhs a) (hb : Means tcx ids ctx P rhs b) :
    Means tcx ids ctx P (.binary ty .eq lhs rhs) (.binary .equals a b) := by
  intro ρ σ v henv hv
  obtain ⟨-, u, u', w, w', hv, hu, hu'⟩ := binary_operands hv ha hb henv
  obtain rfl := evalEq_image hv hu.image hu'.image
  exact ⟨_, rfl, eval_equals hu.eval hu'.eval⟩

theorem ne_means (ha : Means tcx ids ctx P lhs a) (hb : Means tcx ids ctx P rhs b) :
    Means tcx ids ctx P (.binary ty .ne lhs rhs) (.unary .not (.binary .equals a b)) := by
  intro ρ σ v henv hv
  obtain ⟨-, u, u', w, w', hv, hu, hu'⟩ := binary_operands hv ha hb henv
  obtain ⟨c, heq, rfl⟩ := evalNe_eq hv
  obtain rfl := Hair.Value.bool.inj (evalEq_image heq hu.image hu'.image)
  refine ⟨_, rfl, ?_⟩
  rw [St.Expr.eval, eval_equals hu.eval hu'.eval, Option.bind_some, evalUnary]

theorem bvOp_means {op : Hair.BinOp} {operator : BinaryOperator}
    (ha : Means tcx ids ctx P lhs a) (hb : Means tcx ids ctx P rhs b) (hty : isBvType lhs.ty)
    (hty' : isBvType rhs.ty) (hop : bvOperator op = some operator) :
    Means tcx ids ctx P (.binary ty op lhs rhs) (.binary operator a b) := by
  intro ρ σ v henv hv
  obtain ⟨hfits, u, u', w, w', hv, hu, hu'⟩ := binary_operands hv ha hb henv
  obtain ⟨s, n, x, rfl, -, -⟩ := Hair.Value.fits_bv hty hu.fits
  obtain ⟨s', n', y, rfl, -, -⟩ := Hair.Value.fits_bv hty' hu'.fits
  obtain rfl := Option.some.inj hu.image
  obtain rfl := Option.some.inj hu'.image
  obtain ⟨w, hw, heval⟩ := evalBinary_bvOperator ids hop hv hfits
  refine ⟨w, hw, ?_⟩
  rw [St.Expr.eval, hu.eval, Option.bind_some, hu'.eval, Option.bind_some, heval]

/-- The right operand is widened first. -/
theorem shift_means {op : Hair.BinOp} {operator : BinaryOperator} {b' : St.Expr}
    (ha : Means tcx ids ctx P lhs a) (hb : Means tcx ids ctx P rhs b) (hty : isBvType lhs.ty)
    (hty' : isBvType rhs.ty) (hop : shiftOperator lhs.ty op = some operator)
    (hwiden : widenShiftArg lhs.ty rhs.ty b = .ok b') :
    Means tcx ids ctx P (.binary ty op lhs rhs) (.binary operator a b') := by
  intro ρ σ v henv hv
  obtain ⟨hfits, u, u', w, w', hv, hu, hu'⟩ := binary_operands hv ha hb henv
  obtain ⟨s, n, x, rfl, hint, hx⟩ := Hair.Value.fits_bv hty hu.fits
  obtain ⟨s', n', y, rfl, hint', -⟩ := Hair.Value.fits_bv hty' hu'.fits
  obtain rfl := Option.some.inj hu.image
  obtain rfl := Option.some.inj hu'.image
  have harg := widenShiftArg_eval hwiden hint hint' hu'.eval
  obtain ⟨w, hw, heval⟩ := evalBinary_shiftOperator ids hop hv hint hx hfits
  refine ⟨w, hw, ?_⟩
  rw [St.Expr.eval, hu.eval, Option.bind_some, harg, Option.bind_some, heval]

/-- The left operand of `&&` and `||` is a boolean, and decides what the value is. -/
theorem logicalOp_operand {op : Hair.LogicalOp}
    (hv : (Hair.Expr.logicalOp ty op lhs rhs).eval tcx faithful ρ = some v)
    (ha : Means tcx ids ctx P lhs a) (hty : lhs.ty.isBool) (henv : EnvImage tcx ids ctx ρ σ) :
    ∃ c, a.eval P σ = some (.boolean c) ∧
      if c = (op = .and) then rhs.eval tcx faithful ρ = some v else v = .bool c := by
  have hleft : ∃ c, lhs.eval tcx faithful ρ = some (.bool c) ∧
      if c = (op = .and) then rhs.eval tcx faithful ρ = some v else v = .bool c := by
    cases op <;>
    · rw [Hair.Expr.eval] at hv
      obtain ⟨hv, -⟩ := Hair.checked_eq_some.mp hv
      obtain ⟨c, hc, hv⟩ := Option.bind_eq_some_iff.mp hv
      obtain ⟨u, hu, hc⟩ := Option.bind_eq_some_iff.mp hc
      obtain ⟨c', rfl⟩ := Hair.Value.fits_bool hty (eval_fits hu)
      obtain rfl : c' = c := Option.some.inj hc
      refine ⟨c', hu, ?_⟩
      cases c' <;> simpa [eq_comm] using hv
  obtain ⟨c, hc, hv⟩ := hleft
  obtain ⟨w, hw⟩ := ha.hasValue henv hc
  obtain rfl := Option.some.inj hw.image
  exact ⟨c, hw.eval, hv⟩

theorem and_means (ha : Means tcx ids ctx P lhs a) (hb : Means tcx ids ctx P rhs b)
    (hty : lhs.ty.isBool) (hty' : rhs.ty.isBool) :
    Means tcx ids ctx P (.logicalOp ty .and lhs rhs) (.and [a, b]) := by
  intro ρ σ v henv hv
  obtain ⟨c, hc, hv⟩ := logicalOp_operand hv ha hty henv
  cases c with
  | true =>
    rw [if_pos (by simp)] at hv
    obtain ⟨c, rfl⟩ := Hair.Value.fits_bool hty' (eval_fits hv)
    obtain ⟨w, hw⟩ := hb.hasValue henv hv
    obtain rfl := Option.some.inj hw.image
    refine ⟨_, rfl, ?_⟩
    cases c <;> simp [St.Expr.eval, St.Expr.evalAnd, hc, hw.eval, Value.truth]
  | false =>
    rw [if_neg (by simp)] at hv
    subst hv
    exact ⟨_, rfl, by simp [St.Expr.eval, St.Expr.evalAnd, hc, Value.truth]⟩

theorem or_means (ha : Means tcx ids ctx P lhs a) (hb : Means tcx ids ctx P rhs b)
    (hty : lhs.ty.isBool) (hty' : rhs.ty.isBool) :
    Means tcx ids ctx P (.logicalOp ty .or lhs rhs) (.or [a, b]) := by
  intro ρ σ v henv hv
  obtain ⟨c, hc, hv⟩ := logicalOp_operand hv ha hty henv
  cases c with
  | true =>
    rw [if_neg (by simp)] at hv
    subst hv
    exact ⟨_, rfl, by simp [St.Expr.eval, St.Expr.evalOr, hc, Value.truth]⟩
  | false =>
    rw [if_pos (by simp)] at hv
    obtain ⟨c, rfl⟩ := Hair.Value.fits_bool hty' (eval_fits hv)
    obtain ⟨w, hw⟩ := hb.hasValue henv hv
    obtain rfl := Option.some.inj hw.image
    refine ⟨_, rfl, ?_⟩
    cases c <;> simp [St.Expr.eval, St.Expr.evalOr, hc, hw.eval, Value.truth]

/-! ### Tuples and ADTs -/

theorem unit_means : Means tcx ids ctx P (.tuple ty []) .unitLiteral := by
  intro ρ σ v _ hv
  rw [Hair.Expr.eval] at hv
  obtain ⟨hv, -⟩ := Hair.checked_eq_some.mp hv
  obtain rfl : Hair.Value.tuple [] = v := by simpa [Hair.Expr.evalAll] using hv
  exact ⟨.unit, rfl, by rw [St.Expr.eval, Literal.value]⟩

theorem evalAll_length {ts : List St.Expr} {ws : List St.Value}
    (h : St.Expr.evalAll P σ ts = some ws) : ws.length = ts.length := by
  induction ts generalizing ws with
  | nil =>
    obtain rfl : [] = ws := by simpa [St.Expr.evalAll] using h
    rfl
  | cons t ts ih =>
    rw [St.Expr.evalAll] at h
    obtain ⟨w, -, h⟩ := Option.bind_eq_some_iff.mp h
    obtain ⟨ws', hws, rfl⟩ := Option.map_eq_some_iff.mp h
    simp [ih hws]

theorem tuple_means {es : List Hair.Expr} {ts : List St.Expr} (hlen : 2 ≤ es.length)
    (h : List.Forall₂ (Means tcx ids ctx P) es ts) :
    Means tcx ids ctx P (.tuple ty es) (.tuple ts) := by
  intro ρ σ v henv hv
  rw [Hair.Expr.eval] at hv
  obtain ⟨hv, -⟩ := Hair.checked_eq_some.mp hv
  obtain ⟨vs, hvs, rfl⟩ := Option.map_eq_some_iff.mp hv
  obtain ⟨ws, hws, heval⟩ := evalAll_means h henv hvs
  -- There are at least two members, so this is no unit value.
  have htuple : tupleValue ws = .tuple ws := by
    cases ws with
    | nil =>
      have := evalAll_length heval
      have := h.length_eq
      simp only [List.length_nil] at *
      omega
    | cons w ws => rfl
  refine ⟨.tuple ws, by rw [valueImage, hws, Option.map_some, htuple], ?_⟩
  rw [St.Expr.eval, heval]
  rfl

theorem field_operand {name : Nat} (hv : (Hair.Expr.field ty e name).eval tcx faithful ρ = some v)
    (h : Means tcx ids ctx P e t) (henv : EnvImage tcx ids ctx ρ σ) :
    ∃ u w, u.field name = some v ∧ HasValue tcx ids P ρ σ e t u w := by
  rw [Hair.Expr.eval] at hv
  obtain ⟨hv, -⟩ := Hair.checked_eq_some.mp hv
  obtain ⟨u, hu, hv⟩ := Option.bind_eq_some_iff.mp hv
  obtain ⟨w, hw⟩ := h.hasValue henv hu
  exact ⟨u, w, hv, hw⟩

theorem tupleField_means {name : Nat} {tys : List Ty} (h : Means tcx ids ctx P e t)
    (hty : e.ty = .tuple tys) :
    Means tcx ids ctx P (.field ty e name) (.tupleSelect t (name + 1)) := by
  intro ρ σ v henv hv
  obtain ⟨u, w, hv, hu⟩ := field_operand hv h henv
  obtain ⟨w', hw', hsel⟩ := evalTupleSelect_image (hty ▸ hu.fits) hv hu.image
  exact ⟨w', hw', by rw [St.Expr.eval, hu.eval, Option.bind_some, hsel]⟩

theorem adtField_means {name : Nat} {did : DefId} {substs : List Ty} {constructor : ConstructorIds}
    {fieldId : SymbolIdentifier} (hP : HasAdts tcx ids P) (hfields : FieldsApart tcx ids)
    (h : Means tcx ids ctx P e t) (hty : e.ty = .adt did substs)
    (hsort : adtIds tcx ids did = some [constructor])
    (hfield : constructor.fields[name]? = some fieldId) :
    Means tcx ids ctx P (.field ty e name) (.adtSelector t fieldId) := by
  intro ρ σ v henv hv
  obtain ⟨u, w, hv, hu⟩ := field_operand hv h henv
  obtain ⟨w', hw', hsel⟩ :=
    evalSelector_image hP hfields hsort hfield (hty ▸ hu.fits) hv hu.image
  exact ⟨w', hw', by rw [St.Expr.eval, hu.eval, Option.bind_some, hsel]⟩

/-- The initializers are extracted in the order of the fields. -/
theorem adt_means {did : DefId} {variantIndex : Nat} {substs : List Ty}
    {fields : List (Nat × Hair.Expr)} {sort : List ConstructorIds} {constructor : ConstructorIds}
    {argTps : List Tpe} {ts : List St.Expr} (hsort : adtIds tcx ids did = some sort)
    (hcons : sort[variantIndex]? = some constructor)
    (h : List.Forall₂ (Means tcx ids ctx P) ((sortByIndex fields).map Prod.snd) ts) :
    Means tcx ids ctx P (.adt ty did variantIndex substs fields false)
      (.adt constructor.id argTps ts) := by
  intro ρ σ v henv hv
  rw [Hair.Expr.eval, if_neg (by simp)] at hv
  obtain ⟨hv, -⟩ := Hair.checked_eq_some.mp hv
  obtain ⟨vals, hvals, hv⟩ := Option.bind_eq_some_iff.mp hv
  obtain ⟨n, -, hv⟩ := Option.bind_eq_some_iff.mp hv
  obtain ⟨vs, hvs, rfl⟩ := Option.map_eq_some_iff.mp hv
  obtain ⟨ws, hws, heval⟩ := evalAll_means h henv (evalFields_sorted hvals hvs)
  refine ⟨.adt constructor.id.globalId ws, ?_, ?_⟩
  · rw [valueImage, constructorGlobalId, hsort, hws]
    simp [hcons]
  · rw [St.Expr.eval, heval]
    rfl

/-! ### Blocks, matches and references -/

theorem block_means {R : Hair.Expr → St.Expr → Prop} {safe : Bool} {stmts : List Hair.Stmt}
    {expr : Option Hair.Expr} {last : Option St.Expr} {r : St.Expr} (hown : OwnIds ctx)
    (hok : PureOk tcx (.block ty safe stmts expr)) (hlast : OptExtracts R expr last)
    (hstmts : StmtsExtract ctx.vars.get? R stmts [] (last.getD .unitLiteral) r)
    (hR : ∀ e t, PureOk tcx e → R e t → Means tcx ids ctx P e t) :
    Means tcx ids ctx P (.block ty safe stmts expr) r := by
  intro ρ σ v henv hv
  rw [Hair.Expr.eval] at hv
  obtain ⟨hv, -⟩ := Hair.checked_eq_some.mp hv
  obtain ⟨ρ', hρ', hv⟩ := Option.bind_eq_some_iff.mp hv
  refine hstmts.means hown hok.1 hR (fun ρ σ v henv hv => ?_) henv (by rw [St.Expr.evalAll]) hρ' hv
  cases hlast with
  | none =>
    obtain rfl : Hair.Value.tuple [] = v := by simpa [Hair.Expr.evalOpt] using hv
    exact ⟨.unit, rfl, by simp [St.Expr.eval, Literal.value]⟩
  | some ht => exact hR _ _ hok.2 ht ρ σ v henv hv

theorem match_means {R : Hair.Expr → St.Expr → Prop} {arms : List Hair.Arm}
    {cases' : List MatchCase} (hown : OwnIds ctx) (happart : ConstructorsApart tcx ids)
    (hok : PureOk tcx (.matchE ty e arms)) (h : Means tcx ids ctx P e t)
    (harms : List.Forall₂ (ArmExtracts (fun p q => PatExtracts tcx ids ctx p none q) R) arms cases')
    (hR : ∀ e t, PureOk tcx e → R e t → Means tcx ids ctx P e t) :
    Means tcx ids ctx P (.matchE ty e arms) (.matchExpr t cases') := by
  intro ρ σ v henv hv
  rw [Hair.Expr.eval] at hv
  obtain ⟨hv, -⟩ := Hair.checked_eq_some.mp hv
  obtain ⟨u, hu, hv⟩ := Option.bind_eq_some_iff.mp hv
  obtain ⟨w, hw⟩ := h.hasValue henv hu
  obtain ⟨w', hw', hcases⟩ := arms_mean hown happart harms hok.2.2 hR henv hw.image hv
  exact ⟨w', hw', by rw [St.Expr.eval, hw.eval, Option.bind_some, hcases]⟩

/-- References are gone, and so are boxes. -/
theorem deref_means (h : Means tcx ids ctx P e t) : Means tcx ids ctx P (.deref ty e) t := by
  intro ρ σ v henv hv
  rw [Hair.Expr.eval] at hv
  obtain ⟨hv, -⟩ := Hair.checked_eq_some.mp hv
  obtain ⟨u, hu, hv⟩ := Option.bind_eq_some_iff.mp hv
  obtain ⟨w, hw⟩ := h.hasValue henv hu
  cases u with
  | ref u | box u =>
    obtain rfl := Option.some.inj hv
    exact ⟨w, hw.image, hw.eval⟩
  | _ => cases hv

theorem borrow_means {kind : Hair.BorrowKind} (h : Means tcx ids ctx P e t) :
    Means tcx ids ctx P (.borrow ty kind e) t := by
  intro ρ σ v henv hv
  rw [Hair.Expr.eval] at hv
  obtain ⟨hv, -⟩ := Hair.checked_eq_some.mp hv
  obtain ⟨u, hu, rfl⟩ := Option.map_eq_some_iff.mp hv
  exact h ρ σ u henv hu

end Nodes

/-- The translation of an expression has the image of its value. -/
theorem ExprExtracts.means (hown : OwnIds ctx) (hpaths : PathIds tcx ids)
    (happart : ConstructorsApart tcx ids) (hfields : FieldsApart tcx ids) (hP : HasAdts tcx ids P)
    {e : Hair.Expr} {t : St.Expr} (h : ExprExtracts tcx ids ctx e t) :
    PureOk tcx e → Means tcx ids ctx P e t := by
  refine ExprExtracts.induct (P := fun e t => PureOk tcx e → Means tcx ids ctx P e t)
    (fun e t hrule hok => ?_) e t h
  have hsub : ∀ e t, PureOk tcx e → (ExprExtracts tcx ids ctx e t ∧
      (PureOk tcx e → Means tcx ids ctx P e t)) → Means tcx ids ctx P e t :=
    fun e t hok h => h.2 hok
  have hlist : ∀ {es : List Hair.Expr} {ts : List St.Expr}, (∀ e ∈ es, PureOk tcx e) →
      List.Forall₂ (fun e t => ExprExtracts tcx ids ctx e t ∧
        (PureOk tcx e → Means tcx ids ctx P e t)) es ts →
      List.Forall₂ (Means tcx ids ctx P) es ts := fun hoks hts =>
    ((List.forall₂_and_left _ _).mpr ⟨hoks, hts⟩).imp fun e t h => hsub e t h.1 h.2
  cases hrule with
  | @literal ty konst lit hlit =>
    intro ρ σ v _ hv
    rw [Hair.Expr.eval] at hv
    obtain ⟨hv, -⟩ := Hair.checked_eq_some.mp hv
    split_ifs at hv with hfaith
    obtain ⟨w, hw, hvalue⟩ := literalTryFrom_image tcx ids hlit hv hfaith
    exact ⟨w, hw, by rw [St.Expr.eval, hvalue]⟩
  | bvNot ha hty => exact bvNot_means (ha.2 hok) hty
  | boolNot ha hty => exact boolNot_means (ha.2 hok) hty
  | neg ha _ => exact neg_means (ha.2 hok)
  | eq ha hb _ => exact eq_means (ha.2 hok.1) (hb.2 hok.2)
  | ne ha hb _ => exact ne_means (ha.2 hok.1) (hb.2 hok.2)
  | bvOp ha hb hty hty' hop => exact bvOp_means (ha.2 hok.1) (hb.2 hok.2) hty hty' hop
  | shift ha hb hty hty' hop hwiden =>
    exact shift_means (ha.2 hok.1) (hb.2 hok.2) hty hty' hop hwiden
  | and ha hb hty hty' => exact and_means (ha.2 hok.1) (hb.2 hok.2) hty hty'
  | or ha hb hty hty' => exact or_means (ha.2 hok.1) (hb.2 hok.2) hty hty'
  | unit => exact unit_means
  | tuple hlen hts => exact tuple_means hlen (hlist (fun e he => PureOk.of_list hok he) hts)
  | tupleField ha hty => exact tupleField_means (ha.2 hok) hty
  | adtField ha hty hsort hfield =>
    exact adtField_means hP hfields (ha.2 hok) hty hsort hfield
  | @varRef ty id x hx =>
    intro ρ σ v henv hv
    rw [Hair.Expr.eval] at hv
    obtain ⟨hv, -⟩ := Hair.checked_eq_some.mp hv
    obtain ⟨w, hw, hσ⟩ := henv id x v hx hv
    exact ⟨w, hw, by rw [St.Expr.eval, hσ]⟩
  | panic hitem _ | setCreation hitem _ _ | setOp hitem _ _ _ _ =>
    -- `Box::new` is none of these.
    intro ρ σ v _ hv
    obtain ⟨⟨-, hnone⟩, -⟩ := eval_call hv
    simp [hnone] at hitem
  | boxNew _ _ _ ha =>
    intro ρ σ v henv hv
    obtain ⟨-, arg, rest, u, hargs, hu, rfl⟩ := eval_call hv
    obtain ⟨rfl, rfl⟩ := List.cons.inj hargs
    exact ha.2 hok.1 ρ σ u henv hu
  | call _ hid hpath _ _ =>
    intro ρ σ v _ hv
    obtain ⟨⟨hboxPath, -⟩, -⟩ := eval_call hv
    exact absurd (boxNew_path hpaths hboxPath hid) hpath
  | @adt ty did variantIndex substs fields sort constructor argTps ts hsort hcons _ hts =>
    have hoks : ∀ e ∈ (sortByIndex fields).map Prod.snd, PureOk tcx e := by
      intro e he
      obtain ⟨f, hf, rfl⟩ := List.mem_map.mp he
      exact PureOk.of_fields hok (mem_sortByIndex.mp hf)
    exact adt_means hsort hcons (hlist hoks hts)
  | block hlast hstmts => exact block_means hown hok hlast hstmts hsub
  | ifElse hif ha ht he =>
    obtain ⟨-, hokScrutinee, -, -, hokThen, -, -, hokElse, -⟩ := id hok
    exact ifExpr_means hown happart hif hok (ha.2 hokScrutinee) (ht.2 hokThen) (he.2 hokElse)
  | @ifOnly ty scrutinee armTy armTy' konst guard guard' thenn elze cond t hif ha ht =>
    obtain ⟨-, hokScrutinee, -, -, hokThen, -⟩ := id hok
    obtain ⟨-, -, hempty⟩ := looksLikeIf_shape hif
    obtain ⟨ty', safe, hstrip⟩ := hempty rfl
    have helse : Means tcx ids ctx P elze .unitLiteral := by
      intro ρ σ v _ hv
      obtain rfl := eval_emptyBlock hstrip hv
      exact ⟨.unit, rfl, by rw [St.Expr.eval, Literal.value]⟩
    exact ifExpr_means hown happart hif hok (ha.2 hokScrutinee) (ht.2 hokThen) helse
  | matchE _ ha harms => exact match_means hown happart hok (ha.2 hok.2.1) harms hsub
  | scope ha | use ha =>
    intro ρ σ v henv hv
    rw [Hair.Expr.eval] at hv
    exact ha.2 hok ρ σ v henv (Hair.checked_eq_some.mp hv).1
  | neverToAny ha =>
    intro ρ σ v _ hv
    simp [Hair.Expr.eval] at hv
  | deref ha => exact deref_means (ha.2 hok)
  | borrow ha => exact borrow_means (ha.2 hok)

end Environments

/-! ## What is extracted -/

/-- rustc guarantees for ADTs that the variants are different definitions, and so are the fields. -/
structure AdtsDistinct (tcx : Tcx) : Prop where
  variants : ∀ a ∈ tcx.adtDefs, (a.variants.map (·.defId)).Nodup
  fields : ∀ a ∈ tcx.adtDefs, ∀ v ∈ a.variants, (v.fields.map (·.did)).Nodup

/-- Ids of the definitions, those of a state and others. -/
structure IdsOf (tcx : Tcx) (s : Extraction) (ids : Ids) : Prop where
  known : ∀ d id, s.didId d = some id → ids d = some id
  paths : PathIds tcx ids
  inj : ∀ d e i j, ids d = some i → ids e = some j → i.globalId = j.globalId → d = e

theorem IdsOk.idsOf {tcx : Tcx} {s : Extraction} (h : IdsOk tcx s) : IdsOf tcx s s.didId where
  known := fun _ _ h => h
  paths := fun d id hd => by rw [← h.did_path d id hd]
  inj := h.did_inj

section Distinct

variable {tcx : Tcx} {s : Extraction} {ids : Ids}

/-- Different definitions have different ids. -/
theorem IdsOf.nodup (h : IdsOf tcx s ids) {ds : List DefId} {is : List SymbolIdentifier}
    (his : List.Forall₂ (fun d i => ids d = some i) ds is) (hnodup : ds.Nodup) :
    (is.map (·.globalId)).Nodup := by
  induction his with
  | nil => exact List.nodup_nil
  | @cons d i ds is hd his ih =>
    obtain ⟨hnot, hnodup⟩ := List.nodup_cons.mp hnodup
    refine List.nodup_cons.mpr ⟨fun hmem => hnot ?_, ih hnodup⟩
    obtain ⟨j, hj, heq⟩ := List.mem_map.mp hmem
    obtain ⟨e, he, hej⟩ := forall₂_mem_right his hj
    rw [h.inj d e i j hd hej heq.symm]
    exact he

theorem fieldsIds_forall₂ {fs : List FieldDef} {is : List SymbolIdentifier}
    (h : fieldsIds ids fs = some is) :
    List.Forall₂ (fun d i => ids d = some i) (fs.map (·.did)) is := by
  induction fs generalizing is with
  | nil =>
    obtain rfl : [] = is := by simpa [fieldsIds] using h
    exact .nil
  | cons f fs ih =>
    rw [fieldsIds] at h
    obtain ⟨i, hi, h⟩ := Option.bind_eq_some_iff.mp h
    obtain ⟨rest, hrest, h⟩ := Option.bind_eq_some_iff.mp h
    obtain rfl := Option.some.inj h
    exact .cons hi (ih hrest)

theorem variantsIds_forall₂ {vs : List VariantDef} {sort : List ConstructorIds}
    (h : variantsIds ids vs = some sort) :
    List.Forall₂ (fun v c => ids v.defId = some c.id ∧ fieldsIds ids v.fields = some c.fields)
      vs sort := by
  induction vs generalizing sort with
  | nil =>
    obtain rfl : [] = sort := by simpa [variantsIds] using h
    exact .nil
  | cons v vs ih =>
    rw [variantsIds] at h
    obtain ⟨id, hid, h⟩ := Option.bind_eq_some_iff.mp h
    obtain ⟨fields, hfields, h⟩ := Option.bind_eq_some_iff.mp h
    obtain ⟨rest, hrest, h⟩ := Option.bind_eq_some_iff.mp h
    obtain rfl := Option.some.inj h
    exact .cons ⟨hid, hfields⟩ (ih hrest)

theorem IdsOf.constructorsApart (h : IdsOf tcx s ids) (hadts : AdtsDistinct tcx) :
    ConstructorsApart tcx ids := by
  intro did sort hsort
  obtain ⟨a, ha, hsort⟩ := Option.bind_eq_some_iff.mp hsort
  have hnodup := hadts.variants a (List.mem_of_find?_eq_some ha)
  have hids : List.Forall₂ (fun d i => ids d = some i) (a.variants.map (·.defId))
      (sort.map (·.id)) := by
    rw [List.forall₂_map_left_iff, List.forall₂_map_right_iff]
    exact (variantsIds_forall₂ hsort).imp fun _ _ h => h.1
  simpa only [List.map_map, Function.comp_def] using h.nodup hids hnodup

theorem IdsOf.fieldsApart (h : IdsOf tcx s ids) (hadts : AdtsDistinct tcx) :
    FieldsApart tcx ids := by
  intro did sort hsort c hc
  obtain ⟨a, ha, hsort⟩ := Option.bind_eq_some_iff.mp hsort
  obtain ⟨v, hv, -, hfields⟩ := forall₂_mem_right (variantsIds_forall₂ hsort) hc
  have hnodup := hadts.fields a (List.mem_of_find?_eq_some ha) v hv
  exact h.nodup (fieldsIds_forall₂ hfields) hnodup

/-- The bindings of a body that is registered from the start have variables with their own ids. -/
theorem ownIds_of_populate (hok : TcxOk tcx) {txtcx : TyExtractionCtxt} {body : Hir.Body}
    {m m' : Assoc String Flags} {vars : Vars} {s' : Extraction} (hi : BodyInv tcx s)
    (hrun : populateDefContext tcx txtcx body m [] s = .ok ((vars, m'), s')) :
    OwnIds { txtcx := txtcx, vars := vars } := by
  obtain ⟨hmoves, -⟩ := populateDefContext_ok hok hrun
  have hids : IdsOk tcx s' := (hmoves.moves.inv hi).ids
  intro g g' x x' hx hx' heq
  have hg : s'.hidId g = some x.id := (hmoves.fresh g x hx rfl).1
  have hg' : s'.hidId g' = some x'.id := (hmoves.fresh g' x' hx' rfl).1
  exact hids.hid_inj g g' x.id x'.id hg hg' heq

/-- The body of a function in a crate that was extracted means what its source means. -/
theorem FnImage.body_means (hadts : AdtsDistinct tcx) {d : DefId} {pre post : List DefId}
    {measure : Option DefId} {fd : FunDef} {p : FnParts}
    (h : FnImage tcx s.view d pre post measure fd p) (hi : IdsOk tcx s)
    (hpure : PureOk tcx (tcx.bodyOf d).value) {P : Program} (hP : HasAdts tcx s.didId P) :
    Means tcx s.didId { txtcx := p.txtcx, vars := p.vars } P (tcx.bodyOf d).value p.bodyExpr := by
  have hown : OwnIds { txtcx := p.txtcx, vars := p.vars } := by
    intro g g' x x' hx hx' heq
    have hg : s.hidId g = some x.id := h.body.own g x hx rfl
    have hg' : s.hidId g' = some x'.id := h.body.own g' x' hx' rfl
    exact hi.hid_inj g g' x.id x'.id hg hg' heq
  have hextracts := exprImage_extracts _ _ h.body.expr
  exact hextracts.means hown hi.idsOf.paths (hi.idsOf.constructorsApart hadts)
    (hi.idsOf.fieldsApart hadts) hP hpure

end Distinct

/--
**An expression that is extracted without a report evaluates to the image of its value if** Rust, on
its way to the value, evaluates no negative literal of fewer than 128 bits, and has no value matched
by a pattern with such a literal or with the empty tuple pattern in it.
-/
theorem extractExpr_means {tcx : Tcx} (hok : TcxOk tcx) (hadts : AdtsDistinct tcx)
    {ctx : BodyCtxt} (hown : OwnIds ctx) {e : Hair.Expr} (hpure : PureOk tcx e) {t : St.Expr}
    {s s' : Extraction} (hi : BodyInv tcx s) (hrun : extractExpr tcx ctx e s = .ok (t, s'))
    (hn : s'.NoErrors) {ids : Ids} (hids : IdsOf tcx s' ids) {P : Program} (hP : HasAdts tcx ids P)
    {ρ : Hair.Env} {σ : St.Env} (henv : EnvImage tcx ids ctx ρ σ) {v : Hair.Value}
    (hv : e.eval tcx .all ρ = some v) (hgood : e.eval tcx faithful ρ ≠ none) :
    ∃ w, valueImage tcx ids v = some w ∧ t.eval P σ = some w := by
  obtain ⟨-, himage⟩ := extractExpr_image hok hi hrun
  have hextracts : ExprExtracts tcx ids ctx e t :=
    exprImage_extracts e t (himage hn ids hids.known)
  have hmeans : Means tcx ids ctx P e t :=
    hextracts.means hown hids.paths (hids.constructorsApart hadts) (hids.fieldsApart hadts) hP hpure
  obtain ⟨u, hu⟩ := Option.ne_none_iff_exists'.mp hgood
  obtain rfl : u = v := Option.some.inj ((Hair.Expr.eval_all e hu).symm.trans hv)
  exact hmeans ρ σ u henv hu

/-! ### Literals -/

def i8Literal (bits : Nat) : Hair.Expr := .literal (.int .i8) { ty := .int .i8, val := .bits bits }

/-- `let x = 3; if x < 5 { x } else { -1 }` -/
def letX : Hair.Expr :=
  let x : Hair.Expr := .varRef (.int .i8) ⟨⟨0, 0⟩, 7⟩
  .block (.int .i8) true
    [.letS (.binding (.int .i8) .not .byValue ⟨⟨0, 0⟩, 7⟩ none) (some (i8Literal 3))]
    (some (.matchE (.int .i8) (.binary .bool .lt x (i8Literal 5))
      (userArms none x (.block (.int .i8) true [] (some (i8Literal 255))))))

def letXCtx : BodyCtxt :=
  let x : Variable := { id := ⟨⟨"x", 0, 0⟩, ["x"]⟩, tpe := .bvType true 8, flags := [] }
  { noVars with vars := [(⟨⟨0, 0⟩, 7⟩, x)] }

/-- A program without functions and ADTs. -/
def noDefs : Program where
  fields := fun _ => none
  call := fun _ _ _ => none

/-- The negative literal is there, but it is not evaluated. -/
theorem extractExpr_means_letX :
    ∃ t, extractExpr .empty letXCtx letX .new = .ok (t, .new) ∧
      letX.eval .empty .all (fun _ => none) = some (.int true 8 3) ∧
      t.eval noDefs (fun _ => none) = some (.bv true 3 8) := by
  obtain ⟨t, hrun⟩ : ∃ t, extractExpr .empty letXCtx letX .new = .ok (t, .new) := ⟨_, rfl⟩
  have hok : TcxOk .empty := .of_noFields (fun _ => rfl) (fun _ => rfl) (fun _ => rfl) (by
    intro a ha
    cases ha)
  have hown : OwnIds letXCtx := by
    intro h h' x x' hx hx' _
    have hkey := Assoc.mem_of_get? hx
    have hkey' := Assoc.mem_of_get? hx'
    rw [letXCtx, List.mem_singleton] at hkey hkey'
    rw [(Prod.mk.inj hkey).1, (Prod.mk.inj hkey').1]
  have hpure : PureOk .empty letX := by
    refine ⟨⟨trivial, trivial⟩, ?_, ⟨trivial, trivial⟩, ?_⟩
    · simp [userArms, Hair.Arm.guard]
    · refine ⟨⟨trivial, List.nodup_nil⟩, trivial, trivial, ⟨trivial, List.nodup_nil⟩, trivial, ?_,
        trivial⟩
      exact ⟨trivial, trivial⟩
  have henv : EnvImage .empty (Extraction.new).didId letXCtx (fun _ => none) (fun _ => none) := by
    intro h x v _ hv
    cases hv
  have hdefs : HasAdts .empty (Extraction.new).didId noDefs := by
    intro did sort hsort
    cases hsort
  have hadts : AdtsDistinct .empty := by
    refine ⟨?_, ?_⟩ <;>
    · intro a ha
      cases ha
  obtain ⟨w, hw, heval⟩ := extractExpr_means hok hadts hown hpure (.new .empty) hrun
    (by decide) (IdsOk.new .empty).idsOf hdefs henv (v := .int true 8 3) rfl (by decide)
  obtain rfl := Option.some.inj hw
  exact ⟨t, hrun, rfl, heval⟩

/-- `match () { () => true }` -/
def matchUnit : Hair.Expr :=
  .matchE .bool (.tuple .unit []) [.mk (.leaf .unit []) none (boolExpr true)]

/--
`-1i8` is extracted to 255, which is no number of eight bits with a sign. The pattern `()` is
extracted to a pattern for tuples, which does not match the unit value.
-/
theorem extractExpr_means_misread :
    (∃ t, extractExpr .empty noVars (i8Literal 255) .new = .ok (t, .new) ∧
      (i8Literal 255).eval .empty .all (fun _ => none) = some (.int true 8 (-1)) ∧
      ∀ P σ, t.eval P σ = none) ∧
    ∃ t, extractExpr .empty noVars matchUnit .new = .ok (t, .new) ∧
      matchUnit.eval .empty .all (fun _ => none) = some (.bool true) ∧
      ∀ P σ, t.eval P σ = none :=
  ⟨⟨_, rfl, rfl, fun _ _ => rfl⟩, ⟨_, rfl, rfl, fun _ _ => rfl⟩⟩

end Stainless
