import RustStainless.Extraction.BlockMeaning
import RustStainless.Extraction.Scopes
import RustStainless.Extraction.TypeArgs
import RustStainless.Extraction.TyUses

/-!
# What a body uses

The functions that a body calls, the constructors and fields that it names, and the types that it
has. The references in its translation are those to what it uses, no more and no less.
-/

namespace Stainless

open Rustc St Lib

/-! ## Uses -/

inductive BodyUse where
  /-- a function that is called -/
  | callee (did : DefId)
  /-- `Box::new`, whose calls are erased -/
  | boxNew (did : DefId)
  | constructor (did : DefId) (variantIndex : Nat)
  | field (did : DefId) (name : Nat)
  /-- a type in the definition `d` -/
  | type (d : DefId) (ty : Ty)

/-- The function that a body belongs to, and the types of the bindings that it refers to. -/
structure UseCtxt where
  fn : DefId
  varTy : HirId → Option Ty

def UseCtxt.varUses (c : UseCtxt) (h : HirId) : List BodyUse := (c.varTy h).toList.map (.type c.fn)

/-- The type arguments that are extracted. -/
def UseCtxt.argUses (c : UseCtxt) (substs : List Ty) : List BodyUse :=
  (substs.filter fun ty => !ty.isClosure).map (.type c.fn)

def isBoxNewPath (tcx : Tcx) (did : DefId) : Bool :=
  (symbolNameAndPath (symbolPathFromDefId tcx did)).2 = boxNewPath

section Collect

variable (tcx : Tcx) (c : UseCtxt)

mutual

def patUses : Hair.Pat → List BodyUse
  | .wild _ | .constant _ _ | .other _ => []
  | .binding _ _ _ var subpattern => c.varUses var ++ optPatUses subpattern
  | .variant _ did substs variantIndex subpatterns =>
    (.constructor did variantIndex :: c.argUses substs) ++ fieldPatUses subpatterns
  | .leaf (.adt did substs) subpatterns =>
    (.constructor did 0 :: c.argUses substs) ++ fieldPatUses subpatterns
  | .leaf _ subpatterns => fieldPatUses subpatterns
  | .deref _ subpattern | .ascribeUserType _ subpattern => patUses subpattern

def optPatUses : Option Hair.Pat → List BodyUse
  | none => []
  | some p => patUses p

def fieldPatUses : List (Nat × Hair.Pat) → List BodyUse
  | [] => []
  | (_, p) :: ps => patUses p ++ fieldPatUses ps

end

/-- What the callee of a call adds. -/
def calleeUses : Ty → List BodyUse
  | .fnDef did substs =>
    match tcx.stdItems.defToItemOpt did with
    | some .beginPanicFn | some .beginPanicFmtFn | some .setAddFn | some .setDifferenceFn
    | some .setIntersectionFn | some .setUnionFn | some .subsetOfFn => []
    | some .setEmptyFn | some .setSingletonFn => substs.head?.toList.map (.type c.fn)
    | some .fnTrait | some .fnMutTrait | some .fnOnceTrait | some .sizedTrait | some .setType
    | none =>
      if isBoxNewPath tcx did then [.boxNew did] else .callee did :: c.argUses substs
  | _ => []

/-- The field that a selection names. -/
def selectionUses (ty : Ty) (name : Nat) : List BodyUse :=
  match ty with
  | .adt did _ => [.field did name]
  | _ => []

mutual

/-- What an expression uses, as far as the extraction meets it. -/
def exprUses : Hair.Expr → List BodyUse
  | .literal _ _ | .other _ _ => []
  | .varRef _ id => c.varUses id
  | .unary _ _ arg | .scope _ arg | .use _ arg | .neverToAny _ arg | .deref _ arg
  | .borrow _ _ arg => exprUses arg
  | .field _ lhs name => selectionUses lhs.ty name ++ exprUses lhs
  | .binary _ _ lhs rhs | .logicalOp _ _ lhs rhs => exprUses lhs ++ exprUses rhs
  | .tuple _ fields => listUses fields
  | .call _ funTy args => calleeUses tcx c funTy ++ listUses args
  | .adt _ did variantIndex substs fields _ =>
    (.constructor did variantIndex :: c.argUses substs) ++ fieldUses fields
  | .block _ _ stmts expr => stmtUses stmts ++ optUses expr
  | .matchE _ scrutinee arms => exprUses scrutinee ++ armUses (guardsMet scrutinee arms) arms

def listUses : List Hair.Expr → List BodyUse
  | [] => []
  | e :: es => exprUses e ++ listUses es

def fieldUses : List (Nat × Hair.Expr) → List BodyUse
  | [] => []
  | (_, e) :: es => exprUses e ++ fieldUses es

def optUses : Option Hair.Expr → List BodyUse
  | none => []
  | some e => exprUses e

def stmtUses : List Hair.Stmt → List BodyUse
  | [] => []
  | .expr e :: rest => exprUses e ++ stmtUses rest
  | .letS pattern initializer :: rest =>
    (patUses c pattern ++ optUses initializer) ++ stmtUses rest

def armUses (guards : Bool) : List Hair.Arm → List BodyUse
  | [] => []
  | .mk pattern guard body :: rest =>
    (patUses c pattern ++ (if guards then optUses guard else []) ++ exprUses body) ++
      armUses guards rest

end

end Collect

/-! ## Callees -/

/-- The function that is referred to. A call of `Box::new` is erased, but its function is met. -/
def BodyUse.calls : BodyUse → Option DefId
  | .callee did | .boxNew did => some did
  | .constructor _ _ | .field _ _ | .type _ _ => none

def callees (us : List BodyUse) : List DefId := us.filterMap BodyUse.calls

/-! ## References -/

section Shows

variable (tcx : Tcx) (ids : Ids)

/-- The reference to what is used. It is none if there is no id. -/
def BodyUse.Shows : BodyUse → Option Ref → Prop
  | .callee did, o => o = (ids did).map fun id => .function id.globalId
  | .boxNew did, o => ids did = none ∧ o = none
  | .constructor did variantIndex, o =>
    o = ((adtIds tcx ids did).bind (·[variantIndex]?)).map fun c => .constructor c.id.globalId
  | .field did name, o =>
    o = ((adtIds tcx ids did).bind fun sort => sort.head?.bind fun c => c.fields[name]?).map
      fun id => .selector id.globalId
  | .type d ty, o => ∃ e, TyUses tcx d ty e ∧ o = sortRef ids e

/-- The references are those to what is used, all of which has an id. -/
def RefsAre (rs : List Ref) (us : List BodyUse) : Prop :=
  ∀ o, (∃ r ∈ rs, o = some r) ↔ ∃ u ∈ us, u.Shows tcx ids o

end Shows

variable {tcx : Tcx} {ids : Ids} {rs rs' : List Ref} {us us' : List BodyUse}

theorem RefsAre.nil : RefsAre tcx ids [] [] := by
  intro o
  simp

theorem RefsAre.append (h : RefsAre tcx ids rs us) (h' : RefsAre tcx ids rs' us') :
    RefsAre tcx ids (rs ++ rs') (us ++ us') := by
  intro o
  simp only [List.mem_append, or_and_right, exists_or, h o, h' o]

theorem RefsAre.congr (h : RefsAre tcx ids rs us) (heq : ∀ u, u ∈ us ↔ u ∈ us') :
    RefsAre tcx ids rs us' := by
  intro o
  simp only [h o, heq]

theorem RefsAre.of_mem (h : RefsAre tcx ids rs us) (heq : ∀ r, r ∈ rs' ↔ r ∈ rs) :
    RefsAre tcx ids rs' us := by
  intro o
  simp only [← h o, heq]

theorem RefsAre.singleton {u : BodyUse} {r : Ref} (h : ∀ o, u.Shows tcx ids o ↔ o = some r) :
    RefsAre tcx ids [r] [u] := by
  intro o
  simp [h o]

/-- A use without a reference leaves none. -/
theorem RefsAre.silent {u : BodyUse} (h : ∀ o, ¬ u.Shows tcx ids o) : RefsAre tcx ids [] [u] := by
  intro o
  simp [h o]

/-- Every reference is to something that is used. -/
theorem RefsAre.use (h : RefsAre tcx ids rs us) {r : Ref} (hr : r ∈ rs) :
    ∃ u ∈ us, u.Shows tcx ids (some r) := (h (some r)).mp ⟨r, hr, rfl⟩

/-- Whatever is used has a reference to it. -/
theorem RefsAre.ref (h : RefsAre tcx ids rs us) {u : BodyUse} (hu : u ∈ us) {o : Option Ref}
    (ho : u.Shows tcx ids o) : ∃ r ∈ rs, o = some r := (h o).mpr ⟨u, hu, ho⟩

/-! ## Types -/

section Types

variable {c : UseCtxt} {txtcx : TyExtractionCtxt} {tps : Nat → Option TyParam} {d : DefId}

theorem RefsAre.type (hgen : GenericsImage tcx ids d txtcx) (htps : ParamsOf txtcx tps) {ty : Ty}
    {t : Tpe} (h : tyImage tcx ids tps ty = some t) : RefsAre tcx ids t.refs [.type d ty] := by
  intro o
  rw [tyImage_refs hgen htps h o]
  simp [BodyUse.Shows]

theorem RefsAre.types (hgen : GenericsImage tcx ids d txtcx) (htps : ParamsOf txtcx tps)
    {tys : List Ty} {ts : List Tpe} (h : tysImage tcx ids tps tys = some ts) :
    RefsAre tcx ids (Tpe.listRefs ts) (tys.map (.type d)) := by
  have hts := tysImage_forall₂ h
  clear h
  induction hts with
  | nil => exact .nil
  | cons ht _ ih => exact (RefsAre.type hgen htps ht).append ih

theorem suppImage_some {ty : Ty} {t : Tpe} (h : suppImage tcx ids tps ty = some t) :
    tyImage tcx ids tps ty = some t := by
  unfold suppImage at h
  split_ifs at h
  exact h

end Types

/-- A body is translated with the ids of what `c` says it uses. -/
structure CtxtUses (tcx : Tcx) (ids : Ids) (c : UseCtxt) (ctx : BodyCtxt) : Prop where
  generics : ∃ txtcx, GenericsImage tcx ids c.fn txtcx ∧
    ParamsOf txtcx ctx.txtcx.indexToTparam.get?
  vars : ∀ h v, ctx.vars.get? h = some v → RefsAre tcx ids v.tpe.refs (c.varUses h)

section Bodies

variable {c : UseCtxt} {ctx : BodyCtxt}

theorem CtxtUses.argTypes (hc : CtxtUses tcx ids c ctx) {substs : List Ty} {ts : List Tpe}
    (h : argTypesImage tcx ids ctx substs = some ts) :
    RefsAre tcx ids (Tpe.listRefs ts) (c.argUses substs) := by
  obtain ⟨txtcx, hgen, htps⟩ := hc.generics
  exact .types hgen htps (suppImages_some h)

/-! ## Patterns -/

theorem mem_fieldPatUses {u : BodyUse} {fields : List (Nat × Hair.Pat)} :
    u ∈ fieldPatUses c fields ↔ ∃ f ∈ fields, u ∈ patUses c f.2 := by
  induction fields with
  | nil => simp [fieldPatUses]
  | cons f rest ih =>
    show u ∈ patUses c f.2 ++ fieldPatUses c rest ↔ _
    rw [List.mem_append, ih]
    simp

/-- A sorted list of fields in range is gone through to its end. -/
theorem SubpatternsExtract.refsAre {R : Hair.Pat → Pattern → Prop} {i n : Nat}
    {fields : List (Nat × Hair.Pat)} {ps : List Pattern} (h : SubpatternsExtract R i n fields ps)
    (hsorted : fields.Pairwise fun a b => a.1 < b.1) (hbounds : ∀ f ∈ fields, i ≤ f.1 ∧ f.1 < i + n)
    (hR : ∀ f ∈ fields, ∀ q, R f.2 q → RefsAre tcx ids q.refs (patUses c f.2)) :
    RefsAre tcx ids (Pattern.listRefs ps) (fieldPatUses c fields) := by
  induction h with
  | @done i fields =>
    have hnone : ∀ f ∈ fields, False := by
      intro f hf
      have := hbounds f hf
      omega
    obtain rfl : fields = [] := List.eq_nil_iff_forall_not_mem.mpr hnone
    exact .nil
  | @wildcard i n fields ps hhead _ ih =>
    have hbounds' : ∀ f ∈ fields, i + 1 ≤ f.1 ∧ f.1 < i + 1 + n := by
      intro f hf
      have hf' := hbounds f hf
      obtain ⟨g, rest, rfl⟩ := List.exists_cons_of_ne_nil (List.ne_nil_of_mem hf)
      have hg := hhead g rfl
      have hg' := hbounds g List.mem_cons_self
      rcases List.mem_cons.mp hf with rfl | hf
      · omega
      · have := (List.pairwise_cons.mp hsorted).1 f hf
        omega
    exact ih hsorted hbounds' hR
  | @pattern i n p q fields ps hpq _ ih =>
    obtain ⟨hfirst, hsorted'⟩ := List.pairwise_cons.mp hsorted
    have hbounds' : ∀ f ∈ fields, i + 1 ≤ f.1 ∧ f.1 < i + 1 + n := by
      intro f hf
      have h1 := hfirst f hf
      have h2 := hbounds f (List.mem_cons_of_mem _ hf)
      simp only at h1
      omega
    exact (hR (i, p) List.mem_cons_self q hpq).append
      (ih hsorted' hbounds' fun f hf => hR f (List.mem_cons_of_mem _ hf))

/-- The reference to the constructor of a pattern or of a construction. -/
theorem RefsAre.constructor {did : DefId} {variantIndex : Nat} {sort : List ConstructorIds}
    {constructor : ConstructorIds} (hsort : adtIds tcx ids did = some sort)
    (hcons : sort[variantIndex]? = some constructor) :
    RefsAre tcx ids [.constructor constructor.id.globalId] [.constructor did variantIndex] := by
  refine .singleton fun o => ?_
  simp [BodyUse.Shows, hsort, hcons]

/--
The references in a pattern are those of the binder that was passed down, and of what it uses.
-/
theorem PatExtracts.refsAre (hc : CtxtUses tcx ids c ctx) {p : Hair.Pat} {binder : Option ValDef}
    {q : Pattern} (h : PatExtracts tcx ids ctx p binder q) : PatOk tcx p → ∀ bs : List BodyUse,
    RefsAre tcx ids (binderRefs binder) bs → RefsAre tcx ids q.refs (bs ++ patUses c p) := by
  refine PatExtracts.induct (P := fun p binder q => PatOk tcx p → ∀ bs : List BodyUse,
    RefsAre tcx ids (binderRefs binder) bs → RefsAre tcx ids q.refs (bs ++ patUses c p))
    (fun p binder q hrule hok bs hbs => ?_) p binder q h
  have hfields : ∀ {fields : List (Nat × Hair.Pat)} {n : Nat} {ps : List Pattern},
      (fields.map Prod.fst).Nodup ∧ (∀ f ∈ fields, f.1 < n) → PatOk.fields tcx fields →
      SubpatternsExtract (fun p q => PatExtracts tcx ids ctx p none q ∧ (PatOk tcx p → ∀ bs,
        RefsAre tcx ids (binderRefs none) bs → RefsAre tcx ids q.refs (bs ++ patUses c p)))
        0 n (sortByIndex fields) ps →
      RefsAre tcx ids (Pattern.listRefs ps) (fieldPatUses c fields) := by
    intro fields n ps hfit hok hps
    have hsorted : RefsAre tcx ids (Pattern.listRefs ps) (fieldPatUses c (sortByIndex fields)) := by
      refine hps.refsAre (sortByIndex_strict hfit.1) (fun f hf => ?_) fun f hf q hq => ?_
      · have := hfit.2 f (mem_sortByIndex.mp hf)
        omega
      · exact hq.2 (PatOk.of_fields hok f (mem_sortByIndex.mp hf)) [] .nil
    refine hsorted.congr fun u => ?_
    simp only [mem_fieldPatUses, mem_sortByIndex]
  cases hrule with
  | wild | constant =>
    rw [patUses, List.append_nil]
    exact hbs
  | @binding ty mode var v _ hv =>
    have hvar : RefsAre tcx ids ([] ++ v.tpe.refs) (bs ++ c.varUses var) :=
      hbs.append (hc.vars _ _ hv)
    rw [patUses, optPatUses, List.append_nil]
    exact hvar
  | bindingAt _ hv hp =>
    have hsub := hp.2 hok _ (hbs.append (hc.vars _ _ hv))
    rwa [List.append_assoc] at hsub
  | variant hsort hcons htps hps =>
    have hps := hfields (hok.1 _ (adtIds_fields hsort hcons)) hok.2 hps
    have hhead := (RefsAre.constructor hsort hcons).append (hc.argTypes htps)
    rw [Pattern.refs, List.append_assoc]
    exact hbs.append (hhead.append hps)
  | @leafAdt did _ _ _ _ _ _ hsort htps hps =>
    have hps := hfields (hok.1 _ (adtIds_fields (i := 0) hsort rfl)) hok.2 hps
    have hcons : RefsAre tcx ids _ [.constructor did 0] := .constructor hsort rfl
    have hhead := hcons.append (hc.argTypes htps)
    rw [Pattern.refs, List.append_assoc]
    exact hbs.append (hhead.append hps)
  | leafTuple hps => exact hbs.append (hfields (hok.1 _ rfl) hok.2 hps)
  | deref hp => exact hp.2 hok bs hbs

/-! ## Expressions -/

theorem finishBlock_refs (acc : List St.Expr) (last : St.Expr) :
    (finishBlock acc last).refs = St.Expr.listRefs acc ++ last.refs := by
  cases acc with
  | nil => rfl
  | cons e acc => rfl

theorem widenShiftArg_refs {ty1 ty2 : Ty} {arg2 t : St.Expr}
    (h : widenShiftArg ty1 ty2 arg2 = .ok t) : t.refs = arg2.refs := by
  unfold widenShiftArg at h
  split_ifs at h with heq
  · obtain rfl := Except.ok.inj h
    rfl
  · repeat' split at h
    all_goals cases h
    all_goals exact List.append_nil _

theorem LetVar.patUses {p : Hair.Pat} {h : HirId} (hlet : LetVar p h) :
    patUses c p = c.varUses h := by
  induction hlet with
  | binding => exact List.append_nil _
  | ascribeUserType _ ih => rw [Stainless.patUses, ih]

theorem exprUses_stripScopes : ∀ e : Hair.Expr,
    exprUses tcx c (stripScopes e) = exprUses tcx c e
  | .scope _ value => by
    rw [stripScopes, exprUses]
    exact exprUses_stripScopes value
  | .literal _ _ | .other _ _ | .varRef _ _ | .unary _ _ _ | .field _ _ _ | .use _ _
  | .neverToAny _ _ | .deref _ _ | .borrow _ _ _ | .binary _ _ _ _ | .logicalOp _ _ _ _
  | .tuple _ _ | .call _ _ _ | .adt _ _ _ _ _ _ | .block _ _ _ _ | .matchE _ _ _ => rfl

theorem mem_fieldUses {u : BodyUse} {fields : List (Nat × Hair.Expr)} :
    u ∈ fieldUses tcx c fields ↔ ∃ f ∈ fields, u ∈ exprUses tcx c f.2 := by
  induction fields with
  | nil => simp [fieldUses]
  | cons f rest ih =>
    show u ∈ exprUses tcx c f.2 ++ fieldUses tcx c rest ↔ _
    rw [List.mem_append, ih]
    simp

theorem mem_listUses {u : BodyUse} {es : List Hair.Expr} :
    u ∈ listUses tcx c es ↔ ∃ e ∈ es, u ∈ exprUses tcx c e := by
  induction es with
  | nil => simp [listUses]
  | cons e rest ih => simp [listUses, ih]

section Lists

variable {R : Hair.Expr → St.Expr → Prop}

theorem refsAre_of_forall₂ {es : List Hair.Expr} {ts : List St.Expr} (h : List.Forall₂ R es ts)
    (hR : ∀ e ∈ es, ∀ t, R e t → RefsAre tcx ids t.refs (exprUses tcx c e)) :
    RefsAre tcx ids (St.Expr.listRefs ts) (listUses tcx c es) := by
  induction h with
  | nil => exact .nil
  | @cons e t es ts het _ ih =>
    exact (hR e List.mem_cons_self t het).append
      (ih fun e' he' => hR e' (List.mem_cons_of_mem _ he'))

theorem OptExtracts.refsAre {o : Option Hair.Expr} {ot : Option St.Expr} (h : OptExtracts R o ot)
    (hR : ∀ e ∈ o, ∀ t, R e t → RefsAre tcx ids t.refs (exprUses tcx c e)) :
    RefsAre tcx ids (St.Expr.optRefs ot) (optUses tcx c o) := by
  cases h with
  | none => exact .nil
  | some ht => exact hR _ rfl _ ht

/-- The statements so far keep their references, and the type of a `let` is that of its binding. -/
theorem StmtsExtract.refsAre (hc : CtxtUses tcx ids c ctx) {stmts : List Hair.Stmt}
    {acc : List St.Expr} {last r : St.Expr} {lastUses : List BodyUse}
    (h : StmtsExtract ctx.vars.get? R stmts acc last r)
    (hR : ∀ e ∈ stmtExprs stmts, ∀ t, R e t → RefsAre tcx ids t.refs (exprUses tcx c e))
    (hlast : RefsAre tcx ids last.refs lastUses) : ∀ accUses : List BodyUse,
    RefsAre tcx ids (St.Expr.listRefs acc) accUses →
    RefsAre tcx ids r.refs (accUses ++ (stmtUses tcx c stmts ++ lastUses)) := by
  induction h with
  | finish =>
    intro accUses hacc
    rw [finishBlock_refs]
    exact hacc.append hlast
  | @expr e t stmts acc last r het _ ih =>
    intro accUses hacc
    have hhead : RefsAre tcx ids (St.Expr.listRefs [t]) (exprUses tcx c e) := by
      rw [St.Expr.listRefs, St.Expr.listRefs, List.append_nil]
      exact hR e List.mem_cons_self t het
    have hrest := ih (fun e' he' => hR e' (List.mem_cons_of_mem _ he')) hlast
      (accUses ++ exprUses tcx c e) (by
        rw [St.Expr.listRefs_append]
        exact hacc.append hhead)
    rw [stmtUses, List.append_assoc]
    rwa [List.append_assoc] at hrest
  | @letS p var v init t stmts acc last r hvar hv hinit _ ih =>
    intro accUses hacc
    have hhead : RefsAre tcx ids t.refs (exprUses tcx c init) := hR init List.mem_cons_self t hinit
    have hrest := ih (fun e' he' => hR e' (List.mem_cons_of_mem _ he')) hlast [] .nil
    have hvd : RefsAre tcx ids ({ v := v } : ValDef).refs (patUses c p) := by
      rw [hvar.patUses]
      exact hc.vars _ _ hv
    rw [finishBlock_refs, stmtUses, List.append_assoc]
    exact hacc.append ((hvd.append hhead).append hrest)

theorem armExtracts_refsAre (hc : CtxtUses tcx ids c ctx) {arms : List Hair.Arm}
    {cases' : List MatchCase}
    (h : List.Forall₂ (ArmExtracts (fun p q => PatExtracts tcx ids ctx p none q) R) arms cases')
    (hok : ExprOk.arms tcx arms)
    (hR : ∀ e t, ExprOk tcx e → R e t → RefsAre tcx ids t.refs (exprUses tcx c e)) :
    RefsAre tcx ids (MatchCase.listRefs cases') (armUses tcx c true arms) := by
  induction h with
  | nil => exact .nil
  | @cons arm m arms cases' harm _ ih =>
    cases harm with
    | @mk pattern guard body p g b hp hg hb =>
      obtain ⟨hokPat, hokGuard, hokBody, hokRest⟩ := hok
      have hpat : RefsAre tcx ids p.refs (patUses c pattern) := hp.refsAre hc hokPat [] .nil
      have hguard : RefsAre tcx ids (St.Expr.optRefs g) (optUses tcx c guard) := by
        refine hg.refsAre fun e he t => hR e t ?_
        obtain rfl : guard = some e := he
        exact hokGuard
      have hbody : RefsAre tcx ids b.refs (exprUses tcx c body) := hR body b hokBody hb
      exact ((hpat.append hguard).append hbody).append (ih hokRest)

end Lists

theorem RefsAre.callee {did : DefId} {fdId : SymbolIdentifier} (hid : ids did = some fdId) :
    RefsAre tcx ids [.function fdId.globalId] [.callee did] := by
  refine .singleton fun o => ?_
  simp [BodyUse.Shows, hid]

theorem RefsAre.boxNew {did : DefId} {fdId : SymbolIdentifier} (hid : ids did = some fdId) :
    RefsAre tcx ids [] [.boxNew did] := by
  refine .silent fun o => ?_
  simp [BodyUse.Shows, hid]

theorem RefsAre.field {did : DefId} {name : Nat} {sort : ConstructorIds}
    {rest : List ConstructorIds}
    {id : SymbolIdentifier} (hsort : adtIds tcx ids did = some (sort :: rest))
    (hfield : sort.fields[name]? = some id) :
    RefsAre tcx ids [.selector id.globalId] [.field did name] := by
  refine .singleton fun o => ?_
  simp [BodyUse.Shows, hsort, hfield]

theorem isBoxNewPath_iff (hpaths : PathIds tcx ids) {did : DefId} {fdId : SymbolIdentifier}
    (hid : ids did = some fdId) : isBoxNewPath tcx did = true ↔ fdId.symbolPath = boxNewPath := by
  rw [isBoxNewPath, hpaths did fdId hid, decide_eq_true_eq]

/-- A callee that is none of the standard functions. -/
theorem IsPlainCallee.calleeUses {did : DefId} (h : IsPlainCallee tcx did) (substs : List Ty) :
    calleeUses tcx c (.fnDef did substs) =
      if isBoxNewPath tcx did then [.boxNew did] else .callee did :: c.argUses substs := by
  cases hitem : tcx.stdItems.defToItemOpt did with
  | none => simp only [Stainless.calleeUses, hitem]
  | some item =>
    have hmem := h item hitem
    cases item <;> simp at hmem <;> simp only [Stainless.calleeUses, hitem]

/-- **The references in the translation of an expression are those to what the expression uses.** -/
theorem ExprExtracts.refsAre (hc : CtxtUses tcx ids c ctx) (hpaths : PathIds tcx ids)
    {e : Hair.Expr} {t : St.Expr} (h : ExprExtracts tcx ids ctx e t) :
    ExprOk tcx e → RefsAre tcx ids t.refs (exprUses tcx c e) := by
  refine ExprExtracts.induct
    (P := fun e t => ExprOk tcx e → RefsAre tcx ids t.refs (exprUses tcx c e))
    (fun e t hrule hok => ?_) e t h
  have hlist : ∀ {es : List Hair.Expr} {ts : List St.Expr}, (∀ e ∈ es, ExprOk tcx e) →
      List.Forall₂ (fun e t => ExprExtracts tcx ids ctx e t ∧
        (ExprOk tcx e → RefsAre tcx ids t.refs (exprUses tcx c e))) es ts →
      RefsAre tcx ids (St.Expr.listRefs ts) (listUses tcx c es) := fun hoks hts =>
    refsAre_of_forall₂ hts fun e he _ ht => ht.2 (hoks e he)
  cases hrule with
  | literal | unit => exact .nil
  | bvNot ha | boolNot ha | neg ha => exact ha.2 hok
  | eq ha hb | bvOp ha hb | ne ha hb => exact (ha.2 hok.1).append (hb.2 hok.2)
  | shift ha hb _ _ _ hwiden =>
    rw [St.Expr.refs, widenShiftArg_refs hwiden]
    exact (ha.2 hok.1).append (hb.2 hok.2)
  | and ha hb | or ha hb =>
    rw [St.Expr.refs, St.Expr.listRefs, St.Expr.listRefs, St.Expr.listRefs, List.append_nil]
    exact (ha.2 hok.1).append (hb.2 hok.2)
  | tuple _ hts => exact hlist (ExprOk.of_list hok) hts
  | tupleField ha hty =>
    rw [exprUses, hty]
    exact ha.2 hok
  | adtField ha hty hsort hfield =>
    rw [exprUses, hty]
    exact (RefsAre.field hsort hfield).append (ha.2 hok)
  | varRef hv => exact hc.vars _ _ hv
  | panic hitem ha =>
    have harg := ha.2 hok.2.1
    rw [exprUses, calleeUses, hitem, listUses, listUses, List.append_nil, St.Expr.refs,
      St.Expr.listRefs, St.Expr.listRefs, St.Expr.refs, Tpe.refs, List.append_nil, List.append_nil]
    exact harg
  | @setCreation ty did elementTy substs args ts tpe hitem hts htpe =>
    obtain ⟨txtcx, hgen, htps⟩ := hc.generics
    have helement : RefsAre tcx ids tpe.refs [.type c.fn elementTy] :=
      .type hgen htps (suppImage_some htpe)
    have hcallee : calleeUses tcx c (.fnDef did (elementTy :: substs)) =
        [.type c.fn elementTy] := by
      rw [List.mem_cons, List.mem_singleton] at hitem
      rcases hitem with hitem | hitem <;> simp [calleeUses, hitem]
    rw [exprUses, hcallee]
    exact helement.append (hlist (ExprOk.of_list hok.2) hts)
  | @setOp ty did substs item operator set arg args a b ts hitem hoperator ha hb _ =>
    have htwo : (set :: arg :: args).length = 2 :=
      (hok.1 did substs rfl).1 item hitem (by simp [hoperator])
    obtain rfl : args = [] := List.eq_nil_of_length_eq_zero (by simpa using htwo)
    have hcallee : calleeUses tcx c (.fnDef did substs) = [] := by
      cases item <;> simp [setOperator] at hoperator <;> simp [calleeUses, hitem]
    rw [exprUses, hcallee, listUses, listUses, listUses, List.append_nil]
    exact (ha.2 hok.2.1).append (hb.2 hok.2.2.1)
  | @boxNew ty did substs arg args a fdId hplain hid hbox ha =>
    have hone : (arg :: args).length = 1 :=
      (hok.1 did substs rfl).2 (by rw [← hpaths did fdId hid, hbox])
    obtain rfl : args = [] := List.eq_nil_of_length_eq_zero (by simpa using hone)
    rw [exprUses, hplain.calleeUses, if_pos ((isBoxNewPath_iff hpaths hid).mpr hbox), listUses,
      listUses, List.append_nil]
    exact (RefsAre.boxNew hid).append (ha.2 hok.2.1)
  | call hplain hid hbox htps hts =>
    rw [exprUses, hplain.calleeUses, if_neg fun h => hbox ((isBoxNewPath_iff hpaths hid).mp h)]
    exact ((RefsAre.callee hid).append (hc.argTypes htps)).append
      (hlist (ExprOk.of_list hok.2) hts)
  | @adt ty did variantIndex substs fields sort constructor argTps ts hsort hcons htps hts =>
    have hoks : ∀ e ∈ (sortByIndex fields).map Prod.snd, ExprOk tcx e := by
      intro e he
      obtain ⟨f, hf, rfl⟩ := List.mem_map.mp he
      exact ExprOk.of_fields hok f (mem_sortByIndex.mp hf)
    have hargs : RefsAre tcx ids (St.Expr.listRefs ts) (fieldUses tcx c fields) := by
      refine (hlist hoks hts).congr fun u => ?_
      rw [mem_listUses, mem_fieldUses]
      simp only [List.mem_map, exists_exists_and_eq_and, mem_sortByIndex]
    exact ((RefsAre.constructor hsort hcons).append (hc.argTypes htps)).append hargs
  | @block ty stmts expr last r hlast hstmts =>
    have hfinal : RefsAre tcx ids (last.getD .unitLiteral).refs (optUses tcx c expr) := by
      cases hlast with
      | none => exact .nil
      | some ht => exact ht.2 hok.2
    exact hstmts.refsAre hc (fun e he _ ht => ht.2 (ExprOk.of_stmts hok.1 e he)) hfinal [] .nil
  | ifElse hif ha ht he =>
    obtain ⟨hokScrutinee, ⟨-, -, hokThen, -, -, hokElse, -⟩⟩ := hok
    rw [exprUses, guardsMet, hif]
    simp only [armUses, patUses, Bool.false_eq_true, if_false, List.nil_append, List.append_nil]
    rw [← List.append_assoc]
    exact ((ha.2 hokScrutinee).append (ht.2 hokThen)).append (he.2 hokElse)
  | @ifOnly ty scrutinee armTy armTy' konst guard guard' thenn elze cond t hif ha ht =>
    obtain ⟨hokScrutinee, ⟨-, -, hokThen, -⟩⟩ := hok
    obtain ⟨-, -, hempty⟩ := looksLikeIf_shape hif
    obtain ⟨ty', safe, hstrip⟩ := hempty rfl
    have helse : exprUses tcx c elze = [] := by
      rw [← exprUses_stripScopes, hstrip]
      rfl
    rw [exprUses, guardsMet, hif]
    simp only [armUses, patUses, helse, Bool.false_eq_true, if_false, List.nil_append,
      List.append_nil]
    rw [St.Expr.refs, St.Expr.refs, List.append_nil]
    exact (ha.2 hokScrutinee).append (ht.2 hokThen)
  | matchE hif ha harms =>
    rw [exprUses, guardsMet, hif]
    exact (ha.2 hok.1).append (armExtracts_refsAre hc harms hok.2 fun e t hoke ht => ht.2 hoke)
  | scope ha | use ha | neverToAny ha | deref ha | borrow ha => exact ha.2 hok

end Bodies

end Stainless
