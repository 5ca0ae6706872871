import RustStainless.Extraction.Image
import RustStainless.Extraction.Traversal

/-!
# Extracted bodies are images

An instance of the traversal theorem: the extraction of a body reads back to its image under the ids
of the final state.
-/

namespace Stainless

open Rustc St Lib Extraction

variable {tcx : Tcx}

/-! ## Reading back -/

/-- Answers from ids that are still to be given. -/
def readerOps (tcx : Tcx) (ctx : BodyCtxt) : BodyOps (ReaderT Ids Option) where
  unsupported := fun msg ids => (imageOps tcx ids ctx).unsupported msg
  panic := fun e ids => (imageOps tcx ids ctx).panic e
  extractAdt := fun d ids => (imageOps tcx ids ctx).extractAdt d
  extractFnRef := fun d ids => (imageOps tcx ids ctx).extractFnRef d
  extractTy := fun ty ids => (imageOps tcx ids ctx).extractTy ty
  extractTys := fun tys ids => (imageOps tcx ids ctx).extractTys tys
  fetchVar := fun h ids => (imageOps tcx ids ctx).fetchVar h

/-- What a reader does once the ids are given. -/
def givenIds (ids : Ids) : MonadRel (ReaderT Ids Option) Option where
  rel := fun x y => x ids = y
  pure := fun _ => rfl
  bind := by
    intro α β x y f g hx hf
    show (x ids >>= fun a => f a ids) = y >>= g
    rw [hx, funext hf]

theorem readerOps_given (ids : Ids) (ctx : BodyCtxt) :
    OpsRel (givenIds ids) (fun _ => True) (readerOps tcx ctx) (imageOps tcx ids ctx) where
  unsupported := fun _ => rfl
  panic := fun _ _ => rfl
  extractAdt := fun _ => rfl
  extractFnRef := fun _ => rfl
  extractTy := fun _ => rfl
  extractTys := fun _ => rfl
  fetchVar := fun _ _ => rfl

theorem xtorOps_readsBack (hok : TcxOk tcx) (ctx : BodyCtxt) :
    OpsRel (Run.readsBack Panic (bodyReadback tcx)) (fun _ => True) (xtorOps tcx ctx)
      (readerOps tcx ctx) where
  unsupported := fun msg => unsupported_readsBack msg _
  panic := fun e _ => Run.ReadsBack.panic e _
  extractAdt := extractAdt_readsBack hok
  extractFnRef := extractFnRef_readsBack
  extractTy := extractTy_readsBack hok ctx
  extractTys := extractTys_readsBack hok ctx
  fetchVar := fun h _ => fetchVar_readsBack ctx h

/-- **An expression that is extracted without an error is extracted to its image.** -/
theorem extractExpr_image (hok : TcxOk tcx) {ctx : BodyCtxt} {e : Hair.Expr} {t : St.Expr}
    {s s' : Extraction} (hi : BodyInv tcx s) (h : extractExpr tcx ctx e s = .ok (t, s')) :
    BodyMoves tcx s s' ∧ (s'.NoErrors → ∀ ids : Ids,
      (∀ d id, s'.didId d = some id → ids d = some id) → exprImage tcx ids ctx e = some t) := by
  have hreads : (Run.readsBack Panic (bodyReadback tcx)).rel (extractExpr tcx ctx e)
      (extractExprWith tcx (readerOps tcx ctx) e) :=
    extractExprWith_rel (xtorOps_readsBack hok ctx) e fun _ _ => trivial
  obtain ⟨hmoves, hread⟩ := hreads s t s' hi h
  refine ⟨hmoves, fun hn ids hs => ?_⟩
  have hgiven : (givenIds ids).rel (extractExprWith tcx (readerOps tcx ctx) e)
      (exprImage tcx ids ctx e) :=
    extractExprWith_rel (readerOps_given ids ctx) e fun _ _ => trivial
  exact hgiven.symm.trans (hread hn ids hs)

end Stainless
