import RustStainless.Data.Symbols
import RustStainless.Extraction.Krate

/-!
# From a crate to its symbols

`extract_crate`, and the step behind it: `rustc_to_stainless` stops when an error was reported, and
exports or verifies the symbols otherwise.
-/

namespace Stainless

open Rustc St Lib

instance (s : Extraction) : Decidable s.NoErrors :=
  inferInstanceAs (Decidable (∀ d ∈ s.diags, d.isError = false))

/-- `into_result`, stored with `Symbols::new`. -/
def Extraction.symbols (tcx : Tcx) (s : Extraction) : St.Symbols :=
  St.Symbols.new (intoResult tcx s).sorts (intoResult tcx s).functions

/-- The entrypoint into extraction: the symbols, and the diagnostics of the session. -/
def extractCrate (tcx : Tcx) (krate : Hir.Crate) : Except Panic (St.Symbols × List Diag) :=
  match processCrate tcx krate .new with
  | .error e => .error e
  | .ok (_, s) => .ok (s.symbols tcx, s.diags)

/-- What is exported or verified: nothing behind `abort_if_errors` when there was an error. -/
def checkedSymbols (tcx : Tcx) (krate : Hir.Crate) : Except Panic (Option St.Symbols) :=
  match extractCrate tcx krate with
  | .error e => .error e
  | .ok (symbols, diags) => .ok (if diags.any Diag.isError then none else some symbols)

variable {tcx : Tcx} {krate : Hir.Crate}

theorem checkedSymbols_some {symbols : St.Symbols} :
    checkedSymbols tcx krate = .ok (some symbols) ↔
      ∃ s, processCrate tcx krate .new = .ok ((), s) ∧ s.NoErrors ∧ symbols = s.symbols tcx := by
  unfold checkedSymbols extractCrate
  cases processCrate tcx krate .new with
  | error e => simp
  | ok r =>
    obtain ⟨u, s⟩ := r
    have hiff : s.diags.any Diag.isError = false ↔ s.NoErrors := by
      simp [Extraction.NoErrors]
    have hrun : ∀ t, (Except.ok (u, s) : Except Panic (Unit × Extraction)) = .ok ((), t) ↔
        t = s := by
      simp [eq_comm]
    simp only [hrun, exists_eq_left, ← hiff, Except.ok.injEq]
    cases s.diags.any Diag.isError with
    | true => simp
    | false => simp [eq_comm]

end Stainless
