import Mathlib.Data.Prod.Lex
import Mathlib.Order.WithBot
import SwitchCover.Proofs.ReportOrder

namespace SwitchCover

/-- The span that places the remarks of a diagnostic: that of the first primary one, which may have
none. -/
inductive SubDiagnostic.PlacedAt : List SubDiagnostic → Option Span → Prop where
  | nowhere : PlacedAt [] none
  | primary (h : s.style = .primary) : PlacedAt (s :: subs) s.span
  | secondary (h : s.style = .secondary) (hs : PlacedAt subs place) : PlacedAt (s :: subs) place

namespace Diagnostic

theorem placedAt_iff (d : Diagnostic) (span : Option Span) :
    SubDiagnostic.PlacedAt d.subs span ↔ d.primarySpan = span := by
  rw [primarySpan]
  induction d.subs with
  | nil =>
    constructor
    · rintro ⟨⟩
      rfl
    · rintro rfl
      exact .nowhere
  | cons s subs ih =>
    cases hs : s.style with
    | primary =>
      rw [List.find?_cons_of_pos (by simp [SubDiagnostic.isPrimary, hs])]
      constructor
      · intro h
        cases h with
        | primary => rfl
        | secondary h => cases hs.symm.trans h
      · rintro rfl
        exact .primary hs
    | secondary =>
      rw [List.find?_cons_of_neg (by simp [SubDiagnostic.isPrimary, hs]), ← ih]
      constructor
      · intro h
        cases h with
        | primary h => cases hs.symm.trans h
        | secondary _ h => exact h
      · exact .secondary hs

/-- Rank of a span: no span comes first, then file, start and end count in this order. -/
def spanRank : Option Span → WithBot (ℕ ×ₗ ℕ ×ₗ ℕ)
  | none => ⊥
  | some span => ↑(toLex (span.file.index, toLex (span.range.start, span.range.stop)))

def rank (d : Diagnostic) : WithBot (ℕ ×ₗ ℕ ×ₗ ℕ) ×ₗ ℕ :=
  toLex (spanRank d.primarySpan, d.code.number)

theorem keyLE_iff_rank_le (d e : Diagnostic) : keyLE d.key e.key = true ↔ d.rank ≤ e.rank := by
  simp only [key, rank]
  cases d.primarySpan with
  | none =>
    cases e.primarySpan with
    | none => simp [spanRank, keyLE, Prod.Lex.toLex_le_toLex, Nat.le_iff_lt_or_eq]
    | some t => simp [spanRank, keyLE, Prod.Lex.toLex_le_toLex]
  | some s =>
    cases e.primarySpan with
    | none => simp [spanRank, keyLE, Prod.Lex.toLex_le_toLex]
    | some t =>
      simp only [spanRank, keyLE, Prod.Lex.toLex_le_toLex, Prod.Lex.toLex_lt_toLex,
        WithBot.coe_lt_coe, WithBot.coe_inj, toLex_inj, Prod.mk.injEq, Nat.le_iff_lt_or_eq,
        Bool.or_eq_true, Bool.and_eq_true, decide_eq_true_eq]
      grind

/-- Keys and ranks distinguish the same diagnostics. -/
theorem key_eq_iff_rank_eq (d e : Diagnostic) : d.key = e.key ↔ d.rank = e.rank := by
  constructor
  · intro h
    apply le_antisymm
    · rw [← keyLE_iff_rank_le, h, keyLE_refl]
    · rw [← keyLE_iff_rank_le, h, keyLE_refl]
  · intro h
    apply keyLE_antisymm
    · rw [keyLE_iff_rank_le, h]
    · rw [keyLE_iff_rank_le, h]

end Diagnostic

namespace Report

/-- Extending a report by one batch after the other gives the report of all diagnostics: they are
sorted by rank, and those of equal rank stand in the order of the input. The place that counts is
that of the first primary remark. -/
theorem extend_batches (first : List Diagnostic) (rest : List (List Diagnostic)) :
    let all := (first :: rest).flatten
    let r := rest.foldl (fun r batch => r.append (ofList batch)) (ofList first)
    r = ofList all ∧ r.diagnostics.Perm all ∧
      r.diagnostics.Pairwise (fun d e => d.rank ≤ e.rank) ∧
      (∀ d, r.diagnostics.filter (·.rank = Diagnostic.rank d) = all.filter (·.rank = d.rank)) ∧
      ∀ d span, SubDiagnostic.PlacedAt (Diagnostic.subs d) span ↔ d.primarySpan = span := by
  intro all r
  have hr : r = ofList all := by
    have h := foldl_append_ofList id rest first
    rw [List.flatMap_id] at h
    exact h
  refine ⟨hr, ?_, ?_, ?_, Diagnostic.placedAt_iff⟩
  · rw [hr]
    exact List.mergeSort_perm _ _
  · rw [hr]
    exact (ascending_ofList all).imp fun {d e} => (Diagnostic.keyLE_iff_rank_le d e).1
  · intro d
    have h := withKey_ofList d.key all
    rw [hr]
    simpa only [withKey, Diagnostic.key_eq_iff_rank_eq] using h

end Report

end SwitchCover
