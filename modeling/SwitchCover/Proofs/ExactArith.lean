import Mathlib.Data.Int.Bitwise
import SwitchCover.ConstValue

namespace SwitchCover

namespace Bitwise

theorem testBit_diff (m n i : Nat) :
    (diff m n).testBit i = (m.testBit i && !n.testBit i) := by
  rw [diff, Nat.testBit_xor, Nat.testBit_and]
  cases m.testBit i <;> cases n.testBit i <;> rfl

theorem testBit_and (m n : Int) (i : Nat) :
    (and m n).testBit i = (m.testBit i && n.testBit i) := by
  cases m <;> cases n <;> simp [and, Int.testBit, testBit_diff, Bool.and_comm]

theorem testBit_or (m n : Int) (i : Nat) :
    (or m n).testBit i = (m.testBit i || n.testBit i) := by
  cases m <;> cases n <;> simp [or, Int.testBit, testBit_diff, Bool.or_comm]

theorem testBit_xor (m n : Int) (i : Nat) :
    (xor m n).testBit i = (m.testBit i ^^ n.testBit i) := by
  cases m <;> cases n <;> simp [xor, Int.testBit]

/-- Two natural numbers have the same bits from some place on. -/
theorem exists_testBit_eq (m n : Nat) : ∃ i, m.testBit i = n.testBit i := by
  refine ⟨m + n, ?_⟩
  rw [Nat.testBit_lt_two_pow (Nat.lt_of_le_of_lt (Nat.le_add_right m n) Nat.lt_two_pow_self),
    Nat.testBit_lt_two_pow (Nat.lt_of_le_of_lt (Nat.le_add_left n m) Nat.lt_two_pow_self)]

theorem eq_of_testBit {m n : Int} (h : ∀ i, m.testBit i = n.testBit i) : m = n := by
  cases m with
  | ofNat a =>
    cases n with
    | ofNat b => rw [Nat.eq_of_testBit_eq h]
    | negSucc b =>
      obtain ⟨i, hi⟩ := exists_testBit_eq a b
      have hc : a.testBit i = !b.testBit i := h i
      simp [hi] at hc
  | negSucc a =>
    cases n with
    | ofNat b =>
      obtain ⟨i, hi⟩ := exists_testBit_eq a b
      have hc : (!a.testBit i) = b.testBit i := h i
      simp [hi] at hc
    | negSucc b => rw [Nat.eq_of_testBit_eq fun i => Bool.not_inj (h i)]

theorem eq_iff_testBit {k n : Int} {bit : Nat → Bool} (h : ∀ i, n.testBit i = bit i) :
    n = k ↔ ∀ i, k.testBit i = bit i := by
  constructor
  · rintro rfl
    exact h
  · intro hk
    exact eq_of_testBit fun i => (h i).trans (hk i).symm

end Bitwise

namespace ArithOp

/-- `q` is the quotient of `m` by `n` rounded toward zero, and `r` is what remains, which has the
sign of `m` if it is not zero. -/
def Truncates (m n q r : Int) : Prop :=
  m = n * q + r ∧ r.natAbs < n.natAbs ∧ 0 ≤ m * r

/-- `k` is the exact result of an operation on two integers. The bits are those of two's complement
with infinitely many sign bits. Division by zero and shifts have no result. -/
def Exact : ArithOp → Int → Int → Int → Prop
  | add, m, n, k => k = m + n
  | sub, m, n, k => k = m - n
  | mul, m, n, k => k = m * n
  | div, m, n, k => ∃ r, Truncates m n k r
  | rem, m, n, k => ∃ q, Truncates m n q k
  | bitOr, m, n, k => ∀ i, k.testBit i = (m.testBit i || n.testBit i)
  | bitAnd, m, n, k => ∀ i, k.testBit i = (m.testBit i && n.testBit i)
  | bitXor, m, n, k => ∀ i, k.testBit i = (m.testBit i ^^ n.testBit i)
  | shiftLeft, _, _, _ => False
  | shiftRight, _, _, _ => False

theorem truncates_tdiv (m : Int) (hn : n ≠ 0) : Truncates m n (m.tdiv n) (m.tmod n) := by
  refine ⟨(Int.mul_tdiv_add_tmod m n).symm, ?_, ?_⟩
  · rw [Int.natAbs_tmod]
    exact Nat.mod_lt _ (Int.natAbs_pos.2 hn)
  · rcases Int.le_total 0 m with hm | hm
    · exact Int.mul_nonneg hm (Int.tmod_nonneg n hm)
    · have hr : 0 ≤ (-m).tmod n := Int.tmod_nonneg n (Int.neg_nonneg_of_nonpos hm)
      rw [Int.neg_tmod] at hr
      exact Int.mul_nonneg_of_nonpos_of_nonpos hm (Int.nonpos_of_neg_nonneg hr)

theorem Truncates.unique (h : Truncates m n q r) : q = m.tdiv n ∧ r = m.tmod n := by
  obtain ⟨he, hlt, hs⟩ := h
  have hn : n ≠ 0 := by
    rintro rfl
    exact absurd hlt (Nat.not_lt_zero _)
  have hsum : r + n * q = m := by rw [he, Int.add_comm]
  rcases Int.lt_trichotomy m 0 with hm | rfl | hm
  · have hr : r ≤ 0 := by
      by_contra hr
      exact absurd hs (Int.not_le.2 (Int.mul_neg_of_neg_of_pos hm (by omega)))
    have hu := (Int.tdiv_tmod_unique' (by omega) hn).2 ⟨hsum, by omega, hr⟩
    exact ⟨hu.1.symm, hu.2.symm⟩
  · -- Zero does not say which sign the remainder has, but then the remainder is a multiple.
    have hr : r = 0 := by
      have hd : n ∣ r := ⟨-q, by rw [Int.mul_neg]; omega⟩
      by_contra hr
      have hle := Nat.le_of_dvd (Int.natAbs_pos.2 hr) (Int.natAbs_dvd_natAbs.2 hd)
      exact Nat.not_lt.2 hle hlt
    have hq : q = 0 := by
      rw [hr, Int.zero_add] at hsum
      exact (Int.mul_eq_zero.1 hsum).resolve_left hn
    rw [hr, hq, Int.zero_tdiv, Int.zero_tmod]
    exact ⟨rfl, rfl⟩
  · have hr : 0 ≤ r := by
      by_contra hr
      exact absurd hs (Int.not_le.2 (Int.mul_neg_of_pos_of_neg hm (by omega)))
    have hu := (Int.tdiv_tmod_unique (by omega) hn).2 ⟨hsum, hr, by omega⟩
    exact ⟨hu.1.symm, hu.2.symm⟩

theorem not_truncates_zero (m q r : Int) : ¬Truncates m 0 q r :=
  fun h => absurd h.2.1 (Nat.not_lt_zero _)

/-- Constants are folded to the exact results, and only to these. -/
theorem fold_eq_some_iff (op : ArithOp) (m n k : Int) :
    op.fold m n = some k ↔ op.Exact m n k := by
  cases op with
  | add => simp [fold, Exact, eq_comm]
  | sub => simp [fold, Exact, eq_comm]
  | mul => simp [fold, Exact, eq_comm]
  | div =>
    by_cases hn : n = 0
    · simp [fold, Exact, hn, not_truncates_zero]
    · simp only [fold, if_neg hn, Option.some.injEq, Exact]
      constructor
      · rintro rfl
        exact ⟨_, truncates_tdiv m hn⟩
      · exact fun ⟨r, hr⟩ => hr.unique.1.symm
  | rem =>
    by_cases hn : n = 0
    · simp [fold, Exact, hn, not_truncates_zero]
    · simp only [fold, if_neg hn, Option.some.injEq, Exact]
      constructor
      · rintro rfl
        exact ⟨_, truncates_tdiv m hn⟩
      · exact fun ⟨q, hq⟩ => hq.unique.2.symm
  | bitOr =>
    simp only [fold, Option.some.injEq, Exact]
    exact Bitwise.eq_iff_testBit (Bitwise.testBit_or m n)
  | bitAnd =>
    simp only [fold, Option.some.injEq, Exact]
    exact Bitwise.eq_iff_testBit (Bitwise.testBit_and m n)
  | bitXor =>
    simp only [fold, Option.some.injEq, Exact]
    exact Bitwise.eq_iff_testBit (Bitwise.testBit_xor m n)
  | shiftLeft => simp [fold, Exact]
  | shiftRight => simp [fold, Exact]

end ArithOp

end SwitchCover
