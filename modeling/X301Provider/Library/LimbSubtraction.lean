import X301Provider.Library.Limbs

/-!
# Borrow chains

Word subtraction with a zero-one borrow. The borrowing primitive is a parameter
of the chain, so that two implementations of it can be compared word by word.
-/

namespace Limbs

/-- One word of a subtraction: the difference and the outgoing borrow. -/
def BorrowSpec (sub : UInt64 → UInt64 → UInt64 → UInt64 × UInt64) : Prop :=
  ∀ left right borrow : UInt64, borrow.toNat ≤ 1 →
    (sub left right borrow).2.toNat ≤ 1 ∧
      (sub left right borrow).1.toNat + right.toNat + borrow.toNat =
        left.toNat + wordBase * (sub left right borrow).2.toNat

/-- A pass of borrowing subtractions over aligned words. -/
def borrowChain (sub : UInt64 → UInt64 → UInt64 → UInt64 × UInt64) :
    List UInt64 → List UInt64 → UInt64 → List UInt64 × UInt64
  | left :: lefts, right :: rights, borrow =>
    let step := sub left right borrow
    let rest := borrowChain sub lefts rights step.2
    (step.1 :: rest.1, rest.2)
  | _, _, borrow => ([], borrow)

variable {sub sub' : UInt64 → UInt64 → UInt64 → UInt64 × UInt64}

theorem borrowChain_length (sub : UInt64 → UInt64 → UInt64 → UInt64 × UInt64) {left right : List UInt64}
    (h : left.length = right.length) (borrow : UInt64) :
    (borrowChain sub left right borrow).1.length = left.length := by
  induction left generalizing right borrow with
  | nil => rfl
  | cons l left ih =>
    cases right with
    | nil => simp at h
    | cons r right =>
      simp only [List.length_cons, Nat.add_right_cancel_iff] at h
      simp only [borrowChain, List.length_cons, ih h]

/-- The chain when a borrow word stands for a bit in some way. -/
theorem borrowChain_value_by {bit : UInt64 → ℕ}
    (hSub : ∀ left right borrow : UInt64, bit borrow ≤ 1 →
      bit (sub left right borrow).2 ≤ 1 ∧
        (sub left right borrow).1.toNat + right.toNat + bit borrow =
          left.toNat + wordBase * bit (sub left right borrow).2)
    {left right : List UInt64} (h : left.length = right.length) {borrow : UInt64}
    (hBorrow : bit borrow ≤ 1) :
    bit (borrowChain sub left right borrow).2 ≤ 1 ∧
      value (borrowChain sub left right borrow).1 + value right + bit borrow =
        value left + wordBase ^ left.length * bit (borrowChain sub left right borrow).2 := by
  induction left generalizing right borrow with
  | nil =>
    cases right with
    | nil => simpa [borrowChain] using hBorrow
    | cons r right => simp at h
  | cons l left ih =>
    cases right with
    | nil => simp at h
    | cons r right =>
      simp only [List.length_cons, Nat.add_right_cancel_iff] at h
      obtain ⟨hNext, hWord⟩ := hSub l r borrow hBorrow
      obtain ⟨hLast, hRest⟩ := ih h hNext
      refine ⟨hLast, ?_⟩
      simp only [borrowChain, value_cons, List.length_cons, pow_succ]
      linear_combination hWord + wordBase * hRest

theorem borrowChain_value (hSub : BorrowSpec sub) {left right : List UInt64}
    (h : left.length = right.length) {borrow : UInt64} (hBorrow : borrow.toNat ≤ 1) :
    (borrowChain sub left right borrow).2.toNat ≤ 1 ∧
      value (borrowChain sub left right borrow).1 + value right + borrow.toNat =
        value left + wordBase ^ left.length * (borrowChain sub left right borrow).2.toNat :=
  borrowChain_value_by hSub h hBorrow

/-- The final borrow decides the comparison, and the words are the difference modulo the radix
power. -/
theorem borrowChain_exact (hSub : BorrowSpec sub) {left right : List UInt64}
    (h : left.length = right.length) :
    (value left < value right → (borrowChain sub left right 0).2 = 1 ∧
      value (borrowChain sub left right 0).1 + value right =
        value left + wordBase ^ left.length) ∧
    (value right ≤ value left → (borrowChain sub left right 0).2 = 0 ∧
      value (borrowChain sub left right 0).1 + value right = value left) := by
  obtain ⟨hBorrow, hValue⟩ := borrowChain_value hSub h (show (0 : UInt64).toNat ≤ 1 by decide)
  have hLength := borrowChain_length sub h 0
  have hLt := value_lt (borrowChain sub left right 0).1
  rw [hLength] at hLt
  have hRight := value_lt right
  rw [← h] at hRight
  have hZero : (0 : UInt64).toNat = 0 := rfl
  rw [hZero, add_zero] at hValue
  cases Nat.le_one_iff_eq_zero_or_eq_one.mp hBorrow with
  | inl hB =>
    rw [hB, mul_zero, add_zero] at hValue
    refine ⟨fun hLess => by omega, fun _ => ⟨UInt64.toNat_inj.mp hB, hValue⟩⟩
  | inr hB =>
    rw [hB, mul_one] at hValue
    refine ⟨fun _ => ⟨UInt64.toNat_inj.mp hB, hValue⟩, fun hLess => by omega⟩

/-- Primitives that agree on zero-one borrows give the same chain. -/
theorem borrowChain_congr (hSub : BorrowSpec sub)
    (hEq : ∀ left right borrow, borrow.toNat ≤ 1 → sub left right borrow = sub' left right borrow)
    (left right : List UInt64) {borrow : UInt64} (hBorrow : borrow.toNat ≤ 1) :
    borrowChain sub left right borrow = borrowChain sub' left right borrow := by
  induction left generalizing right borrow with
  | nil => rfl
  | cons l left ih =>
    cases right with
    | nil => rfl
    | cons r right =>
      have hNext := (hSub l r borrow hBorrow).1
      simp only [borrowChain, ← hEq l r borrow hBorrow, ih right hNext]

end Limbs
