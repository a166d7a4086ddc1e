import X301Provider.Field.FieldLimbs

/-!
# Integers denoted by the limb routines

Every word-level routine is an operation on the integer its limbs denote. The
two borrowing subtractions agree, so the compile-time and the runtime
conditional subtraction agree as well.
-/

namespace X301Provider

open Limbs

theorem toNat_toUInt64 (b : Bool) : b.toUInt64.toNat = b.toNat := by
  cases b <;> rfl

theorem incoming_eq {borrow : UInt64} (h : borrow.toNat ≤ 1) : (borrow != 0).toUInt64 = borrow := by
  cases Nat.le_one_iff_eq_zero_or_eq_one.mp h with
  | inl hB =>
    rw [UInt64.toNat_inj.mp (hB.trans rfl : borrow.toNat = (0 : UInt64).toNat)]
    rfl
  | inr hB =>
    rw [UInt64.toNat_inj.mp (hB.trans rfl : borrow.toNat = (1 : UInt64).toNat)]
    rfl

theorem borrowSpec_runtime : BorrowSpec subWithBorrowRuntime := by
  intro left right borrow hBorrow
  have hLeft := toNat_lt left
  have hRight := toNat_lt right
  simp only [subWithBorrowRuntime, toNat_toUInt64, UInt64.toNat_sub, incoming_eq hBorrow]
  rw [wordBase_eq] at *
  by_cases hLess : left.toNat < right.toNat + borrow.toNat
  · simp only [hLess, decide_true, Bool.toNat_true]
    omega
  · simp only [hLess, decide_false, Bool.toNat_false]
    omega

theorem topBit_toNat (word : UInt64) :
    ((word >>> 63) &&& 1).toNat = (decide (2 ^ 63 ≤ word.toNat)).toNat := by
  have hWord := toNat_lt word
  have hShift : (word >>> 63).toNat = word.toNat / 2 ^ 63 := shiftRight_toNat word (by decide)
  have hOne : (1 : UInt64).toNat = 1 := rfl
  rw [UInt64.toNat_and, hShift, hOne, Nat.and_one_is_mod]
  rw [wordBase_eq] at hWord
  by_cases h : 2 ^ 63 ≤ word.toNat
  · simp only [h, decide_true, Bool.toNat_true]
    omega
  · simp only [h, decide_false, Bool.toNat_false]
    omega

theorem topBit_eq_testBit (word : UInt64) :
    decide (2 ^ 63 ≤ word.toNat) = word.toNat.testBit 63 := by
  have hWord := toNat_lt word
  rw [wordBase_eq] at hWord
  rw [Nat.testBit_eq_decide_div_mod_eq, decide_eq_decide]
  omega

theorem not_toNat (word : UInt64) : (~~~word).toNat = 2 ^ 64 - 1 - word.toNat := by
  have hSize : UInt64.size = 2 ^ 64 := rfl
  rw [UInt64.toNat_not, hSize]

/-- The unsigned comparison read off the top bit of the bitwise identity. -/
theorem lessThan_topBit (left right : UInt64) :
    ((((~~~left &&& right) ||| ((~~~left ||| right) &&& (left - right))) >>> 63) &&& 1).toNat =
      (decide (left.toNat < right.toNat)).toNat := by
  have hLeft := toNat_lt left
  have hRight := toNat_lt right
  rw [wordBase_eq] at *
  rw [topBit_toNat, topBit_eq_testBit]
  simp only [UInt64.toNat_or, UInt64.toNat_and, Nat.testBit_or, Nat.testBit_and,
    ← topBit_eq_testBit]
  simp only [UInt64.toNat_sub, not_toNat]
  congr 1
  rw [Bool.eq_iff_iff]
  simp only [Bool.or_eq_true, Bool.and_eq_true, decide_eq_true_eq]
  omega

theorem subWithBorrowRuntime_eq {left right borrow : UInt64} (hBorrow : borrow.toNat ≤ 1) :
    subWithBorrowRuntime left right borrow = subWithBorrow left right borrow := by
  have hLeft := toNat_lt left
  have hRight := toNat_lt right
  rw [wordBase_eq] at *
  simp only [subWithBorrowRuntime, subWithBorrow, incoming_eq hBorrow, Prod.mk.injEq, true_and]
  apply UInt64.toNat_inj.mp
  rw [toNat_toUInt64, UInt64.toNat_or, lessThan_topBit, lessThan_topBit, UInt64.toNat_sub]
  by_cases hFirst : left.toNat < right.toNat
  · have hTotal : left.toNat < right.toNat + borrow.toNat := by omega
    have hSecond : ¬(2 ^ 64 - right.toNat + left.toNat) % 2 ^ 64 < borrow.toNat := by omega
    simp only [hFirst, hSecond, hTotal, decide_true, decide_false]
    rfl
  · by_cases hTotal : left.toNat < right.toNat + borrow.toNat
    · have hSecond : (2 ^ 64 - right.toNat + left.toNat) % 2 ^ 64 < borrow.toNat := by omega
      simp only [hFirst, hSecond, hTotal, decide_true, decide_false]
      rfl
    · have hSecond : ¬(2 ^ 64 - right.toNat + left.toNat) % 2 ^ 64 < borrow.toNat := by omega
      simp only [hFirst, hSecond, hTotal, decide_false]
      rfl

theorem subtractLimbs_eq_runtime (left right : Words 5) :
    subtractLimbs left right = subtractLimbsRuntime left right := by
  have hChain := borrowChain_congr borrowSpec_runtime
    (fun _ _ _ h => subWithBorrowRuntime_eq h) left.1 right.1 (show (0 : UInt64).toNat ≤ 1 by decide)
  simp only [subtractLimbs, subtractLimbsRuntime, hChain]

theorem value_moduli : value modulus.1 = P ∧ value modulusTimesTwo.1 = 2 * P := by decide +kernel

theorem value_modulus : value modulus.1 = P := value_moduli.1

theorem value_modulusTimesTwo : value modulusTimesTwo.1 = 2 * P := value_moduli.2

theorem value_words_lt {n : ℕ} (words : Words n) : value words.1 < wordBase ^ n := by
  have hLt := value_lt words.1
  rwa [words.2] at hLt

theorem words_ext {n : ℕ} {left right : Words n} (h : value left.1 = value right.1) :
    left = right :=
  Subtype.ext (value_injective (left.2.trans right.2.symm) h)

theorem columnSum_add {left right : List UInt64} (h : left.length = right.length) :
    columnSum (List.zipWith (fun l r => l.toNat + r.toNat) left right) = value left + value right := by
  induction left generalizing right with
  | nil =>
    rw [List.length_nil, eq_comm, List.length_eq_zero_iff] at h
    subst h
    rfl
  | cons l left ih =>
    cases right with
    | nil => simp at h
    | cons r right =>
      simp only [List.length_cons, Nat.add_right_cancel_iff] at h
      simp only [List.zipWith_cons_cons, columnSum_cons, value_cons, ih h]
      ring

theorem addLimbs_value (left right : Words 5) :
    value (addLimbs left right).1.1 + wordBase ^ 5 * (addLimbs left right).2.toNat =
      value left.1 + value right.1 := by
  have hLength := left.2.trans right.2.symm
  have hFits : ∀ column ∈ List.zipWith (fun l r : UInt64 => l.toNat + r.toNat) left.1 right.1,
      Fits column := by
    intro column hColumn
    obtain ⟨i, hi, rfl⟩ := List.mem_iff_getElem.mp hColumn
    rw [List.getElem_zipWith]
    exact fits_add _ _
  have hChain := carryChain_value _ hFits 0
  have hZero : (0 : UInt64).toNat = 0 := rfl
  rw [columnSum_add hLength, hZero, add_zero, List.length_zipWith, left.2, right.2] at hChain
  exact hChain

theorem subtractLimbsRuntime_spec (left right : Words 5) :
    (value left.1 < value right.1 → (subtractLimbsRuntime left right).2 = 1 ∧
      value (subtractLimbsRuntime left right).1.1 + value right.1 = value left.1 + wordBase ^ 5) ∧
    (value right.1 ≤ value left.1 → (subtractLimbsRuntime left right).2 = 0 ∧
      value (subtractLimbsRuntime left right).1.1 + value right.1 = value left.1) := by
  have hExact := borrowChain_exact borrowSpec_runtime (left.2.trans right.2.symm)
  rw [left.2] at hExact
  exact hExact

theorem value_conditionalSubtractModulusCt (input : Words 5) :
    value (conditionalSubtractModulusCt input).1 =
      if value input.1 < P then value input.1 else value input.1 - P := by
  obtain ⟨hLess, hGreater⟩ := subtractLimbsRuntime_spec input modulus
  rw [value_modulus] at hLess hGreater
  simp only [conditionalSubtractModulusCt]
  split_ifs with hLsb hInput hInput
  · rw [(hLess hInput).1] at hLsb
    cases hLsb
  · have hDifference := (hGreater (not_lt.mp hInput)).2
    omega
  · rfl
  · rw [(hGreater (not_lt.mp hInput)).1] at hLsb
    exact absurd rfl hLsb

end X301Provider
