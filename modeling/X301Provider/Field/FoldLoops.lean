import X301Provider.Field.LazySpec
import X301Provider.Library.WordLoops

/-!
# The folds as loops

The two reductions over the indices of their arrays, reporting each sum, each carry
that leaves an array, each bit shifted out and the final borrow. Below the bounds that
the products of a field element keep, nothing is lost.
-/

namespace X301Provider

open Limbs Limbs.Checked
open Observed (Ensures Passes)

namespace Checked

/-- Copy the low words, then one row and the rest of its carry for each limb of the constant. -/
def accumulateFold {n : ℕ} (low : Words 5) (high : Words n) (output : ℕ) (hLow : 5 ≤ output)
    (hHigh : n + 1 ≤ output) : Checked (Words output) := do
  let start := Fin.foldl 5 (fun (words : Words output) index =>
    words.set ⟨index, by omega⟩ (low.get index)) (.replicate output 0)
  let first ← mulAddRow 0 (by omega) foldConstantLow high start
  let first ← propagate n first.1 first.2
  discard first.2
  let second ← mulAddRow 1 (by omega) foldConstantHigh high first.1
  let second ← propagate (n + 1) second.1 second.2
  discard second.2
  pure second.1

def reduceWideUnreduced (product : Words 10) : Checked (Words 5) := do
  discard (product.get 9 >>> 45)
  let firstFold ← accumulateFold (foldLow (n := 5) product) (foldHigh (n := 5) product) 7
    (by decide) (by decide)
  discard (firstFold.get 6 >>> 45)
  accumulateFold (foldLow (n := 2) firstFold) (foldHigh (n := 2) firstFold) 5
    (by decide) (by decide)

def subtractPenalty (reduced : Words 5) (penalty : UInt64) : Words 5 × UInt64 :=
  let first := subWithBorrowRuntime (reduced.get 0) penalty 0
  Fin.foldl 4 (fun state index =>
    let step := subWithBorrowRuntime (state.1.get index.succ) 0 state.2
    (state.1.set index.succ step.1, step.2)) (reduced.set 0 first.1, first.2)

def reduceSmallProductUnreduced (product : Words 6) : Checked (Words 5) := do
  discard (product.get 5 >>> 45)
  let high := (foldHigh (n := 1) product).head
  let addLow := high <<< 35
  let addHigh := high >>> 29
  let sum ← accumulateAt (foldLow (n := 1) product) 1 addLow.toNat 0
  let sum ← accumulateAt sum.1 2 addHigh.toNat sum.2
  let sum ← propagate 3 sum.1 sum.2
  discard sum.2
  let penalty ← accumulate (high.toNat * foldSubtrahend)
  discard (hi penalty)
  let reduced := subtractPenalty sum.1 (lo penalty)
  discard reduced.2
  pure reduced.1

theorem value_copy {n output : ℕ} (low : Words n) (h : n ≤ output) :
    value (Fin.foldl n (fun (words : Words output) index =>
      words.set ⟨index, by omega⟩ (low.get index)) (.replicate output 0)).1 = value low.1 := by
  rw [← value_take_length low]
  refine Fin.foldl_invariant (fun i (words : Words output) =>
    value words.1 = value (low.1.take i)) ?_ ?_
  · intro i words hWords
    have hPrefix := value_lt (low.1.take i)
    rw [List.length_take, low.2, Nat.min_eq_left i.2.le, ← hWords] at hPrefix
    have hSet := value_set words ⟨i, by omega⟩ (low.get i)
    have hOld : words.get ⟨i, by omega⟩ = 0 := get_eq_zero_of_lt hPrefix
    have hZero : (0 : UInt64).toNat = 0 := rfl
    rw [hOld, hZero, mul_zero, add_zero] at hSet
    rw [hSet, hWords, value_take_succ]
  · rw [List.take_zero, value_nil]
    exact value_replicate_zero output

theorem accumulateFold_ensures {n output : ℕ} (low : Words 5) (high : Words n) (hLow : 5 ≤ output)
    (hHigh : n + 1 ≤ output) (hTotal : value low.1 + value high.1 * K < wordBase ^ output) :
    Ensures WordReport.Exact (accumulateFold low high output hLow hHigh) fun words =>
      value words.1 = value low.1 + value high.1 * K := by
  have hConstants := fold_constants
  have hPartial : value low.1 + foldConstantLow.toNat * value high.1 < wordBase ^ output := by
    have hLe : foldConstantLow.toNat * value high.1 ≤ value high.1 * K := by
      rw [mul_comm]
      exact Nat.mul_le_mul_left _ (by omega)
    omega
  refine (mulAddRow_ensures (by omega) foldConstantLow high _).bind ?_
  rintro ⟨firstRow, firstCarry⟩ ⟨hFirstRow, -⟩
  refine (propagate_ensures (by omega) firstRow firstCarry).bind ?_
  rintro ⟨first, firstLast⟩ hFirst
  rw [value_copy low hLow, zero_add, pow_zero, one_mul] at hFirstRow
  obtain ⟨hFirstLast, hFirstValue⟩ := carry_eq_zero (hFirst.trans hFirstRow) hPartial
  refine (discard_ensures hFirstLast).bind ?_
  intro _ _
  refine (mulAddRow_ensures (by omega) foldConstantHigh high first).bind ?_
  rintro ⟨secondRow, secondCarry⟩ ⟨hSecondRow, -⟩
  refine (propagate_ensures (by omega) secondRow secondCarry).bind ?_
  rintro ⟨second, secondLast⟩ hSecond
  have hSum : value first.1 + wordBase ^ 1 * (foldConstantHigh.toNat * value high.1) =
      value low.1 + value high.1 * K := by
    rw [← hConstants]
    linear_combination hFirstValue
  rw [hSum, add_comm 1 n] at hSecondRow
  obtain ⟨hSecondLast, hSecondValue⟩ := carry_eq_zero (hSecond.trans hSecondRow) hTotal
  refine (discard_ensures hSecondLast).bind ?_
  intro _ _
  exact .pure hSecondValue

/-- The bits of a top word from 45 on, when the value leaves them out. -/
theorem shifted_top_eq_zero {n : ℕ} {words : Words n} {i : Fin n}
    (h : value words.1 < wordBase ^ (i : ℕ) * 2 ^ 45) : words.get i >>> 45 = 0 := by
  have hLe := get_mul_le_value words i
  have hWord : (words.get i).toNat < 2 ^ 45 :=
    lt_of_mul_lt_mul_left (hLe.trans_lt h) (Nat.zero_le _)
  have hShift : (words.get i >>> 45).toNat = (words.get i).toNat / 2 ^ 45 :=
    shiftRight_toNat _ (by decide)
  apply UInt64.toNat_inj.mp
  rw [hShift, Nat.div_eq_of_lt hWord]
  rfl

theorem top_bounds : 2 ^ 606 ≤ wordBase ^ 9 * 2 ^ 45 ∧ 2 ^ 405 ≤ wordBase ^ 6 * 2 ^ 45 ∧
    2 ^ 335 ≤ wordBase ^ 5 * 2 ^ 45 := by
  decide +kernel

theorem reduceWideUnreduced_ensures {product : Words 10} (h : value product.1 < 2 ^ 606) :
    Ensures WordReport.Exact (reduceWideUnreduced product) fun words =>
      value words.1 = value (X301Provider.reduceWideUnreduced product).1 := by
  obtain ⟨hProductTop, hFoldTop, -⟩ := top_bounds
  obtain ⟨-, -, -, hSeven, -, hFive, -⟩ := fold_bounds.1
  have hFolds := wideFolds h
  have hResult := value_secondFold hFolds
  have hTop : product.get 9 >>> 45 = 0 := shifted_top_eq_zero (h.trans_le hProductTop)
  have hFirstTotal : value (foldLow (n := 5) product).1 + value (foldHigh (n := 5) product).1 * K <
      wordBase ^ 7 := by
    rw [← hFolds.firstFold_eq]
    exact hFolds.firstFold_lt.trans_le hSeven
  refine (discard_ensures hTop).bind ?_
  intro _ _
  refine (accumulateFold_ensures _ _ (by decide) (by decide) hFirstTotal).bind ?_
  intro firstFold hFirst
  obtain rfl := words_ext (hFirst.trans hFolds.firstFold_eq.symm)
  have hFirstTop : (X301Provider.accumulateFold (foldLow (n := 5) product)
      (foldHigh (n := 5) product) 7).get 6 >>> 45 = 0 :=
    shifted_top_eq_zero (hFolds.firstFold_lt.trans_le hFoldTop)
  refine (discard_ensures hFirstTop).bind ?_
  intro _ _
  refine (accumulateFold_ensures _ _ (by decide) (by decide)
    (hFolds.second_lt.trans hFive)).mono ?_
  intro words hWords
  exact hWords.trans hResult.symm

theorem reduceWideUnreduced_passes {product : Words 10} (h : value product.1 < 2 ^ 606) :
    Passes WordReport.Exact (reduceWideUnreduced product)
      (X301Provider.reduceWideUnreduced product) :=
  (reduceWideUnreduced_ensures h).passes fun _ => words_ext

/-- The penalty subtracted from the words below an index, with the borrow still owed. -/
structure SubtractedBelow (reduced : Words 5) (penalty : UInt64) (i : ℕ)
    (state : Words 5 × UInt64) : Prop where
  value_eq : value state.1.1 + penalty.toNat = value reduced.1 + wordBase ^ i * state.2.toNat
  borrow_le : state.2.toNat ≤ 1

theorem subtractPenalty_spec (reduced : Words 5) (penalty : UInt64) :
    value (subtractPenalty reduced penalty).1.1 + penalty.toNat =
      value reduced.1 + wordBase ^ 5 * (subtractPenalty reduced penalty).2.toNat := by
  have hZero : (0 : UInt64).toNat = 0 := rfl
  suffices hLoop : SubtractedBelow reduced penalty 5 (subtractPenalty reduced penalty) from
    hLoop.value_eq
  refine Fin.foldl_invariant (fun i => SubtractedBelow reduced penalty (i + 1)) ?_ ?_
  · rintro i ⟨state, borrow⟩ ⟨hState, hBorrow⟩
    obtain ⟨hNext, hWord⟩ := borrowSpec_runtime (state.get i.succ) 0 borrow hBorrow
    have hSet := value_set state i.succ (subWithBorrowRuntime (state.get i.succ) 0 borrow).1
    refine ⟨?_, hNext⟩
    simp only [Fin.val_succ, hZero, add_zero] at hSet hWord hState ⊢
    rw [pow_succ wordBase (i + 1)]
    linear_combination hSet + hState + wordBase ^ ((i : ℕ) + 1) * hWord
  · obtain ⟨hNext, hWord⟩ := borrowSpec_runtime (reduced.get 0) penalty 0 (by decide)
    have hSet := value_set reduced 0 (subWithBorrowRuntime (reduced.get 0) penalty 0).1
    refine ⟨?_, hNext⟩
    simp only [Fin.val_zero, hZero, add_zero, zero_add, pow_zero, pow_one, one_mul] at hSet hWord ⊢
    linear_combination hSet + hWord

/-- The two words added for the high part and the passed carry add its multiple of `2 ^ 99`. -/
theorem sumShifted {low one two sum : Words 5} {high oneCarry twoCarry sumCarry : UInt64}
    (hOne : value one.1 + wordBase ^ 2 * oneCarry.toNat =
      value low.1 + wordBase ^ 1 * ((high <<< 35).toNat + 0))
    (hTwo : value two.1 + wordBase ^ 3 * twoCarry.toNat =
      value one.1 + wordBase ^ 2 * ((high >>> 29).toNat + oneCarry.toNat))
    (hSum : value sum.1 + wordBase ^ 5 * sumCarry.toNat =
      value two.1 + wordBase ^ 3 * twoCarry.toNat) :
    value sum.1 + wordBase ^ 5 * sumCarry.toNat = value low.1 + 2 ^ 99 * high.toNat := by
  have hShifted := shiftedHigh_toNat high
  have hScale : wordBase * 2 ^ 35 = 2 ^ 99 := by decide
  rw [← hScale]
  linear_combination hSum + hTwo + hOne + wordBase * hShifted

theorem hi_eq_zero {n : ℕ} (h : n < wordBase) : hi n = 0 := by
  rw [hi, Nat.div_eq_of_lt h]
  rfl

/-- A penalty that the array covers leaves no borrow. -/
theorem subtractPenalty_exact {reduced : Words 5} {penalty : UInt64}
    (h : penalty.toNat ≤ value reduced.1) :
    (subtractPenalty reduced penalty).2 = 0 ∧
      value (subtractPenalty reduced penalty).1.1 + penalty.toNat = value reduced.1 := by
  have hSpec := subtractPenalty_spec reduced penalty
  have hLt := value_words_lt (subtractPenalty reduced penalty).1
  have hTotal : value reduced.1 - penalty.toNat +
      wordBase ^ 5 * (subtractPenalty reduced penalty).2.toNat =
        value (subtractPenalty reduced penalty).1.1 := by
    omega
  obtain ⟨hBorrow, hValue⟩ := carry_eq_zero hTotal hLt
  exact ⟨hBorrow, by omega⟩

theorem reduceSmallProductUnreduced_ensures {product : Words 6} (h : value product.1 < 2 ^ 335) :
    Ensures WordReport.Exact (reduceSmallProductUnreduced product) fun words =>
      value words.1 = value (X301Provider.reduceSmallProductUnreduced product).1 := by
  obtain ⟨-, hDifference, hFold, hLow, hHigh⟩ := reduceSmallProduct_exact product h
  change value (X301Provider.reduceSmallProductUnreduced product).1 + _ = _ at hDifference
  have hTop : product.get 5 >>> 45 = 0 := shifted_top_eq_zero (h.trans_le top_bounds.2.2)
  have hRoom : value (foldLow (n := 1) product).1 +
      2 ^ 99 * (foldHigh (n := 1) product).head.toNat < wordBase ^ 5 := by
    obtain ⟨-, -, -, -, -, -, hPower, -⟩ := fold_bounds.1
    rw [← pow_succ'] at hPower
    refine lt_of_lt_of_le ?_ hPower
    omega
  have hPenalty : (foldHigh (n := 1) product).head.toNat * foldSubtrahend < wordBase := by
    rw [foldSubtrahend, wordBase_eq]
    omega
  have hPenaltyWord : (lo ((foldHigh (n := 1) product).head.toNat * foldSubtrahend)).toNat =
      947 * (foldHigh (n := 1) product).head.toNat := by
    rw [lo_toNat, Nat.mod_eq_of_lt hPenalty, mul_comm]
    rfl
  refine (discard_ensures hTop).bind ?_
  intro _ _
  refine (accumulateAt_ensures (fits_add _ _) 0).bind ?_
  rintro ⟨one, oneCarry⟩ ⟨hOne, -⟩
  refine (accumulateAt_ensures (fits_add _ _) oneCarry).bind ?_
  rintro ⟨two, twoCarry⟩ ⟨hTwo, -⟩
  refine (propagate_ensures (by decide) two twoCarry).bind ?_
  rintro ⟨sum, sumCarry⟩ hSum
  obtain ⟨hSumCarry, hSumValue⟩ : sumCarry = 0 ∧ value sum.1 =
      value (foldLow (n := 1) product).1 + 2 ^ 99 * (foldHigh (n := 1) product).head.toNat :=
    carry_eq_zero (sumShifted hOne hTwo hSum) hRoom
  refine (discard_ensures hSumCarry).bind ?_
  intro _ _
  refine (accumulate_ensures (hPenalty.trans (by decide))).bind ?_
  rintro penalty rfl
  refine (discard_ensures (hi_eq_zero hPenalty)).bind ?_
  intro _ _
  have hCovered : (lo ((foldHigh (n := 1) product).head.toNat * foldSubtrahend)).toNat ≤
      value sum.1 := by
    omega
  obtain ⟨hBorrow, hResult⟩ := subtractPenalty_exact hCovered
  refine (discard_ensures hBorrow).bind ?_
  intro _ _
  have hWords : value (subtractPenalty sum
      (lo ((foldHigh (n := 1) product).head.toNat * foldSubtrahend))).1.1 =
      value (X301Provider.reduceSmallProductUnreduced product).1 := by omega
  exact .pure hWords

theorem reduceSmallProductUnreduced_passes {product : Words 6} (h : value product.1 < 2 ^ 335) :
    Passes WordReport.Exact (reduceSmallProductUnreduced product)
      (X301Provider.reduceSmallProductUnreduced product) :=
  (reduceSmallProductUnreduced_ensures h).passes fun _ => words_ext

end Checked

/-- Both folds of a product below `2 ^ 606` are exact, and their result is a representative below
`2 ^ 301 + 2 ^ 203`. -/
theorem reduceWideUnreduced_exact (product : Words 10) (h : value product.1 < 2 ^ 606) :
    Passes WordReport.Exact (Checked.reduceWideUnreduced product) (reduceWideUnreduced product) ∧
      WideFolds product
        (accumulateFold (foldLow (n := 5) product) (foldHigh (n := 5) product) 7) ∧
      value (reduceWideUnreduced product).1 ≡ value product.1 [MOD P] ∧
      value (reduceWideUnreduced product).1 < 2 ^ 301 + 2 ^ 203 ∧
      value (reduceWideUnreduced product).1 < 2 * P := by
  obtain ⟨hLt, hMod⟩ := value_reduceWideUnreduced product h
  obtain ⟨hBound, -⟩ := P_bounds
  exact ⟨Checked.reduceWideUnreduced_passes h, wideFolds h, hMod, hLt, hLt.trans hBound⟩

/-- The largest product in the domain. -/
theorem reduceWideUnreduced_exact_allBits :
    value (reduceWideUnreduced ⟨List.replicate 9 0xffffffffffffffff ++ [0x3fffffff], rfl⟩).1 <
      2 * P := by
  obtain ⟨-, -, -, -, hLt⟩ := reduceWideUnreduced_exact
    ⟨List.replicate 9 0xffffffffffffffff ++ [0x3fffffff], rfl⟩ (by decide +kernel)
  exact hLt

/-- The product with a small constant splits without loss at bit 301, and its one fold neither
carries nor borrows. -/
theorem smallProduct_exact (x : Words 5) (hx : value x.1 < 4 * P) (c : UInt32) :
    Passes WordReport.Exact (Checked.reduceSmallProductUnreduced (multiplyFiveByU32 x c))
        (reduceSmallProductUnreduced (multiplyFiveByU32 x c)) ∧
      value (multiplyFiveByU32 x c).1 = c.toNat * value x.1 ∧
      value (foldLow (n := 1) (multiplyFiveByU32 x c)).1 +
          2 ^ 301 * (foldHigh (n := 1) (multiplyFiveByU32 x c)).head.toNat = c.toNat * value x.1 ∧
      (foldHigh (n := 1) (multiplyFiveByU32 x c)).head.toNat * 947 < 2 ^ 64 ∧
      value (reduceSmallProductUnreduced (multiplyFiveByU32 x c)).1 ≡ c.toNat * value x.1 [MOD P] ∧
      value (reduceSmallProductUnreduced (multiplyFiveByU32 x c)).1 < 2 * P := by
  have hProduct := multiplyFiveByU32_lt hx c
  obtain ⟨-, -, hFold, -, hHigh⟩ := reduceSmallProduct_exact _ hProduct
  obtain ⟨hLt, hMod⟩ := value_reduceSmallProductUnreduced _ hProduct
  obtain ⟨hBound, -⟩ := P_bounds
  have hValue : value (multiplyFiveByU32 x c).1 = c.toNat * value x.1 := by
    rw [value_multiplyFiveByU32, mul_comm]
  rw [hValue] at hFold hMod
  exact ⟨Checked.reduceSmallProductUnreduced_passes hProduct, hValue, hFold, by omega, hMod,
    hLt.trans hBound⟩

/-- The ends of the domain, `4p - 1` and the largest constant. -/
theorem smallProduct_exact_largest :
    value (reduceSmallProductUnreduced (multiplyFiveByU32 ⟨[0x0000000000000ecb,
      0xffffffe000000000, 0xffffffffffffffff, 0xffffffffffffffff, 0x00007fffffffffff], rfl⟩
        0xffffffff)).1 < 2 * P := by
  obtain ⟨-, -, -, -, -, hLt⟩ := smallProduct_exact ⟨[0x0000000000000ecb, 0xffffffe000000000,
    0xffffffffffffffff, 0xffffffffffffffff, 0x00007fffffffffff], rfl⟩ (by decide +kernel)
      0xffffffff
  exact hLt

end X301Provider
