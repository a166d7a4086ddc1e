import X301Provider.BigInt.MontyParams
import X301Provider.BigInt.SafeGcd

/-!
# Wide magnitudes

An integer with one more limb on top: its product with a limb, its negation, difference and shift,
as the combinations of the division steps use them.
-/

namespace X301Provider.BigInt

open Limbs

variable {n : ℕ}

/-- The number of an integer with a limb on top. -/
def wideValue (wide : Uint n × UInt64) : ℕ := value wide.1.1 + wordBase ^ n * wide.2.toNat

theorem wideValue_lt (wide : Uint n × UInt64) : wideValue wide < wordBase ^ n * wordBase := by
  have hLow := value_words_lt wide.1
  have hHigh := Nat.mul_le_mul_left (wordBase ^ n) (Nat.le_pred_of_lt (toNat_lt wide.2))
  have hSplit : wordBase ^ n * wordBase = wordBase ^ n * (wordBase - 1) + wordBase ^ n := by
    rw [← Nat.mul_succ]
    rfl
  rw [wideValue, hSplit]
  change wordBase ^ n * wide.2.toNat ≤ wordBase ^ n * (wordBase - 1) at hHigh
  omega

theorem value_map_not (limbs : List UInt64) :
    columnSum (limbs.map fun limb => (~~~limb).toNat) + value limbs + 1 =
      wordBase ^ limbs.length := by
  induction limbs with
  | nil => rfl
  | cons limb limbs ih =>
    have hNot : (~~~limb).toNat + limb.toNat + 1 = wordBase := by
      have hLimb := toNat_lt limb
      have hSize : UInt64.size = wordBase := rfl
      rw [UInt64.toNat_not, hSize]
      omega
    rw [List.map_cons, columnSum_cons, value_cons, List.length_cons, pow_succ, ← ih]
    linear_combination hNot

theorem columnSum_map_mul (limbs : List UInt64) (factor : UInt64) :
    columnSum (limbs.map fun limb => limb.toNat * factor.toNat) =
      value limbs * factor.toNat := by
  induction limbs with
  | nil => simp
  | cons limb limbs ih =>
    rw [List.map_cons, columnSum_cons, value_cons, ih]
    ring

namespace Uint

/-- The negation is that of the ring, and its carry is out for zero. -/
theorem carryingNeg_spec (x : Uint n) :
    value x.carryingNeg.1.1 + value x.1 = wordBase ^ n * (!x.carryingNeg.2).toNat ∧
      (x.carryingNeg.2 = true ↔ value x.1 = 0) := by
  have hFits : ∀ column ∈ x.1.map fun limb => (~~~limb).toNat, Fits column := by
    intro column hColumn
    obtain ⟨limb, -, rfl⟩ := List.mem_map.mp hColumn
    exact fits_word _
  have hChain := carryChain_value _ hFits 1
  have hNot := value_map_not x.1
  have hOne : (1 : UInt64).toNat = 1 := rfl
  have hx := value_words_lt x
  have hNeg := value_words_lt x.carryingNeg.1
  rw [List.length_map, x.2, hOne] at hChain
  rw [x.2] at hNot
  change value x.carryingNeg.1.1 + _ = _ at hChain
  have hCarry : x.carryingNeg.2 = lsb (carryChain (x.1.map fun limb => (~~~limb).toNat) 1).2 := rfl
  generalize (carryChain (x.1.map fun limb => (~~~limb).toNat) 1).2 = carry at hChain hCarry
  have hSmall : carry.toNat ≤ 1 := by
    by_contra hLarge
    have hTwo := Nat.mul_le_mul_left (wordBase ^ n) (Nat.lt_of_not_le hLarge)
    omega
  rw [hCarry]
  cases Nat.le_one_iff_eq_zero_or_eq_one.mp hSmall with
  | inl hNone =>
    obtain rfl : carry = 0 := UInt64.toNat_inj.mp hNone
    rw [hNone, mul_zero] at hChain
    have hBit : lsb 0 = false := rfl
    rw [hBit, Bool.not_false, Bool.toNat_true]
    refine ⟨by omega, iff_of_false Bool.false_ne_true ?_⟩
    omega
  | inr hSome =>
    obtain rfl : carry = 1 := UInt64.toNat_inj.mp hSome
    rw [hSome, mul_one] at hChain
    have hBit : lsb 1 = true := rfl
    rw [hBit, Bool.not_true, Bool.toNat_false]
    exact ⟨by omega, iff_of_true rfl (by omega)⟩

theorem wideningMul_value (x : Uint n) (factor : UInt64) :
    wideValue (x.wideningMul factor) = value x.1 * factor.toNat := by
  have hFits : ∀ column ∈ x.1.map fun limb => limb.toNat * factor.toNat, Fits column := by
    intro column hColumn
    obtain ⟨limb, -, rfl⟩ := List.mem_map.mp hColumn
    exact fits_mul_add limb factor 0
  have hZero : (0 : UInt64).toNat = 0 := rfl
  have hChain := carryChain_value _ hFits 0
  rw [columnSum_map_mul, List.length_map, x.2, hZero, add_zero] at hChain
  exact hChain

end Uint

namespace SafeGcd

/-- A wide negation is that of the ring. -/
theorem conditionalNegate_value (wide : Uint n × UInt64) (flag : Bool) :
    wideValue (conditionalNegateInPlaceWide wide flag) =
      if flag then (wordBase ^ n * wordBase - wideValue wide) % (wordBase ^ n * wordBase)
      else wideValue wide := by
  cases flag with
  | false => rfl
  | true =>
    obtain ⟨hNeg, hCarry⟩ := wide.1.carryingNeg_spec
    have hHigh := toNat_lt wide.2
    have hSize : UInt64.size = wordBase := rfl
    have hNot : (~~~wide.2).toNat = wordBase - 1 - wide.2.toNat := by
      rw [UInt64.toNat_not, hSize]
    have hRoom : 0 < wordBase ^ n := Nat.pow_pos wordBase_pos
    rw [if_pos rfl]
    simp only [conditionalNegateInPlaceWide, Uint.select, if_true, wideValue]
    cases hBool : wide.1.carryingNeg.2 with
    | true =>
      have hLow := hCarry.mp hBool
      have hSum : (~~~wide.2 + 1).toNat = (wordBase - wide.2.toNat) % wordBase := by
        rw [UInt64.toNat_add, hNot]
        change (_ + 1) % wordBase = _
        congr 1
        omega
      rw [hBool, hLow, Bool.not_true, Bool.toNat_false, mul_zero, add_zero] at hNeg
      rw [if_pos rfl, hSum, hNeg, hLow, zero_add, zero_add, ← Nat.mul_sub, Nat.mul_mod_mul_left]
    | false =>
      have hLow : value wide.1.1 ≠ 0 := by
        intro h
        rw [hCarry.mpr h] at hBool
        cases hBool
      rw [hBool, Bool.not_false, Bool.toNat_true, mul_one] at hNeg
      rw [if_neg Bool.false_ne_true, UInt64.add_zero, hNot]
      have hMul : wordBase ^ n * (wordBase - 1 - wide.2.toNat) + wordBase ^ n * wide.2.toNat +
          wordBase ^ n = wordBase ^ n * wordBase := by
        rw [← Nat.mul_add, ← Nat.mul_succ]
        congr 1
        omega
      rw [Nat.mod_eq_of_lt (by omega)]
      omega

theorem borrowingSubWide_value (x y : Uint n × UInt64) :
    ((borrowingSubWide x y).2 != 0) = decide (wideValue x < wideValue y) ∧
      wideValue (borrowingSubWide x y).1 + wideValue y =
        wideValue x + wordBase ^ n * wordBase * (decide (wideValue x < wideValue y)).toNat := by
  have hLow := Uint.borrowingSub_value x.1 y.1 0
  have hHigh := borrowingSub_spec x.2 y.2 (x.1.borrowingSub y.1 0).2
  obtain ⟨choice, hMask⟩ := borrowingSub_mask x.2 y.2 (x.1.borrowingSub y.1 0).2
  have hZero : borrowBit 0 = 0 := rfl
  rw [hZero, add_zero] at hLow
  rw [hMask, borrowBit_maskOf] at hHigh
  have hTotal : wideValue (borrowingSubWide x y).1 + wideValue y =
      wideValue x + wordBase ^ n * wordBase * choice.toNat := by
    simp only [wideValue, borrowingSubWide]
    linear_combination hLow + wordBase ^ n * hHigh
  have hx := wideValue_lt x
  have hy := wideValue_lt y
  have hOut := wideValue_lt (borrowingSubWide x y).1
  have hChoice : choice = decide (wideValue x < wideValue y) := by
    rw [Bool.eq_iff_iff, decide_eq_true_eq]
    cases choice with
    | true =>
      rw [Bool.toNat_true, mul_one] at hTotal
      exact iff_of_true rfl (by omega)
    | false =>
      rw [Bool.toNat_false, mul_zero] at hTotal
      exact iff_of_false Bool.false_ne_true (by omega)
  have hBorrow : (borrowingSubWide x y).2 = maskOf choice := hMask
  rw [← hChoice, hBorrow]
  refine ⟨?_, hTotal⟩
  cases choice <;> rfl

/-- The difference, negated when it borrows, is the distance. -/
theorem borrowingSubWide_negate (x y : Uint n × UInt64) :
    wideValue (conditionalNegateInPlaceWide (borrowingSubWide x y).1
      (decide (wideValue x < wideValue y))) =
        if wideValue x < wideValue y then wideValue y - wideValue x
        else wideValue x - wideValue y := by
  have hValue := (borrowingSubWide_value x y).2
  have hx := wideValue_lt x
  have hy := wideValue_lt y
  rw [conditionalNegate_value]
  by_cases hLess : wideValue x < wideValue y
  · rw [decide_eq_true hLess, Bool.toNat_true, mul_one] at hValue
    rw [decide_eq_true hLess, if_pos rfl, if_pos hLess, Nat.mod_eq_of_lt (by omega)]
    omega
  · rw [decide_eq_false hLess, Bool.toNat_false, mul_zero, add_zero] at hValue
    rw [decide_eq_false hLess, if_neg Bool.false_ne_true, if_neg hLess]
    omega

end SafeGcd

section Shift

variable {shift : ℕ}

theorem add_mul_div_shift (hLt : shift < 64) (low high : ℕ) :
    (low + wordBase * high) / 2 ^ shift =
        low / 2 ^ shift + 2 ^ (64 - shift) * (high % 2 ^ shift) +
          wordBase * (high / 2 ^ shift) ∧
      (low + wordBase * high) % 2 ^ shift = low % 2 ^ shift := by
  have hBase : wordBase = 2 ^ shift * 2 ^ (64 - shift) := by
    rw [wordBase, ← pow_add, Nat.add_sub_cancel' hLt.le]
  have hPos : 0 < 2 ^ shift := Nat.two_pow_pos shift
  have hHigh := Nat.div_add_mod high (2 ^ shift)
  rw [hBase, mul_assoc, Nat.add_mul_div_left _ _ hPos, Nat.add_mul_mod_self_left]
  refine ⟨?_, rfl⟩
  conv_lhs => rw [← hHigh]
  ring

/-- Shifted limbs, with bits that come in at the top. -/
theorem shrLimbs_value (hPos : 0 < shift) (hLt : shift < 64) {carry : UInt64} {top : ℕ}
    (hTop : top < 2 ^ shift) (hCarry : carry.toNat = 2 ^ (64 - shift) * top)
    (limbs : List UInt64) :
    value (shrLimbs shift carry limbs).1 =
        (value limbs + wordBase ^ limbs.length * top) / 2 ^ shift ∧
      (shrLimbs shift carry limbs).2.toNat =
        2 ^ (64 - shift) * ((value limbs + wordBase ^ limbs.length * top) % 2 ^ shift) := by
  induction limbs with
  | nil =>
    simp only [shrLimbs, value_nil, List.length_nil, pow_zero, one_mul, zero_add]
    exact ⟨(Nat.div_eq_of_lt hTop).symm, by rw [hCarry, Nat.mod_eq_of_lt hTop]⟩
  | cons limb limbs ih =>
    obtain ⟨hValue, hOut⟩ := ih
    generalize hTail : value limbs + wordBase ^ limbs.length * top = tail at hValue hOut
    have hTotal : value (limb :: limbs) + wordBase ^ (limb :: limbs).length * top =
        limb.toNat + wordBase * tail := by
      rw [value_cons, List.length_cons, ← hTail]
      ring
    have hShift := shiftRight_toNat limb hLt
    have hLimb : (limb >>> UInt64.ofNat shift).toNat < 2 ^ (64 - shift) := by
      rw [hShift]
      apply Nat.div_lt_of_lt_mul
      rw [← pow_add, Nat.add_sub_cancel' hLt.le]
      exact limb.toNat_lt
    have hHead : (limb >>> UInt64.ofNat shift ||| (shrLimbs shift carry limbs).2).toNat =
        limb.toNat / 2 ^ shift + 2 ^ (64 - shift) * (tail % 2 ^ shift) := by
      rw [UInt64.or_comm, or_toNat hOut hLimb, hOut, hShift, add_comm]
    obtain ⟨hDiv, hMod⟩ := add_mul_div_shift hLt limb.toNat tail
    rw [hTotal, hDiv, hMod]
    refine ⟨?_, ?_⟩
    · simp only [shrLimbs, value_cons]
      rw [hHead, hValue]
    · have hLeft := shiftLeft_toNat limb (show 64 - shift < 64 by omega)
      rw [Nat.sub_sub_self hLt.le] at hLeft
      exact hLeft

/-- Only the top limb sees what comes in. -/
theorem shrLimbs_modify (carry : UInt64) (limbs : List UInt64) :
    (shrLimbs shift carry limbs).1 =
      (shrLimbs shift 0 limbs).1.modify (limbs.length - 1) (· ||| carry) := by
  induction limbs with
  | nil => rfl
  | cons limb limbs ih =>
    cases limbs with
    | nil =>
      simp only [shrLimbs, List.length_singleton, Nat.sub_self, List.modify_zero_cons,
        UInt64.or_zero]
    | cons next rest =>
      -- what leaves a limb does not depend on what came in above
      change _ :: (shrLimbs shift carry (next :: rest)).1 = _
      rw [ih]
      rfl

namespace SafeGcd

theorem shrInPlaceWide_value (hPos : 0 < shift) (hLt : shift < 64) (wide : Uint n × UInt64) :
    wideValue (shrInPlaceWide wide shift) = wideValue wide / 2 ^ shift := by
  have hCopy := shiftLeft_toNat wide.2 (show 64 - shift < 64 by omega)
  rw [Nat.sub_sub_self hLt.le] at hCopy
  have hTop := Nat.mod_lt wide.2.toNat (Nat.two_pow_pos shift)
  have hLow := (shrLimbs_value hPos hLt hTop hCopy wide.1.1).1
  rw [shrLimbs_modify, wide.1.2] at hLow
  have hHigh := shiftRight_toNat wide.2 hLt
  have hSplit := Nat.div_add_mod wide.2.toNat (2 ^ shift)
  have hWide : wideValue wide = value wide.1.1 + wordBase ^ n * (wide.2.toNat % 2 ^ shift) +
      2 ^ shift * (wordBase ^ n * (wide.2.toNat / 2 ^ shift)) := by
    rw [wideValue]
    conv_lhs => rw [← hSplit]
    ring
  rw [hWide, Nat.add_mul_div_left _ _ (Nat.two_pow_pos shift), ← hLow, ← hHigh]
  rfl

end SafeGcd

end Shift

end X301Provider.BigInt
