import X301Provider.BigInt.SafeGcdJump
import X301Provider.BigInt.SafeGcdWide

/-!
# Combinations of signed integers

The combinations that a batch of division steps asks for are exact: those of the two integers
are divided by the power of two without a remainder, those modulo the modulus after a multiple of
it is taken away that clears the low bits.
-/

namespace X301Provider.BigInt

open Limbs SafeGcd

variable {n : ℕ}

def signedValue (sign : Bool) (magnitude : ℕ) : ℤ := if sign then -magnitude else magnitude

theorem signedValue_natAbs (sign : Bool) (magnitude : ℕ) :
    (signedValue sign magnitude).natAbs = magnitude := by
  cases sign <;> simp [signedValue]

theorem abs_signedValue (sign : Bool) (magnitude : ℕ) : |signedValue sign magnitude| = magnitude := by
  rw [Int.abs_eq_natAbs, signedValue_natAbs]

theorem signedValue_mul (s t : Bool) (k l : ℕ) :
    signedValue (s ^^ t) (k * l) = signedValue s k * signedValue t l := by
  cases s <;> cases t <;> simp [signedValue]

theorem signedValue_eq_mul (s : Bool) (k : ℕ) : signedValue s k = signedValue s 1 * k := by
  cases s <;> simp [signedValue]

/-- The number that a signed integer stands for. -/
def SignedInt.toInt (x : SignedInt n) : ℤ := signedValue x.sign (value x.magnitude.1)

theorem SignedInt.natAbs_toInt (x : SignedInt n) : x.toInt.natAbs = value x.magnitude.1 :=
  signedValue_natAbs _ _

theorem SignedInt.abs_toInt_lt (x : SignedInt n) : |x.toInt| < (wordBase ^ n : ℕ) := by
  rw [SignedInt.toInt, abs_signedValue]
  exact_mod_cast value_words_lt x.magnitude

/-- The magnitude and the sign of a word. -/
theorem absSign_value (x : Int64) : signedValue (absSign x).2 (absSign x).1.toNat = x.toInt := by
  have hLt := x.toUInt64.toNat_lt
  have hToInt : x.toInt = if 2 * x.toUInt64.toNat < 2 ^ 64 then (x.toUInt64.toNat : ℤ)
      else x.toUInt64.toNat - (2 ^ 64 : ℕ) := BitVec.toInt_eq_toNat_cond _
  have hShift : (x.toUInt64 >>> 63).toNat = x.toUInt64.toNat / 2 ^ 63 :=
    shiftRight_toNat _ (by decide)
  by_cases hNeg : 2 * x.toUInt64.toNat < 2 ^ 64
  · have hZero : x.toUInt64 >>> 63 = 0 := by
      apply UInt64.toNat_inj.mp
      rw [hShift]
      exact Nat.div_eq_of_lt (by omega)
    have hSign : lsb (0 : UInt64) = false := rfl
    rw [hToInt, if_pos hNeg]
    simp only [absSign, hZero, hSign, Bool.false_eq_true, if_false, signedValue]
  · have hOne : x.toUInt64 >>> 63 = 1 := by
      apply UInt64.toNat_inj.mp
      rw [hShift]
      change _ = 1
      omega
    have hSign : lsb (1 : UInt64) = true := rfl
    have hSize : UInt64.size = 2 ^ 64 := rfl
    have hNot : (~~~x.toUInt64 + 1).toNat = 2 ^ 64 - x.toUInt64.toNat := by
      rw [UInt64.toNat_add, UInt64.toNat_not, hSize]
      change (2 ^ 64 - 1 - _ + 1) % 2 ^ 64 = _
      omega
    rw [hToInt, if_neg hNeg]
    simp only [absSign, hOne, hSign, if_true, signedValue, hNot]
    omega

namespace SignedInt

/-- A sum that fits is exact. -/
theorem combineWide_value {x y : Uint n × UInt64} (xNeg yNeg : Bool)
    (hRoom : wideValue x + wideValue y < wordBase ^ n * wordBase) :
    signedValue (combineWide x y xNeg yNeg).2 (wideValue (combineWide x y xNeg yNeg).1) =
      signedValue xNeg (wideValue x) + signedValue yNeg (wideValue y) := by
  cases hOdd : xNeg ^^ yNeg with
  | false =>
    -- equal signs: the difference with the negated right part is the sum
    obtain rfl : xNeg = yNeg := by
      cases xNeg <;> cases yNeg <;> first | rfl | cases hOdd
    have hNegated := conditionalNegate_value y true
    obtain ⟨-, hSub⟩ := borrowingSubWide_value x (conditionalNegateInPlaceWide y true)
    have hOut := wideValue_lt (borrowingSubWide x (conditionalNegateInPlaceWide y true)).1
    have hSum : wideValue (borrowingSubWide x (conditionalNegateInPlaceWide y true)).1 =
        wideValue x + wideValue y := by
      rw [hNegated, if_pos rfl] at hSub
      by_cases hZero : wideValue y = 0
      · rw [hZero, Nat.sub_zero, Nat.mod_self, decide_eq_false (Nat.not_lt_zero _),
          Bool.toNat_false, mul_zero, add_zero, add_zero] at hSub
        omega
      · rw [Nat.mod_eq_of_lt (by omega), decide_eq_true (by omega), Bool.toNat_true,
          mul_one] at hSub
        omega
    simp only [combineWide, hOdd, Bool.not_false, Bool.and_false, Bool.and_true, Bool.or_false]
    rw [conditionalNegate_value, if_neg Bool.false_ne_true, hSum]
    cases xNeg <;> simp only [signedValue, Bool.false_eq_true, if_false, if_true] <;> omega
  | true =>
    -- opposite signs: the larger part gives the sign
    have hKeep : conditionalNegateInPlaceWide y false = y := rfl
    obtain ⟨hBorrow, -⟩ := borrowingSubWide_value x y
    simp only [combineWide, hOdd, Bool.not_true, hKeep, Bool.and_true, hBorrow]
    rw [borrowingSubWide_negate]
    by_cases hLess : wideValue x < wideValue y
    · rw [if_pos hLess, decide_eq_true hLess]
      cases xNeg <;> cases yNeg <;> cases hOdd
      all_goals
        simp only [signedValue, Bool.not_true, Bool.and_false, Bool.and_true, Bool.or_false,
          Bool.or_true, Bool.false_eq_true, if_false, if_true]
        omega
    · rw [if_neg hLess, decide_eq_false hLess]
      cases xNeg <;> cases yNeg <;> cases hOdd
      all_goals
        simp only [signedValue, Bool.not_false, Bool.and_false, Bool.and_true, Bool.or_false,
          Bool.false_eq_true, if_false, if_true]
        omega

variable {a b : SignedInt n} {c d : Int64}

theorem lincombInt_value
    (hFits : |a.toInt| * |c.toInt| + |b.toInt| * |d.toInt| < (wordBase ^ n * wordBase : ℕ)) :
    signedValue (lincombInt a b c d).2 (wideValue (lincombInt a b c d).1) =
      a.toInt * c.toInt + b.toInt * d.toInt := by
  have hX := signedValue_mul a.sign (absSign c).2 (value a.magnitude.1) (absSign c).1.toNat
  have hY := signedValue_mul b.sign (absSign d).2 (value b.magnitude.1) (absSign d).1.toNat
  rw [absSign_value, ← a.magnitude.wideningMul_value] at hX
  rw [absSign_value, ← b.magnitude.wideningMul_value] at hY
  change _ = a.toInt * c.toInt at hX
  change _ = b.toInt * d.toInt at hY
  rw [← abs_mul, ← abs_mul, ← hX, ← hY, abs_signedValue, abs_signedValue] at hFits
  rw [← hX, ← hY]
  exact combineWide_value _ _ (by exact_mod_cast hFits)

/-- A wide number that fits the limbs. -/
theorem wideValue_of_lt {wide : Uint n × UInt64} (h : wideValue wide < wordBase ^ n) :
    value wide.1.1 = wideValue wide ∧ wide.2 = 0 := by
  obtain ⟨hHigh, hLow⟩ := carry_eq_zero (rfl : wideValue wide = wideValue wide) h
  exact ⟨hLow, hHigh⟩

/-- A quotient without remainder that fits. -/
theorem lincombIntReduceShift_toInt {shift : ℕ} {q : ℤ} (hPos : 0 < shift) (hLt : shift < 64)
    (hFits : |a.toInt| * |c.toInt| + |b.toInt| * |d.toInt| < (wordBase ^ n * wordBase : ℕ))
    (hExact : 2 ^ shift * q = a.toInt * c.toInt + b.toInt * d.toInt)
    (hq : |q| < (wordBase ^ n : ℕ)) :
    (lincombIntReduceShift a b c d shift).toInt = q := by
  have hValue := lincombInt_value hFits
  rw [← hExact] at hValue
  have hMagnitude := congrArg Int.natAbs hValue
  rw [signedValue_natAbs, Int.natAbs_mul, Int.natAbs_pow] at hMagnitude
  change _ = 2 ^ shift * q.natAbs at hMagnitude
  have hShift := shrInPlaceWide_value hPos hLt (lincombInt a b c d).1
  rw [hMagnitude, Nat.mul_div_cancel_left _ (Nat.two_pow_pos shift)] at hShift
  have hSmall : q.natAbs < wordBase ^ n := by
    rw [Int.abs_eq_natAbs] at hq
    exact_mod_cast hq
  have hOut := (wideValue_of_lt (hShift.trans_lt hSmall)).1
  rw [hMagnitude] at hValue
  rw [toInt, lincombIntReduceShift, hOut, hShift]
  have hScaled := signedValue_mul (lincombInt a b c d).2 false q.natAbs (2 ^ shift)
  rw [Bool.xor_false, mul_comm, hValue, mul_comm] at hScaled
  have hPow : signedValue false (2 ^ shift) = (2 : ℤ) ^ shift := by
    rw [signedValue, if_neg Bool.false_ne_true]
    push_cast
    rfl
  rw [hPow] at hScaled
  exact (mul_right_cancel₀ (by positivity) hScaled).symm

end SignedInt

theorem lowestU64_toNat (x : Uint n) : x.lowestU64.toNat = value x.1 % wordBase := by
  obtain ⟨limbs, hLength⟩ := x
  cases limbs with
  | nil => rfl
  | cons limb limbs =>
    change limb.toNat = (limb.toNat + wordBase * value limbs) % wordBase
    rw [Nat.add_mul_mod_self_left, Nat.mod_eq_of_lt (toNat_lt limb)]

theorem and_lowMask_toNat (word : UInt64) {shift : ℕ} (hPos : 0 < shift) (hLt : shift < 64) :
    (word &&& ((0xffffffffffffffff : UInt64) >>> UInt64.ofNat (64 - shift))).toNat =
      word.toNat % 2 ^ shift := by
  have hMask : ((0xffffffffffffffff : UInt64) >>> UInt64.ofNat (64 - shift)).toNat =
      2 ^ shift - 1 := by
    have hOnes : (0xffffffffffffffff : UInt64).toNat = 2 ^ 64 - 1 := rfl
    rw [shiftRight_toNat _ (by omega), hOnes]
    have hSplit : 2 ^ 64 = 2 ^ (64 - shift) * 2 ^ shift := by
      rw [← pow_add, Nat.sub_add_cancel hLt.le]
    have hTop := Nat.two_pow_pos (64 - shift)
    have hLow := Nat.two_pow_pos shift
    apply Nat.div_eq_of_lt_le
    · rw [hSplit, Nat.sub_mul, mul_comm (2 ^ shift)]
      omega
    · have hNext : (2 ^ shift - 1 + 1) * 2 ^ (64 - shift) = 2 ^ 64 := by
        rw [Nat.sub_add_cancel hLow, hSplit, mul_comm]
      rw [hNext]
      omega
  rw [UInt64.toNat_and, hMask, Nat.and_two_pow_sub_one_eq_mod]

namespace SignedInt

section Reduce

variable {x : Uint n × UInt64} {shift : ℕ} {m : Uint n} {mi : UInt64}

/-- The multiple of the modulus that clears the low bits. -/
def clearing (x : Uint n × UInt64) (shift : ℕ) (mi : UInt64) : ℕ :=
  value x.1.1 * mi.toNat % 2 ^ shift

theorem clearing_value (hPos : 0 < shift) (hLt : shift < 64) :
    (x.1.lowestU64 * mi &&& ((0xffffffffffffffff : UInt64) >>> UInt64.ofNat (64 - shift))).toNat =
      clearing x shift mi := by
  have hDvd : 2 ^ shift ∣ wordBase := pow_dvd_pow 2 hLt.le
  rw [and_lowMask_toNat _ hPos hLt, UInt64.toNat_mul, lowestU64_toNat, clearing]
  change _ * _ % wordBase % _ = _
  rw [Nat.mod_mod_of_dvd _ hDvd, Nat.mul_mod, Nat.mod_mod_of_dvd _ hDvd, ← Nat.mul_mod]

theorem clearing_modEq (hLt : shift < 64) (hInverse : mi.toNat * value m.1 % wordBase = 1)
    (hn : 0 < n) : value m.1 * clearing x shift mi ≡ wideValue x [MOD 2 ^ shift] := by
  have hDvd : 2 ^ shift ∣ wordBase := pow_dvd_pow 2 hLt.le
  have hOne : mi.toNat * value m.1 ≡ 1 [MOD 2 ^ shift] := Nat.ModEq.of_dvd hDvd hInverse
  have hHigh : wordBase ^ n * x.2.toNat ≡ 0 [MOD 2 ^ shift] :=
    Nat.modEq_zero_iff_dvd.mpr ((hDvd.trans (dvd_pow_self _ hn.ne')).mul_right _)
  calc
    value m.1 * clearing x shift mi ≡ value m.1 * (value x.1.1 * mi.toNat) [MOD 2 ^ shift] :=
      (Nat.mod_modEq _ _).mul_left _
    _ = value x.1.1 * (mi.toNat * value m.1) := by ring
    _ ≡ value x.1.1 * 1 [MOD 2 ^ shift] := hOne.mul_left _
    _ = value x.1.1 + 0 := by rw [mul_one, add_zero]
    _ ≡ wideValue x [MOD 2 ^ shift] := hHigh.symm.add_left _

/-- What the subtraction and the shift leave: the quotient of the distance to the multiple, with
one more subtraction of the modulus when it is reached. -/
theorem reduceShiftMod_toInt (sign : Bool) (hPos : 0 < shift) (hLt : shift < 64) {q : ℕ}
    (hq : q ≤ value m.1)
    (hDistance : (if wideValue x < value m.1 * clearing x shift mi then
      value m.1 * clearing x shift mi - wideValue x
      else wideValue x - value m.1 * clearing x shift mi) = 2 ^ shift * q) :
    (reduceShiftMod x sign shift m mi).toInt =
      signedValue (sign ^^ decide (wideValue x < value m.1 * clearing x shift mi))
        (if q < value m.1 then q else 0) := by
  have hMultiple := m.wideningMul_value
    (x.1.lowestU64 * mi &&& ((0xffffffffffffffff : UInt64) >>> UInt64.ofNat (64 - shift)))
  rw [clearing_value hPos hLt] at hMultiple
  generalize hmf : m.wideningMul
    (x.1.lowestU64 * mi &&& ((0xffffffffffffffff : UInt64) >>> UInt64.ofNat (64 - shift))) =
      multiple at hMultiple
  have hNegate := borrowingSubWide_negate x multiple
  obtain ⟨hBorrow, -⟩ := borrowingSubWide_value x multiple
  rw [hMultiple] at hNegate hBorrow
  rw [hDistance] at hNegate
  have hShift := shrInPlaceWide_value hPos hLt (conditionalNegateInPlaceWide
    (borrowingSubWide x multiple).1 (decide (wideValue x < value m.1 * clearing x shift mi)))
  rw [hNegate, Nat.mul_div_cancel_left _ (Nat.two_pow_pos shift)] at hShift
  have hm := value_words_lt m
  obtain ⟨hLow, hHigh⟩ := wideValue_of_lt (hShift.trans_lt (by omega))
  rw [hShift] at hLow
  have hZero : (0 : UInt64).toNat = 0 := rfl
  have hNone : (0 : UInt64).toNat ≤ 1 := Nat.zero_le 1
  have hRoom : value (shrInPlaceWide (conditionalNegateInPlaceWide (borrowingSubWide x multiple).1
      (decide (wideValue x < value m.1 * clearing x shift mi))) shift).1.1 +
        wordBase ^ n * (0 : UInt64).toNat < value m.1 + wordBase ^ n := by
    rw [hZero, mul_zero]
    omega
  have hTry := (Uint.trySubWithCarry_exact (shrInPlaceWide (conditionalNegateInPlaceWide
    (borrowingSubWide x multiple).1 (decide (wideValue x < value m.1 * clearing x shift mi)))
      shift).1 m hNone hRoom).1
  rw [hLow, hZero, mul_zero, add_zero] at hTry
  simp only [toInt, reduceShiftMod, hmf, hBorrow]
  rw [hHigh, hTry]
  split_ifs with hLess
  · rfl
  · have hEqual : q - value m.1 = 0 := by omega
    rw [hEqual]

/-- The distance to the clearing multiple is divisible. -/
theorem exists_quotient (hLt : shift < 64) (hInverse : mi.toNat * value m.1 % wordBase = 1)
    (hn : 0 < n) (hx : wideValue x ≤ 2 ^ shift * value m.1) :
    ∃ q ≤ value m.1,
      (if wideValue x < value m.1 * clearing x shift mi then
        value m.1 * clearing x shift mi - wideValue x
        else wideValue x - value m.1 * clearing x shift mi) = 2 ^ shift * q ∧
      signedValue (decide (wideValue x < value m.1 * clearing x shift mi)) (2 ^ shift * q) =
        wideValue x - value m.1 * clearing x shift mi := by
  have hClears := clearing_modEq (x := x) hLt hInverse hn
  have hSmall : value m.1 * clearing x shift mi ≤ 2 ^ shift * value m.1 := by
    rw [mul_comm]
    exact Nat.mul_le_mul_right _ (Nat.mod_lt _ (Nat.two_pow_pos shift)).le
  have hCast : ((value m.1 * clearing x shift mi : ℕ) : ℤ) =
      value m.1 * clearing x shift mi := Nat.cast_mul _ _
  rw [← hCast]
  generalize value m.1 * clearing x shift mi = multiple at hClears hSmall
  by_cases hLess : wideValue x < multiple
  · obtain ⟨q, hq⟩ := (Nat.modEq_iff_dvd' hLess.le).mp hClears.symm
    refine ⟨q, Nat.le_of_mul_le_mul_left (by omega) (Nat.two_pow_pos shift), ?_, ?_⟩
    · rw [if_pos hLess, hq]
    · rw [decide_eq_true hLess, ← hq, signedValue, if_pos rfl]
      omega
  · obtain ⟨q, hq⟩ := (Nat.modEq_iff_dvd' (not_lt.mp hLess)).mp hClears
    refine ⟨q, Nat.le_of_mul_le_mul_left (by omega) (Nat.two_pow_pos shift), ?_, ?_⟩
    · rw [if_neg hLess, hq]
    · rw [decide_eq_false hLess, ← hq, signedValue, if_neg Bool.false_ne_true]
      omega

/-- What is left is the number divided by the power of two modulo `m`. -/
theorem reduceShiftMod_spec (sign : Bool) (hPos : 0 < shift) (hLt : shift < 64) (hn : 0 < n)
    (hInverse : mi.toNat * value m.1 % wordBase = 1) (hm : 0 < value m.1)
    (hx : wideValue x ≤ 2 ^ shift * value m.1) :
    2 ^ shift * (reduceShiftMod x sign shift m mi).toInt ≡
        signedValue sign (wideValue x) [ZMOD value m.1] ∧
      |(reduceShiftMod x sign shift m mi).toInt| < value m.1 := by
  obtain ⟨q, hBound, hDistance, hSigned⟩ := exists_quotient hLt hInverse hn hx
  have hResult := reduceShiftMod_toInt sign hPos hLt hBound hDistance
  generalize decide (wideValue x < value m.1 * clearing x shift mi) = less at hSigned hResult
  have hPart : (if q < value m.1 then q else 0) < value m.1 ∧
      ((if q < value m.1 then q else 0 : ℕ) : ℤ) ≡ q [ZMOD value m.1] := by
    split_ifs with hLess
    · exact ⟨hLess, Int.ModEq.refl _⟩
    · obtain rfl : q = value m.1 := by omega
      exact ⟨hm, Int.modEq_iff_dvd.mpr (by simp)⟩
  generalize (if q < value m.1 then q else 0) = part at hPart hResult
  have hSplit := signedValue_mul sign less part 1
  rw [mul_one] at hSplit
  rw [hResult]
  constructor
  · calc
      2 ^ shift * signedValue (sign ^^ less) part
          = signedValue sign 1 * signedValue less 1 * 2 ^ shift * part := by
        rw [hSplit, signedValue_eq_mul sign part]
        ring
      _ ≡ signedValue sign 1 * signedValue less 1 * 2 ^ shift * q [ZMOD value m.1] :=
        hPart.2.mul_left _
      _ = signedValue sign 1 * signedValue less (2 ^ shift * q) := by
        rw [signedValue_eq_mul less (2 ^ shift * q)]
        push_cast
        ring
      _ = signedValue sign (wideValue x) +
          value m.1 * (-(signedValue sign 1 * clearing x shift mi)) := by
        rw [hSigned, signedValue_eq_mul sign (wideValue x)]
        ring
      _ ≡ signedValue sign (wideValue x) [ZMOD value m.1] :=
        Int.modEq_iff_dvd.mpr ⟨signedValue sign 1 * clearing x shift mi, by ring⟩
  · rw [abs_signedValue]
    exact_mod_cast hPart.1

/-- A multiple of the power of two is divided as it is. -/
theorem reduceShiftMod_of_dvd (sign : Bool) (hPos : 0 < shift) (hLt : shift < 64) (hn : 0 < n)
    {q : ℕ} (hx : wideValue x = 2 ^ shift * q) (hq : q < value m.1) :
    (reduceShiftMod x sign shift m mi).toInt = signedValue sign q := by
  have hLow : value x.1.1 % 2 ^ shift = 0 := by
    have hDvd : 2 ^ shift ∣ wordBase := pow_dvd_pow 2 hLt.le
    have hHigh : wordBase ^ n * x.2.toNat ≡ 0 [MOD 2 ^ shift] :=
      Nat.modEq_zero_iff_dvd.mpr ((hDvd.trans (dvd_pow_self _ hn.ne')).mul_right _)
    have hTotal : wideValue x ≡ 0 [MOD 2 ^ shift] :=
      Nat.modEq_zero_iff_dvd.mpr ⟨q, hx⟩
    have hSum : value x.1.1 + wordBase ^ n * x.2.toNat ≡ value x.1.1 [MOD 2 ^ shift] := by
      have hAdd := hHigh.add_left (value x.1.1)
      rwa [add_zero] at hAdd
    exact hSum.symm.trans hTotal
  have hZero : clearing x shift mi = 0 := by
    rw [clearing, Nat.mul_mod, hLow, zero_mul, Nat.zero_mod]
  have hResult := reduceShiftMod_toInt sign hPos hLt hq.le (by
    rw [hZero, mul_zero, if_neg (Nat.not_lt_zero _), Nat.sub_zero, hx])
  rw [hResult, hZero, mul_zero, decide_eq_false (Nat.not_lt_zero _), Bool.xor_false, if_pos hq]

end Reduce

end SignedInt

end X301Provider.BigInt
