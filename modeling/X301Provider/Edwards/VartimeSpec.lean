import X301Provider.Edwards.Vartime
import X301Provider.Signature.ScalarSpec

/-!
# Variable-time multiplication computes multiples

A signed addition adds the multiple by its digit. Folding a schedule multiplies
by the integer it encodes, which for both fixed schedules is `L`; the
interleaved loop computes the difference of two multiples.
-/

namespace X301Provider

open EdwardsPoint SignedDigits

/-- A digit that the odd tables can serve. -/
def TableDigit (digit : Int8) : Prop :=
  (digit.toInt = 0 ∨ digit.toInt % 2 = 1) ∧ digit.toInt.natAbs < 128

theorem vartimeAddSigned_denotes {accumulator : EdwardsPoint} {A C : E.Point} {digit : Int8}
    {table : List AffineNielsPoint} (hAccumulator : accumulator.Denotes A)
    (hTable : OddMultiples table C) (hDigit : TableDigit digit) (negateScalar : Bool) :
    (vartimeAddSigned accumulator digit table negateScalar).Denotes
      (A + (if negateScalar then -digit.toInt else digit.toInt) • C) := by
  obtain ⟨hOdd, hAbs⟩ := hDigit
  have hZero : digit = 0 ↔ digit.toInt = 0 := by
    rw [← Int8.toInt_inj]
    rfl
  have hSign : decide (digit < 0) = decide (digit.toInt < 0) := by
    rw [decide_eq_decide, Int8.lt_iff_toInt_lt]
    rfl
  rw [vartimeAddSigned, hSign]
  by_cases hDigitZero : digit = 0
  · rw [if_pos hDigitZero, hZero.mp hDigitZero]
    simpa using hAccumulator
  · rw [if_neg hDigitZero]
    rw [hZero] at hDigitZero
    have hShift : digit.toInt.natAbs >>> 1 = digit.toInt.natAbs / 2 :=
      Nat.shiftRight_eq_div_pow _ 1
    have hEntry := hTable (digit.toInt.natAbs / 2) (by omega)
    have hIndex : 2 * (digit.toInt.natAbs / 2) + 1 = digit.toInt.natAbs := by omega
    rw [hIndex, ← natCast_zsmul, Int.natCast_natAbs] at hEntry
    simp only [hShift]
    cases lt_or_ge digit.toInt 0 with
    | inl hNegative =>
      rw [abs_of_neg hNegative] at hEntry
      rw [decide_eq_true hNegative]
      cases negateScalar with
      | false =>
        have hAddend := hEntry.negate
        rw [neg_zsmul, neg_neg] at hAddend
        exact hAccumulator.addAffine hAddend
      | true => exact hAccumulator.addAffine hEntry
    | inr hPositive =>
      rw [abs_of_nonneg hPositive] at hEntry
      rw [decide_eq_false (not_lt.mpr hPositive)]
      cases negateScalar with
      | false => exact hAccumulator.addAffine hEntry
      | true =>
        have hAddend := hEntry.negate
        rw [← neg_zsmul] at hAddend
        exact hAccumulator.addAffine hAddend

section Schedule

variable {α : Type*} {A : E.Point}

/-- The integer and the position reached by a schedule. -/
def scheduleValue (digitOf : α → ℤ) (schedule : List (ℕ × α)) (start : ℤ × ℕ) : ℤ × ℕ :=
  schedule.foldl (fun state entry =>
    (state.1 * 2 ^ (state.2 - entry.1) + digitOf entry.2, min state.2 entry.1)) start

theorem double_iterate {p : EdwardsPoint} {m : ℤ} (h : p.Denotes (m • A)) (n : ℕ) :
    (double^[n] p).Denotes ((m * 2 ^ n) • A) := by
  induction n with
  | zero => simpa using h
  | succ n ih =>
    have hDouble := ih.double
    rw [← natCast_zsmul, smul_smul, Nat.cast_ofNat] at hDouble
    rw [Function.iterate_succ_apply', pow_succ', mul_left_comm]
    exact hDouble

theorem schedule_denotes (addDigit : EdwardsPoint → α → EdwardsPoint) (digitOf : α → ℤ)
    (schedule : List (ℕ × α))
    (hAdd : ∀ entry ∈ schedule, ∀ {p : EdwardsPoint} {C : E.Point}, p.Denotes C →
      (addDigit p entry.2).Denotes (C + digitOf entry.2 • A))
    {p : EdwardsPoint} {m : ℤ} (position : ℕ) (h : p.Denotes (m • A)) :
    (schedule.foldl (scheduleStep addDigit) (p, position)).1.Denotes
      ((scheduleValue digitOf schedule (m, position)).1 • A) := by
  induction schedule generalizing p position m with
  | nil => exact h
  | cons entry schedule ih =>
    obtain ⟨hHead, hTail⟩ := List.forall_mem_cons.mp hAdd
    have hNext := hHead (double_iterate h (position - entry.1))
    rw [← add_zsmul] at hNext
    exact ih hTail _ hNext

end Schedule

theorem primeOrderSchedules_value :
    (scheduleValue Int8.toInt primeOrderWnaf8Desc.tail (1, 299)).1 = L ∧
      (scheduleValue (fun _ : Unit => 1) (primeOrderSetBitsDesc.tail.map fun bit => (bit, ()))
        (1, 299)).1 = L := by
  decide +kernel

theorem isPrimeSubgroupWithTable_eq {p : EdwardsPoint} {A : E.Point}
    {table : List AffineNielsPoint} (hp : p.Denotes A) (hTable : OddMultiples table A) :
    p.isPrimeSubgroupWithTable table = decide (L • A = 0) := by
  have hDigits : ∀ entry ∈ primeOrderWnaf8Desc.tail,
      (entry.2.toInt = 0 ∨ entry.2.toInt % 2 = 1) ∧ entry.2.toInt.natAbs < 128 := by decide
  have hStart : p.Denotes ((1 : ℤ) • A) := by rwa [one_zsmul]
  have hFold := schedule_denotes (vartimeAddSigned · · table false) Int8.toInt
    primeOrderWnaf8Desc.tail (fun entry hEntry {q C} hq => by
      simpa using vartimeAddSigned_denotes hq hTable (hDigits entry hEntry) false) 299 hStart
  rw [primeOrderSchedules_value.1, natCast_zsmul] at hFold
  exact hFold.isIdentity

theorem isPrimeSubgroup_eq {p : EdwardsPoint} {A : E.Point} (hp : p.Denotes A) :
    p.isPrimeSubgroup = decide (L • A = 0) := by
  have hStart : p.Denotes ((1 : ℤ) • A) := by rwa [one_zsmul]
  have hFold := schedule_denotes (fun accumulator _ => accumulator.add p) (fun _ : Unit => 1)
    (primeOrderSetBitsDesc.tail.map fun bit => (bit, ())) (fun _ _ {q C} hq => hq.add hStart)
    299 hStart
  rw [primeOrderSchedules_value.2, natCast_zsmul] at hFold
  exact hFold.isIdentity

theorem isPrimeSubgroupNonidentity_eq {p : EdwardsPoint} {A : E.Point} (hp : p.Denotes A) :
    p.isPrimeSubgroupNonidentity = decide (A ≠ 0 ∧ L • A = 0) := by
  rw [isPrimeSubgroupNonidentity, hp.isIdentity, isPrimeSubgroup_eq hp, Bool.eq_iff_iff]
  simp

theorem topPosition_le (baseDigits pointDigits : List Int8) (top : ℕ) :
    topPosition baseDigits pointDigits top ≤ top := by
  induction top with
  | zero => exact le_refl 0
  | succ top ih =>
    rw [topPosition]
    split_ifs
    · exact ih.trans (Nat.le_succ top)
    · exact le_refl _

theorem topPosition_spec (baseDigits pointDigits : List Int8) {top i : ℕ}
    (hi : topPosition baseDigits pointDigits top < i) (hTop : i ≤ top) :
    baseDigits.getD i 0 = 0 ∧ pointDigits.getD i 0 = 0 := by
  induction top with
  | zero => omega
  | succ top ih =>
    rw [topPosition] at hi
    split_ifs at hi with h
    · rcases Nat.le_succ_iff.mp hTop with hLe | rfl
      · exact ih hi hLe
      · exact h
    · omega

theorem value_of_top {digits : List Int8} {top : ℕ} (hTop : top < digits.length)
    (hZero : ∀ i, top < i → i < digits.length → digits.getD i 0 = 0) :
    value 2 (digitInts digits) =
      ∑ i ∈ Finset.range (top + 1), (digits.getD i 0).toInt * 2 ^ i := by
  have hLength : (digitInts digits).length = digits.length := List.length_map _
  rw [value_eq_sum, hLength]
  simp only [digitInts_getD]
  symm
  apply Finset.sum_subset (Finset.range_subset_range.mpr hTop)
  intro i hi hNot
  rw [Finset.mem_range] at hi hNot
  rw [hZero i (by omega) hi]
  exact zero_mul _

/-- The interleaved loop computes a difference of multiples. -/
theorem vartimeDoubleScalarMulBasepoint_denotes {baseScalar pointScalar : Scalar}
    (hBase : baseScalar.integer.toNat < L) (hPoint : pointScalar.integer.toNat < L)
    {pointTable : List AffineNielsPoint} {A : E.Point} (hTable : OddMultiples pointTable A) :
    (vartimeDoubleScalarMulBasepoint baseScalar pointScalar pointTable).Denotes
      (baseScalar.integer.toNat • B - pointScalar.integer.toNat • A) := by
  have hBaseValue := Scalar.value_vartimeWnaf hBase wnafWidth
  have hPointValue := Scalar.value_vartimeWnaf hPoint wnafWidth
  have hBaseDigits := Scalar.vartimeWnaf_bounds hBase wnafWidth
  have hPointDigits := Scalar.vartimeWnaf_bounds hPoint wnafWidth
  have hBaseLength := Scalar.vartimeWnaf_length hBase wnafWidth
  have hPointLength := Scalar.vartimeWnaf_length hPoint wnafWidth
  rw [digitInts, List.length_map] at hBaseLength hPointLength
  rw [vartimeDoubleScalarMulBasepoint]
  generalize baseScalar.vartimeWnaf wnafWidth = baseDigits at *
  generalize pointScalar.vartimeWnaf wnafWidth = pointDigits at *
  have hLe := topPosition_le baseDigits pointDigits fieldBits
  have hZero := fun i => @topPosition_spec baseDigits pointDigits fieldBits i
  generalize topPosition baseDigits pointDigits fieldBits = top at *
  have hBits : fieldBits = 301 := rfl
  have hStep : ∀ i < top + 1, ∀ (s : EdwardsPoint) (C : E.Point), s.Denotes C →
      (vartimeAddSigned
        (vartimeAddSigned s.double (baseDigits.getD i 0) basepointOddTable false)
        (pointDigits.getD i 0) pointTable true).Denotes
        (2 • C + ((baseDigits.getD i 0).toInt • B + -(pointDigits.getD i 0).toInt • A)) := by
    intro i _ s C hs
    have hFirst := vartimeAddSigned_denotes hs.double oddMultiples_basepoint (hBaseDigits i) false
    have hSecond := vartimeAddSigned_denotes hFirst hTable (hPointDigits i) true
    rw [add_assoc] at hSecond
    exact hSecond
  have hLoop := Horner.run_sum (S := EdwardsPoint.Denotes) 2 (top + 1) hStep denotes_identity
  rw [value_of_top (by omega) fun i hi hLt => (hZero i hi (by omega)).1] at hBaseValue
  rw [value_of_top (by omega) fun i hi hLt => (hZero i hi (by omega)).2] at hPointValue
  have hSum : 2 ^ (top + 1) • (0 : E.Point) + ∑ i ∈ Finset.range (top + 1),
      2 ^ i • ((baseDigits.getD i 0).toInt • B + -(pointDigits.getD i 0).toInt • A) =
        baseScalar.integer.toNat • B - pointScalar.integer.toNat • A := by
    rw [← natCast_zsmul B, ← natCast_zsmul A, ← hBaseValue, ← hPointValue, Finset.sum_smul,
      Finset.sum_smul, ← Finset.sum_sub_distrib, nsmul_zero, zero_add]
    refine Finset.sum_congr rfl fun i _ => ?_
    rw [← natCast_zsmul]
    push_cast
    module
  rw [hSum] at hLoop
  exact hLoop

end X301Provider
