import X301Provider.Edwards.ScalarMulSpec

/-!
# Signed radix-16 digits and the table scan

The carry loop is followed position by position. With a last byte of at most
`0x7f` every eight-bit operation of the loop is exact, the digits below the top one
lie in `[-8, 7]` and the top one in `[0, 8]`. The scan over a table row returns the
affine cached form of the multiple by the digit.
-/

namespace X301Provider

open Limbs EdwardsPoint SignedDigits

def carryOf (digit : Int8) : Int8 := (digit + 8) >>> 4

/-- The digit at a position when the carry loop reaches it. -/
def carriedAt (digits : List Int8) : ℕ → Int8
  | 0 => digits.getD 0 0
  | i + 1 => digits.getD (i + 1) 0 + carryOf (carriedAt digits i)

theorem carriedAt_cons (digit next : Int8) (rest : List Int8) (i : ℕ) :
    carriedAt (digit :: next :: rest) (i + 1) = carriedAt ((next + carryOf digit) :: rest) i := by
  induction i with
  | zero => rfl
  | succ i ih =>
    rw [carriedAt, ih, carriedAt]
    rfl

/-- Every position but the last gives its carry away. -/
theorem carryDigits_getD (digits : List Int8) : ∀ i < digits.length,
    (carryDigits digits).getD i 0 =
      if i + 1 < digits.length then carriedAt digits i - (carryOf (carriedAt digits i) <<< 4)
      else carriedAt digits i := by
  fun_induction carryDigits digits with
  | case1 digit next rest carry ih =>
    intro i hi
    cases i with
    | zero => exact (if_pos (by simp)).symm
    | succ i =>
      have hTail := ih i (by simpa using hi)
      rw [List.getD_cons_succ, hTail, carriedAt_cons]
      simp only [List.length_cons, Nat.add_lt_add_iff_right]
      rfl
  | case2 digits hShort =>
    intro i hi
    rcases digits with _ | ⟨digit, _ | ⟨next, rest⟩⟩
    · exact absurd hi (Nat.not_lt_zero i)
    · obtain rfl : i = 0 := by simpa using hi
      rfl
    · exact absurd rfl (hShort digit next rest)

theorem carryDigits_length (digits : List Int8) :
    (carryDigits digits).length = digits.length := by
  fun_induction carryDigits digits with
  | case1 digit next rest carry ih => simpa using ih
  | case2 digits _ => rfl

/-- The eight-bit operations of one iteration give the integer results. -/
structure CarryExact (digit next : Int8) : Prop where
  add : (digit + 8).toInt = digit.toInt + 8
  carry : (carryOf digit).toInt = (digit.toInt + 8) / 16
  shift : (carryOf digit <<< 4).toInt = (carryOf digit).toInt * 16
  sub : (digit - (carryOf digit <<< 4)).toInt = digit.toInt - (carryOf digit).toInt * 16
  next : (next + carryOf digit).toInt = next.toInt + (carryOf digit).toInt

theorem carryExact {digit next : Int8} (hLow : 0 ≤ digit.toInt) (hHigh : digit.toInt ≤ 16)
    (hNext : 0 ≤ next.toInt ∧ next.toInt < 16) : CarryExact digit next := by
  obtain ⟨hCarry, hSub⟩ := carryStep hLow hHigh
  have hTable : ∀ n < 17, (Int8.ofNat n + 8).toInt = (Int8.ofNat n).toInt + 8 ∧
      (carryOf (Int8.ofNat n) <<< 4).toInt = (carryOf (Int8.ofNat n)).toInt * 16 := by decide
  obtain ⟨n, hn⟩ := Int.eq_ofNat_of_zero_le hLow
  have hDigit : digit = Int8.ofNat n := by
    rw [← Int8.ofInt_toInt digit, hn]
    rfl
  obtain ⟨hAdd, hShift⟩ := hTable n (by omega)
  rw [← hDigit] at hAdd hShift
  constructor
  · exact hAdd
  · exact hCarry
  · exact hShift
  · rw [← hCarry] at hSub
    exact hSub
  · change (carryOf digit).toInt = _ at hCarry
    exact carryNext hNext.1 hNext.2 (by omega) (by omega)

section Scalar

variable (scalar : Bytes 38)

theorem radix16Digits_getD {i : ℕ} (hi : i < 76) :
    ((radix16Digits scalar).getD i 0).toInt = (bytesValue scalar.1 / 16 ^ i % 16 : ℕ) := by
  rw [← digitInts_getD, digitInts_radix16Digits, List.getD_eq_getElem?_getD, List.getElem?_map,
    List.getElem?_range hi]
  rfl

theorem carriedAt_bounds {i : ℕ} (hi : i < 76) :
    0 ≤ (carriedAt (radix16Digits scalar) i).toInt ∧
      (carriedAt (radix16Digits scalar) i).toInt ≤
        ((radix16Digits scalar).getD i 0).toInt + 1 := by
  induction i with
  | zero =>
    rw [carriedAt, radix16Digits_getD scalar hi]
    omega
  | succ i ih =>
    obtain ⟨hLow, hHigh⟩ := ih (by omega)
    have hDigit := radix16Digits_getD scalar (show i < 76 by omega)
    have hNext := radix16Digits_getD scalar hi
    have hExact := @carryExact _ ((radix16Digits scalar).getD (i + 1) 0) hLow (by omega) (by omega)
    have hCarry := hExact.carry
    rw [carriedAt, hExact.next]
    omega

theorem carryExact_at {i : ℕ} (hi : i < 75) :
    CarryExact (carriedAt (radix16Digits scalar) i) ((radix16Digits scalar).getD (i + 1) 0) := by
  obtain ⟨hLow, hHigh⟩ := carriedAt_bounds scalar (show i < 76 by omega)
  have hDigit := radix16Digits_getD scalar (show i < 76 by omega)
  have hNext := radix16Digits_getD scalar (show i + 1 < 76 by omega)
  exact carryExact hLow (by omega) (by omega)

theorem signedRadix16_getD {i : ℕ} (hi : i < 75) :
    -8 ≤ ((signedRadix16 scalar).getD i 0).toInt ∧
      ((signedRadix16 scalar).getD i 0).toInt ≤ 7 := by
  have hLength := radix16Digits_length scalar
  have hExact := carryExact_at scalar hi
  have hCarry := hExact.carry
  rw [signedRadix16, carryDigits_getD _ _ (by omega), if_pos (by omega), hExact.sub]
  omega

variable {scalar} (hLast : scalar.get 37 ≤ 0x7f)

include hLast

theorem bytesValue_lt_of_last : bytesValue scalar.1 < 2 ^ 303 := by
  have hSplit := bytesValue_split_last scalar
  have hPrefix := bytesValue_lt (scalar.1.take 37)
  have hLength : (scalar.1.take 37).length = 37 := by
    rw [List.length_take, scalar.2]
    decide
  have hTop : (scalar.get 37).toNat ≤ 127 := hLast
  have hPower : (2 : ℕ) ^ 303 = 256 ^ 37 * 128 := two_pow_bytes 37 7
  rw [hLength] at hPrefix
  omega

theorem signedRadix16_getD_top :
    0 ≤ ((signedRadix16 scalar).getD 75 0).toInt ∧
      ((signedRadix16 scalar).getD 75 0).toInt ≤ 8 := by
  have hLength := radix16Digits_length scalar
  obtain ⟨hLow, hHigh⟩ := carriedAt_bounds scalar (show 75 < 76 by decide)
  have hDigit := radix16Digits_getD scalar (show 75 < 76 by decide)
  have hTop : bytesValue scalar.1 / 16 ^ 75 < 8 := by
    have hPower : (2 : ℕ) ^ 303 = 16 ^ 75 * 8 :=
      (pow_add 2 300 3).trans (congrArg (· * 8) (pow_mul 2 4 75))
    have hLt := bytesValue_lt_of_last hLast
    rw [hPower] at hLt
    exact Nat.div_lt_of_lt_mul hLt
  rw [signedRadix16, carryDigits_getD _ _ (by omega), if_neg (by omega)]
  omega

end Scalar

theorem AffineNielsPoint.Repr.ext {c c' : AffineNielsPoint} {n : EdwardsCurve.Niels Fp}
    (hc : c.Repr n) (hc' : c'.Repr n) : c = c' := by
  obtain ⟨x, y, xy, dt⟩ := c
  obtain ⟨x', y', xy', dt'⟩ := c'
  rw [mk.injEq]
  exact ⟨hc.x.ext hc'.x, hc.y.ext hc'.y, hc.xy.ext hc'.xy, hc.dt.ext hc'.dt⟩

theorem selectBasepoint_zero {row : ℕ} (hRow : row < 38) :
    selectBasepoint row 0 = .identity := by
  have hSelected := selectBasepoint_denotes hRow (show -8 ≤ (0 : Int8).toInt by decide) (by decide)
  have hZero : ((0 : Int8).toInt * 256 ^ row) • B = 0 := by
    have hInt : (0 : Int8).toInt = 0 := rfl
    rw [hInt, zero_mul, zero_smul]
  rw [hZero] at hSelected
  exact AffineNielsPoint.Repr.ext hSelected AffineNielsPoint.denotes_identity

/-- The recoding of every 38-byte scalar with a last byte of at most `0x7f`, and the selection by
every digit it can produce. -/
theorem signedRadix16_selectBasepoint :
    (∀ scalar : Bytes 38, scalar.get 37 ≤ 0x7f →
      let d := fun i => ((signedRadix16 scalar).getD i 0).toInt
      (signedRadix16 scalar).length = 76 ∧
        ∑ i ∈ Finset.range 76, d i * 16 ^ i = bytesValue scalar.1 ∧
        (∀ i < 75, -8 ≤ d i ∧ d i ≤ 7) ∧ (0 ≤ d 75 ∧ d 75 ≤ 8) ∧
        (∀ i < 75, CarryExact (carriedAt (radix16Digits scalar) i)
          ((radix16Digits scalar).getD (i + 1) 0)) ∧
        ∀ i < 76, (signedRadix16 scalar).getD i 0 =
          if i < 75 then carriedAt (radix16Digits scalar) i -
            (carryOf (carriedAt (radix16Digits scalar) i) <<< 4)
          else carriedAt (radix16Digits scalar) i) ∧
    ∀ (row : ℕ) (digit : Int8), row < 38 → digit.toInt.natAbs ≤ 8 →
      let A := (digit.toInt * 256 ^ row) • B
      (selectBasepoint row digit).x.Repr A.x ∧ (selectBasepoint row digit).y.Repr A.y ∧
        (selectBasepoint row digit).xy.Repr (A.x + A.y) ∧
        (selectBasepoint row digit).dt.Repr (E.d * (A.x * A.y)) ∧
        (digit = 0 → selectBasepoint row digit = .identity) := by
  constructor
  · intro scalar hLast d
    have hLength : (signedRadix16 scalar).length = 76 := by
      rw [signedRadix16, carryDigits_length, radix16Digits_length]
    refine ⟨hLength, ?_, fun i hi => signedRadix16_getD scalar hi, signedRadix16_getD_top hLast,
      fun i hi => carryExact_at scalar hi, ?_⟩
    · have hValue := @signedRadix16_value scalar
      rw [value_eq_sum, digitInts, List.length_map, hLength] at hValue
      rw [← hValue]
      refine Finset.sum_congr rfl fun i _ => ?_
      rw [← digitInts, digitInts_getD]
    · intro i hi
      have hDigits := radix16Digits_length scalar
      rw [signedRadix16, carryDigits_getD _ _ (by omega), hDigits]
      simp only [show i + 1 < 76 ↔ i < 75 by omega]
  · intro row digit hRow hDigit A
    have hSelected := selectBasepoint_denotes hRow (show -8 ≤ digit.toInt by omega) (by omega)
    refine ⟨hSelected.x, hSelected.y, hSelected.xy, hSelected.dt, ?_⟩
    rintro rfl
    exact selectBasepoint_zero hRow

/-- The carry from the bottom reaches the top digit. -/
theorem signedRadix16_selectBasepoint_ones :
    let scalar : Bytes 38 := ⟨List.replicate 37 0xff ++ [0x7f], rfl⟩
    ((signedRadix16 scalar).getD 75 0).toInt ≤ 8 ∧
      (selectBasepoint 37 (-8)).x.Repr (((-8 : Int8).toInt * 256 ^ 37) • B : E.Point).x := by
  obtain ⟨hDigits, hSelect⟩ := signedRadix16_selectBasepoint
  exact ⟨(hDigits ⟨List.replicate 37 0xff ++ [0x7f], rfl⟩ (by decide)).2.2.2.1.2,
    (hSelect 37 (-8) (by decide) (by decide)).1⟩

end X301Provider
