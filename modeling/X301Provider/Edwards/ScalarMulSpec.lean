import X301Provider.Edwards.TableSpec
import X301Provider.Library.Horner
import X301Provider.Library.SignedDigits

/-!
# Scalar multiplication computes multiples

The recoded radix-16 digits lie in `[-8, 8]` and denote the scalar, the table
scan selects the multiple by one digit, and the two digit loops with four
doublings between them add up to the multiple of the base point.
-/

namespace X301Provider

open Limbs EdwardsPoint SignedDigits

def digitInts (digits : List Int8) : List ℤ := digits.map Int8.toInt

theorem digitInts_getD (digits : List Int8) (i : ℕ) :
    (digitInts digits).getD i 0 = (digits.getD i 0).toInt := by
  rw [digitInts, List.getD_eq_getElem?_getD, List.getD_eq_getElem?_getD, List.getElem?_map]
  cases digits[i]? with
  | none => rfl
  | some digit => rfl

set_option maxRecDepth 100000 in
theorem nibble_eq (scalar : Bytes 38) (index : ℕ) :
    ((scalar.1.getD (index >>> 1) 0 >>> UInt8.ofNat ((index &&& 1) <<< 2)) &&& 0x0f).toInt8.toInt =
      (bytesValue scalar.1 / 16 ^ index % 16 : ℕ) := by
  have hByte := byteAt_eq scalar.1 (index >>> 1)
  have hShift : index >>> 1 = index / 2 := Nat.shiftRight_eq_div_pow index 1
  have hMask : index &&& 1 = index % 2 := Nat.and_two_pow_sub_one_eq_mod index 1
  have hHalves : ∀ byte : UInt8, ∀ odd < 2,
      ((byte >>> UInt8.ofNat (odd <<< 2)) &&& 0x0f).toInt8.toInt =
        (byte.toNat / 16 ^ odd % 16 : ℕ) := by
    intro byte odd hOdd
    have hTable : ∀ n < 256, ∀ odd < 2,
        ((UInt8.ofNat n >>> UInt8.ofNat (odd <<< 2)) &&& 0x0f).toInt8.toInt =
          ((UInt8.ofNat n).toNat / 16 ^ odd % 16 : ℕ) := by decide
    have hEntry := hTable byte.toNat byte.toNat_lt odd hOdd
    rwa [UInt8.ofNat_toNat] at hEntry
  rw [hMask, hHalves _ _ (Nat.mod_lt index (by decide)), ← hByte, hShift]
  have hPower : 16 ^ index = 2 ^ (8 * (index / 2)) * 16 ^ (index % 2) := by
    have hSixteen : 16 = 2 ^ 4 := rfl
    rw [hSixteen, ← pow_mul, ← pow_mul, ← pow_add]
    congr 1
    omega
  rw [hPower, ← Nat.div_div_eq_div_mul]
  generalize bytesValue scalar.1 / 2 ^ (8 * (index / 2)) = rest
  congr 1
  cases Nat.mod_two_eq_zero_or_one index with
  | inl h =>
    rw [h]
    omega
  | inr h =>
    rw [h]
    omega

theorem digitInts_radix16Digits (scalar : Bytes 38) :
    digitInts (radix16Digits scalar) =
      (List.range 76).map fun i => ((bytesValue scalar.1 / 16 ^ i % 16 : ℕ) : ℤ) := by
  rw [digitInts, radix16Digits, List.map_map]
  exact List.map_congr_left fun i _ => nibble_eq scalar i

/-- One carry step, without overflow on carried digits. -/
theorem carryStep {digit : Int8} (hLow : 0 ≤ digit.toInt) (hHigh : digit.toInt ≤ 16) :
    ((digit + 8) >>> 4).toInt = (digit.toInt + 8) / 16 ∧
      (digit - (((digit + 8) >>> 4) <<< 4)).toInt =
        digit.toInt - (digit.toInt + 8) / 16 * 16 := by
  have hTable : ∀ n < 17, ((Int8.ofNat n + 8) >>> 4).toInt = ((Int8.ofNat n).toInt + 8) / 16 ∧
      (Int8.ofNat n - (((Int8.ofNat n + 8) >>> 4) <<< 4)).toInt =
        (Int8.ofNat n).toInt - ((Int8.ofNat n).toInt + 8) / 16 * 16 := by decide
  obtain ⟨n, hn⟩ := Int.eq_ofNat_of_zero_le hLow
  have hDigit : digit = Int8.ofNat n := by
    rw [← Int8.ofInt_toInt digit, hn]
    rfl
  rw [hDigit]
  exact hTable n (by omega)

theorem carryNext {next carry : Int8} (hLow : 0 ≤ next.toInt) (hHigh : next.toInt < 16)
    (hCarryLow : 0 ≤ carry.toInt) (hCarryHigh : carry.toInt ≤ 1) :
    (next + carry).toInt = next.toInt + carry.toInt := by
  rw [Int8.toInt_add, Int.bmod_eq_of_le (by omega) (by omega)]

theorem digitInts_carryDigits {digits : List Int8}
    (hFirst : ∀ d ∈ digits.head?, 0 ≤ d.toInt ∧ d.toInt ≤ 16)
    (hDigits : ∀ d ∈ digits.tail, 0 ≤ d.toInt ∧ d.toInt < 16) :
    digitInts (carryDigits digits) = recode 8 (digitInts digits) := by
  fun_induction carryDigits digits with
  | case1 digit next rest carry ih =>
    obtain ⟨hLow, hHigh⟩ := hFirst digit rfl
    obtain ⟨hNext, hRest⟩ := List.forall_mem_cons.mp hDigits
    obtain ⟨hCarry, hDigit⟩ := carryStep hLow hHigh
    change carry.toInt = _ at hCarry
    have hSum := @carryNext next carry hNext.1 hNext.2 (by omega) (by omega)
    have hInts : digitInts (digit :: next :: rest) =
        digit.toInt :: next.toInt :: digitInts rest := rfl
    have hTail := ih (by
      rintro d ⟨⟩
      omega) hRest
    rw [hInts, recode]
    have hCons : digitInts ((next + carry) :: rest) =
        (next.toInt + (digit.toInt + 8) / 16) :: digitInts rest := by
      rw [← hCarry, ← hSum]
      rfl
    rw [hCons] at hTail
    exact congrArg₂ List.cons hDigit hTail
  | case2 digits hShort =>
    rcases digits with _ | ⟨digit, _ | ⟨next, rest⟩⟩
    · rw [digitInts, List.map_nil, recode]
      simp
    · simp [digitInts, recode]
    · exact absurd rfl (hShort digit next rest)

theorem radix16Digits_length (scalar : Bytes 38) : (radix16Digits scalar).length = 76 := by
  rw [radix16Digits, List.length_map, List.length_range]

theorem radix16Digits_bounds (scalar : Bytes 38) :
    ∀ d ∈ radix16Digits scalar, 0 ≤ d.toInt ∧ d.toInt < 16 := by
  intro d hd
  obtain ⟨i, -, rfl⟩ := List.mem_map.mp hd
  rw [nibble_eq]
  omega

theorem digitInts_signedRadix16 (scalar : Bytes 38) :
    digitInts (signedRadix16 scalar) = recode 8 (digitInts (radix16Digits scalar)) := by
  have hBounds := radix16Digits_bounds scalar
  apply digitInts_carryDigits
  · intro d hd
    have hDigit := hBounds d (List.mem_of_mem_head? hd)
    omega
  · exact fun d hd => hBounds d (List.mem_of_mem_tail hd)

theorem signedRadix16_value {scalar : Bytes 38} :
    value 16 (digitInts (signedRadix16 scalar)) = bytesValue scalar.1 := by
  have hLt := bytesValue_lt scalar.1
  have hPower : 256 ^ 38 = 16 ^ 76 := (pow_mul 16 2 38).symm
  rw [scalar.2, hPower] at hLt
  have hRecode := value_recode 8 (digitInts (radix16Digits scalar))
  have hDigits := value_digits 16 (bytesValue scalar.1) 76
  rw [← digitInts_radix16Digits, Nat.mod_eq_of_lt hLt] at hDigits
  rw [digitInts_signedRadix16]
  exact hRecode.trans hDigits

/-- With a top digit below eight every recoded digit is within `[-8, 8]`. -/
theorem signedRadix16_bounds {scalar : Bytes 38} (hTop : bytesValue scalar.1 < 2 ^ 303) (i : ℕ) :
    -8 ≤ ((signedRadix16 scalar).getD i 0).toInt ∧
      ((signedRadix16 scalar).getD i 0).toInt ≤ 8 := by
  have hInts := digitInts_radix16Digits scalar
  have hDigit : ∀ d ∈ digitInts (radix16Digits scalar), 0 ≤ d ∧ d < 2 * 8 := by
    intro d hd
    obtain ⟨digit, hMember, rfl⟩ := List.mem_map.mp hd
    exact radix16Digits_bounds scalar digit hMember
  have hLast : ∀ d ∈ (digitInts (radix16Digits scalar)).getLast?, d < 8 := by
    intro d hd
    rw [hInts, List.getLast?_map, List.getLast?_range] at hd
    have hPower : (2 : ℕ) ^ 303 = 16 ^ 75 * 8 :=
      (pow_add 2 300 3).trans (congrArg (· * 8) (pow_mul 2 4 75))
    have hDiv : bytesValue scalar.1 / 16 ^ 75 < 8 := by
      rw [hPower] at hTop
      exact Nat.div_lt_of_lt_mul hTop
    obtain rfl : ((bytesValue scalar.1 / 16 ^ 75 % 16 : ℕ) : ℤ) = d := by simpa using hd
    omega
  have hBounds := recode_bounds 8 (by decide)
    (fun d hd => by
      have hFirst := hDigit d (List.mem_of_mem_head? hd)
      omega)
    (fun d hd => hDigit d (List.mem_of_mem_tail hd))
    (fun d hd => by
      have hTopDigit := hLast d hd
      omega)
  rw [← digitInts_signedRadix16] at hBounds
  rw [← digitInts_getD, List.getD_eq_getElem?_getD]
  cases hEntry : (digitInts (signedRadix16 scalar))[i]? with
  | none =>
    exact ⟨by decide, by decide⟩
  | some digit =>
    exact hBounds digit (List.mem_of_getElem? hEntry)

theorem digitMagnitude_spec {digit : Int8} (hLow : -8 ≤ digit.toInt) (hHigh : digit.toInt ≤ 8) :
    (digitMagnitude digit).toNat = digit.toInt.natAbs ∧
      ((digit.toUInt8 >>> 7) &&& 1 == 1) = decide (digit.toInt < 0) := by
  have hTable : ∀ n : ℕ, n < 17 → (digitMagnitude (Int8.ofInt (n - 8 : ℤ))).toNat =
      (Int8.ofInt (n - 8 : ℤ)).toInt.natAbs ∧
      (((Int8.ofInt (n - 8 : ℤ)).toUInt8 >>> 7) &&& 1 == 1) =
        decide ((Int8.ofInt (n - 8 : ℤ)).toInt < 0) := by decide
  obtain ⟨n, hn⟩ := Int.eq_ofNat_of_zero_le (show 0 ≤ digit.toInt + 8 by omega)
  have hDigit : digit = Int8.ofInt (n - 8 : ℤ) := by
    rw [← hn, add_sub_cancel_right, Int8.ofInt_toInt]
  rw [hDigit]
  exact hTable n (by omega)

theorem selectRow_denotes {row count : ℕ} (hRow : row < 38) (hCount : count ≤ 8)
    (magnitude : UInt8) :
    ((List.range count).foldl (fun selected entry =>
      AffineNielsPoint.conditionalSelect selected
        (basepointTable.getD (row * 8 + entry) .identity)
        (magnitude == UInt8.ofNat (entry + 1))) .identity).Denotes
      (((if magnitude.toNat ≤ count then magnitude.toNat else 0) * 256 ^ row) • B) := by
  induction count with
  | zero =>
    have hNone : (if magnitude.toNat ≤ 0 then magnitude.toNat else 0) = 0 := by
      split_ifs with h
      · exact Nat.le_zero.mp h
      · rfl
    rw [hNone, zero_mul, zero_nsmul]
    exact AffineNielsPoint.denotes_identity
  | succ count ih =>
    have hEntry := basepointTable_denotes hRow (show count < 8 by omega)
    have hSelect := (ih (by omega)).conditionalSelect hEntry
      (magnitude == UInt8.ofNat (count + 1))
    have hMatch : (magnitude == UInt8.ofNat (count + 1)) =
        decide (magnitude.toNat = count + 1) := by
      rw [Bool.eq_iff_iff, beq_iff_eq, decide_eq_true_eq, ← UInt8.toNat_inj, UInt8.toNat_ofNat',
        Nat.mod_eq_of_lt (by omega)]
    rw [List.range_succ, List.foldl_append, List.foldl_cons, List.foldl_nil]
    rw [hMatch] at hSelect ⊢
    by_cases hHit : magnitude.toNat = count + 1
    · rw [decide_eq_true hHit, if_pos rfl] at hSelect
      rw [decide_eq_true hHit, if_pos hHit.le, hHit]
      exact hSelect
    · have hSame : (if magnitude.toNat ≤ count + 1 then magnitude.toNat else 0) =
          if magnitude.toNat ≤ count then magnitude.toNat else 0 := by
        split_ifs <;> omega
      rw [decide_eq_false hHit, if_neg Bool.false_ne_true] at hSelect
      rw [decide_eq_false hHit, hSame]
      exact hSelect

theorem selectBasepoint_denotes {row : ℕ} {digit : Int8} (hRow : row < 38)
    (hLow : -8 ≤ digit.toInt) (hHigh : digit.toInt ≤ 8) :
    (selectBasepoint row digit).Denotes ((digit.toInt * 256 ^ row) • B) := by
  obtain ⟨hMagnitude, hNegative⟩ := digitMagnitude_spec hLow hHigh
  have hSelected := selectRow_denotes hRow (le_refl 8) (digitMagnitude digit)
  rw [hMagnitude, if_pos (by omega)] at hSelected
  have hResult := hSelected.conditionalSelect hSelected.negate (decide (digit.toInt < 0))
  rw [selectBasepoint, hNegative]
  rw [← natCast_zsmul, ← neg_zsmul] at hResult
  push_cast at hResult
  by_cases hSign : digit.toInt < 0
  · rw [decide_eq_true hSign, if_pos rfl] at hResult
    rw [decide_eq_true hSign]
    rwa [← Int.natCast_natAbs, Int.ofNat_natAbs_of_nonpos hSign.le, neg_mul, neg_neg] at hResult
  · rw [decide_eq_false hSign, if_neg Bool.false_ne_true] at hResult
    rw [decide_eq_false hSign]
    rwa [abs_of_nonneg (not_lt.mp hSign)] at hResult

theorem range'_two (start count : ℕ) :
    List.range' start count 2 = (List.range count).map fun i => 2 * i + start := by
  apply List.ext_getElem
  · simp
  · intro i hi hi'
    rw [List.getElem_range', List.getElem_map, List.getElem_range, add_comm]

/-- One of the two digit loops, at the even or at the odd positions. -/
theorem digitLoop_denotes {scalar : Bytes 38} (hTop : bytesValue scalar.1 < 2 ^ 303) {start : ℕ}
    (hStart : start < 2) {result : EdwardsPoint} {A : E.Point} (h : result.Denotes A) :
    ((List.range' start 38 2).foldl (fun (result : EdwardsPoint) (digitIndex : ℕ) =>
      result.addAffine (selectBasepoint (digitIndex >>> 1)
        ((signedRadix16 scalar).getD digitIndex 0))) result).Denotes
      (A + (∑ i ∈ Finset.range 38,
        (digitInts (signedRadix16 scalar)).getD (2 * i + start) 0 * 256 ^ i) • B) := by
  rw [range'_two, List.foldl_map, Finset.sum_smul]
  refine Horner.scan_sum (S := EdwardsPoint.Denotes) 38 (fun row hRow s C hs => ?_) h
  have hShift : (2 * row + start) >>> 1 = row := by
    rw [Nat.shiftRight_eq_div_pow]
    omega
  obtain ⟨hLow, hHigh⟩ := signedRadix16_bounds hTop (2 * row + start)
  rw [hShift, digitInts_getD]
  exact hs.addAffine (selectBasepoint_denotes hRow hLow hHigh)

theorem scalarMulBaseEncoded_denotes {scalar : Bytes 38}
    (hTop : bytesValue scalar.1 < 2 ^ 303) :
    (scalarMulBaseEncoded scalar).Denotes (bytesValue scalar.1 • B) := by
  have hOdd := digitLoop_denotes hTop one_lt_two denotes_identity
  have hShifted := hOdd.double.double.double.double
  have hEven := digitLoop_denotes hTop two_pos hShifted
  have hLength : (digitInts (signedRadix16 scalar)).length = 2 * 38 := by
    rw [digitInts_signedRadix16, recode_length, digitInts, List.length_map, radix16Digits_length]
  have hValue := value_even_odd 16 hLength
  rw [signedRadix16_value] at hValue
  norm_num only at hValue
  have hPoint : ∀ even odd : ℤ,
      2 • 2 • 2 • 2 • (0 + odd • B) + even • B = (even + 16 * odd) • B := by
    intro even odd
    module
  rw [hPoint] at hEven
  rw [← natCast_zsmul, hValue]
  exact hEven

/-- The add-always ladder multiplies any point by the low 301 bits. -/
theorem scalarMulWith_denotes {p : EdwardsPoint} {A : E.Point} (h : p.Denotes A) {n : ℕ}
    (hn : n < 2 ^ 301) : (p.scalarMulWith n.testBit).Denotes (n • A) := by
  let R := fun (s : EdwardsPoint) (e : ℕ) => s.Denotes (e • A)
  refine Horner.run_zero (R := R) hn (fun i _ s e hs => ?_) ?_
  · have hDouble := hs.double
    rw [smul_smul] at hDouble
    have hSelect := hDouble.conditionalSelect (hDouble.add h)
    rw [← Nat.toNat_testBit]
    change EdwardsPoint.Denotes _ ((2 * e + (n.testBit i).toNat) • A)
    rw [add_nsmul]
    cases n.testBit i with
    | false => simpa using hSelect false
    | true => simpa using hSelect true
  · change EdwardsPoint.Denotes _ (0 • A)
    rw [zero_nsmul]
    exact denotes_identity

end X301Provider
