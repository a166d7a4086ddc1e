import X301Provider.Edwards.ScalarMulSpec
import X301Provider.Signature.Scalar

/-!
# Scalars are canonical residues

Every constructed scalar is below `L`, its operations are those of the integers
modulo `L`, its bytes denote it, and its windowed form has odd digits below the
table size that add up to it.
-/

namespace X301Provider.Scalar

open Limbs SignedDigits

/-- The scalar is the canonical representative of a natural number modulo `L`. -/
def Repr (s : Scalar) (n : ℕ) : Prop := s.integer.toNat = n % L

theorem toNat_ofNat {n : ℕ} (h : n < 2 * L) : (BitVec.ofNat 320 n).toNat = n := by
  rw [BitVec.toNat_ofNat]
  exact Nat.mod_eq_of_lt (h.trans L_bounds.2.2)

theorem Repr.lt {s : Scalar} {n : ℕ} (h : s.Repr n) : s.integer.toNat < L := by
  rw [h]
  exact Nat.mod_lt n prime_L.pos

theorem repr_retrieve (n : ℕ) :
    Repr ⟨MontgomeryScalar.retrieve (n : ZMod L)⟩ n := by
  have hLt := Nat.mod_lt n prime_L.pos
  rw [Repr, MontgomeryScalar.retrieve, ZMod.val_natCast, toNat_ofNat (by omega)]

theorem uintFromLe38_toNat (bytes : Bytes 38) : (uintFromLe38 bytes).toNat = bytesValue bytes.1 := by
  have hLt := bytesValue_lt_of bytes
  have hBound : 256 ^ 38 ≤ 2 ^ 320 :=
    (pow_mul 2 8 38).symm.le.trans (Nat.pow_le_pow_right two_pos (by decide))
  rw [uintFromLe38, BitVec.toNat_ofNat]
  exact Nat.mod_eq_of_lt (hLt.trans_le hBound)

theorem fromCanonicalBytes_isSome (bytes : Bytes 38) :
    (fromCanonicalBytes bytes).isSome = decide (bytesValue bytes.1 < L) := by
  rw [← uintFromLe38_toNat]
  rfl

theorem fromCanonicalBytes_repr {bytes : Bytes 38} (h : bytesValue bytes.1 < L) :
    (fromCanonicalBytes bytes).value.Repr (bytesValue bytes.1) := by
  rw [Repr, Nat.mod_eq_of_lt h, ← uintFromLe38_toNat]
  rfl

theorem repr_reducePrunedLe (bytes : Bytes 38) :
    (reducePrunedLe bytes).Repr (bytesValue bytes.1) := by
  rw [reducePrunedLe, MontgomeryScalar.new, uintFromLe38_toNat]
  exact repr_retrieve _

theorem repr_reduceHashLe (bytes : Bytes 76) : (reduceHashLe bytes).Repr (bytesValue bytes.1) := by
  have hRadix : (BitVec.ofNat 320 (2 ^ 304)).toNat = 256 ^ 38 := by decide +kernel
  have hSplit : bytesValue bytes.1 =
      bytesValue (highHalf bytes).1 * 256 ^ 38 + bytesValue (lowHalf bytes).1 := by
    have hAppend := bytesValue_append (bytes.1.take 38) (bytes.1.drop 38)
    have hLength : (bytes.1.take 38).length = 38 := by
      rw [List.length_take, bytes.2]
      rfl
    rw [List.take_append_drop, hLength] at hAppend
    rw [hAppend, lowHalf, highHalf]
    ring
  have hSum := repr_retrieve (bytesValue (highHalf bytes).1 * 256 ^ 38 +
    bytesValue (lowHalf bytes).1)
  rw [← hSplit] at hSum
  have hCast : ((bytesValue bytes.1 : ℕ) : ZMod L) =
      MontgomeryScalar.new (uintFromLe38 (highHalf bytes)) * radix304 +
        MontgomeryScalar.new (uintFromLe38 (lowHalf bytes)) := by
    rw [hSplit, Nat.cast_add, Nat.cast_mul, radix304, MontgomeryScalar.new, MontgomeryScalar.new,
      MontgomeryScalar.new, uintFromLe38_toNat, uintFromLe38_toNat, hRadix]
  rw [hCast] at hSum
  exact hSum

theorem Repr.add {x y : Scalar} {m n : ℕ} (hx : x.Repr m) (hy : y.Repr n) :
    (x.add y).Repr (m + n) := by
  have hxLt := hx.lt
  have hyLt := hy.lt
  rw [Repr, Nat.add_mod, ← hx, ← hy, Scalar.add]
  split_ifs with h
  · rw [toNat_ofNat (by omega), Nat.mod_eq_of_lt h]
  · rw [toNat_ofNat (by omega), Nat.mod_eq_sub_mod (not_lt.mp h), Nat.mod_eq_of_lt (by omega)]

theorem Repr.mul {x y : Scalar} {m n : ℕ} (hx : x.Repr m) (hy : y.Repr n) :
    (x.mul y).Repr (m * n) := by
  have hProduct := repr_retrieve (m * n)
  have hNew : ∀ {s : Scalar} {k : ℕ}, s.Repr k → MontgomeryScalar.new s.integer = (k : ZMod L) := by
    intro s k hs
    rw [MontgomeryScalar.new, hs, ZMod.natCast_mod]
  rw [Nat.cast_mul, ← hNew hx, ← hNew hy] at hProduct
  exact hProduct

theorem Repr.writeCanonicalBytes {s : Scalar} {n : ℕ} (h : s.Repr n) :
    bytesValue s.writeCanonicalBytes.1 = n % L := by
  have hWords : value (toWords s.integer).1 = s.integer.toNat := by
    have hLt : s.integer.toNat < wordBase ^ 5 := s.integer.isLt
    rw [toWords, value_leWords, Nat.mod_eq_of_lt hLt]
  have hBound := L_numeric.2.2.2.1
  rw [Scalar.writeCanonicalBytes, bytesValue_take, bytesValue_flatMap_wordToBytes, hWords,
    Nat.mod_eq_of_lt (h.lt.trans hBound), h]

/-- The sixteen-bit digit that the recoding loop takes from an odd value. -/
def wnafDigit (width : ℕ) (value : U320) : ℤ :=
  let radix := 1 <<< width
  let half := radix >>> 1
  let mask := radix - 1
  let low := (value.setWidth 64).toNat &&& mask
  if low ≥ half then (low : ℤ) - radix else low

/-- The value that one iteration of the recoding loop leaves. -/
def wnafNext (width : ℕ) (value : U320) : U320 :=
  if value.getLsbD 0 then
    let digit := wnafDigit width value
    (if digit < 0 then value + BitVec.ofNat 320 (-digit).toNat
      else value - BitVec.ofNat 320 digit.toNat) >>> 1
  else value >>> 1

theorem wnafFrom_succ (width count : ℕ) (value : U320) :
    wnafFrom width (count + 1) value =
      (if value.getLsbD 0 then Int8.ofInt (wnafDigit width value) else 0) ::
        wnafFrom width count (wnafNext width value) := by
  rw [wnafFrom, wnafNext]
  cases hBit : value.getLsbD 0 with
  | true => rfl
  | false => rfl

theorem getLsbD_zero_eq (value : U320) : value.getLsbD 0 = decide (value.toNat % 2 = 1) := by
  rw [BitVec.getLsbD, Nat.testBit_zero]

section WnafStep

variable {width : ℕ} (hWidth : 2 ≤ width ∧ width ≤ 8) {value : U320}

include hWidth

theorem wnafDigit_eq (hOdd : value.toNat % 2 = 1) :
    wnafDigit width value = nafDigit width value.toNat := by
  have hRadix : 1 <<< width = 2 ^ width := by rw [Nat.shiftLeft_eq, one_mul]
  have hHalf : 2 ^ width >>> 1 = 2 ^ (width - 1) := by
    rw [Nat.shiftRight_eq_div_pow, pow_one]
    exact Nat.div_eq_of_eq_mul_left two_pos (by rw [← pow_succ, Nat.sub_add_cancel (by omega)])
  have hLow : (value.setWidth 64).toNat &&& (2 ^ width - 1) = value.toNat % 2 ^ width := by
    rw [Nat.and_two_pow_sub_one_eq_mod, BitVec.toNat_setWidth,
      Nat.mod_mod_of_dvd _ (pow_dvd_pow 2 (by omega))]
  have hNonzero : ¬value.toNat % 2 = 0 := by omega
  rw [nafDigit, if_neg hNonzero]
  simp only [wnafDigit, hRadix, hHalf, hLow, ge_iff_le]
  split_ifs with hHigh hLess hLess
  · omega
  · rfl
  · rfl
  · omega

theorem natAbs_wnafDigit_lt (hOdd : value.toNat % 2 = 1) :
    (wnafDigit width value).natAbs < 128 := by
  have hHalf : 2 ^ (width - 1) ≤ 2 ^ 7 := Nat.pow_le_pow_right two_pos (by omega)
  rw [wnafDigit_eq hWidth hOdd]
  exact (nafDigit_bounds hWidth.1 value.toNat).2.trans_le hHalf

/-- The cast of the digit to eight bits is exact. -/
theorem toInt_wnafDigit (hOdd : value.toNat % 2 = 1) :
    (Int8.ofInt (wnafDigit width value)).toInt = wnafDigit width value := by
  have hAbs := natAbs_wnafDigit_lt hWidth hOdd
  exact Int8.toInt_ofInt_of_le (by omega) (by omega)

variable (hBound : value.toNat ≤ 2 ^ 300)

include hBound

theorem wnafDigit_fits (hOdd : value.toNat % 2 = 1) :
    (wnafDigit width value < 0 → value.toNat + (-wnafDigit width value).toNat < 2 ^ 320) ∧
      (0 ≤ wnafDigit width value → (wnafDigit width value).toNat ≤ value.toNat) := by
  have hAbs := natAbs_wnafDigit_lt hWidth hOdd
  obtain ⟨hSplit, -, -⟩ := nafRest_spec hWidth.1 hBound
  rw [← wnafDigit_eq hWidth hOdd] at hSplit
  constructor
  · intro hSign
    have hPower : (2 : ℕ) ^ 320 = 2 ^ 300 * 2 ^ 20 := pow_add 2 300 20
    have hPos := Nat.two_pow_pos 300
    omega
  · intro hSign
    omega

theorem toNat_wnafNext : (wnafNext width value).toNat = nafRest width value.toNat := by
  obtain ⟨hSplit, -, -⟩ := nafRest_spec hWidth.1 hBound
  rw [wnafNext, getLsbD_zero_eq]
  by_cases hOdd : value.toNat % 2 = 1
  · have hSmall : ∀ n : ℕ, n < 128 → (BitVec.ofNat 320 n).toNat = n := by
      intro n hn
      rw [BitVec.toNat_ofNat]
      exact Nat.mod_eq_of_lt (hn.trans (by decide))
    have hAbs := natAbs_wnafDigit_lt hWidth hOdd
    obtain ⟨hAdd, hSub⟩ := wnafDigit_fits hWidth hBound hOdd
    rw [← wnafDigit_eq hWidth hOdd] at hSplit
    simp only [decide_eq_true hOdd, if_true]
    rw [BitVec.toNat_ushiftRight, Nat.shiftRight_eq_div_pow]
    split_ifs with hSign
    · rw [BitVec.toNat_add, hSmall _ (by omega), Nat.mod_eq_of_lt (hAdd hSign)]
      omega
    · have hLe := hSub (not_lt.mp hSign)
      have hMagnitude := hSmall (wnafDigit width value).toNat (by omega)
      rw [BitVec.toNat_sub_of_le (by rw [BitVec.le_def, hMagnitude]; exact hLe), hMagnitude]
      omega
  · have hDigit : nafDigit width value.toNat = 0 := if_pos (by omega)
    rw [decide_eq_false hOdd, if_neg Bool.false_ne_true, BitVec.toNat_ushiftRight,
      Nat.shiftRight_eq_div_pow, nafRest, hDigit]
    omega

theorem toNat_wnafNext_le : (wnafNext width value).toNat ≤ 2 ^ 300 := by
  obtain ⟨-, hRest, -⟩ := nafRest_spec hWidth.1 hBound
  rw [toNat_wnafNext hWidth hBound]
  exact hRest.trans (Nat.pow_le_pow_right two_pos (by decide))

theorem digitInts_wnafFrom (count : ℕ) :
    digitInts (wnafFrom width count value) = naf width count value.toNat := by
  induction count generalizing value with
  | zero => rfl
  | succ count ih =>
    have hTail := ih (toNat_wnafNext_le hWidth hBound)
    rw [toNat_wnafNext hWidth hBound] at hTail
    rw [naf, wnafFrom_succ, getLsbD_zero_eq]
    by_cases hOdd : value.toNat % 2 = 1
    · have hHead := toInt_wnafDigit hWidth hOdd
      rw [wnafDigit_eq hWidth hOdd] at hHead
      rw [decide_eq_true hOdd, if_pos rfl, wnafDigit_eq hWidth hOdd]
      exact congrArg₂ List.cons hHead hTail
    · have hDigit : nafDigit width value.toNat = 0 := if_pos (by omega)
      rw [decide_eq_false hOdd, if_neg Bool.false_ne_true, hDigit]
      exact congrArg (List.cons 0) hTail

end WnafStep

section Wnaf

variable {s : Scalar} (hCanonical : s.integer.toNat < L) (width : WnafWidth)

include hCanonical

theorem digitInts_vartimeWnaf :
    digitInts (s.vartimeWnaf width) = naf width 302 s.integer.toNat :=
  digitInts_wnafFrom width.2 (hCanonical.trans L_bounds.2.1).le 302

theorem value_vartimeWnaf :
    value 2 (digitInts (s.vartimeWnaf width)) = s.integer.toNat := by
  rw [digitInts_vartimeWnaf hCanonical]
  exact value_naf width.2.1 (hCanonical.trans L_bounds.2.1).le (by decide)

theorem vartimeWnaf_bounds (i : ℕ) :
    (((s.vartimeWnaf width).getD i 0).toInt = 0 ∨ ((s.vartimeWnaf width).getD i 0).toInt % 2 = 1) ∧
      ((s.vartimeWnaf width).getD i 0).toInt.natAbs < 128 := by
  have hBounds := naf_bounds width.2.1 302 s.integer.toNat
  have hHalf : 2 ^ (width.1 - 1) ≤ 2 ^ 7 :=
    Nat.pow_le_pow_right two_pos (by have := width.2.2; omega)
  rw [← digitInts_vartimeWnaf hCanonical] at hBounds
  rw [← digitInts_getD, List.getD_eq_getElem?_getD]
  cases hEntry : (digitInts (s.vartimeWnaf width))[i]? with
  | none =>
    exact ⟨Or.inl rfl, by decide⟩
  | some digit =>
    obtain ⟨hOdd, hAbs⟩ := hBounds digit (List.mem_of_getElem? hEntry)
    exact ⟨hOdd, hAbs.trans_le hHalf⟩

theorem vartimeWnaf_length : (digitInts (s.vartimeWnaf width)).length = 302 := by
  rw [digitInts_vartimeWnaf hCanonical, naf_length]

end Wnaf

end X301Provider.Scalar
