import X301Provider.Edwards.Codec
import X301Provider.Edwards.PointSpec

/-!
# Encodings of curve points

The decoder accepts exactly the encodings of curve points and yields the encoded
point; the encoders never fail on points of the curve and produce the encoding.
-/

namespace X301Provider

open Limbs

/-- The little-endian integer with `y` in the low 301 bits and the parity of `x` on top. -/
def Encodes (bytes : Bytes 38) (A : E.Point) : Prop :=
  bytesValue bytes.1 = A.y.val + 2 ^ 303 * (A.x.val % 2)

theorem val_neg_mod_two {v : Fp} (hv : v ≠ 0) : (-v).val % 2 = 1 - v.val % 2 := by
  have hLt := v.val_lt
  have hOdd := P_odd
  have : NeZero v := ⟨hv⟩
  rw [ZMod.val_neg_of_ne_zero]
  omega

/-- A coordinate is determined by its square and its parity. -/
theorem eq_of_sq_eq {v w : Fp} (hSq : v ^ 2 = w ^ 2) (hParity : v.val % 2 = w.val % 2) :
    v = w := by
  cases sq_eq_sq_iff_eq_or_eq_neg.mp hSq with
  | inl h =>
    exact h
  | inr h =>
    by_cases hw : w = 0
    · rw [h, hw, neg_zero]
    · rw [h, val_neg_mod_two hw] at hParity
      omega

theorem onCurve_iff {x y : Fp} : E.OnCurve x y ↔ x ^ 2 * (E.a - E.d * y ^ 2) = 1 - y ^ 2 := by
  rw [EdwardsCurve.OnCurve]
  constructor
  · intro h
    linear_combination h
  · intro h
    linear_combination h

theorem denominator_ne_zero (y : Fp) : E.a - E.d * y ^ 2 ≠ 0 := by
  intro h
  have hSq : E.rootA ^ 2 = E.d * y ^ 2 := by
    rw [E.rootA_sq]
    exact sub_eq_zero.mp h
  by_cases hy : y = 0
  · rw [hy] at h
    exact E.a_ne_zero (by linear_combination h)
  · exact EdwardsCurve.isSquare_of_mul_sq hSq hy

theorem Encodes.unique {bytes : Bytes 38} {A C : E.Point} (hA : Encodes bytes A)
    (hC : Encodes bytes C) : A = C := by
  have hALt := A.y.val_lt
  have hCLt := C.y.val_lt
  obtain ⟨-, -, -, -, hBits, -⟩ := P_bounds
  have hPower : (2 : ℕ) ^ 303 = 4 * 2 ^ 301 := pow_add 2 2 301
  rw [Encodes, hPower] at hA hC
  generalize (2 : ℕ) ^ 301 = top at *
  have hParity : A.x.val % 2 = C.x.val % 2 := by
    rcases Nat.mod_two_eq_zero_or_one A.x.val with h | h <;>
    rcases Nat.mod_two_eq_zero_or_one C.x.val with h' | h' <;>
    rw [h] at hA <;>
    rw [h'] at hC <;>
    omega
  have hy : A.y = C.y := by
    apply ZMod.val_injective P
    rw [hParity] at hA
    omega
  have hx := onCurve_iff.mp A.onCurve
  rw [hy, ← onCurve_iff.mp C.onCurve] at hx
  exact EdwardsCurve.Point.ext
    (eq_of_sq_eq (mul_right_cancel₀ (denominator_ne_zero C.y) hx) hParity) hy

theorem lastByte_lt {bytes : Bytes 38} {v : Fp} (h : bytesValue bytes.1 = v.val) :
    (bytes.get 37).toNat < 32 := by
  obtain ⟨-, -, -, -, hBits, -⟩ := P_bounds
  have hLt := v.val_lt.trans hBits
  have hPower : (2 : ℕ) ^ 301 = 256 ^ 37 * 32 := two_pow_bytes 37 5
  rw [← h, bytesValue_split_last, hPower] at hLt
  exact Nat.lt_of_mul_lt_mul_left (lt_of_le_of_lt (Nat.le_add_left _ _) hLt)

theorem setSignBit (byte : UInt8) (hByte : byte.toNat < 32) (sign : Bool) :
    (byte ||| sign.toUInt8 <<< 7).toNat = byte.toNat + 128 * sign.toNat := by
  have hTable : ∀ n < 32, ∀ sign : Bool,
      (UInt8.ofNat n ||| sign.toUInt8 <<< 7).toNat = (UInt8.ofNat n).toNat + 128 * sign.toNat := by
    decide
  have hEntry := hTable byte.toNat hByte sign
  rwa [UInt8.ofNat_toNat] at hEntry

theorem encodes_signed {bytes : Bytes 38} {A : E.Point} (hy : bytesValue bytes.1 = A.y.val) :
    Encodes (Fe301.modifyLast bytes (· ||| (decide (A.x.val % 2 = 1)).toUInt8 <<< 7)) A := by
  have hLast := lastByte_lt hy
  have hPower : (2 : ℕ) ^ 303 = 256 ^ 37 * 128 := two_pow_bytes 37 7
  have hSign : (decide (A.x.val % 2 = 1)).toNat = A.x.val % 2 := by
    rcases Nat.mod_two_eq_zero_or_one A.x.val with h | h <;> rw [h] <;> rfl
  rw [Encodes, Fe301.bytesValue_modifyLast, setSignBit _ hLast, hSign, ← hy, hPower,
    bytesValue_split_last bytes]
  ring

namespace EdwardsPoint

variable [ModularInverse] {p : EdwardsPoint} {A : E.Point}

theorem Denotes.encodeComponents (hp : p.Denotes A) :
    ∃ bytes x y, p.encodeComponents = .ok (bytes, x, y) ∧ Encodes bytes A ∧
      x.Repr A.x ∧ y.Repr A.y := by
  have hValid := hp.isValid
  obtain ⟨e, hpe, he⟩ := hp
  have hZ := he.Z_ne_zero
  have hInverse := hpe.z.invert hZ
  have hIsSome := hpe.z.invert_isSome
  rw [decide_eq_true hZ] at hIsSome
  have hx := hpe.x.mul hInverse
  have hy := hpe.y.mul hInverse
  rw [he.X_eq, mul_inv_cancel_right₀ hZ] at hx
  rw [he.Y_eq, mul_inv_cancel_right₀ hZ] at hy
  have hEncodes := encodes_signed hy.bytesValue
  rw [← hx.isOdd] at hEncodes
  refine ⟨_, _, _, ?_, hEncodes, hx, hy⟩
  simp only [EdwardsPoint.encodeComponents, hValid, hIsSome, Bool.not_true, Bool.false_eq_true,
    if_false]

theorem Denotes.encode (hp : p.Denotes A) : ∃ bytes, p.encode = .ok bytes ∧ Encodes bytes A := by
  obtain ⟨bytes, x, y, hOk, hBytes, -⟩ := hp.encodeComponents
  refine ⟨bytes, ?_, hBytes⟩
  rw [EdwardsPoint.encode, hOk]
  rfl

theorem Denotes.canonicalPublicArtifact (hp : p.Denotes A) :
    ∃ bytes q, p.canonicalPublicArtifact = .ok (bytes, q) ∧ Encodes bytes A ∧ q.Denotes A := by
  obtain ⟨bytes, x, y, hOk, hBytes, hx, hy⟩ := hp.encodeComponents
  refine ⟨bytes, fromAffine x y, ?_, hBytes, denotes_fromAffine hx hy⟩
  rw [EdwardsPoint.canonicalPublicArtifact, hOk]
  rfl

theorem Denotes.montgomeryUPublicArtifact (hp : p.Denotes A) :
    p.montgomeryUPublicArtifact =
      if (EdwardsCurve.toMontgomery A).uOrZero = 0 then .error ⟨⟩
      else .ok (Fe301.oracleBytes (EdwardsCurve.toMontgomery A).uOrZero) := by
  have hValid := hp.isValid
  obtain ⟨e, hpe, he⟩ := hp
  have hNumerator := hpe.z.add hpe.y
  have hDenominator := hpe.z.sub hpe.y
  have hIsSome := hDenominator.invert_isSome
  have hCoordinate := he.montgomery.div_eq
  rw [← hCoordinate]
  by_cases hZero : e.Z - e.Y = 0
  · rw [decide_eq_false (not_not.mpr hZero)] at hIsSome
    simp only [EdwardsPoint.montgomeryUPublicArtifact, hValid, hIsSome, hZero, div_zero,
      Bool.not_true, Bool.not_false, Bool.false_eq_true, if_false, if_true]
  · rw [decide_eq_true hZero] at hIsSome
    have hQuotient := hNumerator.mul (hDenominator.invert hZero)
    rw [← div_eq_mul_inv] at hQuotient
    simp only [EdwardsPoint.montgomeryUPublicArtifact, hValid, hIsSome, hQuotient.isZero,
      hQuotient.toCanonicalBytes, Bool.not_true, Bool.false_eq_true, if_false, decide_eq_true_eq]

end EdwardsPoint

def signBit (bytes : Bytes 38) : ℕ := (bytes.get 37).toNat / 128

def reservedBits (bytes : Bytes 38) : ℕ := (bytes.get 37).toNat / 32 % 4

theorem bytesValue_split_top (bytes : Bytes 38) :
    bytesValue bytes.1 =
      bytesValue bytes.1 % 2 ^ 301 + 2 ^ 301 * reservedBits bytes + 2 ^ 303 * signBit bytes := by
  have hLow : (2 : ℕ) ^ 301 = 256 ^ 37 * 32 := two_pow_bytes 37 5
  have hTop : (2 : ℕ) ^ 303 = 256 ^ 37 * 128 := two_pow_bytes 37 7
  have hPrefix := bytesValue_lt (bytes.1.take 37)
  have hLength : (bytes.1.take 37).length = 37 := by
    rw [List.length_take, bytes.2]
    decide
  rw [hLength] at hPrefix
  rw [hLow, hTop, bytesValue_split_last, Nat.mod_mul, Nat.add_mul_mod_self_left,
    Nat.mod_eq_of_lt hPrefix, Nat.add_mul_div_left _ _ (by decide), Nat.div_eq_of_lt hPrefix,
    zero_add, reservedBits, signBit]
  generalize (bytes.get 37).toNat = last
  have hSplit : last = last % 32 + 32 * (last / 32 % 4) + 128 * (last / 128) := by omega
  conv_lhs => rw [hSplit]
  ring

theorem encodes_iff {bytes : Bytes 38} {A : E.Point} :
    Encodes bytes A ↔ reservedBits bytes = 0 ∧ bytesValue bytes.1 % 2 ^ 301 = A.y.val ∧
      signBit bytes = A.x.val % 2 := by
  obtain ⟨-, -, -, -, hBits, -⟩ := P_bounds
  have hLt := A.y.val_lt
  have hMod := Nat.mod_lt (bytesValue bytes.1) (Nat.two_pow_pos 301)
  have hByte := (bytes.get 37).toNat_lt
  have hReserved : reservedBits bytes < 4 := Nat.mod_lt _ (by decide)
  have hSign : signBit bytes < 2 := Nat.div_lt_of_lt_mul hByte
  have hParity := Nat.mod_lt A.x.val two_pos
  have hPower : (2 : ℕ) ^ 303 = 4 * 2 ^ 301 := pow_add 2 2 301
  have hSplit := bytesValue_split_top bytes
  rw [Encodes]
  constructor
  · intro h
    rw [hSplit, hPower] at h
    generalize (2 : ℕ) ^ 301 = top at *
    interval_cases reservedBits bytes <;> interval_cases signBit bytes <;>
      interval_cases A.x.val % 2 <;> omega
  · rintro ⟨hZero, hy, hx⟩
    rw [hSplit, hZero, hy, hx, mul_zero, add_zero]

set_option maxRecDepth 100000 in
theorem reserved_check (bytes : Bytes 38) :
    (bytes.get 37 &&& 0x60 != 0) = decide (reservedBits bytes ≠ 0) := by
  have hTable : ∀ n < 256, (UInt8.ofNat n &&& 0x60 != 0) =
      decide ((UInt8.ofNat n).toNat / 32 % 4 ≠ 0) := by decide
  have hEntry := hTable (bytes.get 37).toNat (bytes.get 37).toNat_lt
  rwa [UInt8.ofNat_toNat] at hEntry

set_option maxRecDepth 100000 in
theorem sign_check (bytes : Bytes 38) :
    ((bytes.get 37 >>> 7) &&& 1 == 1) = decide (signBit bytes = 1) := by
  have hTable : ∀ n < 256, ((UInt8.ofNat n >>> 7) &&& 1 == 1) =
      decide ((UInt8.ofNat n).toNat / 128 = 1) := by decide
  have hEntry := hTable (bytes.get 37).toNat (bytes.get 37).toNat_lt
  rwa [UInt8.ofNat_toNat] at hEntry

/-- The root with the wanted parity, where zero has no odd choice. -/
theorem select_parity {root : Fp} {sign : Bool} (h : root = 0 → sign = false) :
    (if (decide (root.val % 2 = 1) ^^ sign) then -root else root).val % 2 = sign.toNat := by
  by_cases hRoot : root = 0
  · rw [h hRoot, hRoot]
    simp
  · have hNeg := val_neg_mod_two hRoot
    rcases Nat.mod_two_eq_zero_or_one root.val with hParity | hParity <;> cases sign <;>
      simp [hParity, hNeg]

theorem toOption_of_isSome {α : Type*} {x : CtOption α} (h : x.isSome = true) :
    x.toOption = some x.value := if_pos h

theorem toOption_of_isNone {α : Type*} {x : CtOption α} (h : x.isSome = false) :
    x.toOption = none := if_neg (by rw [h]; exact Bool.false_ne_true)

theorem repr_denominator {y : Fe301} {v : Fp} (hy : y.Repr v) :
    ((Fe301.fromU64 edwardsAWord.toUInt64).sub (y.square.mulSmall edwardsDWord)).Repr
      (E.a - E.d * v ^ 2) := by
  have hA : (edwardsAWord.toUInt64.toNat : Fp) = E.a := by
    rw [UInt32.toNat_toUInt64]
    exact edwardsAWord_cast
  rw [← hA, ← edwardsDWord_cast, mul_comm]
  exact (Fe301.repr_fromU64 _).sub (hy.square.mulSmall edwardsDWord)

theorem decoded_point {y root : Fe301} {v r : Fp} (hy : y.Repr v) (hRoot : root.Repr r)
    (hSquare : r ^ 2 * (E.a - E.d * v ^ 2) = 1 - v ^ 2) {sign : Bool}
    (hSign : r = 0 → sign = false) :
    ∃ A : E.Point, A.y = v ∧ A.x.val % 2 = sign.toNat ∧
      (EdwardsPoint.fromAffine
        (Fe301.conditionalSelect root root.neg (root.isOdd ^^ sign)) y).Denotes A := by
  have hSelected := hRoot.conditionalSelect hRoot.neg (root.isOdd ^^ sign)
  have hParity := select_parity hSign
  rw [hRoot.isOdd] at hSelected ⊢
  have hSq : (if (decide (r.val % 2 = 1) ^^ sign) then -r else r) ^ 2 = r ^ 2 := by
    split_ifs
    · exact neg_sq r
    · rfl
  rw [← hSq] at hSquare
  exact ⟨⟨_, v, onCurve_iff.mpr hSquare⟩, rfl, hParity,
    EdwardsPoint.denotes_fromAffine hSelected hy⟩

theorem recover_spec {y : Fe301} {v : Fp} (hy : y.Repr v) (sign : Bool) :
    (∃ A p, A.y = v ∧ A.x.val % 2 = sign.toNat ∧ EdwardsPoint.recover y sign = .ok p ∧
        p.Denotes A) ∨
      (∀ A : E.Point, A.y = v → A.x.val % 2 ≠ sign.toNat) ∧
        EdwardsPoint.recover y sign = .error ⟨⟩ := by
  obtain ⟨hRootIsSome, r, hRoot, hSquare⟩ :=
    Fe301.sqrtRatio_spec (Fe301.repr_one.sub hy.square) (repr_denominator hy)
  have hOnly : ∀ A : E.Point, A.y = v → A.x ^ 2 * (E.a - E.d * v ^ 2) = 1 - v ^ 2 := by
    rintro A rfl
    exact onCurve_iff.mp A.onCurve
  rw [EdwardsPoint.recover]
  generalize Fe301.sqrtRatio (Fe301.one.sub y.square)
    ((Fe301.fromU64 edwardsAWord.toUInt64).sub (y.square.mulSmall edwardsDWord)) = ratio at *
  obtain ⟨root, isSome⟩ := ratio
  cases isSome with
  | false =>
    rw [eq_comm, decide_eq_false_iff_not] at hRootIsSome
    exact Or.inr ⟨fun A hA _ => hRootIsSome ⟨denominator_ne_zero v, A.x, hOnly A hA⟩, rfl⟩
  | true =>
    have hRootSq := hSquare rfl
    simp only [CtOption.toOption, if_true, hRoot.isZero]
    by_cases hNegativeZero : r = 0 ∧ sign = true
    · obtain ⟨rfl, rfl⟩ := hNegativeZero
      refine Or.inr ⟨fun A hA hParity => ?_, ?_⟩
      · have hx : A.x ^ 2 = 0 ^ 2 :=
          mul_right_cancel₀ (denominator_ne_zero v) ((hOnly A hA).trans hRootSq.symm)
        have hZero : A.x = 0 := by simpa using hx
        rw [hZero, ZMod.val_zero] at hParity
        cases hParity
      · rw [decide_eq_true rfl]
        rfl
    · have hSign : r = 0 → sign = false :=
        fun hZero => Bool.eq_false_iff.mpr fun hOne => hNegativeZero ⟨hZero, hOne⟩
      obtain ⟨A, hAy, hAx, hPoint⟩ := decoded_point hy hRoot hRootSq hSign
      have hCheck : (decide (r = 0) && sign) = false := by
        rw [Bool.and_eq_false_iff, decide_eq_false_iff_not, ← Bool.not_eq_true]
        exact not_and_or.mp hNegativeZero
      refine Or.inl ⟨A, _, hAy, hAx, ?_, hPoint⟩
      rw [hCheck, if_neg Bool.false_ne_true, hPoint.isValid, Bool.not_true,
        if_neg Bool.false_ne_true]

theorem decode_spec (bytes : Bytes 38) :
    (∃ A p, Encodes bytes A ∧ EdwardsPoint.decode bytes = .ok p ∧ p.Denotes A) ∨
      (∀ A, ¬Encodes bytes A) ∧ EdwardsPoint.decode bytes = .error ⟨⟩ := by
  have hMask := Fe301.bytesValue_mask bytes
  have hIsSome := Fe301.fromCanonicalBytes_isSome (Fe301.modifyLast bytes (· &&& 0x1f))
  have hBit : signBit bytes < 2 := Nat.div_lt_of_lt_mul (bytes.get 37).toNat_lt
  have hToNat : (decide (signBit bytes = 1)).toNat = signBit bytes := by
    interval_cases signBit bytes
    · rfl
    · rfl
  rw [hMask] at hIsSome
  simp only [encodes_iff, EdwardsPoint.decode, reserved_check, sign_check]
  by_cases hReserved : reservedBits bytes = 0
  · rw [if_neg (by simpa using hReserved)]
    by_cases hCanonical : bytesValue bytes.1 % 2 ^ 301 < P
    · rw [decide_eq_true hCanonical] at hIsSome
      have hy := @Fe301.fromCanonicalBytes_repr (Fe301.modifyLast bytes (· &&& 0x1f))
        (by rwa [hMask])
      have hv : ∀ A : E.Point, A.y = ((bytesValue bytes.1 % 2 ^ 301 : ℕ) : Fp) ↔
          bytesValue bytes.1 % 2 ^ 301 = A.y.val := by
        intro A
        rw [← (ZMod.val_injective P).eq_iff, ZMod.val_natCast, Nat.mod_eq_of_lt hCanonical, eq_comm]
      rw [hMask] at hy
      rw [toOption_of_isSome hIsSome]
      rcases recover_spec hy (decide (signBit bytes = 1)) with
        ⟨A, p, hAy, hAx, hOk, hPoint⟩ | ⟨hNone, hError⟩
      · exact Or.inl ⟨A, p, ⟨hReserved, (hv A).mp hAy, by rw [hAx, hToNat]⟩, hOk, hPoint⟩
      · refine Or.inr ⟨fun A h => hNone A ((hv A).mpr h.2.1) ?_, hError⟩
        rw [hToNat, h.2.2]
    · rw [decide_eq_false hCanonical] at hIsSome
      refine Or.inr ⟨fun A h => hCanonical ?_, ?_⟩
      · rw [h.2.1]
        exact A.y.val_lt
      · rw [toOption_of_isNone hIsSome]
  · exact Or.inr ⟨fun A h => hReserved h.1, by rw [if_pos (decide_eq_true hReserved)]⟩

end X301Provider
