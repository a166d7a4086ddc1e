import X301Provider.Edwards.CodecSpec
import X301Provider.Edwards.Completeness
import X301Provider.Signature.ScalarSpec

/-!
# The codec is a bijection

The accepted strings are exactly the canonical encodings, every valid point has
one encoding in every projective scaling, and decoding and encoding are inverse
to each other. The same holds for scalars below `L`.
-/

namespace X301Provider

open Limbs

theorem reservedBits_eq (bytes : Bytes 38) :
    reservedBits bytes = bytesValue bytes.1 / 2 ^ 301 % 4 ∧
      signBit bytes = bytesValue bytes.1 / 2 ^ 303 := by
  have hSplit := bytesValue_split_top bytes
  have hPower : (2 : ℕ) ^ 303 = 4 * 2 ^ 301 := pow_add 2 2 301
  have hLow := Nat.mod_lt (bytesValue bytes.1) (Nat.two_pow_pos 301)
  have hReserved : reservedBits bytes < 4 := Nat.mod_lt _ (by decide)
  rw [hPower] at hSplit ⊢
  generalize (2 : ℕ) ^ 301 = top at *
  generalize bytesValue bytes.1 % top = low at *
  have hTop : 0 < top := by omega
  have hQuotient : bytesValue bytes.1 / top = reservedBits bytes + 4 * signBit bytes := by
    rw [hSplit]
    have hSum : low + top * reservedBits bytes + 4 * top * signBit bytes =
        low + top * (reservedBits bytes + 4 * signBit bytes) := by ring
    rw [hSum, Nat.add_mul_div_left _ _ hTop, Nat.div_eq_of_lt hLow, zero_add]
  rw [mul_comm 4 top, ← Nat.div_div_eq_div_mul, hQuotient]
  omega

/-- The square of the first coordinate that belongs to a second coordinate. -/
def ratio (y : Fp) : Fp := (1 - y ^ 2) / (E.a - E.d * y ^ 2)

theorem sq_eq_ratio (A : E.Point) : A.x ^ 2 = ratio A.y := by
  rw [ratio, eq_div_iff (denominator_ne_zero A.y)]
  exact onCurve_iff.mp A.onCurve

theorem exists_point_iff (y : Fp) (sign : Bool) :
    (∃ A : E.Point, A.y = y ∧ A.x.val % 2 = sign.toNat) ↔
      IsSquare (ratio y) ∧ ¬(ratio y = 0 ∧ sign = true) := by
  constructor
  · rintro ⟨A, rfl, hSign⟩
    rw [← sq_eq_ratio]
    refine ⟨IsSquare.sq A.x, ?_⟩
    rintro ⟨hZero, rfl⟩
    rw [pow_eq_zero_iff two_ne_zero] at hZero
    rw [hZero, ZMod.val_zero] at hSign
    exact zero_ne_one hSign
  · rintro ⟨⟨r, hr⟩, hSign⟩
    have hRoot : r = 0 → sign = false := by
      intro hZero
      rw [hZero, mul_zero] at hr
      exact Bool.eq_false_iff.mpr fun h => hSign ⟨hr, h⟩
    have hParity := select_parity hRoot
    generalize hx : (if (decide (r.val % 2 = 1) ^^ sign) then -r else r) = x at hParity
    have hSq : x ^ 2 = ratio y := by
      rw [hr, ← hx]
      split_ifs
      · rw [neg_sq, sq]
      · rw [sq]
    rw [ratio, eq_div_iff (denominator_ne_zero y)] at hSq
    exact ⟨⟨x, y, onCurve_iff.mpr hSq⟩, rfl, hParity⟩

theorem Encodes.bytes_unique {left right : Bytes 38} {A : E.Point} (hLeft : Encodes left A)
    (hRight : Encodes right A) : left = right :=
  bytes_ext (hLeft.trans hRight.symm)

namespace EdwardsPoint

theorem decode_isOk_iff (bytes : Bytes 38) :
    (∃ p, decode bytes = .ok p) ↔ ∃ A, Encodes bytes A := by
  rcases decode_spec bytes with ⟨A, p, hEncodes, hDecode, -⟩ | ⟨hNone, hDecode⟩
  · exact iff_of_true ⟨p, hDecode⟩ ⟨A, hEncodes⟩
  · refine iff_of_false ?_ fun ⟨A, hA⟩ => hNone A hA
    rintro ⟨p, hp⟩
    rw [hDecode] at hp
    cases hp

theorem exists_encodes_iff (bytes : Bytes 38) :
    (∃ A, Encodes bytes A) ↔
      bytesValue bytes.1 / 2 ^ 301 % 4 = 0 ∧ bytesValue bytes.1 % 2 ^ 301 < P ∧
        E.a - E.d * ((bytesValue bytes.1 % 2 ^ 301 : ℕ) : Fp) ^ 2 ≠ 0 ∧
        IsSquare (ratio ((bytesValue bytes.1 % 2 ^ 301 : ℕ) : Fp)) ∧
        ¬(ratio ((bytesValue bytes.1 % 2 ^ 301 : ℕ) : Fp) = 0 ∧
          bytesValue bytes.1 / 2 ^ 303 = 1) := by
  obtain ⟨hReserved, hSign⟩ := reservedBits_eq bytes
  have hBit : signBit bytes < 2 := Nat.div_lt_of_lt_mul (bytes.get 37).toNat_lt
  have hToNat : (decide (signBit bytes = 1)).toNat = signBit bytes := by
    interval_cases signBit bytes <;> rfl
  have hPoint := exists_point_iff ((bytesValue bytes.1 % 2 ^ 301 : ℕ) : Fp)
    (decide (signBit bytes = 1))
  rw [hToNat, decide_eq_true_eq] at hPoint
  rw [← hReserved, ← hSign, ← hPoint]
  simp only [encodes_iff]
  constructor
  · rintro ⟨A, hZero, hLow, hParity⟩
    rw [hLow]
    refine ⟨hZero, A.y.val_lt, denominator_ne_zero _, A, ?_, hParity.symm⟩
    rw [ZMod.natCast_zmod_val]
  · rintro ⟨hZero, hLt, -, A, hy, hParity⟩
    refine ⟨A, hZero, ?_, hParity.symm⟩
    rw [hy, ZMod.val_cast_of_lt hLt]

variable {p q : EdwardsPoint} {A C : E.Point}

theorem Denotes.encode_eq_iff [ModularInverse] (hp : p.Denotes A) (bytes : Bytes 38) :
    p.encode = .ok bytes ↔ Encodes bytes A := by
  obtain ⟨own, hOwn, hEncodes⟩ := hp.encode
  rw [hOwn]
  constructor
  · intro h
    rwa [← Except.ok.inj h]
  · intro h
    rw [hEncodes.bytes_unique h]

theorem decode_of_encodes {bytes : Bytes 38} (h : Encodes bytes A) :
    ∃ p, decode bytes = .ok p ∧ p.Denotes A := by
  rcases decode_spec bytes with ⟨C, p, hEncodes, hDecode, hp⟩ | ⟨hNone, -⟩
  · rw [hEncodes.unique h] at hp
    exact ⟨p, hDecode, hp⟩
  · exact absurd h (hNone A)

theorem denotes_of_decode {bytes : Bytes 38} (h : decode bytes = .ok p) :
    ∃ A, Encodes bytes A ∧ p.Denotes A := by
  rcases decode_spec bytes with ⟨A, q, hEncodes, hDecode, hq⟩ | ⟨-, hDecode⟩
  · rw [hDecode] at h
    obtain rfl := Except.ok.inj h
    exact ⟨A, hEncodes, hq⟩
  · rw [hDecode] at h
    cases h

end EdwardsPoint

namespace Scalar

theorem ext_toNat {s t : Scalar} (h : s.integer.toNat = t.integer.toNat) : s = t := by
  obtain ⟨s⟩ := s
  obtain ⟨t⟩ := t
  exact congrArg Scalar.mk (BitVec.eq_of_toNat_eq h)

theorem repr_self {s : Scalar} (h : s.integer.toNat < L) : s.Repr s.integer.toNat :=
  (Nat.mod_eq_of_lt h).symm

theorem fromCanonicalBytes_writeCanonicalBytes {s : Scalar} (h : s.integer.toNat < L) :
    fromCanonicalBytes s.writeCanonicalBytes = ⟨s, true⟩ := by
  have hBytes := (repr_self h).writeCanonicalBytes
  rw [Nat.mod_eq_of_lt h] at hBytes
  have hLt : bytesValue s.writeCanonicalBytes.1 < L := by rwa [hBytes]
  have hValue := fromCanonicalBytes_repr hLt
  have hIsSome := fromCanonicalBytes_isSome s.writeCanonicalBytes
  rw [Repr, hBytes, Nat.mod_eq_of_lt h] at hValue
  rw [decide_eq_true hLt] at hIsSome
  cases hResult : fromCanonicalBytes s.writeCanonicalBytes
  rw [hResult] at hValue hIsSome
  exact congrArg₂ CtOption.mk (ext_toNat hValue) hIsSome

theorem writeCanonicalBytes_fromCanonicalBytes {bytes : Bytes 38} (h : bytesValue bytes.1 < L) :
    (fromCanonicalBytes bytes).value.writeCanonicalBytes = bytes := by
  have hBytes := (fromCanonicalBytes_repr h).writeCanonicalBytes
  rw [Nat.mod_eq_of_lt h] at hBytes
  exact bytes_ext hBytes

end Scalar

open EdwardsPoint Scalar

/-- The point codec is a bijection between the accepted strings and the curve points, and the
scalar codec one between the strings below `L` and the canonical scalars. -/
theorem codec_bijection [ModularInverse] :
    (∀ e : Bytes 38, (∃ p, decode e = .ok p) ↔
      bytesValue e.1 / 2 ^ 301 % 4 = 0 ∧ bytesValue e.1 % 2 ^ 301 < P ∧
        E.a - E.d * ((bytesValue e.1 % 2 ^ 301 : ℕ) : Fp) ^ 2 ≠ 0 ∧
        IsSquare (ratio ((bytesValue e.1 % 2 ^ 301 : ℕ) : Fp)) ∧
        ¬(ratio ((bytesValue e.1 % 2 ^ 301 : ℕ) : Fp) = 0 ∧ bytesValue e.1 / 2 ^ 303 = 1)) ∧
    (∀ e p, decode e = .ok p → p.Valid ∧ p.encode = .ok e) ∧
    (∀ p : EdwardsPoint, p.Valid →
      ∃ e q, p.encode = .ok e ∧ decode e = .ok q ∧ q.ctEq p = true) ∧
    (∀ p q : EdwardsPoint, p.Valid → q.Valid → (p.encode = q.encode ↔ p.ctEq q = true)) ∧
    (∀ bytes : Bytes 38, (fromCanonicalBytes bytes).isSome = true ↔ bytesValue bytes.1 < L) ∧
    (∀ bytes : Bytes 38, (fromCanonicalBytes bytes).isSome = true →
      (fromCanonicalBytes bytes).value.writeCanonicalBytes = bytes) ∧
    ∀ s : Scalar, s.integer.toNat < L → fromCanonicalBytes s.writeCanonicalBytes = ⟨s, true⟩ := by
  have hScalar : ∀ bytes : Bytes 38,
      (fromCanonicalBytes bytes).isSome = true ↔ bytesValue bytes.1 < L := by
    intro bytes
    rw [fromCanonicalBytes_isSome, decide_eq_true_eq]
  refine ⟨fun e => (decode_isOk_iff e).trans (exists_encodes_iff e), ?_, ?_, ?_, hScalar, ?_, ?_⟩
  · intro e p h
    obtain ⟨A, hEncodes, hp⟩ := denotes_of_decode h
    exact ⟨hp.valid, (hp.encode_eq_iff e).mpr hEncodes⟩
  · intro p h
    obtain ⟨A, hp⟩ := h.denotes
    obtain ⟨e, hEncode, hEncodes⟩ := hp.encode
    obtain ⟨q, hDecode, hq⟩ := decode_of_encodes hEncodes
    refine ⟨e, q, hEncode, hDecode, ?_⟩
    rw [hq.ctEq hp]
    exact decide_eq_true rfl
  · intro p q hpValid hqValid
    obtain ⟨A, hp⟩ := hpValid.denotes
    obtain ⟨C, hq⟩ := hqValid.denotes
    obtain ⟨e, hEncode, hEncodes⟩ := hq.encode
    rw [hEncode, hp.encode_eq_iff, hp.ctEq hq, decide_eq_true_eq]
    constructor
    · intro h
      exact h.unique hEncodes
    · rintro rfl
      exact hEncodes
  · intro bytes h
    exact writeCanonicalBytes_fromCanonicalBytes ((hScalar bytes).mp h)
  · intro s h
    exact fromCanonicalBytes_writeCanonicalBytes h

theorem codec_bijection_basepoint : ∃ e q,
    @encode .zeroAtZero basepoint = .ok e ∧ decode e = .ok q ∧ q.ctEq basepoint = true :=
  (@codec_bijection .zeroAtZero).2.2.1 basepoint denotes_basepoint.valid

end X301Provider
