import X301Provider.Edwards.CodecBijection
import X301Provider.Signature.Signing

/-!
# The scalar multiplications agree

The fixed-base comb, the add-always ladder and the windowed double
multiplication compute the same group elements, for integers that need not be
reduced and for points of every order.
-/

namespace X301Provider

open Limbs

namespace EdwardsPoint

variable {p : EdwardsPoint} {A : E.Point}

theorem scalarMulEncoded_denotes (h : p.Denotes A) {scalar : Bytes 38}
    (hTop : bytesValue scalar.1 < 2 ^ 301) :
    (p.scalarMulEncoded scalar).Denotes (bytesValue scalar.1 • A) := by
  have hBits : p.scalarMulEncoded scalar = p.scalarMulWith (bytesValue scalar.1).testBit :=
    congrArg p.scalarMulWith (funext fun i => X301.scalarBit_eq scalar i)
  rw [hBits]
  exact scalarMulWith_denotes h hTop

theorem scalarMul_denotes (h : p.Denotes A) {scalar : Scalar}
    (hCanonical : scalar.integer.toNat < L) :
    (p.scalarMul scalar).Denotes (scalar.integer.toNat • A) := by
  have hBound := L_numeric.2.1
  exact scalarMulWith_denotes h (hCanonical.trans hBound)

/-- The two constant-time multiplications of the base point agree on all 301-bit integers, also
after a reduction of the integer. -/
theorem scalarMulBase_agree {scalar : Bytes 38} (hTop : bytesValue scalar.1 < 2 ^ 301) :
    (scalarMulBaseEncoded scalar).isValid = true ∧
      (scalarMulBaseEncoded scalar).ctEq (basepoint.scalarMulEncoded scalar) = true ∧
      (scalarMulBaseEncoded scalar).Denotes (bytesValue scalar.1 • B) ∧
      (basepoint.scalarMulEncoded scalar).Denotes (bytesValue scalar.1 • B) ∧
      (scalarMulBase (Scalar.reducePrunedLe scalar)).Denotes (bytesValue scalar.1 • B) := by
  have hBound : (2 : ℕ) ^ 301 ≤ 2 ^ 303 := Nat.pow_le_pow_right two_pos (by decide)
  have hFixed := scalarMulBaseEncoded_denotes (hTop.trans_le hBound)
  have hLadder := scalarMulEncoded_denotes denotes_basepoint hTop
  refine ⟨hFixed.isValid, ?_, hFixed, hLadder,
    scalarMulBase_denotes (Scalar.repr_reducePrunedLe scalar)⟩
  rw [hFixed.ctEq hLadder]
  exact decide_eq_true rfl

theorem scalarMulBase_agree_baseU :
    (scalarMulBaseEncoded X301.baseUBytes).ctEq (basepoint.scalarMulEncoded X301.baseUBytes) =
      true :=
  (@scalarMulBase_agree X301.baseUBytes (by decide +kernel)).2.1

/-- A nonzero digit selects an entry of a table of 64. -/
theorem digit_index_lt {digit : Int8} (h : digit.toInt.natAbs < 128) :
    digit.toInt.natAbs >>> 1 < 64 := by
  rw [Nat.shiftRight_eq_div_pow]
  omega

/-- The interleaved multiplication computes `S * B - k * A` for a decoded point of any order, and
reads both tables inside their bounds. -/
theorem vartimeDoubleScalarMulBasepoint_agree [ModularInverse] {baseScalar pointScalar : Scalar}
    {encoded : Bytes 38} (hBase : baseScalar.integer.toNat < L)
    (hPoint : pointScalar.integer.toNat < L) (hDecode : decode encoded = .ok p) :
    (vartimeDoubleScalarMulBasepoint baseScalar pointScalar p.prepareVartimeTable).Valid ∧
      (vartimeDoubleScalarMulBasepoint baseScalar pointScalar p.prepareVartimeTable).ctEq
          ((basepoint.scalarMul baseScalar).add (p.scalarMul pointScalar).negate) = true ∧
      ∀ i, ((baseScalar.vartimeWnaf wnafWidth).getD i 0).toInt.natAbs >>> 1 <
            basepointOddTable.length ∧
          ((pointScalar.vartimeWnaf wnafWidth).getD i 0).toInt.natAbs >>> 1 <
            p.prepareVartimeTable.length := by
  obtain ⟨A, -, hA⟩ := denotes_of_decode hDecode
  have hStraus :=
    vartimeDoubleScalarMulBasepoint_denotes hBase hPoint (oddMultiples_build hA)
  have hPlain := (scalarMul_denotes denotes_basepoint hBase).add (scalarMul_denotes hA hPoint).negate
  rw [← sub_eq_add_neg] at hPlain
  refine ⟨hStraus.valid, ?_, fun i => ⟨?_, ?_⟩⟩
  · rw [prepareVartimeTable, hStraus.ctEq hPlain]
    exact decide_eq_true rfl
  · rw [basepointOddTable_length]
    exact digit_index_lt (Scalar.vartimeWnaf_bounds hBase wnafWidth i).2
  · rw [prepareVartimeTable, buildVartimeOddPointTable_length]
    exact digit_index_lt (Scalar.vartimeWnaf_bounds hPoint wnafWidth i).2

/-- The largest scalars and the base point as the other point. -/
theorem vartimeDoubleScalarMulBasepoint_agree_basepoint : ∃ p, decode basepointBytes = .ok p ∧
    (vartimeDoubleScalarMulBasepoint ⟨BitVec.ofNat 320 (L - 1)⟩ ⟨BitVec.ofNat 320 (L - 1)⟩
        (@prepareVartimeTable .zeroAtZero p)).ctEq
      ((basepoint.scalarMul ⟨BitVec.ofNat 320 (L - 1)⟩).add
        (p.scalarMul ⟨BitVec.ofNat 320 (L - 1)⟩).negate) = true := by
  obtain ⟨p, hDecode, -⟩ := decode_of_encodes encodes_basepoint
  have hLt : (BitVec.ofNat 320 (L - 1)).toNat < L := by
    have hBounds := L_bounds
    rw [BitVec.toNat_ofNat, Nat.mod_eq_of_lt (by omega)]
    omega
  exact ⟨p, hDecode, (@vartimeDoubleScalarMulBasepoint_agree p .zeroAtZero
    ⟨BitVec.ofNat 320 (L - 1)⟩ ⟨BitVec.ofNat 320 (L - 1)⟩ _ hLt hLt hDecode).2.1⟩

end EdwardsPoint

end X301Provider
