import X301Provider.Edwards.CodecSpec
import X301Provider.Edwards.VartimeSpec
import X301Provider.Library.CofactoredSignature
import X301Provider.Signature.Signature

/-!
# Verification accepts exactly the draft's signatures

A parsed key stands for a point of the prime subgroup, a parsed signature for a
curve point and an integer below `L`, and the verifier decides the cofactored
equation between them.
-/

namespace X301Provider

open CofactoredSignature Limbs

/-- A prepared key of a nonzero point of the prime subgroup. -/
structure VerifyingKey.Denotes (key : VerifyingKey) (A : E.Point) : Prop where
  encodes : Encodes key.encoded A
  table : OddMultiples key.oddMultiples A
  nonzero : A ≠ 0
  order : L • A = 0

structure Signature.Denotes (signature : Signature) (R : E.Point) (S : ℕ) : Prop where
  encodes : Encodes signature.commitmentEncoding R
  commitment : signature.commitment.Denotes R
  response : signature.response.integer.toNat = S
  canonical : S < L

def challengeOf (shake256 : Shake256) (commitment publicKey : Bytes 38) (message : List UInt8) :
    ℕ :=
  bytesValue (shake256.challengeHash commitment publicKey message).1 % L

theorem repr_hashToScalar (hash : Bytes 76) : (hashToScalar hash).Repr (bytesValue hash.1) :=
  Scalar.repr_reduceHashLe hash

namespace VerifyingKey

theorem fromBytes_of_length {bytes : List UInt8} [ModularInverse] (h : bytes.length ≠ 38) :
    fromBytes bytes = .error .invalidPublicKey := by
  rw [fromBytes, toArray_of_length_ne h]

theorem fromBytes_spec [ModularInverse] (bytes : Bytes 38) :
    (∃ A key, fromBytes bytes.1 = .ok key ∧ key.encoded = bytes ∧ key.Denotes A) ∨
      (∀ A, Encodes bytes A → A = 0 ∨ L • A ≠ 0) ∧
        fromBytes bytes.1 = .error .invalidPublicKey := by
  rw [fromBytes, toArray_val]
  rcases decode_spec bytes with ⟨A, p, hEncodes, hDecode, hPoint⟩ | ⟨hNone, hDecode⟩
  · have hTable := oddMultiples_build hPoint
    have hSubgroup := isPrimeSubgroupWithTable_eq hPoint hTable
    have hOnly : ∀ C, Encodes bytes C → C = A := fun C hC => hC.unique hEncodes
    simp only [hDecode, hPoint.isIdentity, decide_eq_true_eq, EdwardsPoint.prepareVartimeTable,
      hSubgroup]
    by_cases hZero : A = 0
    · refine Or.inr ⟨fun C hC => Or.inl ((hOnly C hC).trans hZero), ?_⟩
      rw [if_pos hZero]
    by_cases hOrder : L • A = 0
    · refine Or.inl ⟨A, ⟨bytes, _⟩, ?_, rfl, hEncodes, hTable, hZero, hOrder⟩
      rw [if_neg hZero, decide_eq_true hOrder]
      rfl
    · refine Or.inr ⟨fun C hC => Or.inr ?_, ?_⟩
      · rwa [hOnly C hC]
      · rw [if_neg hZero, decide_eq_false hOrder]
        rfl
  · refine Or.inr ⟨fun A hA => absurd hA (hNone A), ?_⟩
    simp only [hDecode]

end VerifyingKey

namespace Signature

theorem fromBytes_of_length {bytes : List UInt8} (h : bytes.length ≠ 76) :
    fromBytes bytes = .error .invalidSignature := by
  rw [fromBytes, toArray_of_length_ne h]

theorem fromBytes_spec (bytes : Bytes 76) :
    (∃ R signature, fromBytes bytes.1 = .ok signature ∧ signature.encoded = bytes ∧
        signature.commitmentEncoding = Scalar.lowHalf bytes ∧
        signature.Denotes R (bytesValue (Scalar.highHalf bytes).1)) ∨
      (∀ R, Encodes (Scalar.lowHalf bytes) R → L ≤ bytesValue (Scalar.highHalf bytes).1) ∧
        fromBytes bytes.1 = .error .invalidSignature := by
  have hIsSome := Scalar.fromCanonicalBytes_isSome (Scalar.highHalf bytes)
  rw [fromBytes, toArray_val]
  rcases decode_spec (Scalar.lowHalf bytes) with ⟨R, p, hEncodes, hDecode, hPoint⟩ |
    ⟨hNone, hDecode⟩
  · simp only [hDecode]
    by_cases hLt : bytesValue (Scalar.highHalf bytes).1 < L
    · rw [decide_eq_true hLt] at hIsSome
      have hRepr := Scalar.fromCanonicalBytes_repr hLt
      rw [toOption_of_isSome hIsSome]
      refine Or.inl ⟨R, _, rfl, rfl, rfl, hEncodes, hPoint, ?_, hLt⟩
      rw [hRepr, Nat.mod_eq_of_lt hLt]
    · rw [decide_eq_false hLt] at hIsSome
      rw [toOption_of_isNone hIsSome]
      exact Or.inr ⟨fun _ _ => not_lt.mp hLt, rfl⟩
  · refine Or.inr ⟨fun R hR => absurd hR (hNone R), ?_⟩
    simp only [hDecode]

end Signature

theorem VerifyingKey.verify_iff {shake256 : Shake256} {key : VerifyingKey} {signature : Signature}
    {A R : E.Point} {S : ℕ} {message : List UInt8} (hTable : OddMultiples key.oddMultiples A)
    (hSignature : signature.Denotes R S) :
    key.verify shake256 message signature = true ↔
      Accepts 4 B A R
        (challengeOf shake256 signature.commitmentEncoding key.encoded message) S := by
  have hChallenge := repr_hashToScalar
    (shake256.challengeHash signature.commitmentEncoding key.encoded message)
  have hResponse : signature.response.integer.toNat < L := by
    rw [hSignature.response]
    exact hSignature.canonical
  have hProduct := vartimeDoubleScalarMulBasepoint_denotes hResponse hChallenge.lt hTable
  have hEquation := (hProduct.add hSignature.commitment.negate).multiplyByCofactor
  have hIsIdentity := hEquation.isIdentity
  rw [hSignature.response, hChallenge] at hIsIdentity
  rw [VerifyingKey.verify, hIsIdentity, decide_eq_true_eq, accepts_iff]
  rfl

theorem halves_joinHalves (commitment response : Bytes 38) :
    Scalar.lowHalf (joinHalves commitment response) = commitment ∧
      Scalar.highHalf (joinHalves commitment response) = response := by
  obtain ⟨commitment, hCommitment⟩ := commitment
  constructor
  · apply Subtype.ext
    exact List.take_left' hCommitment
  · apply Subtype.ext
    exact List.drop_left' hCommitment

theorem joinHalves_halves (bytes : Bytes 76) :
    joinHalves (Scalar.lowHalf bytes) (Scalar.highHalf bytes) = bytes :=
  Subtype.ext (List.take_append_drop 38 bytes.1)

theorem coprime_L_four : L.Coprime 4 := L_numeric.2.2.2.2.2.2.2

section Verify

variable [ModularInverse] (shake256 : Shake256)

/-- The validation accepts exactly the encodings of the nonzero points of the prime subgroup. -/
theorem validatePublicKey_iff (publicKey : List UInt8) :
    validatePublicKey publicKey = true ↔
      ∃ (keyBytes : Bytes 38) (A : E.Point),
        publicKey = keyBytes.1 ∧ Encodes keyBytes A ∧ A ≠ 0 ∧ L • A = 0 := by
  by_cases hLength : publicKey.length = 38
  · obtain ⟨bytes, rfl⟩ : ∃ bytes : Bytes 38, publicKey = bytes.1 := ⟨⟨_, hLength⟩, rfl⟩
    rcases VerifyingKey.fromBytes_spec bytes with ⟨A, key, hKey, hEncoded, hDenotes⟩ |
      ⟨hReject, hKey⟩
    · rw [validatePublicKey, hKey]
      exact iff_of_true rfl
        ⟨bytes, A, rfl, hEncoded ▸ hDenotes.encodes, hDenotes.nonzero, hDenotes.order⟩
    · rw [validatePublicKey, hKey]
      refine iff_of_false Bool.false_ne_true ?_
      rintro ⟨keyBytes, A, hBytes, hA, hNonzero, hOrder⟩
      rw [← Subtype.ext hBytes] at hA
      exact (hReject A hA).elim hNonzero fun hTorsion => hTorsion hOrder
  · rw [validatePublicKey, VerifyingKey.fromBytes_of_length hLength]
    refine iff_of_false Bool.false_ne_true ?_
    rintro ⟨keyBytes, A, rfl, -⟩
    exact hLength keyBytes.2

/-- On a key and a signature of the right lengths the verifier decides the draft's conditions. -/
theorem verify_of_bytes (publicKey : Bytes 38) (message : List UInt8) (signature : Bytes 76) :
    verify shake256 publicKey.1 message signature.1 = true ↔
      ∃ A R, Encodes publicKey A ∧ A ≠ 0 ∧ L • A = 0 ∧
        Encodes (Scalar.lowHalf signature) R ∧ bytesValue (Scalar.highHalf signature).1 < L ∧
        Accepts 4 B A R (challengeOf shake256 (Scalar.lowHalf signature) publicKey message)
          (bytesValue (Scalar.highHalf signature).1) := by
  rcases VerifyingKey.fromBytes_spec publicKey with ⟨A, key, hKey, hEncoded, hDenotes⟩ |
    ⟨hReject, hKey⟩
  · rcases Signature.fromBytes_spec signature with ⟨R, parsed, hParsed, -, hCommitment, hSignature⟩ |
      ⟨hReject, hParsed⟩
    · have hVerify := @VerifyingKey.verify_iff shake256 key parsed A R _ message hDenotes.table
        hSignature
      have hKeyEncodes := hDenotes.encodes
      have hCommitmentEncodes := hSignature.encodes
      rw [hEncoded] at hVerify hKeyEncodes
      rw [hCommitment] at hVerify hCommitmentEncodes
      rw [verify, hKey, hParsed]
      refine hVerify.trans ⟨fun h => ?_, ?_⟩
      · exact ⟨A, R, hKeyEncodes, hDenotes.nonzero, hDenotes.order, hCommitmentEncodes,
          hSignature.canonical, h⟩
      · rintro ⟨A', R', hA', -, -, hR', -, h⟩
        rwa [hA'.unique hKeyEncodes, hR'.unique hCommitmentEncodes] at h
    · rw [verify, hKey, hParsed]
      refine iff_of_false Bool.false_ne_true ?_
      rintro ⟨_, R, -, -, -, hR, hLt, -⟩
      exact absurd hLt (not_lt.mpr (hReject R hR))
  · rw [verify, hKey]
    refine iff_of_false Bool.false_ne_true ?_
    rintro ⟨A, _, hA, hNonzero, hOrder, -⟩
    cases hReject A hA with
    | inl hZero =>
      exact hNonzero hZero
    | inr hTorsion =>
      exact hTorsion hOrder

theorem lengths_of_verify {publicKey message signature : List UInt8}
    (h : verify shake256 publicKey message signature = true) :
    publicKey.length = 38 ∧ signature.length = 76 := by
  have hKey : publicKey.length = 38 := by
    by_contra hLength
    rw [verify, VerifyingKey.fromBytes_of_length hLength] at h
    exact Bool.false_ne_true h
  refine ⟨hKey, ?_⟩
  by_contra hLength
  rw [verify, Signature.fromBytes_of_length hLength] at h
  split at h <;> exact Bool.false_ne_true h

/-- The verifier accepts exactly when the draft's conditions hold, for strings of any lengths. -/
theorem verify_iff_conditions (publicKey message signature : List UInt8) :
    verify shake256 publicKey message signature = true ↔
      ∃ (keyBytes commitment response : Bytes 38) (A R : E.Point),
        publicKey = keyBytes.1 ∧ Encodes keyBytes A ∧ A ≠ 0 ∧ L • A = 0 ∧
        signature = commitment.1 ++ response.1 ∧ Encodes commitment R ∧
        bytesValue response.1 < L ∧
        (4 * bytesValue response.1) • B =
          4 • R + (4 * (bytesValue (shake256 (commitment.1 ++ publicKey ++ message)).1 % L)) • A := by
  constructor
  · intro h
    obtain ⟨hKeyLength, hLength⟩ := lengths_of_verify shake256 h
    obtain ⟨keyBytes, rfl⟩ : ∃ bytes : Bytes 38, publicKey = bytes.1 := ⟨⟨_, hKeyLength⟩, rfl⟩
    obtain ⟨bytes, rfl⟩ : ∃ bytes : Bytes 76, signature = bytes.1 := ⟨⟨_, hLength⟩, rfl⟩
    obtain ⟨A, R, hA, hNonzero, hOrder, hR, hLt, hAccepts⟩ :=
      (verify_of_bytes shake256 keyBytes message bytes).mp h
    refine ⟨keyBytes, Scalar.lowHalf bytes, Scalar.highHalf bytes, A, R, rfl, hA, hNonzero, hOrder,
      (List.take_append_drop 38 bytes.1).symm, hR, hLt, ?_⟩
    rw [Accepts, challengeOf, Shake256.challengeHash, Shake256.hashParts] at hAccepts
    simpa only [List.flatten_cons, List.flatten_nil, List.append_nil, List.append_assoc] using
      hAccepts
  · rintro ⟨keyBytes, commitment, response, A, R, rfl, hA, hNonzero, hOrder, rfl, hR, hLt, hEquation⟩
    obtain ⟨hLow, hHigh⟩ := halves_joinHalves commitment response
    refine (verify_of_bytes shake256 keyBytes message (joinHalves commitment response)).mpr
      ⟨A, R, hA, hNonzero, hOrder, ?_⟩
    rw [hLow, hHigh, Accepts, challengeOf, Shake256.challengeHash, Shake256.hashParts]
    simpa only [List.flatten_cons, List.flatten_nil, List.append_nil, List.append_assoc] using
      And.intro hR (And.intro hLt hEquation)

end Verify

def identityBytes : Bytes 38 := ⟨1 :: List.replicate 37 0, rfl⟩

def basepointBytes : Bytes 38 := ⟨leBytes 38 (basepointY + 2 ^ 303), leBytes_length _ _⟩

theorem encodes_identity : Encodes identityBytes 0 := by
  have hOne : (1 : Fp).val = 1 := ZMod.val_one P
  rw [Encodes, EdwardsCurve.zero_x, EdwardsCurve.zero_y, hOne, ZMod.val_zero]
  decide +kernel

theorem encodes_basepoint : Encodes basepointBytes B := by
  have hNumeric : basepointX < P ∧ basepointY < P ∧
      bytesValue basepointBytes.1 = basepointY + 2 ^ 303 * (basepointX % 2) := by decide +kernel
  have hx : B.x.val = basepointX := ZMod.val_cast_of_lt hNumeric.1
  have hy : B.y.val = basepointY := ZMod.val_cast_of_lt hNumeric.2.1
  rw [Encodes, hx, hy]
  exact hNumeric.2.2

end X301Provider
