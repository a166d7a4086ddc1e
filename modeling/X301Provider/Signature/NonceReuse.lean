import X301Provider.Edwards.CodecBijection
import X301Provider.Signature.Signing

/-!
# A commitment must not be used twice

Two accepted signatures of one public key that share the commitment encoding but not the
challenge give the secret scalar away: a closed formula of their bytes is a signing key for
the public key. The deterministic nonce is what keeps a signer from ever publishing such a
pair.
-/

namespace X301Provider

open CofactoredSignature Limbs

/-- The challenge of a signature, read off its bytes. -/
def challengeIn (shake256 : Shake256) (publicKey message signature : List UInt8) :
    MontgomeryScalar :=
  (bytesValue (shake256 (signature.take 38 ++ publicKey ++ message)).1 : ZMod L)

/-- The response of a signature, read off its bytes. -/
def responseIn (signature : List UInt8) : MontgomeryScalar :=
  (bytesValue (signature.drop 38) : ZMod L)

/-- The slope of the line through two pairs of challenge and response. -/
def recoveredScalar (shake256 : Shake256)
    (publicKey message signature message' signature' : List UInt8) : Scalar :=
  let challenge := challengeIn shake256 publicKey message signature
  let challenge' := challengeIn shake256 publicKey message' signature'
  ⟨((responseIn signature - responseIn signature') * (challenge - challenge')⁻¹).retrieve⟩

theorem repr_retrieve_val (x : MontgomeryScalar) : Scalar.Repr ⟨x.retrieve⟩ x.val := by
  have hRetrieve := Scalar.repr_retrieve x.val
  rwa [ZMod.natCast_zmod_val] at hRetrieve

theorem cast_challengeOf (shake256 : Shake256) (publicKey : Bytes 38) (message : List UInt8)
    (signature : Bytes 76) :
    ((challengeOf shake256 (Scalar.lowHalf signature) publicKey message : ℕ) : ZMod L) =
      challengeIn shake256 publicKey.1 message signature.1 := by
  rw [challengeOf, ZMod.natCast_mod, Shake256.challengeHash, Shake256.hashParts, challengeIn,
    List.append_assoc]
  simp only [List.flatten_cons, List.flatten_nil, List.append_nil]
  rfl

section Recovery

variable [ModularInverse] (shake256 : Shake256)

/-- The recovered scalar is the discrete logarithm of the public key. -/
theorem publicKey_of_repeated_commitment {publicKey : Bytes 38} {message message' : List UInt8}
    {signature signature' : Bytes 76}
    (h : verify shake256 publicKey.1 message signature.1 = true)
    (h' : verify shake256 publicKey.1 message' signature'.1 = true)
    (hCommitment : Scalar.lowHalf signature = Scalar.lowHalf signature')
    (hChallenge : challengeIn shake256 publicKey.1 message signature.1 ≠
      challengeIn shake256 publicKey.1 message' signature'.1) :
    ∃ secret : ℕ, ¬L ∣ secret ∧ Encodes publicKey (secret • B) ∧
      (recoveredScalar shake256 publicKey.1 message signature.1 message' signature'.1).Repr
        secret := by
  obtain ⟨A, R, hA, hNonzero, hOrder, hR, -, hAccepts⟩ :=
    (verify_of_bytes shake256 publicKey message signature).mp h
  obtain ⟨A', R', hA', -, -, hR', -, hAccepts'⟩ :=
    (verify_of_bytes shake256 publicKey message' signature').mp h'
  rw [← hCommitment] at hR'
  rw [hA'.unique hA, hR'.unique hR] at hAccepts'
  have hUnit := mul_inv_cancel₀ (sub_ne_zero.mpr hChallenge)
  generalize hInverse : (challengeIn shake256 publicKey.1 message signature.1 -
    challengeIn shake256 publicKey.1 message' signature'.1)⁻¹ = inverse at hUnit
  rw [← cast_challengeOf, ← cast_challengeOf, ← ZMod.natCast_zmod_val inverse] at hUnit
  generalize hScalar : (responseIn signature.1 - responseIn signature'.1) * inverse = scalar
  have hSecret : ((scalar.val : ℕ) : ZMod L) =
      (responseIn signature.1 - responseIn signature'.1) * (inverse.val : ℕ) := by
    rw [ZMod.natCast_zmod_val, ZMod.natCast_zmod_val, hScalar]
  have hKey : A = scalar.val • B :=
    hAccepts.extract L_nsmul_basepoint hOrder coprime_L_four hAccepts' hUnit hSecret
  refine ⟨scalar.val, ?_, ?_, ?_⟩
  · rwa [hKey, Ne, nsmul_basepoint_eq_zero_iff] at hNonzero
  · rwa [hKey] at hA
  · rw [recoveredScalar, hInverse, hScalar]
    exact repr_retrieve_val scalar

/-- Whoever sees two accepted signatures with one commitment and two challenges signs every
message: the recovered scalar yields the public key again, and with any nonce prefix at all the
signer and the verifier accept it. -/
theorem sign_of_repeated_commitment
    {publicKey message signature message' signature' : List UInt8}
    (h : verify shake256 publicKey message signature = true)
    (h' : verify shake256 publicKey message' signature' = true)
    (hCommitment : signature.take 38 = signature'.take 38)
    (hChallenge : challengeIn shake256 publicKey message signature ≠
      challengeIn shake256 publicKey message' signature') :
    let scalar := recoveredScalar shake256 publicKey message signature message' signature'
    let publicPoint := EdwardsPoint.scalarMulBase scalar
    ∃ encoded : Bytes 38,
      encoded.1 = publicKey ∧ publicPoint.encodePublicArtifact = .ok encoded ∧
      ∀ (noncePrefix : Bytes 38) (other : List UInt8),
        ∃ forged : Signature,
          (∀ selfVerify, ExpandedSigningKey.sign shake256 selfVerify
            ⟨scalar, noncePrefix, encoded, publicPoint⟩ other = .ok forged) ∧
          verify shake256 publicKey other forged.encoded.1 = true := by
  obtain ⟨hKeyLength, hLength⟩ := lengths_of_verify shake256 h
  obtain ⟨-, hLength'⟩ := lengths_of_verify shake256 h'
  obtain ⟨key, rfl⟩ : ∃ bytes : Bytes 38, publicKey = bytes.1 := ⟨⟨_, hKeyLength⟩, rfl⟩
  obtain ⟨bytes, rfl⟩ : ∃ bytes : Bytes 76, signature = bytes.1 := ⟨⟨_, hLength⟩, rfl⟩
  obtain ⟨bytes', rfl⟩ : ∃ bytes : Bytes 76, signature' = bytes.1 := ⟨⟨_, hLength'⟩, rfl⟩
  obtain ⟨secret, hNotDvd, hEncodes, hScalar⟩ :=
    publicKey_of_repeated_commitment shake256 h h' (Subtype.ext hCommitment) hChallenge
  intro scalar publicPoint
  have hPoint : publicPoint.Denotes (secret • B) := scalarMulBase_denotes hScalar
  obtain ⟨encoded, hEncode, hEncoded⟩ := hPoint.encode
  obtain rfl : encoded = key := hEncoded.bytes_unique hEncodes
  refine ⟨encoded, rfl, hEncode, fun noncePrefix other => ?_⟩
  have hExpanded : ExpandedSigningKey.Denotes ⟨scalar, noncePrefix, encoded, publicPoint⟩ secret :=
    ⟨hScalar, hEncodes, hPoint, hNotDvd⟩
  obtain ⟨forged, R, response, hSign, hBytes, hForged, hAccepts⟩ := hExpanded.sign shake256 other
  refine ⟨forged, hSign, ?_⟩
  obtain ⟨hLow, hHigh⟩ := halves_joinHalves forged.commitmentEncoding response
  have hKey := hExpanded.verifyingKey
  rw [hBytes]
  refine (verify_of_bytes shake256 encoded other _).mpr
    ⟨secret • B, R, hEncodes, hKey.nonzero, hKey.order, ?_⟩
  rw [hLow, hHigh]
  exact ⟨hForged.encodes, hForged.canonical, hAccepts⟩

end Recovery

def lengthResponse (length : ℕ) : Bytes 38 := ⟨leBytes 38 length, leBytes_length _ _⟩

theorem lt_L_of_lt_byte {n : ℕ} (h : n < 256) : n < L := by
  have hLow := L_bounds.1
  have hPower : ∀ exponent, n < exponent → n < 2 ^ exponent := fun _ hn =>
    hn.trans Nat.lt_two_pow_self
  exact (hPower 299 (h.trans (by decide))).trans hLow

theorem mod_of_lt_byte {n count : ℕ} (h : n < 256) (hCount : count ≠ 0) : n % 256 ^ count = n :=
  Nat.mod_eq_of_lt (h.trans_le (Nat.le_self_pow hCount 256))

section LengthHash

variable {message : List UInt8} {length : ℕ}

theorem bytesValue_lengthHash {input : List UInt8} (h : input.length < 256) :
    bytesValue (lengthHash input).1 = input.length :=
  (bytesValue_leBytes 76 input.length).trans (mod_of_lt_byte h (by decide))

theorem challengeOf_lengthHash (hLength : message.length + 76 = length) (hLt : length < 256) :
    challengeOf lengthHash identityBytes basepointBytes message = length := by
  have hInput : [identityBytes.1, basepointBytes.1, message].flatten.length = length := by
    simp only [List.flatten_cons, List.flatten_nil, List.append_nil, List.length_append,
      identityBytes.2, basepointBytes.2, ← hLength]
    ring
  rw [← hInput] at hLt ⊢
  rw [challengeOf, Shake256.challengeHash, Shake256.hashParts, bytesValue_lengthHash hLt]
  exact Nat.mod_eq_of_lt (lt_L_of_lt_byte hLt)

/-- Under that hash the secret one signs with the nonce zero. -/
theorem verify_lengthHash [ModularInverse] (hLength : message.length + 76 = length)
    (hLt : length < 256) :
    verify lengthHash basepointBytes.1 message
      (joinHalves identityBytes (lengthResponse length)).1 = true := by
  have hResponse : bytesValue (lengthResponse length).1 = length := by
    rw [lengthResponse, bytesValue_leBytes]
    exact mod_of_lt_byte hLt (by decide)
  obtain ⟨hLow, hHigh⟩ := halves_joinHalves identityBytes (lengthResponse length)
  refine (verify_of_bytes _ _ _ _).mpr ⟨B, 0, encodes_basepoint, basepoint_ne_zero,
    L_nsmul_basepoint, ?_⟩
  rw [hLow, hHigh, challengeOf_lengthHash hLength hLt, hResponse, Accepts, nsmul_zero, zero_add]
  exact ⟨encodes_identity, lt_L_of_lt_byte hLt, rfl⟩

theorem challengeIn_lengthHash (hLength : message.length + 76 = length) (hLt : length < 256) :
    challengeIn lengthHash basepointBytes.1 message
      (joinHalves identityBytes (lengthResponse length)).1 = (length : ZMod L) := by
  have hCast := cast_challengeOf lengthHash basepointBytes message
    (joinHalves identityBytes (lengthResponse length))
  rwa [(halves_joinHalves identityBytes (lengthResponse length)).1,
    challengeOf_lengthHash hLength hLt, eq_comm] at hCast

end LengthHash

/-- The empty message and one of a single byte give the secret one away. -/
theorem sign_of_repeated_commitment_lengthHash :
    let left := (joinHalves identityBytes (lengthResponse 76)).1
    let right := (joinHalves identityBytes (lengthResponse 77)).1
    let scalar := recoveredScalar lengthHash basepointBytes.1 [] left [0] right
    let publicPoint := EdwardsPoint.scalarMulBase scalar
    ∃ encoded : Bytes 38,
      encoded.1 = basepointBytes.1 ∧
      @EdwardsPoint.encodePublicArtifact .zeroAtZero publicPoint = .ok encoded ∧
      ∀ (noncePrefix : Bytes 38) (other : List UInt8),
        ∃ forged : Signature,
          (∀ selfVerify, @ExpandedSigningKey.sign .zeroAtZero lengthHash selfVerify
            ⟨scalar, noncePrefix, encoded, publicPoint⟩ other = .ok forged) ∧
          @verify .zeroAtZero lengthHash basepointBytes.1 other forged.encoded.1 = true := by
  have hNil : ([] : List UInt8).length + 76 = 76 := rfl
  have hOne : ([0] : List UInt8).length + 76 = 77 := rfl
  refine @sign_of_repeated_commitment .zeroAtZero _ _ _ _ _ _
    (@verify_lengthHash _ _ .zeroAtZero hNil (by decide))
    (@verify_lengthHash _ _ .zeroAtZero hOne (by decide)) rfl ?_
  rw [challengeIn_lengthHash hNil (by decide), challengeIn_lengthHash hOne (by decide),
    Nat.cast_succ 76]
  exact (add_ne_left.mpr one_ne_zero).symm

end X301Provider
