import X301Provider.Signature.Verification
import X301Provider.X301.KeyAgreement

/-!
# Signatures verify

Key expansion and signing never fail, with or without the self-check, and the
signature is accepted by the prepared key and by the parsed key. No pruned
scalar is a multiple of `L`, so the public key is never the identity. The
response is determined by key, message and commitment.
-/

namespace X301Provider

open CofactoredSignature Limbs

/-- The expanded key of a secret integer that is not a multiple of `L`. -/
structure ExpandedSigningKey.Denotes (expanded : ExpandedSigningKey) (secret : ℕ) : Prop where
  reducedScalar : expanded.reducedScalar.Repr secret
  encodes : Encodes expanded.publicKey (secret • B)
  publicPoint : expanded.publicPoint.Denotes (secret • B)
  not_dvd : ¬L ∣ secret

theorem L_nsmul_nsmul_basepoint (n : ℕ) : L • n • B = 0 := by
  rw [smul_smul, nsmul_basepoint_eq_zero_iff]
  exact Nat.dvd_mul_right L n

theorem scalarMulBase_denotes {scalar : Scalar} {n : ℕ} (h : scalar.Repr n) :
    (EdwardsPoint.scalarMulBase scalar).Denotes (n • B) := by
  have hBound := L_numeric.2.2.1
  have hBytes := h.writeCanonicalBytes
  have hLt := (Nat.mod_lt n prime_L.pos).trans hBound
  rw [← hBytes] at hLt
  have hPoint := scalarMulBaseEncoded_denotes hLt
  rw [hBytes] at hPoint
  have hMod : (n % L) • B = n • B := (nsmul_basepoint_eq_iff _ _).mpr (Nat.mod_modEq n L)
  rwa [hMod] at hPoint

namespace ExpandedSigningKey

variable [ModularInverse] (shake256 : Shake256)

theorem derive_spec (seed : Bytes 38) :
    ∃ expanded : ExpandedSigningKey,
      (∀ selfVerify, derive shake256 selfVerify seed = .ok expanded) ∧
        expanded.Denotes (X301.scalarOf (Scalar.lowHalf (shake256.expandSeed seed))) := by
  generalize hSecret : Scalar.lowHalf (shake256.expandSeed seed) = secret
  have hNotDvd := X301.not_dvd_scalarOf secret
  have hNonzero : X301.scalarOf secret • B ≠ 0 := by
    rwa [Ne, nsmul_basepoint_eq_zero_iff]
  have hPoint : (EdwardsPoint.scalarMulBasePruned (pruneScalar secret)).Denotes
      (X301.scalarOf secret • B) := scalarMulBaseEncoded_denotes (X301.scalarOf_lt secret)
  have hSubgroup := isPrimeSubgroupNonidentity_eq hPoint
  obtain ⟨publicKey, publicPoint, hArtifact, hEncodes, hAffine⟩ := hPoint.canonicalPublicArtifact
  refine ⟨⟨Scalar.reducePrunedLe (pruneScalar secret), Scalar.highHalf (shake256.expandSeed seed),
    publicKey, publicPoint⟩, fun selfVerify => ?_, Scalar.repr_reducePrunedLe _, hEncodes, hAffine,
    hNotDvd⟩
  rw [decide_eq_true ⟨hNonzero, L_nsmul_nsmul_basepoint _⟩] at hSubgroup
  simp only [derive, hSecret, hPoint.isIdentity, hSubgroup, hArtifact, decide_eq_false hNonzero,
    Bool.not_true, Bool.and_false, Bool.false_eq_true, if_false]

theorem Denotes.verifyingKey {expanded : ExpandedSigningKey} {secret : ℕ}
    (h : expanded.Denotes secret) : expanded.verifyingKey.Denotes (secret • B) where
  encodes := h.encodes
  table := oddMultiples_build h.publicPoint
  nonzero := by
    rw [Ne, nsmul_basepoint_eq_zero_iff]
    exact h.not_dvd
  order := L_nsmul_nsmul_basepoint secret

omit [ModularInverse] in
theorem Denotes.respond {expanded : ExpandedSigningKey} {secret : ℕ} (h : expanded.Denotes secret)
    (message : List UInt8) {nonce : Scalar} {n : ℕ} (hNonce : nonce.Repr n) {commitment : Bytes 38}
    (hCommitment : Encodes commitment (n • B)) :
    ∃ response : Bytes 38,
      (expanded.respond shake256 message nonce commitment).encoded =
          joinHalves commitment response ∧
        (expanded.respond shake256 message nonce commitment).Denotes (n • B)
          (bytesValue response.1) ∧
        Accepts 4 B (secret • B) (n • B)
          (challengeOf shake256 commitment expanded.publicKey message) (bytesValue response.1) := by
  have hChallenge := repr_hashToScalar
    (shake256.challengeHash commitment expanded.publicKey message)
  have hResponse := hNonce.add (hChallenge.mul h.reducedScalar)
  have hBytes := hResponse.writeCanonicalBytes
  refine ⟨_, rfl, ⟨hCommitment, scalarMulBase_denotes hNonce, ?_, ?_⟩,
    accepts_honest L_nsmul_basepoint ?_⟩
  · exact hResponse.trans hBytes.symm
  · rw [hBytes]
    exact Nat.mod_lt _ prime_L.pos
  · rw [hBytes]
    exact (Nat.mod_modEq _ L).trans
      (Nat.ModEq.add_left _ (Nat.ModEq.mul_right _ (Nat.mod_modEq _ L).symm))

/-- Signing succeeds in both builds with the same canonical signature. -/
theorem Denotes.sign {expanded : ExpandedSigningKey} {secret : ℕ} (h : expanded.Denotes secret)
    (message : List UInt8) :
    ∃ (signature : Signature) (R : E.Point) (response : Bytes 38),
      (∀ selfVerify, expanded.sign shake256 selfVerify message = .ok signature) ∧
        signature.encoded = joinHalves signature.commitmentEncoding response ∧
        signature.Denotes R (bytesValue response.1) ∧
        Accepts 4 B (secret • B) R
          (challengeOf shake256 signature.commitmentEncoding expanded.publicKey message)
          (bytesValue response.1) := by
  have hNonce := repr_hashToScalar (shake256.nonceHash expanded.noncePrefix message)
  obtain ⟨commitment, hEncode, hEncodes⟩ := (scalarMulBase_denotes hNonce).encode
  obtain ⟨response, hEncoded, hDenotes, hAccepts⟩ :=
    h.respond shake256 message hNonce hEncodes
  have hVerify := (VerifyingKey.verify_iff h.verifyingKey.table hDenotes).mpr hAccepts
  refine ⟨_, _, response, fun selfVerify => ?_, hEncoded, hDenotes, hAccepts⟩
  rw [ExpandedSigningKey.sign, EdwardsPoint.encodePublicArtifact, hEncode]
  refine if_neg ?_
  rw [hVerify, Bool.not_true, Bool.and_false]
  exact Bool.false_ne_true

end ExpandedSigningKey

section Signing

variable [ModularInverse] (shake256 : Shake256)

theorem VerifyingKey.fromBytes_of_encodes {bytes : Bytes 38} {A : E.Point}
    (hEncodes : Encodes bytes A) (hNonzero : A ≠ 0) (hOrder : L • A = 0) :
    ∃ key, fromBytes bytes.1 = .ok key ∧ key.encoded = bytes ∧ key.Denotes A := by
  rcases fromBytes_spec bytes with ⟨A', key, hKey, hEncoded, hDenotes⟩ | ⟨hReject, -⟩
  · have hEncodes' := hDenotes.encodes
    rw [hEncoded] at hEncodes'
    obtain rfl := hEncodes'.unique hEncodes
    exact ⟨key, hKey, hEncoded, hDenotes⟩
  · cases hReject A hEncodes with
    | inl hZero =>
      exact absurd hZero hNonzero
    | inr hTorsion =>
      exact absurd hOrder hTorsion

omit [ModularInverse] in
theorem Signature.fromBytes_of_encodes {commitment response : Bytes 38} {R : E.Point}
    (hEncodes : Encodes commitment R) (hResponse : bytesValue response.1 < L) :
    ∃ signature, fromBytes (joinHalves commitment response).1 = .ok signature ∧
      signature.commitmentEncoding = commitment ∧
      signature.Denotes R (bytesValue response.1) := by
  obtain ⟨hLow, hHigh⟩ := halves_joinHalves commitment response
  rcases fromBytes_spec (joinHalves commitment response) with
    ⟨R', signature, hSignature, -, hCommitment, hDenotes⟩ | ⟨hReject, -⟩
  · rw [hLow] at hCommitment
    rw [hHigh] at hDenotes
    have hEncodes' := hDenotes.encodes
    rw [hCommitment] at hEncodes'
    obtain rfl := hEncodes'.unique hEncodes
    exact ⟨signature, hSignature, hCommitment, hDenotes⟩
  · rw [hLow, hHigh] at hReject
    exact absurd hResponse (not_lt.mpr (hReject R hEncodes))

/-- The key of a seed signs as the expanded key does. -/
theorem sign_of_expand {seed : Bytes 38} {message : List UInt8} {selfVerify : Bool}
    {expanded : ExpandedSigningKey} {signature : Signature}
    (hExpand : ExpandedSigningKey.derive shake256 selfVerify seed = .ok expanded)
    (hSign : expanded.sign shake256 selfVerify message = .ok signature) :
    SigningKey.sign shake256 selfVerify ⟨seed⟩ message = .ok signature ∧
      sign shake256 selfVerify seed.1 message = .ok signature.encoded := by
  have hKeySign : SigningKey.sign shake256 selfVerify ⟨seed⟩ message = .ok signature := by
    rw [SigningKey.sign, SigningKey.expand, hExpand]
    exact (pure_bind expanded _).trans hSign
  refine ⟨hKeySign, ?_⟩
  rw [sign, SigningKey.fromSeed, toArray_val]
  refine (pure_bind _ _).trans ?_
  rw [hKeySign]
  rfl

/-- The verifying key of a seed is a prepared key of its secret multiple of the base point. -/
theorem verifyingKey_spec (seed : Bytes 38) :
    ∃ key : VerifyingKey,
      (∀ selfVerify, SigningKey.verifyingKey shake256 selfVerify ⟨seed⟩ = .ok key) ∧
        key.Denotes (X301.scalarOf (Scalar.lowHalf (shake256.expandSeed seed)) • B) := by
  obtain ⟨expanded, hExpand, hExpanded⟩ := ExpandedSigningKey.derive_spec shake256 seed
  refine ⟨expanded.verifyingKey, fun selfVerify => ?_, hExpanded.verifyingKey⟩
  rw [SigningKey.verifyingKey, SigningKey.expand, hExpand]
  rfl

/-- What the signer returns is accepted under the key of the seed. -/
theorem sign_accepted (seed : Bytes 38) (message : List UInt8) :
    ∃ (publicKey : Bytes 38) (signature : Bytes 76),
      (∀ selfVerify, sign shake256 selfVerify seed.1 message = .ok signature) ∧
        verify shake256 publicKey.1 message signature.1 = true := by
  obtain ⟨expanded, hExpand, hExpanded⟩ := ExpandedSigningKey.derive_spec shake256 seed
  obtain ⟨signature, R, response, hSign, hEncoded, hSignature, hAccepts⟩ :=
    hExpanded.sign shake256 message
  have hPrepared := hExpanded.verifyingKey
  obtain ⟨hLow, hHigh⟩ := halves_joinHalves signature.commitmentEncoding response
  refine ⟨expanded.publicKey, signature.encoded,
    fun selfVerify => (sign_of_expand shake256 (hExpand selfVerify) (hSign selfVerify)).2, ?_⟩
  refine (verify_of_bytes shake256 expanded.publicKey message signature.encoded).mpr
    ⟨_, R, hExpanded.encodes, hPrepared.nonzero, hPrepared.order, ?_⟩
  rw [hEncoded, hLow, hHigh]
  exact ⟨hSignature.encodes, hSignature.canonical, hAccepts⟩

/-- Every seed expands and signs in both builds with the same bytes, the public key and the
signature parse, and every combination of prepared and parsed values verifies. -/
theorem sign_verifies (seed : Bytes 38) (message : List UInt8) :
    ∃ key expanded reparsed signature parsed,
      SigningKey.fromSeed seed.1 = .ok key ∧
      (∀ selfVerify, key.expand shake256 selfVerify = .ok expanded) ∧
      VerifyingKey.fromBytes expanded.publicKey.1 = .ok reparsed ∧
      (∀ selfVerify, expanded.sign shake256 selfVerify message = .ok signature) ∧
      (∀ selfVerify, key.sign shake256 selfVerify message = .ok signature) ∧
      (∀ selfVerify, sign shake256 selfVerify seed.1 message = .ok signature.encoded) ∧
      Signature.fromBytes signature.encoded.1 = .ok parsed ∧
      (∀ verifier ∈ [expanded.verifyingKey, reparsed], ∀ candidate ∈ [signature, parsed],
        verifier.verify shake256 message candidate = true) ∧
      verify shake256 expanded.publicKey.1 message signature.encoded.1 = true := by
  obtain ⟨expanded, hExpand, hExpanded⟩ := ExpandedSigningKey.derive_spec shake256 seed
  generalize X301.scalarOf _ = secret at hExpanded
  obtain ⟨signature, R, response, hSign, hEncoded, hSignature, hAccepts⟩ :=
    hExpanded.sign shake256 message
  have hPrepared := hExpanded.verifyingKey
  obtain ⟨reparsed, hReparse, hReparsedBytes, hReparsed⟩ :=
    VerifyingKey.fromBytes_of_encodes hExpanded.encodes hPrepared.nonzero hPrepared.order
  obtain ⟨parsed, hParse, hParsedCommitment, hParsed⟩ :=
    Signature.fromBytes_of_encodes hSignature.encodes hSignature.canonical
  rw [← hEncoded] at hParse
  have hFromSeed : SigningKey.fromSeed seed.1 = .ok ⟨seed⟩ := by
    rw [SigningKey.fromSeed, toArray_val]
  have hKeySign := fun selfVerify =>
    sign_of_expand shake256 (hExpand selfVerify) (hSign selfVerify)
  have hVerify : ∀ (verifier : VerifyingKey) (candidate : Signature),
      verifier.encoded = expanded.publicKey →
      OddMultiples verifier.oddMultiples (secret • B) →
      candidate.commitmentEncoding = signature.commitmentEncoding →
      candidate.Denotes R (bytesValue response.1) →
      verifier.verify shake256 message candidate = true := by
    intro verifier candidate hKey hTable hCommitment hCandidate
    refine (VerifyingKey.verify_iff hTable hCandidate).mpr ?_
    rw [hKey, hCommitment]
    exact hAccepts
  have hAll : ∀ verifier ∈ [expanded.verifyingKey, reparsed], ∀ candidate ∈ [signature, parsed],
      verifier.verify shake256 message candidate = true := by
    intro verifier hVerifier candidate hCandidate
    rw [List.mem_pair] at hVerifier hCandidate
    rcases hVerifier with rfl | rfl <;> rcases hCandidate with rfl | rfl
    · exact hVerify _ _ rfl hPrepared.table rfl hSignature
    · exact hVerify _ _ rfl hPrepared.table hParsedCommitment hParsed
    · exact hVerify _ _ hReparsedBytes hReparsed.table rfl hSignature
    · exact hVerify _ _ hReparsedBytes hReparsed.table hParsedCommitment hParsed
  refine ⟨⟨seed⟩, expanded, reparsed, signature, parsed, hFromSeed, hExpand, hReparse, hSign,
    fun selfVerify => (hKeySign selfVerify).1, fun selfVerify => (hKeySign selfVerify).2, hParse,
    hAll, ?_⟩
  rw [verify, hReparse, hParse]
  exact hVerify _ _ hReparsedBytes hReparsed.table hParsedCommitment hParsed

/-- For a key, a message and a commitment encoding at most one response is accepted. -/
theorem verify_response_unique {publicKey message left right : List UInt8}
    (hLeft : verify shake256 publicKey message left = true)
    (hRight : verify shake256 publicKey message right = true)
    (hCommitment : left.take 38 = right.take 38) : left = right := by
  obtain ⟨hKeyLength, hLeftLength⟩ := lengths_of_verify shake256 hLeft
  obtain ⟨-, hRightLength⟩ := lengths_of_verify shake256 hRight
  obtain ⟨keyBytes, rfl⟩ : ∃ bytes : Bytes 38, publicKey = bytes.1 := ⟨⟨_, hKeyLength⟩, rfl⟩
  obtain ⟨left, rfl⟩ : ∃ bytes : Bytes 76, left = bytes.1 := ⟨⟨_, hLeftLength⟩, rfl⟩
  obtain ⟨right, rfl⟩ : ∃ bytes : Bytes 76, right = bytes.1 := ⟨⟨_, hRightLength⟩, rfl⟩
  have hLow : Scalar.lowHalf left = Scalar.lowHalf right := Subtype.ext hCommitment
  obtain ⟨A, R, hA, -, -, hR, hLeftLt, hLeftAccepts⟩ :=
    (verify_of_bytes shake256 keyBytes message left).mp hLeft
  obtain ⟨A', R', hA', -, -, hR', hRightLt, hRightAccepts⟩ :=
    (verify_of_bytes shake256 keyBytes message right).mp hRight
  rw [← hLow, hA'.unique hA] at hRightAccepts
  rw [← hLow] at hR'
  rw [hR'.unique hR] at hRightAccepts
  have hMod := hLeftAccepts.modEq addOrderOf_basepoint coprime_L_four hRightAccepts
  have hValue : bytesValue (Scalar.highHalf left).1 = bytesValue (Scalar.highHalf right).1 := by
    rwa [Nat.ModEq, Nat.mod_eq_of_lt hLeftLt, Nat.mod_eq_of_lt hRightLt] at hMod
  rw [← joinHalves_halves left, ← joinHalves_halves right, hLow, bytes_ext hValue]

end Signing

/-- A hash that counts its input. -/
def lengthHash : Shake256 := fun input => ⟨leBytes 76 input.length, leBytes_length _ _⟩

/-- Both builds sign the empty message with one commitment, under the zero seed. -/
theorem verify_response_unique_signed :
    ∃ (publicKey : Bytes 38) (left right : Bytes 76),
      @sign .zeroAtZero lengthHash false (List.replicate 38 0) [] = .ok left ∧
      @sign .zeroAtZero lengthHash true (List.replicate 38 0) [] = .ok right ∧
      @verify .zeroAtZero lengthHash publicKey.1 [] left.1 = true ∧
      @verify .zeroAtZero lengthHash publicKey.1 [] right.1 = true ∧ left.1 = right.1 := by
  obtain ⟨publicKey, signature, hSign, hVerify⟩ :=
    @sign_accepted .zeroAtZero lengthHash ⟨List.replicate 38 0, rfl⟩ []
  exact ⟨publicKey, signature, signature, hSign false, hSign true, hVerify, hVerify,
    @verify_response_unique .zeroAtZero lengthHash _ _ _ _ hVerify hVerify rfl⟩

end X301Provider
