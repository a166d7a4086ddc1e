import X301Provider.Edwards.Codec
import X301Provider.Edwards.Vartime

/-!
# ED301-EdDSA signatures

One-shot signatures without context: key parsing and expansion, signing and
verification. The extendable-output function is a parameter that returns its
first 76 bytes; the transcripts are concatenations.
-/

namespace X301Provider

open Limbs

/-- The first 76 bytes of the extendable output. -/
abbrev Shake256 := List UInt8 → Bytes 76

namespace Shake256

variable (shake256 : Shake256)

def hashParts (parts : List (List UInt8)) : Bytes 76 := shake256 parts.flatten

def expandSeed (seed : Bytes 38) : Bytes 76 := shake256.hashParts [seed.1]

def nonceHash (nonceKey : Bytes 38) (message : List UInt8) : Bytes 76 :=
  shake256.hashParts [nonceKey.1, message]

def challengeHash (commitment publicKey : Bytes 38) (message : List UInt8) : Bytes 76 :=
  shake256.hashParts [commitment.1, publicKey.1, message]

end Shake256

def hashToScalar (hash : Bytes 76) : Scalar := Scalar.reduceHashLe hash

inductive SignatureError
  | invalidSeedLength
  | invalidPublicKey
  | invalidSignature
  | internalFailure
  deriving DecidableEq

structure SigningKey where
  seed : Bytes 38

/-- A validated public key with the table of its odd multiples. -/
structure VerifyingKey where
  encoded : Bytes 38
  oddMultiples : List AffineNielsPoint

structure Signature where
  encoded : Bytes 76
  commitmentEncoding : Bytes 38
  commitment : EdwardsPoint
  response : Scalar

structure ExpandedSigningKey where
  reducedScalar : Scalar
  noncePrefix : Bytes 38
  publicKey : Bytes 38
  publicPoint : EdwardsPoint

def SigningKey.fromSeed (seed : List UInt8) : Except SignatureError SigningKey :=
  match toArray 38 seed with
  | none => .error .invalidSeedLength
  | some seed => .ok ⟨seed⟩

def EdwardsPoint.scalarMul (p : EdwardsPoint) (scalar : Scalar) : EdwardsPoint :=
  p.scalarMulWith scalar.bit

def EdwardsPoint.scalarMulBase (scalar : Scalar) : EdwardsPoint :=
  scalarMulBaseEncoded scalar.writeCanonicalBytes

namespace VerifyingKey

def fromBytes [ModularInverse] (bytes : List UInt8) : Except SignatureError VerifyingKey :=
  match toArray 38 bytes with
  | none => .error .invalidPublicKey
  | some encoded =>
    match EdwardsPoint.decode encoded with
    | .error _ => .error .invalidPublicKey
    | .ok point =>
      if point.isIdentity then .error .invalidPublicKey
      else
        let oddMultiples := point.prepareVartimeTable
        if !point.isPrimeSubgroupWithTable oddMultiples then .error .invalidPublicKey
        else .ok ⟨encoded, oddMultiples⟩

def verify (shake256 : Shake256) (key : VerifyingKey) (message : List UInt8)
    (signature : Signature) : Bool :=
  let digest := shake256.challengeHash signature.commitmentEncoding key.encoded message
  let challenge := hashToScalar digest
  let equation :=
    ((EdwardsPoint.vartimeDoubleScalarMulBasepoint signature.response challenge
      key.oddMultiples).add signature.commitment.negate).multiplyByCofactor
  equation.isIdentity

def fromValidatedPoint [ModularInverse] (encoded : Bytes 38) (point : EdwardsPoint) :
    VerifyingKey := ⟨encoded, point.prepareVartimeTable⟩

end VerifyingKey

/-- The exact 76-byte syntax; identity and torsion commitments are accepted. -/
def Signature.fromBytes (bytes : List UInt8) : Except SignatureError Signature :=
  match toArray 76 bytes with
  | none => .error .invalidSignature
  | some encoded =>
    let commitmentEncoding := Scalar.lowHalf encoded
    let responseEncoding := Scalar.highHalf encoded
    match EdwardsPoint.decode commitmentEncoding with
    | .error _ => .error .invalidSignature
    | .ok commitment =>
      match (Scalar.fromCanonicalBytes responseEncoding).toOption with
      | none => .error .invalidSignature
      | some response => .ok ⟨encoded, commitmentEncoding, commitment, response⟩

def validatePublicKey [ModularInverse] (publicKey : List UInt8) : Bool :=
  (VerifyingKey.fromBytes publicKey).isOk

/-- Parse and verify, failing closed. -/
def verify [ModularInverse] (shake256 : Shake256) (publicKey message signature : List UInt8) :
    Bool :=
  match VerifyingKey.fromBytes publicKey with
  | .error _ => false
  | .ok publicKey =>
    match Signature.fromBytes signature with
    | .error _ => false
    | .ok signature => publicKey.verify shake256 message signature

def joinHalves (commitment response : Bytes 38) : Bytes 76 :=
  ⟨commitment.1 ++ response.1, by rw [List.length_append, commitment.2, response.2]⟩

namespace ExpandedSigningKey

def verifyingKey [ModularInverse] (expanded : ExpandedSigningKey) : VerifyingKey :=
  .fromValidatedPoint expanded.publicKey expanded.publicPoint

/-- The secret scalar bytes: divisible by four and with bit 300 as the top bit. -/
def pruneScalar (bytes : Bytes 38) : Bytes 38 :=
  let scalar : Bytes 38 := (bytes.head &&& 0xfc) ::ᵥ bytes.tail
  Fe301.modifyLast scalar fun last => (last &&& 0x0f) ||| 0x10

/-- `selfVerify` stands for the feature `sign-self-verify`. -/
def derive [ModularInverse] (shake256 : Shake256) (selfVerify : Bool) (seed : Bytes 38) :
    Except SignatureError ExpandedSigningKey :=
  let expandedHash := shake256.expandSeed seed
  let prunedScalar := pruneScalar (Scalar.lowHalf expandedHash)
  let noncePrefix := Scalar.highHalf expandedHash
  let reducedScalar := Scalar.reducePrunedLe prunedScalar
  let publicPoint := EdwardsPoint.scalarMulBasePruned prunedScalar
  if publicPoint.isIdentity then .error .internalFailure
  else if selfVerify && !publicPoint.isPrimeSubgroupNonidentity then .error .internalFailure
  else
    match publicPoint.canonicalPublicArtifact with
    | .error _ => .error .internalFailure
    | .ok (publicKey, publicPoint) => .ok ⟨reducedScalar, noncePrefix, publicKey, publicPoint⟩

/-- The signature for a nonce and its encoded commitment. -/
def respond (shake256 : Shake256) (expanded : ExpandedSigningKey) (message : List UInt8)
    (nonce : Scalar) (commitment : Bytes 38) : Signature :=
  let challengeDigest := shake256.challengeHash commitment expanded.publicKey message
  let challenge := hashToScalar challengeDigest
  let secretResponseTerm := challenge.mul expanded.reducedScalar
  let response := nonce.add secretResponseTerm
  { encoded := joinHalves commitment response.writeCanonicalBytes
    commitmentEncoding := commitment
    commitment := EdwardsPoint.scalarMulBase nonce
    response := response }

/-- `sign_expanded`. -/
def sign [ModularInverse] (shake256 : Shake256) (selfVerify : Bool)
    (expanded : ExpandedSigningKey) (message : List UInt8) : Except SignatureError Signature := do
  let nonceDigest := shake256.nonceHash expanded.noncePrefix message
  let nonce := hashToScalar nonceDigest
  let commitmentPoint := EdwardsPoint.scalarMulBase nonce
  let commitment ← commitmentPoint.encodePublicArtifact.mapError fun _ => .internalFailure
  let signature := expanded.respond shake256 message nonce commitment
  if selfVerify && !expanded.verifyingKey.verify shake256 message signature then
    .error .internalFailure
  else .ok signature

end ExpandedSigningKey

namespace SigningKey

def expand [ModularInverse] (shake256 : Shake256) (selfVerify : Bool) (key : SigningKey) :
    Except SignatureError ExpandedSigningKey :=
  ExpandedSigningKey.derive shake256 selfVerify key.seed

def verifyingKey [ModularInverse] (shake256 : Shake256) (selfVerify : Bool) (key : SigningKey) :
    Except SignatureError VerifyingKey :=
  (key.expand shake256 selfVerify).map ExpandedSigningKey.verifyingKey

def sign [ModularInverse] (shake256 : Shake256) (selfVerify : Bool) (key : SigningKey)
    (message : List UInt8) : Except SignatureError Signature := do
  let expanded ← key.expand shake256 selfVerify
  expanded.sign shake256 selfVerify message

end SigningKey

def sign [ModularInverse] (shake256 : Shake256) (selfVerify : Bool) (seed message : List UInt8) :
    Except SignatureError (Bytes 76) := do
  let key ← SigningKey.fromSeed seed
  let signature ← key.sign shake256 selfVerify message
  return signature.encoded

end X301Provider
