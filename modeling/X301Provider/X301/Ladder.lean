import X301Provider.Edwards.Codec

/-!
# The X301 function

Decoding, clamping, the ladder over lazily reduced values, the final all-zero
check and the fixed-base public key. The clamp fixes bit 300 to one and bits 1
and 0 to zero, so the ladder starts after the first round and ends with two
bare doublings.
-/

namespace X301Provider

open Limbs

inductive X301Error
  | invalidSecretLength
  | invalidPublicLength
  | allZeroSharedSecret
  deriving DecidableEq

namespace X301

def baseUBytes : Bytes 38 :=
  ⟨[0x5b, 0xa6, 0xf0, 0xf4, 0xcc, 0xc6, 0xff, 0x5f, 0x01, 0x8a, 0x24, 0x96, 0xfe, 0x16, 0x5e, 0xb7,
    0xd1, 0x89, 0x39, 0x49, 0xfe, 0x3d, 0x05, 0xf7, 0x9c, 0x12, 0xd2, 0xbd, 0x99, 0x95, 0x2c, 0xd4,
    0x2d, 0x2a, 0xe9, 0x54, 0x63, 0x08], rfl⟩

def a24Denominator : UInt32 := 2086388028
def a24Numerator : UInt32 := 301

def decodePublic (publicBytes : List UInt8) : Except X301Error Fe301 :=
  match toArray 38 publicBytes with
  | none => .error .invalidPublicLength
  | some bytes => .ok (.fromX301Bytes bytes)

def canonicalizePublicEncoding (publicBytes : List UInt8) : Except X301Error (Bytes 38) :=
  (decodePublic publicBytes).map Fe301.toCanonicalBytes

def validatePublicEncoding (publicBytes : List UInt8) : Except X301Error Unit :=
  (canonicalizePublicEncoding publicBytes).map fun _ => ()

def clampScalar (input : Bytes 38) : Bytes 38 :=
  let scalar : Bytes 38 := (input.head &&& 0xfc) ::ᵥ input.tail
  Fe301.modifyLast scalar fun last => (last &&& 0x0f) ||| 0x10

def scalarBit (scalar : Bytes 38) (i : ℕ) : Bool :=
  ((scalar.1.getD (i >>> 3) 0) >>> UInt8.ofNat (i &&& 7)) &&& 1 == 1

structure LadderState where
  x1 : Fe301Lazy
  x2 : Fe301Lazy
  z2 : Fe301Lazy
  x3 : Fe301Lazy
  z3 : Fe301Lazy

namespace LadderState

def conditionalSwap (state : LadderState) (choice : Bool) : LadderState :=
  let x := Fe301Lazy.conditionalSwap state.x2 state.x3 choice
  let z := Fe301Lazy.conditionalSwap state.z2 state.z3 choice
  { state with x2 := x.1, x3 := x.2, z2 := z.1, z3 := z.2 }

end LadderState

structure ProjectiveOutput where
  x : Fe301Lazy
  z : Fe301Lazy

def doubleScaled (x z : Fe301Lazy) : Fe301Lazy × Fe301Lazy :=
  let a := x.addLoose z
  let aa := a.square
  let b := x.subLoose z
  let bb := b.square
  let e := aa.subLoose bb
  let scaledAa := aa.mulSmall a24Denominator
  let nextX := scaledAa.mul bb
  let scaledE := e.mulSmall a24Numerator
  let nextZ := e.mul (scaledAa.addLoose scaledE)
  (nextX, nextZ)

/-- The body of the ladder loop after the swap. -/
def ladderRound (state : LadderState) : LadderState :=
  let a := state.x2.addLoose state.z2
  let aa := a.square
  let b := state.x2.subLoose state.z2
  let bb := b.square
  let e := aa.subLoose bb
  let c := state.x3.addLoose state.z3
  let d := state.x3.subLoose state.z3
  let da := d.mul a
  let cb := c.mul b
  let x3 := (da.addLoose cb).square
  let z3 := state.x1.mul (da.subLoose cb).square
  let scaledAa := aa.mulSmall a24Denominator
  let x2 := scaledAa.mul bb
  let scaledE := e.mulSmall a24Numerator
  let z2 := e.mul (scaledAa.addLoose scaledE)
  { state with x2, z2, x3, z3 }

/-- One loop iteration: the swap is delayed until the next differing bit. -/
def ladderStep (scalar : Bytes 38) (loop : LadderState × Bool) (bitIndex : ℕ) :
    LadderState × Bool :=
  let bit := scalarBit scalar bitIndex
  (ladderRound (loop.1.conditionalSwap (loop.2 ^^ bit)), bit)

def ladder (scalar : Bytes 38) (u : Fe301) : ProjectiveOutput :=
  let u := Fe301Lazy.fromFe301 u
  let (x2, z2) := doubleScaled u .one
  let start : LadderState := ⟨u, x2, z2, u, .one⟩
  let (state, swap) := (List.range' 2 298).reverse.foldl (ladderStep scalar) (start, true)
  let state := state.conditionalSwap swap
  let (x, z) := doubleScaled state.x2 state.z2
  let (x, z) := doubleScaled x z
  ⟨x, z⟩

def finalize [ModularInverse] (projective : ProjectiveOutput) : Except X301Error (Bytes 38) :=
  let inverse := projective.z.invert.value
  let affine := projective.x.mul inverse
  let accepted := !projective.z.isZero && !affine.isZero
  let output := affine.toCanonicalBytes
  if !accepted then .error .allZeroSharedSecret else .ok output

def x301 [ModularInverse] (secret uBytes : List UInt8) : Except X301Error (Bytes 38) :=
  match toArray 38 secret with
  | none => .error .invalidSecretLength
  | some secretBytes =>
    match decodePublic uBytes with
    | .error error => .error error
    | .ok u => finalize (ladder (clampScalar secretBytes) u)

def publicFromSecret [ModularInverse] (secret : List UInt8) : Except X301Error (Bytes 38) :=
  match toArray 38 secret with
  | none => .error .invalidSecretLength
  | some secret =>
    let clamped := clampScalar secret
    (EdwardsPoint.scalarMulBasePruned clamped).montgomeryUPublicArtifact.mapError
      fun _ => .allZeroSharedSecret

def sharedSecret [ModularInverse] (secret peerPublic : List UInt8) : Except X301Error (Bytes 38) :=
  x301 secret peerPublic

end X301

end X301Provider
