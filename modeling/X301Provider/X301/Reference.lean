import X301Provider.Parameters
import X301Provider.X301.Ladder

/-!
# The reference ladder

The plain 301-round ladder over integers that the test vectors come from. Every
product is reduced with `%`, inverses come from the extended Euclidean
algorithm and the doubling constant is `(A - 2) / 4`.
-/

namespace X301Provider.Reference

open Limbs

/-- The exceptions of the reference; the first three are its X301 error codes. -/
inductive Failure
  | length
  | secretLength
  | allZero
  | zeroHasNoInverse
  | uIsNotCanonical
  deriving DecidableEq

/-- `pow(value, -1, P)`. -/
def powInverse (value : ℤ) : ℤ := Int.gcdA (value % P) P % P

def inverse (value : ℤ) : Except Failure ℤ :=
  if value % P = 0 then .error .zeroHasNoInverse else .ok (powInverse value)

def montgomeryA : ℤ := 2 * (edwardsA + edwardsD) * powInverse (edwardsA - edwardsD) % P

def a24Minus : ℤ := (montgomeryA - 2) * powInverse 4 % P

def encodeU (value : ℤ) : Except Failure (Bytes 38) :=
  if 0 ≤ value ∧ value < P then .ok ⟨leBytes 38 value.toNat, leBytes_length 38 _⟩
  else .error .uIsNotCanonical

def decodeU (encoded : List UInt8) : Except Failure ℤ :=
  match toArray 38 encoded with
  | none => .error .length
  | some encoded =>
    let masked := Fe301.modifyLast encoded (· &&& 0x1f)
    let value : ℤ := bytesValue masked.1
    .ok (if value ≥ P then value - P else value)

def clampScalar (secret : List UInt8) : Except Failure ℕ :=
  match toArray 38 secret with
  | none => .error .secretLength
  | some secret =>
    let clamped : Bytes 38 := (secret.head &&& 0xfc) ::ᵥ secret.tail
    let clamped := Fe301.modifyLast clamped fun last => (last &&& 0x0f) ||| 0x10
    .ok (bytesValue clamped.1)

structure LadderState where
  x2 : ℤ
  z2 : ℤ
  x3 : ℤ
  z3 : ℤ
  swap : Bool

def ladderRound (scalar : ℕ) (x1 : ℤ) (s : LadderState) (bitIndex : ℕ) : LadderState :=
  let bit := scalar.testBit bitIndex
  let (x2, x3) := if s.swap ^^ bit then (s.x3, s.x2) else (s.x2, s.x3)
  let (z2, z3) := if s.swap ^^ bit then (s.z3, s.z2) else (s.z2, s.z3)
  let a := (x2 + z2) % P
  let aa := a * a % P
  let b := (x2 - z2) % P
  let bb := b * b % P
  let e := (aa - bb) % P
  let c := (x3 + z3) % P
  let d := (x3 - z3) % P
  let da := d * a % P
  let cb := c * b % P
  { x3 := (da + cb) ^ 2 % P
    z3 := x1 * (da - cb) ^ 2 % P
    x2 := aa * bb % P
    z2 := e * (aa + a24Minus * e) % P
    swap := bit }

def montgomeryLadder (scalar : ℕ) (u : ℤ) : ℤ × ℤ :=
  let s := (List.range 301).reverse.foldl (ladderRound scalar u) ⟨1, 0, u, 1, false⟩
  if s.swap then (s.x3, s.z3) else (s.x2, s.z2)

def x301 (secret encodedU : List UInt8) : Except Failure (Bytes 38) := do
  let scalar ← clampScalar secret
  let u ← decodeU encodedU
  let (x, z) := montgomeryLadder scalar u
  if z = 0 then throw .allZero
  let output := x * (← inverse z) % P
  let encoded ← encodeU output
  if ¬encoded.1.any (· != 0) then throw .allZero
  return encoded

end X301Provider.Reference
