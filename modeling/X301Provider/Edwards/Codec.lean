import X301Provider.Edwards.ScalarMul

/-!
# Point encodings

Compressed Edwards encodings carry `y` in 301 bits, two reserved zero bits and
the parity of `x` in the top bit. The Montgomery artifact is the `u`-coordinate
of the same point.
-/

namespace X301Provider

structure EdwardsPointError where
  deriving DecidableEq

namespace EdwardsPoint

open Fe301 (modifyLast)

def encodeComponents [ModularInverse] (p : EdwardsPoint) :
    Except EdwardsPointError (Bytes 38 × Fe301 × Fe301) :=
  if !p.isValid then .error ⟨⟩
  else
    let inverse := p.z.invert
    if !inverse.isSome then .error ⟨⟩
    else
      let affineX := p.x.mul inverse.value
      let affineY := p.y.mul inverse.value
      let encoded := modifyLast affineY.toCanonicalBytes (· ||| affineX.isOdd.toUInt8 <<< 7)
      .ok (encoded, affineX, affineY)

def encode [ModularInverse] (p : EdwardsPoint) : Except EdwardsPointError (Bytes 38) :=
  p.encodeComponents.map fun (encoded, _, _) => encoded

/-- `encode` on a secret-derived point. -/
def encodePublicArtifact [ModularInverse] (p : EdwardsPoint) :
    Except EdwardsPointError (Bytes 38) := p.encode

/-- The encoding together with the affine point, without decoding again. -/
def canonicalPublicArtifact [ModularInverse] (p : EdwardsPoint) :
    Except EdwardsPointError (Bytes 38 × EdwardsPoint) :=
  p.encodeComponents.map fun (encoded, affineX, affineY) => (encoded, fromAffine affineX affineY)

/-- The coordinate `u = (Z + Y) / (Z - Y)`. -/
def montgomeryUPublicArtifact [ModularInverse] (p : EdwardsPoint) :
    Except EdwardsPointError (Bytes 38) :=
  if !p.isValid then .error ⟨⟩
  else
    let numerator := p.z.add p.y
    let denominator := p.z.sub p.y
    let inverse := denominator.invert
    if !inverse.isSome then .error ⟨⟩
    else
      let coordinate := numerator.mul inverse.value
      if coordinate.isZero then .error ⟨⟩ else .ok coordinate.toCanonicalBytes

/-- The point with a given `y` and the given parity of `x`: the second half of `decode`. -/
def recover (y : Fe301) (sign : Bool) : Except EdwardsPointError EdwardsPoint :=
  let yy := y.square
  let numerator := Fe301.one.sub yy
  let denominator := (Fe301.fromU64 edwardsAWord.toUInt64).sub (yy.mulSmall edwardsDWord)
  match (Fe301.sqrtRatio numerator denominator).toOption with
  | none => .error ⟨⟩
  | some root =>
    if root.isZero && sign then .error ⟨⟩
    else
      let negate := root.isOdd ^^ sign
      let x := Fe301.conditionalSelect root root.neg negate
      let point := fromAffine x y
      if !point.isValid then .error ⟨⟩ else .ok point

/-- Decode a canonical encoding; identity, torsion and mixed order are accepted. -/
def decode (encoded : Bytes 38) : Except EdwardsPointError EdwardsPoint :=
  if encoded.get 37 &&& 0x60 != 0 then .error ⟨⟩
  else
    let sign := (encoded.get 37 >>> 7) &&& 1 == 1
    match (Fe301.fromCanonicalBytes (modifyLast encoded (· &&& 0x1f))).toOption with
    | none => .error ⟨⟩
    | some y => recover y sign

end EdwardsPoint

end X301Provider
