import X301Provider.Edwards.Point

/-!
# Scalar multiplication

The normalized tables, the constant-time fixed-base multiplication over signed
radix-16 digits and the add-always ladder. Normalization shares one inversion:
prefix products are built going down the list and the inverse is unwound on the
way back.
-/

namespace X301Provider

open EdwardsPoint

section Normalize

variable (mul : Fe301 → Fe301 → Fe301) (invert : Fe301 → Fe301)
  (fromProjective : EdwardsPoint → Fe301 → AffineNielsPoint)

/-- The outputs from a prefix product on, and the inverse of that prefix. -/
def batchNormalizeFrom (product : Fe301) : List EdwardsPoint → List AffineNielsPoint × Fe301
  | [] => ([], invert product)
  | point :: points =>
    let (output, inverse) := batchNormalizeFrom (mul product point.z) points
    (fromProjective point (mul inverse product) :: output, mul inverse point.z)

end Normalize

def batchNormalizeConst (points : List EdwardsPoint) : List AffineNielsPoint :=
  (batchNormalizeFrom Fe301.mulConst Fe301.invertConstNonzero
    AffineNielsPoint.fromProjectiveConst .one points).1

def batchNormalize [ModularInverse] (points : List EdwardsPoint) : List AffineNielsPoint :=
  (batchNormalizeFrom Fe301.mul (fun product => product.invert.value)
    AffineNielsPoint.fromProjective .one points).1

/-- The points `point, point + step, ..., point + (count - 1) * step`. -/
def progression (add : EdwardsPoint → EdwardsPoint → EdwardsPoint) (step : EdwardsPoint) :
    ℕ → EdwardsPoint → List EdwardsPoint
  | 0, _ => []
  | count + 1, point => point :: progression add step count (add point step)

/-- Rows of the multiples `1` to `8` of `256 ^ row` times the base of the first row. -/
def basepointRows : ℕ → EdwardsPoint → List EdwardsPoint
  | 0, _ => []
  | rows + 1, rowBase =>
    progression addConst rowBase 8 rowBase ++ basepointRows rows (doubleConst^[8] rowBase)

def basepointTableRows : ℕ := fieldBytes

@[irreducible] def basepointTable : List AffineNielsPoint :=
  batchNormalizeConst (basepointRows basepointTableRows basepoint)

@[irreducible] def basepointOddTable : List AffineNielsPoint :=
  batchNormalizeConst (progression addConst basepoint.doubleConst 64 basepoint)

def buildVartimeOddPointTable [ModularInverse] (point : EdwardsPoint) : List AffineNielsPoint :=
  batchNormalize (progression add point.double 64 point)

def radix16Digits (scalar : Bytes 38) : List Int8 :=
  (List.range 76).map fun index =>
    ((scalar.1.getD (index >>> 1) 0 >>> UInt8.ofNat ((index &&& 1) <<< 2)) &&& 0x0f).toInt8

/-- Carry every digit but the last into `[-8, 8)`. -/
def carryDigits : List Int8 → List Int8
  | digit :: next :: rest =>
    let carry := (digit + 8) >>> 4
    (digit - (carry <<< 4)) :: carryDigits ((next + carry) :: rest)
  | digits => digits
termination_by digits => digits.length

def signedRadix16 (scalar : Bytes 38) : List Int8 := carryDigits (radix16Digits scalar)

/-- The absolute value of a digit, by its sign mask. -/
def digitMagnitude (digit : Int8) : UInt8 :=
  let signed := digit.toInt16
  let signMask := signed >>> 15
  ((signed ^^^ signMask) - signMask).toInt8.toUInt8

/-- Scan the eight entries of a row and select the multiple by the digit. -/
def selectBasepoint (row : ℕ) (digit : Int8) : AffineNielsPoint :=
  let negative := (digit.toUInt8 >>> 7) &&& 1 == 1
  let selected := (List.range 8).foldl (fun selected entry =>
    AffineNielsPoint.conditionalSelect selected
      (basepointTable.getD (row * 8 + entry) .identity)
      (digitMagnitude digit == UInt8.ofNat (entry + 1))) .identity
  .conditionalSelect selected selected.negate negative

namespace EdwardsPoint

/-- Odd digits, four doublings, even digits. -/
def scalarMulBaseEncoded (scalar : Bytes 38) : EdwardsPoint :=
  let digits := signedRadix16 scalar
  let addDigit := fun (result : EdwardsPoint) (digitIndex : ℕ) =>
    result.addAffine (selectBasepoint (digitIndex >>> 1) (digits.getD digitIndex 0))
  let result := (List.range' 1 38 2).foldl addDigit identity
  let result := result.double.double.double.double
  (List.range' 0 38 2).foldl addDigit result

def scalarMulBasePruned (scalar : Bytes 38) : EdwardsPoint := scalarMulBaseEncoded scalar

def scalarMulWith (p : EdwardsPoint) (scalarBit : ℕ → Bool) : EdwardsPoint :=
  (List.range 301).reverse.foldl (fun accumulator bitIndex =>
    let doubled := accumulator.double
    let added := doubled.add p
    conditionalSelect doubled added (scalarBit bitIndex)) identity

/-- The add-always ladder on an encoded integer. -/
def scalarMulEncoded (p : EdwardsPoint) (scalar : Bytes 38) : EdwardsPoint :=
  p.scalarMulWith fun bitIndex =>
    ((scalar.1.getD (bitIndex >>> 3) 0) >>> UInt8.ofNat (bitIndex &&& 7)) &&& 1 == 1

end EdwardsPoint

end X301Provider
