import X301Provider.Edwards.ScalarMul
import X301Provider.Signature.Scalar

/-!
# Variable-time multiplication for verification

Signed additions from tables of odd multiples, the interleaved double scalar
multiplication and the two fixed schedules that multiply by the group order.
-/

namespace X301Provider

def wnafWidth : WnafWidth := ⟨8, by decide⟩

/-- Add a signed odd multiple from a table; the index `|digit| / 2` is in range. -/
def vartimeAddSigned (accumulator : EdwardsPoint) (digit : Int8)
    (table : List AffineNielsPoint) (negateScalar : Bool) : EdwardsPoint :=
  if digit = 0 then accumulator
  else
    let magnitude := digit.toInt.natAbs
    let addend := table.getD (magnitude >>> 1) .identity
    let addend := if decide (digit < 0) ^^ negateScalar then addend.negate else addend
    accumulator.addAffine addend

/-- The schedule of the prime order in width-8 form, from the top: positions and digits. -/
def primeOrderWnaf8Desc : List (ℕ × Int8) :=
  [(299, 1), (149, 1), (141, -73), (131, -103), (119, 17), (111, 37), (99, 19), (91, 9), (82, -1),
    (73, -91), (65, 25), (57, -109), (45, 23), (37, 29), (28, 29), (17, 95), (9, 75), (0, 3)]

/-- The set bits of the prime order, from the top. -/
def primeOrderSetBitsDesc : List ℕ :=
  [299, 148, 146, 145, 143, 142, 140, 139, 138, 135, 134, 131, 123, 119, 116, 113, 111, 103, 100,
    99, 94, 90, 89, 88, 87, 86, 85, 84, 83, 81, 80, 78, 75, 73, 69, 68, 64, 61, 58, 57, 49, 47, 46,
    45, 41, 40, 39, 37, 32, 31, 30, 28, 23, 21, 20, 19, 18, 17, 15, 12, 10, 9, 1, 0]

namespace EdwardsPoint

/-- Double down to a position, then add; the accumulator carries its position. -/
def scheduleStep {α : Type*} (addDigit : EdwardsPoint → α → EdwardsPoint)
    (state : EdwardsPoint × ℕ) (entry : ℕ × α) : EdwardsPoint × ℕ :=
  (addDigit (double^[state.2 - entry.1] state.1) entry.2, min state.2 entry.1)

def isPrimeSubgroupWithTable (p : EdwardsPoint) (table : List AffineNielsPoint) : Bool :=
  let addDigit := fun accumulator digit => vartimeAddSigned accumulator digit table false
  let leading := primeOrderWnaf8Desc.headD (0, 0)
  let (accumulator, _) :=
    primeOrderWnaf8Desc.tail.foldl (scheduleStep addDigit) (p, leading.1)
  accumulator.isIdentity

def scalarMulPrimeOrderSparse (p : EdwardsPoint) : EdwardsPoint :=
  let addSelf := fun (accumulator : EdwardsPoint) (_ : Unit) => accumulator.add p
  let leading := primeOrderSetBitsDesc.headD 0
  ((primeOrderSetBitsDesc.tail.map fun bit => (bit, ())).foldl (scheduleStep addSelf)
    (p, leading)).1

def isPrimeSubgroup (p : EdwardsPoint) : Bool := p.scalarMulPrimeOrderSparse.isIdentity

def isPrimeSubgroupNonidentity (p : EdwardsPoint) : Bool := !p.isIdentity && p.isPrimeSubgroup

/-- The highest position at or below `top` with a nonzero digit, or zero. -/
def topPosition (baseDigits pointDigits : List Int8) : ℕ → ℕ
  | 0 => 0
  | top + 1 =>
    if baseDigits.getD (top + 1) 0 = 0 ∧ pointDigits.getD (top + 1) 0 = 0 then
      topPosition baseDigits pointDigits top
    else top + 1

/-- `baseScalar * B - pointScalar * point`, from the table of the point. -/
def vartimeDoubleScalarMulBasepoint (baseScalar pointScalar : Scalar)
    (pointTable : List AffineNielsPoint) : EdwardsPoint :=
  let baseDigits := baseScalar.vartimeWnaf wnafWidth
  let pointDigits := pointScalar.vartimeWnaf wnafWidth
  let top := topPosition baseDigits pointDigits fieldBits
  (List.range (top + 1)).reverse.foldl (fun result position =>
    let result := result.double
    let result := vartimeAddSigned result (baseDigits.getD position 0) basepointOddTable false
    vartimeAddSigned result (pointDigits.getD position 0) pointTable true) identity

def prepareVartimeTable [ModularInverse] (p : EdwardsPoint) : List AffineNielsPoint :=
  buildVartimeOddPointTable p

end EdwardsPoint

end X301Provider
