import X301Provider.Field.Fe301

/-!
# Scalars modulo the group order

Scalars are 320-bit integers below `L`. Reduction, addition and multiplication
come from the external big-integer backend, whose Montgomery form is the ring of
integers modulo `L`.
-/

namespace X301Provider

open Limbs

/-- A 320-bit unsigned integer of the backend. -/
abbrev U320 := BitVec 320

/-- The Montgomery form of the backend. -/
abbrev MontgomeryScalar := ZMod L

namespace MontgomeryScalar

def new (integer : U320) : MontgomeryScalar := (integer.toNat : ZMod L)

def retrieve (x : MontgomeryScalar) : U320 := BitVec.ofNat 320 x.val

end MontgomeryScalar

structure Scalar where
  integer : U320
  deriving DecidableEq

/-- The widths of the recoding whose digits fit in `i8`. -/
abbrev WnafWidth := { width : ℕ // 2 ≤ width ∧ width ≤ 8 }

namespace Scalar

def uintFromLe38 (bytes : Bytes 38) : U320 := BitVec.ofNat 320 (bytesValue bytes.1)

def zero : Scalar := ⟨0⟩

def fromCanonicalBytes (bytes : Bytes 38) : CtOption Scalar :=
  let integer := uintFromLe38 bytes
  ⟨⟨integer⟩, decide (integer.toNat < L)⟩

def reducePrunedLe (bytes : Bytes 38) : Scalar :=
  ⟨(MontgomeryScalar.new (uintFromLe38 bytes)).retrieve⟩

/-- `2 ^ 304` in Montgomery form. -/
def radix304 : MontgomeryScalar := MontgomeryScalar.new (BitVec.ofNat 320 (2 ^ 304))

def lowHalf (bytes : Bytes 76) : Bytes 38 := ⟨bytes.1.take 38, by simp [bytes.2]⟩

def highHalf (bytes : Bytes 76) : Bytes 38 := ⟨bytes.1.drop 38, by simp [bytes.2]⟩

def reduceHashLe (bytes : Bytes 76) : Scalar :=
  let low := uintFromLe38 (lowHalf bytes)
  let high := uintFromLe38 (highHalf bytes)
  let lowReduced := MontgomeryScalar.new low
  let highReduced := MontgomeryScalar.new high
  let highShifted := highReduced * radix304
  let combined := highShifted + lowReduced
  ⟨combined.retrieve⟩

def toWords (integer : U320) : Words 5 :=
  ⟨leWords 5 integer.toNat, leWords_length 5 integer.toNat⟩

/-- The bytes of the words, cut to 38. -/
def writeCanonicalBytes (s : Scalar) : Bytes 38 :=
  ⟨((toWords s.integer).1.flatMap wordToBytes).take 38, by
    rw [List.length_take, List.length_flatMap]
    simp [(toWords s.integer).2]⟩

/-- `add_mod` of the backend: one conditional subtraction of the modulus. -/
def add (x y : Scalar) : Scalar :=
  let sum := x.integer.toNat + y.integer.toNat
  ⟨BitVec.ofNat 320 (if sum < L then sum else sum - L)⟩

def mul (x y : Scalar) : Scalar :=
  let left := MontgomeryScalar.new x.integer
  let right := MontgomeryScalar.new y.integer
  ⟨(left * right).retrieve⟩

def bit (s : Scalar) (index : ℕ) : Bool := s.integer.getLsbD index

/-- The recoding loop on the remaining positions. -/
def wnafFrom (width : ℕ) : ℕ → U320 → List Int8
  | 0, _ => []
  | count + 1, value =>
    if value.getLsbD 0 then
      let radix := 1 <<< width
      let half := radix >>> 1
      let mask := radix - 1
      let low := (value.setWidth 64).toNat &&& mask
      let digit : ℤ := if low ≥ half then (low : ℤ) - radix else low
      let value :=
        if digit < 0 then value + BitVec.ofNat 320 (-digit).toNat
        else value - BitVec.ofNat 320 digit.toNat
      Int8.ofInt digit :: wnafFrom width count (value >>> 1)
    else 0 :: wnafFrom width count (value >>> 1)

def vartimeWnaf (s : Scalar) (width : WnafWidth) : List Int8 :=
  wnafFrom width (fieldBits + 1) s.integer

end Scalar

end X301Provider
