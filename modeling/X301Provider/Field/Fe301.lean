import X301Provider.Field.FieldLimbs

/-!
# Field elements in five limbs

The canonical element `Fe301`, the ladder representative `Fe301Lazy` below `2p`
and the unreduced sum `Fe301LazyLinear` below `4p`. A `Choice` is a Boolean, and
a `CtOption` carries its value even when it is absent.
-/

namespace X301Provider

open Limbs

/-- A constant-time option: the value is there in either case. -/
structure CtOption (α : Type*) where
  value : α
  isSome : Bool

def CtOption.toOption {α : Type*} (x : CtOption α) : Option α :=
  if x.isSome then some x.value else none

/-- The modular inversion of the external big-integer backend. Its value at zero is
unspecified. -/
class ModularInverse where
  invert : Fp → CtOption Fp
  isSome_eq : ∀ x, (invert x).isSome = decide (x ≠ 0)
  value_eq : ∀ x, x ≠ 0 → (invert x).value = x⁻¹

/-- The backend that returns zero at zero. -/
@[reducible] def ModularInverse.zeroAtZero : ModularInverse where
  invert x := ⟨x⁻¹, decide (x ≠ 0)⟩
  isSome_eq _ := rfl
  value_eq _ _ := rfl

structure Fe301 where
  limbs : Words 5
  deriving DecidableEq

structure Fe301Lazy where
  limbs : Words 5
  deriving DecidableEq

structure Fe301LazyLinear where
  limbs : Words 5
  deriving DecidableEq

namespace Fe301

def zero : Fe301 := ⟨⟨[0, 0, 0, 0, 0], rfl⟩⟩

def one : Fe301 := ⟨⟨[1, 0, 0, 0, 0], rfl⟩⟩

def fromCanonicalBytes (bytes : Bytes 38) : CtOption Fe301 :=
  let limbs := decodeLimbs bytes
  ⟨⟨limbs⟩, lsb (subtractLimbsRuntime limbs modulus).2⟩

def modifyLast (bytes : Bytes 38) (f : UInt8 → UInt8) : Bytes 38 :=
  ⟨bytes.1.take 37 ++ [f (bytes.get 37)], by simp [bytes.2]⟩

def fromX301Bytes (bytes : Bytes 38) : Fe301 :=
  ⟨conditionalSubtractModulusCt (decodeLimbs (modifyLast bytes (· &&& 0x1f)))⟩

def fromU64 (value : UInt64) : Fe301 := ⟨⟨[value, 0, 0, 0, 0], rfl⟩⟩

def fromCanonicalWords (words : Words 5) : Fe301 := ⟨words⟩

def toCanonicalBytes (x : Fe301) : Bytes 38 :=
  ⟨(x.limbs.1.flatMap wordToBytes).take 38, by
    rw [List.length_take, List.length_flatMap]
    simp [x.limbs.2]⟩

def add (x y : Fe301) : Fe301 :=
  ⟨conditionalSubtractModulusCt (addLimbs x.limbs y.limbs).1⟩

def sub (x y : Fe301) : Fe301 :=
  let (difference, borrow) := subtractLimbsRuntime x.limbs y.limbs
  let corrected := (addLimbs difference modulus).1
  ⟨if lsb borrow then corrected else difference⟩

def neg (x : Fe301) : Fe301 := zero.sub x

def mul (x y : Fe301) : Fe301 := ⟨reduceWide (multiplyWide x.limbs y.limbs)⟩

def mulSmall (x : Fe301) (value : UInt32) : Fe301 :=
  ⟨conditionalSubtractModulusCt
    (reduceSmallProductUnreduced (multiplyFiveByU32 x.limbs value))⟩

def square (x : Fe301) : Fe301 := ⟨reduceWide (squareWide x.limbs)⟩

def addConst (x y : Fe301) : Fe301 :=
  ⟨conditionalSubtractModulusConst (addLimbs x.limbs y.limbs).1⟩

def subConst (x y : Fe301) : Fe301 :=
  let (difference, borrow) := subtractLimbs x.limbs y.limbs
  let mask := 0 - borrow
  let masked : Words 5 := modulus.map (· &&& mask)
  ⟨(addLimbs difference masked).1⟩

def mulConst (x y : Fe301) : Fe301 := ⟨reduceWideConst (multiplyWide x.limbs y.limbs)⟩

def mulSmallConst (x : Fe301) (value : UInt32) : Fe301 := x.mulConst (fromU64 value.toUInt64)

def squareConst (x : Fe301) : Fe301 := ⟨reduceWideConst (squareWide x.limbs)⟩

def isOdd (x : Fe301) : Bool := lsb x.limbs.head

def ctEq (x y : Fe301) : Bool :=
  (List.zipWith (· ^^^ ·) x.limbs.1 y.limbs.1).foldl (· ||| ·) 0 == 0

def isZero (x : Fe301) : Bool := x.ctEq zero

def conditionalSelect (whenFalse whenTrue : Fe301) (choice : Bool) : Fe301 :=
  if choice then whenTrue else whenFalse

/-- The element of the generic Montgomery backend with the same encoding. -/
def oracle (x : Fe301) : Fp := bytesValue x.toCanonicalBytes.1

/-- The encoding of an element of the Montgomery backend. -/
def oracleBytes (x : Fp) : Bytes 38 := ⟨leBytes 38 x.val, leBytes_length 38 _⟩

def invert [ModularInverse] (x : Fe301) : CtOption Fe301 :=
  let inverse := ModularInverse.invert x.oracle
  ⟨(fromCanonicalBytes (oracleBytes inverse.value)).value, inverse.isSome⟩

/-- `p - 2`. -/
def inversionExponent : Words 5 :=
  ⟨[0x00000000000003b1, 0xfffffff800000000, 0xffffffffffffffff, 0xffffffffffffffff,
    0x00001fffffffffff], rfl⟩

/-- `(p - 3) / 4`. -/
def sqrtRatioExponent : Words 5 :=
  ⟨[0x00000000000000ec, 0xfffffffe00000000, 0xffffffffffffffff, 0xffffffffffffffff,
    0x000007ffffffffff], rfl⟩

section Power

variable (mul : Fe301 → Fe301 → Fe301) (square : Fe301 → Fe301)

/-- Entry `n` of the window table. -/
def windowPower (base : Fe301) : ℕ → Fe301
  | 0 => one
  | n + 1 => mul (windowPower base n) base

def windowDigit (exponent : Words 5) (window : ℕ) : ℕ :=
  (((exponent.1.getD (window >>> 4) 0) >>> UInt64.ofNat ((window &&& 15) <<< 2)) &&& 15).toNat

def powStep (base : Fe301) (exponent : Words 5) (result : Fe301) (window : ℕ) : Fe301 :=
  let raised := square (square (square (square result)))
  let digit := windowDigit exponent window
  if digit ≠ 0 then mul raised (windowPower mul base digit) else raised

/-- Fixed four-bit windows from the top; the two arithmetics differ only in `mul` and
`square`. -/
def powWindows (base : Fe301) (exponent : Words 5) (exponentBits : ℕ) : Fe301 :=
  (List.range ((exponentBits + 3) / 4)).reverse.foldl (powStep mul square base exponent) one

end Power

def powFixedWindow4 (x : Fe301) (exponent : Words 5) (exponentBits : ℕ) : Fe301 :=
  powWindows mul square x exponent exponentBits

def powFixedWindow4Const (x : Fe301) (exponent : Words 5) (exponentBits : ℕ) : Fe301 :=
  powWindows mulConst squareConst x exponent exponentBits

def invertConstNonzero (x : Fe301) : Fe301 := x.powFixedWindow4Const inversionExponent 301

/-- A verified square root of `numerator / denominator`. -/
def sqrtRatio (numerator denominator : Fe301) : CtOption Fe301 :=
  let product := numerator.mul denominator
  let candidate := numerator.mul (product.powFixedWindow4 sqrtRatioExponent 299)
  let isRoot := (candidate.square.mul denominator).ctEq numerator && !denominator.isZero
  ⟨candidate, isRoot⟩

end Fe301

namespace Fe301Lazy

def one : Fe301Lazy := ⟨⟨[1, 0, 0, 0, 0], rfl⟩⟩

def fromFe301 (value : Fe301) : Fe301Lazy := ⟨value.limbs⟩

def canonical (x : Fe301Lazy) : Fe301 := ⟨conditionalSubtractModulusCt x.limbs⟩

def addLoose (x y : Fe301Lazy) : Fe301LazyLinear := ⟨(addLimbs x.limbs y.limbs).1⟩

/-- `x + 2p - y`. -/
def subLoose (x y : Fe301Lazy) : Fe301LazyLinear :=
  let augmented := (addLimbs x.limbs modulusTimesTwo).1
  ⟨(subtractLimbsRuntime augmented y.limbs).1⟩

def mul (x y : Fe301Lazy) : Fe301Lazy := ⟨reduceWideUnreduced (multiplyWide x.limbs y.limbs)⟩

def square (x : Fe301Lazy) : Fe301Lazy := ⟨reduceWideUnreduced (squareWide x.limbs)⟩

def mulSmall (x : Fe301Lazy) (value : UInt32) : Fe301Lazy :=
  ⟨reduceSmallProductUnreduced (multiplyFiveByU32 x.limbs value)⟩

def invert [ModularInverse] (x : Fe301Lazy) : CtOption Fe301Lazy :=
  let inverse := x.canonical.invert
  ⟨⟨inverse.value.limbs⟩, inverse.isSome⟩

def isZero (x : Fe301Lazy) : Bool := x.canonical.isZero

def toCanonicalBytes (x : Fe301Lazy) : Bytes 38 := x.canonical.toCanonicalBytes

def conditionalSwap (left right : Fe301Lazy) (choice : Bool) : Fe301Lazy × Fe301Lazy :=
  if choice then (right, left) else (left, right)

end Fe301Lazy

namespace Fe301LazyLinear

def mul (x y : Fe301LazyLinear) : Fe301Lazy :=
  ⟨reduceWideUnreduced (multiplyWide x.limbs y.limbs)⟩

def square (x : Fe301LazyLinear) : Fe301Lazy := ⟨reduceWideUnreduced (squareWide x.limbs)⟩

def mulTight (x : Fe301LazyLinear) (y : Fe301Lazy) : Fe301Lazy :=
  ⟨reduceWideUnreduced (multiplyWide x.limbs y.limbs)⟩

def mulSmall (x : Fe301LazyLinear) (value : UInt32) : Fe301Lazy :=
  ⟨reduceSmallProductUnreduced (multiplyFiveByU32 x.limbs value)⟩

def tighten (x : Fe301LazyLinear) : Fe301Lazy :=
  let (reduced, borrow) := subtractLimbsRuntime x.limbs modulusTimesTwo
  ⟨if lsb (borrow ^^^ 1) then reduced else x.limbs⟩

end Fe301LazyLinear

end X301Provider
