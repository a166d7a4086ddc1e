import Mathlib.Data.Vector.Zip
import X301Provider.Library.Bytes
import X301Provider.Library.LimbProducts
import X301Provider.Library.LimbSubtraction
import X301Provider.Parameters

/-!
# Five-limb words

The word-level routines of the field core on `[u64; 5]` and on double-width
products. Loops over limbs are carry chains; an array that a loop fills from the
bottom is the list of its words.
-/

namespace X301Provider

open Limbs

def modulus : Words 5 :=
  ⟨[0x00000000000003b3, 0xfffffff800000000, 0xffffffffffffffff, 0xffffffffffffffff,
    0x00001fffffffffff], rfl⟩

def modulusTimesTwo : Words 5 :=
  ⟨[0x0000000000000766, 0xfffffff000000000, 0xffffffffffffffff, 0xffffffffffffffff,
    0x00003fffffffffff], rfl⟩

def topMask : UInt64 := 0x00001fffffffffff

def foldSubtrahend : ℕ := 947

/-- The two limbs of the positive fold constant `2 ^ 99 - 947`. -/
def foldConstantLow : UInt64 := 0 - 947
def foldConstantHigh : UInt64 := ((1 : UInt64) <<< 35) - 1

def addLimbs (left right : Words 5) : Words 5 × UInt64 :=
  let pass := carryChain (List.zipWith (fun l r => l.toNat + r.toNat) left.1 right.1) 0
  (⟨pass.1, by simp [pass, left.2, right.2]⟩, pass.2)

/-- Subtract two words and a zero-one borrow with wrapping and bitwise operations. -/
def subWithBorrow (left right borrow : UInt64) : UInt64 × UInt64 :=
  let first := left - right
  let firstBorrow := (((~~~left &&& right) ||| ((~~~left ||| right) &&& first)) >>> 63) &&& 1
  let difference := first - borrow
  let secondBorrow :=
    (((~~~first &&& borrow) ||| ((~~~first ||| borrow) &&& difference)) >>> 63) &&& 1
  (difference, firstBorrow ||| secondBorrow)

def subWithBorrowRuntime (left right borrow : UInt64) : UInt64 × UInt64 :=
  let incoming := (borrow != 0).toUInt64
  (left - right - incoming,
    (decide (left.toNat < right.toNat + incoming.toNat)).toUInt64)

def subtractLimbs (left right : Words 5) : Words 5 × UInt64 :=
  let pass := borrowChain subWithBorrow left.1 right.1 0
  (⟨pass.1, by rw [borrowChain_length _ (left.2.trans right.2.symm), left.2]⟩, pass.2)

def subtractLimbsRuntime (left right : Words 5) : Words 5 × UInt64 :=
  let pass := borrowChain subWithBorrowRuntime left.1 right.1 0
  (⟨pass.1, by rw [borrowChain_length _ (left.2.trans right.2.symm), left.2]⟩, pass.2)

/-- `Choice::from_u8_lsb` of a borrow word. -/
def lsb (word : UInt64) : Bool := word &&& 1 == 1

def conditionalSubtractModulusConst (input : Words 5) : Words 5 :=
  let (reduced, borrow) := subtractLimbs input modulus
  let mask := 0 - (borrow ^^^ 1)
  List.Vector.zipWith (fun i r : UInt64 => (i &&& ~~~mask) ||| (r &&& mask)) input reduced

def conditionalSubtractModulusCt (input : Words 5) : Words 5 :=
  let (reduced, borrow) := subtractLimbsRuntime input modulus
  if lsb (borrow ^^^ 1) then reduced else input

def multiplyWide (left right : Words 5) : Words 10 :=
  ⟨mulRows right.1 left.1 (List.replicate 5 0), by
    rw [mulRows_length (by rw [List.length_replicate, right.2]), left.2, right.2]⟩

def squareWide (value : Words 5) : Words 10 :=
  ⟨squareRows value.1, by
    have hWords : value.1 ≠ [] := by
      intro hNil
      have hLength := value.2
      rw [hNil] at hLength
      cases hLength
    rw [(squareRows_spec hWords).1, value.2]⟩

def multiplyFiveByU32 (value : Words 5) (multiplier : UInt32) : Words 6 :=
  let pass := carryChain (value.1.map fun v => v.toNat * multiplier.toNat) 0
  ⟨pass.1 ++ [pass.2], by simp [pass, value.2]⟩

/-- The words below bit 301. -/
def foldLow {n : ℕ} (words : Words (n + 5)) : Words 5 :=
  ⟨words.1.take 4 ++ [words.get ⟨4, by omega⟩ &&& topMask], by simp [words.2]⟩

/-- The words from bit 301 on, each joined from two neighbours. -/
def foldHigh {n : ℕ} (words : Words (n + 5)) : Words n :=
  ⟨List.zipWith (fun word next : UInt64 => (word >>> 45) ||| (next <<< 19))
    (words.1.drop 4) (words.1.drop 5), by simp [words.2]⟩

def reduceSmallProductUnreduced (product : Words 6) : Words 5 :=
  let high := (foldHigh product).head
  let low := foldLow product
  let addLow := high <<< 35
  let addHigh := high >>> 29
  let sums := (carryChain [(low.get 1).toNat + addLow.toNat, (low.get 2).toNat + addHigh.toNat,
    (low.get 3).toNat, (low.get 4).toNat] 0).1
  let penalty := u128 (high.toNat * foldSubtrahend)
  ⟨(borrowChain subWithBorrowRuntime (low.head :: sums) [lo penalty, 0, 0, 0, 0] 0).1, by
    rw [borrowChain_length] <;> simp [sums]⟩

/-- Columns of a fold: a word of the high part times a constant while there is one. -/
def foldColumns (constant : UInt64) : List UInt64 → List UInt64 → List ℕ
  | out :: output, word :: high =>
    (out.toNat + word.toNat * constant.toNat) :: foldColumns constant output high
  | output, _ => output.map UInt64.toNat

@[simp] theorem foldColumns_length (constant : UInt64) (output high : List UInt64) :
    (foldColumns constant output high).length = output.length := by
  induction output generalizing high with
  | nil => cases high <;> rfl
  | cons out output ih =>
    cases high with
    | nil => simp [foldColumns]
    | cons word high => simp [foldColumns, ih]

/-- `low + high * K`, with one carry chain for each limb of `K`. -/
def accumulateFold {n : ℕ} (low : Words 5) (high : Words n) (output : ℕ) : Words output :=
  let start := (low.1 ++ List.replicate output 0).take output
  let first := (carryChain (foldColumns foldConstantLow start high.1) 0).1
  let second := first.take 1 ++
    (carryChain (foldColumns foldConstantHigh (first.drop 1) high.1) 0).1
  ⟨second, by simp [second, first, start]; omega⟩

def reduceWideUnreduced (product : Words 10) : Words 5 :=
  let firstFold := accumulateFold (foldLow product) (foldHigh product) 7
  accumulateFold (foldLow firstFold) (foldHigh firstFold) 5

def reduceWide (product : Words 10) : Words 5 :=
  conditionalSubtractModulusCt (reduceWideUnreduced product)

def reduceWideConst (product : Words 10) : Words 5 :=
  conditionalSubtractModulusConst (reduceWideUnreduced product)

/-- Thirty-eight bytes in five words; the top word takes six of them. -/
def decodeLimbs (bytes : Bytes 38) : Words 5 :=
  ⟨wordsOfBytes 5 bytes.1, wordsOfBytes_length 5 _⟩

end X301Provider
