import Mathlib.Data.Fin.VecNotation
import X301Provider.Library.ArraySweeps
import X301Provider.Shake.Shake

/-!
# The Keccak permutations in software

The permutation over lanes of any width, on one array that every step mapping changes in
place.
-/

namespace X301Provider

open Limbs

/-- A lane type with the number of rounds of its permutation. -/
class LaneSize (L : Type) extends XorOp L, AndOp L, Complement L where
  default : L
  keccakFRoundCount : ℕ
  truncateRc : UInt64 → L
  rotateLeft : L → ℕ → L

namespace Keccak

def f200Rounds : ℕ := 18
def f400Rounds : ℕ := 20
def f800Rounds : ℕ := 22
def f1600Rounds : ℕ := 24

def rho : List ℕ :=
  [1, 3, 6, 10, 15, 21, 28, 36, 45, 55, 2, 14, 27, 41, 56, 8, 25, 43, 62, 18, 39, 61, 20, 44]

def pi : List (Fin 25) :=
  [10, 7, 11, 17, 18, 3, 5, 16, 8, 21, 24, 4, 15, 23, 19, 13, 12, 2, 20, 14, 22, 9, 6, 1]

def rc : List UInt64 :=
  [0x0000000000000001, 0x0000000000008082, 0x800000000000808a, 0x8000000080008000,
    0x000000000000808b, 0x0000000080000001, 0x8000000080008081, 0x8000000000008009,
    0x000000000000008a, 0x0000000000000088, 0x0000000080008009, 0x000000008000000a,
    0x000000008000808b, 0x800000000000008b, 0x8000000000008089, 0x8000000000008003,
    0x8000000000008002, 0x8000000000000080, 0x000000000000800a, 0x800000008000000a,
    0x8000000080008081, 0x8000000000008080, 0x0000000080000001, 0x8000000080008008]

end Keccak

instance laneSizeByte : LaneSize UInt8 where
  default := 0
  keccakFRoundCount := Keccak.f200Rounds
  truncateRc rc := rc.toUInt8
  rotateLeft lane count := ⟨lane.toBitVec.rotateLeft count⟩

instance laneSizeHalf : LaneSize UInt16 where
  default := 0
  keccakFRoundCount := Keccak.f400Rounds
  truncateRc rc := rc.toUInt16
  rotateLeft lane count := ⟨lane.toBitVec.rotateLeft count⟩

instance laneSizeSingle : LaneSize UInt32 where
  default := 0
  keccakFRoundCount := Keccak.f800Rounds
  truncateRc rc := rc.toUInt32
  rotateLeft lane count := ⟨lane.toBitVec.rotateLeft count⟩

instance laneSizeWord : LaneSize UInt64 where
  default := 0
  keccakFRoundCount := Keccak.f1600Rounds
  truncateRc rc := rc
  rotateLeft lane count := ⟨lane.toBitVec.rotateLeft count⟩

namespace Keccak

/-- `unroll5!`. -/
def unroll5 {α : Type*} (body : Fin 5 → α → α) (a : α) : α :=
  body 4 (body 3 (body 2 (body 1 (body 0 a))))

/-- The index `5 * y + x`. -/
def lane (x y : Fin 5) : Fin 25 := ⟨5 * y + x, by omega⟩

variable {L : Type} [LaneSize L]

open LaneSize (rotateLeft)

def columnParity (state : List.Vector L 25) : List.Vector L 5 :=
  unroll5 (fun x array => unroll5 (fun y array =>
    array.set x (array.get x ^^^ state.get (lane x y))) array) (.replicate 5 LaneSize.default)

def theta (state : List.Vector L 25) : List.Vector L 25 :=
  let array := columnParity state
  unroll5 (fun x state =>
    let t1 := array.get (x + 4)
    let t2 := rotateLeft (array.get (x + 1)) 1
    unroll5 (fun y state =>
      state.set (lane x y) (state.get (lane x y) ^^^ (t1 ^^^ t2))) state) state

/-- The walk starts with lane one in hand. -/
def rhoPi (state : List.Vector L 25) : List.Vector L 25 :=
  (walk (state.get 1, state)
    (pi.zip (rho.map fun count lane => rotateLeft lane count))).2

def chi (state : List.Vector L 25) : List.Vector L 25 :=
  unroll5 (fun y state =>
    let array : Fin 5 → L := fun x => state.get (lane x y)
    unroll5 (fun x state =>
      let t1 := ~~~array (x + 1)
      let t2 := array (x + 2)
      state.set (lane x y) (array x ^^^ (t1 &&& t2))) state) state

def iota (rc : L) (state : List.Vector L 25) : List.Vector L 25 := state.set 0 (state.get 0 ^^^ rc)

/-- The round constants of the last `rounds` rounds; more rounds than the permutation has is a
panic. -/
def roundConsts (L : Type) [LaneSize L] (rounds : ℕ) : Option (List L) :=
  let count := LaneSize.keccakFRoundCount L
  if rounds ≤ count then
    some (((rc.take count).drop (count - rounds)).map LaneSize.truncateRc)
  else none

/-- `keccak_p`. -/
def keccakP (rounds : ℕ) (state : List.Vector L 25) : Option (List.Vector L 25) :=
  (roundConsts L rounds).map fun roundConsts =>
    roundConsts.foldl (fun state rc => iota rc (chi (rhoPi (theta state)))) state

end Keccak

/-- The permutation of the software backend; it has exactly the rounds asked for. -/
def softF1600 (state : State1600) : State1600 :=
  (Keccak.keccakP Keccak.f1600Rounds state).get rfl

end X301Provider
