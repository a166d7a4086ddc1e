import X301Provider.Shake.SpongeCursorSpec
import X301Provider.Signature.Signature

/-!
# SHAKE

The incremental hasher and its reader, over the permutation that the chosen backend
provides. Updates and reads may be cut anywhere: the output is that of the padded
concatenation. The transcripts of the signature scheme are such updates.
-/

namespace X301Provider

open Limbs

abbrev State1600 := Words 25

structure Shake (rate : SpongeRate 25) where
  state : State1600
  cursor : SpongeCursor rate

structure ShakeReader (rate : SpongeRate 25) where
  state : State1600
  cursor : SpongeCursor rate

/-- The rate of SHAKE256. -/
def rate136 : SpongeRate 25 := ⟨136, by decide, by decide, by decide, by decide⟩

/-- A lane of the state. -/
def xorLane (state : State1600) (lane : ℕ) (word : UInt64) : State1600 :=
  ⟨state.1.modify lane (· ^^^ word), by rw [List.length_modify, state.2]⟩

variable {rate : SpongeRate 25}

section Hasher

variable (littleEndian : Bool) (f1600 : State1600 → State1600)

namespace Shake

def zeroState : State1600 := .replicate 25 0

def default (rate : SpongeRate 25) : Shake rate := ⟨zeroState, .default⟩

def update (hasher : Shake rate) (data : List UInt8) : Shake rate :=
  let (cursor, state) := hasher.cursor.absorbU64Le littleEndian f1600 hasher.state data
  ⟨state, cursor⟩

def pad (hasher : Shake rate) : Shake rate :=
  let shakePad : UInt8 := 0x1f
  let pos := hasher.cursor.pos
  let wordOffset := pos / 8
  let byteOffset := pos % 8
  let pad := shakePad.toUInt64 <<< UInt64.ofNat (8 * byteOffset)
  let state := xorLane hasher.state wordOffset pad
  let last := (1 : UInt64) <<< 63
  { hasher with state := xorLane state (rate.bytes / 8 - 1) last }

def finalizeXof (hasher : Shake rate) : ShakeReader rate := ⟨hasher.pad.state, .default⟩

end Shake

namespace ShakeReader

/-- The bytes written to a buffer of the given length. -/
def read (reader : ShakeReader rate) (length : ℕ) : List UInt8 × ShakeReader rate :=
  let (output, cursor, state) :=
    reader.cursor.squeezeReadU64Le littleEndian f1600 reader.state length
  (output, ⟨state, cursor⟩)

/-- Buffers filled one after the other. -/
def readAll (reader : ShakeReader rate) : List ℕ → List (List UInt8) × ShakeReader rate
  | [] => ([], reader)
  | length :: lengths =>
    let (output, reader) := reader.read littleEndian f1600 length
    let (outputs, reader) := readAll reader lengths
    (output :: outputs, reader)

end ShakeReader

end Hasher

section Spec

variable (littleEndian : Bool) (f1600 : State1600 → State1600)

theorem state_pad (hasher : Shake rate) :
    hasher.pad.state = (laneSponge rate f1600).padAt 0x1f 0x80 (hasher.state, hasher.cursor.pos) := by
  have hPos := hasher.cursor.pos_lt
  have hWhole := rate.whole
  have hLanes := rate.le_state
  have hClosing : (1 : UInt64) <<< 63 = (0x80 : UInt8).toUInt64 <<< UInt64.ofNat (8 * 7) := rfl
  have hByte : 8 * (hasher.cursor.pos / 8) + hasher.cursor.pos % 8 = hasher.cursor.pos :=
    Nat.div_add_mod _ 8
  have hLast : 8 * (rate.bytes / 8 - 1) + 7 = rate.bytes - 1 := by
    have hPositive := rate.pos
    omega
  have hMemory : memoryOf hasher.pad.state.1 =
      ((memoryOf hasher.state.1).modify hasher.cursor.pos (· ^^^ 0x1f)).modify (rate.bytes - 1)
        (· ^^^ 0x80) := by
    rw [← hByte, ← hLast, ← memoryOf_shift _ _ _ (Nat.mod_lt _ (by decide)),
      ← memoryOf_shift _ _ _ (by decide), ← hClosing]
    rfl
  rw [← ofMemory_memoryOf hasher.pad.state, hMemory, ByteSponge.padAt]
  exact congrArg (fun memory => ofMemory (memory.modify (rate.bytes - 1) (· ^^^ 0x80)))
    (memoryOf_modify hasher.state hasher.cursor.pos 0x1f).symm

theorem update_eq (hasher : Shake rate) (data : List UInt8) :
    ((hasher.update littleEndian f1600 data).state,
        (hasher.update littleEndian f1600 data).cursor.pos) =
      (laneSponge rate f1600).absorb (hasher.state, hasher.cursor.pos) data :=
  SpongeCursor.absorbU64Le_eq littleEndian f1600 hasher.cursor hasher.state data

theorem updates_eq (updates : List (List UInt8)) (hasher : Shake rate) :
    ((updates.foldl (Shake.update littleEndian f1600) hasher).state,
        (updates.foldl (Shake.update littleEndian f1600) hasher).cursor.pos) =
      (laneSponge rate f1600).absorb (hasher.state, hasher.cursor.pos) updates.flatten := by
  induction updates generalizing hasher with
  | nil => rfl
  | cons data updates ih =>
    rw [List.foldl_cons, ih, update_eq, List.flatten_cons, ByteSponge.absorb_append]

theorem read_eq (reader : ShakeReader rate) (length : ℕ) :
    ((reader.read littleEndian f1600 length).1,
        ((reader.read littleEndian f1600 length).2.state,
          (reader.read littleEndian f1600 length).2.cursor.pos)) =
      (laneSponge rate f1600).squeeze length (reader.state, reader.cursor.pos) :=
  SpongeCursor.squeezeReadU64Le_eq littleEndian f1600 reader.cursor reader.state length

theorem readAll_eq (lengths : List ℕ) (reader : ShakeReader rate) :
    ((reader.readAll littleEndian f1600 lengths).1.flatten,
        ((reader.readAll littleEndian f1600 lengths).2.state,
          (reader.readAll littleEndian f1600 lengths).2.cursor.pos)) =
      (laneSponge rate f1600).squeeze lengths.sum (reader.state, reader.cursor.pos) := by
  induction lengths generalizing reader with
  | nil => rfl
  | cons length lengths ih =>
    have hRest := ih (reader.read littleEndian f1600 length).2
    have hRead := read_eq littleEndian f1600 reader length
    rw [List.sum_cons, ByteSponge.squeeze_add, ← hRead, ← hRest]
    rfl

/-- What a reader gives from its start: the output of the padded concatenation. -/
theorem squeeze_finalizeXof (rate : SpongeRate 25) (updates : List (List UInt8)) (length : ℕ) :
    ((laneSponge rate f1600).squeeze length
        ((updates.foldl (Shake.update littleEndian f1600) (Shake.default rate)).finalizeXof.state,
          0)).1 =
      (laneSponge rate f1600).extendableOutput 0x1f 0x80 Shake.zeroState updates.flatten length := by
  have hAbsorb := updates_eq littleEndian f1600 updates (Shake.default rate)
  have hPad := state_pad f1600 (updates.foldl (Shake.update littleEndian f1600) (Shake.default rate))
  have hSqueeze := ByteSponge.squeeze_padAt (laneSponge rate f1600) 0x1f 0x80 Shake.zeroState
    updates.flatten length
  rw [hAbsorb] at hPad
  rw [← hSqueeze]
  exact congrArg (fun state => ((laneSponge rate f1600).squeeze length (state, 0)).1) hPad

/-- Any updates followed by any reads give the output of the padded concatenation, on either kind
of target and for every permutation. -/
theorem readAll_finalizeXof (rate : SpongeRate 25) (updates : List (List UInt8)) (lengths : List ℕ) :
    let hasher := updates.foldl (Shake.update littleEndian f1600) (Shake.default rate)
    (hasher.finalizeXof.readAll littleEndian f1600 lengths).1.flatten =
      (laneSponge rate f1600).extendableOutput 0x1f 0x80 Shake.zeroState updates.flatten
        lengths.sum := by
  intro hasher
  have hRead := readAll_eq littleEndian f1600 lengths hasher.finalizeXof
  exact (congrArg Prod.fst hRead).trans
    (squeeze_finalizeXof littleEndian f1600 rate updates lengths.sum)

theorem length_read (reader : ShakeReader rate) (length : ℕ) :
    (reader.read littleEndian f1600 length).1.length = length := by
  have hRead := congrArg Prod.fst (read_eq littleEndian f1600 reader length)
  exact (congrArg List.length hRead).trans (ByteSponge.length_squeeze _ length _)

/-- The transcript functions feed their parts to one hasher. -/
def Shake.hashParts (parts : List (List UInt8)) : Bytes 76 :=
  let hasher := parts.foldl (Shake.update littleEndian f1600) (Shake.default rate136)
  ⟨(hasher.finalizeXof.read littleEndian f1600 76).1, length_read littleEndian f1600 _ 76⟩

/-- The extendable output of one string, cut to the length of a transcript hash. -/
def shake256With : Shake256 := fun message => Shake.hashParts littleEndian f1600 [message]

theorem Shake.hashParts_val (parts : List (List UInt8)) :
    (Shake.hashParts littleEndian f1600 parts).1 =
      (laneSponge rate136 f1600).extendableOutput 0x1f 0x80 Shake.zeroState parts.flatten 76 := by
  have hRead := read_eq littleEndian f1600
    (parts.foldl (Shake.update littleEndian f1600) (Shake.default rate136)).finalizeXof 76
  exact (congrArg Prod.fst hRead).trans
    (squeeze_finalizeXof littleEndian f1600 rate136 parts 76)

end Spec

end X301Provider
