import X301Provider.Library.Sponge
import X301Provider.Library.WordMemory

/-!
# The sponge cursor

Absorption into and squeezing from an array of lanes, with the position inside the
current block. Whole blocks go through the word functions, the ends through the byte
functions, which differ between little-endian and other targets.
-/

namespace X301Provider

open Limbs

/-- A rate that passes the compile-time assertions for `lanes` words of state. -/
structure SpongeRate (lanes : ℕ) where
  bytes : ℕ
  pos : 0 < bytes
  lt_max : bytes < 255
  whole : 8 * (bytes / 8) = bytes
  le_state : bytes ≤ 8 * lanes

variable {lanes : ℕ}

section ByteUtils

variable (littleEndian : Bool) (rate : SpongeRate lanes)

/-- The state behind a pointer to its bytes. -/
def ofMemory (memory : List UInt8) : Words lanes :=
  ⟨wordsOfBytes lanes memory, wordsOfBytes_length lanes memory⟩

/-- `zip` with the chunks of a block. -/
def xorChunks (state : Words lanes) (block : List UInt8) : Words lanes :=
  ⟨xorWords state.1 (block.chunksExact 8), by rw [length_xorWords, state.2]⟩

def absorbFull (state : Words lanes) (block : List UInt8) : Words lanes := xorChunks state block

/-- On little-endian targets the state is accessed as its bytes, on others the data is
written to a zeroed block first. -/
def absorbPartial (state : Words lanes) (offset : ℕ) (data : List UInt8) : Words lanes :=
  if littleEndian then ofMemory (xorRegion offset data (memoryOf state.1))
  else
    let buf := List.replicate offset 0 ++ data ++
      List.replicate (rate.bytes - offset - data.length) 0
    xorChunks state buf

/-- The bytes of the lanes of the rate. -/
def squeezeReadFull (state : Words lanes) : List UInt8 :=
  (state.1.take (rate.bytes / 8)).flatMap wordToBytes

def squeezeReadPartial (state : Words lanes) (offset length : ℕ) : List UInt8 :=
  let subState :=
    if littleEndian then (memoryOf state.1).take rate.bytes
    else (state.1.take (rate.bytes / 8)).flatMap wordToBytes
  (subState.drop offset).take length

end ByteUtils

/-- A position smaller than the rate. -/
@[ext] structure SpongeCursor (rate : SpongeRate lanes) where
  pos : ℕ
  pos_lt : pos < rate.bytes

namespace SpongeCursor

variable {rate : SpongeRate lanes}

def default : SpongeCursor rate := ⟨0, rate.pos⟩

section Absorb

variable (littleEndian : Bool) (sponge : Words lanes → Words lanes)

/-- The part of `absorb_u64_le` from the start of a block on. -/
def absorbBlocks (rate : SpongeRate lanes) (state : Words lanes) (data : List UInt8) :
    SpongeCursor rate × Words lanes :=
  let blocks := data.chunksExact rate.bytes
  let tail := data.chunksRemainder rate.bytes
  let state := blocks.foldl (fun state block => sponge (absorbFull state block)) state
  let state := if tail.isEmpty then state else absorbPartial littleEndian rate state 0 tail
  (⟨tail.length, by
    rw [List.length_chunksRemainder]
    exact Nat.mod_lt _ rate.pos⟩, state)

def absorbU64Le (cursor : SpongeCursor rate) (state : Words lanes) (data : List UInt8) :
    SpongeCursor rate × Words lanes :=
  if cursor.pos = 0 then absorbBlocks littleEndian sponge rate state data
  else
    let remLen := rate.bytes - cursor.pos
    if h : data.length < remLen then
      let state := absorbPartial littleEndian rate state cursor.pos data
      (⟨cursor.pos + data.length, by omega⟩, state)
    else
      let head := data.take remLen
      let tail := data.drop remLen
      let state := absorbPartial littleEndian rate state cursor.pos head
      absorbBlocks littleEndian sponge rate (sponge state) tail

end Absorb

section Squeeze

variable (littleEndian : Bool) (sponge : Words lanes → Words lanes)

/-- The loop over the whole blocks of the output. -/
def squeezeFull (rate : SpongeRate lanes) : ℕ → Words lanes → List UInt8 × Words lanes
  | 0, state => ([], state)
  | blocks + 1, state =>
    let state := sponge state
    let rest := squeezeFull rate blocks state
    (squeezeReadFull rate state ++ rest.1, rest.2)

/-- The part of `squeeze_read_u64_le` from the start of a block on. -/
def squeezeBlocks (rate : SpongeRate lanes) (state : Words lanes) (length : ℕ) :
    List UInt8 × (SpongeCursor rate × Words lanes) :=
  let (full, state) := squeezeFull sponge rate (length / rate.bytes) state
  let tail := length % rate.bytes
  let cursor : SpongeCursor rate := ⟨tail, Nat.mod_lt _ rate.pos⟩
  if tail = 0 then (full, (cursor, state))
  else
    let state := sponge state
    (full ++ squeezeReadPartial littleEndian rate state 0 tail, (cursor, state))

/-- The bytes written to a buffer of the given length. -/
def squeezeReadU64Le (cursor : SpongeCursor rate) (state : Words lanes) (length : ℕ) :
    List UInt8 × (SpongeCursor rate × Words lanes) :=
  if cursor.pos = 0 then squeezeBlocks littleEndian sponge rate state length
  else
    let remLen := rate.bytes - cursor.pos
    if h : length < remLen then
      (squeezeReadPartial littleEndian rate state cursor.pos length,
        (⟨cursor.pos + length, by omega⟩, state))
    else
      let head := squeezeReadPartial littleEndian rate state cursor.pos remLen
      let rest := squeezeBlocks littleEndian sponge rate state (length - remLen)
      (head ++ rest.1, rest.2)

end Squeeze

end SpongeCursor

end X301Provider
