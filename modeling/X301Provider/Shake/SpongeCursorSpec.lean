import Mathlib.Data.List.GetD
import X301Provider.Shake.SpongeCursor

/-!
# The cursor is the byte machine

Absorbing a slice and filling a buffer are the byte machine run over the slice and the
buffer, on both kinds of targets. What is absorbed and squeezed does not depend on how it
is cut into calls.
-/

namespace X301Provider

open Limbs

variable {lanes : ℕ}

theorem ofMemory_memoryOf (state : Words lanes) : ofMemory (memoryOf state.1) = state := by
  apply Subtype.ext
  have hWords := wordsOfBytes_memoryOf state.1
  rw [state.2] at hWords
  exact hWords

theorem length_memory (state : Words lanes) : (memoryOf state.1).length = 8 * lanes := by
  rw [length_memoryOf, state.2]

theorem memoryOf_ofMemory {memory : List UInt8} (h : memory.length = 8 * lanes) :
    memoryOf (ofMemory memory : Words lanes).1 = memory :=
  memoryOf_wordsOfBytes h

theorem memoryOf_modify (state : Words lanes) (index : ℕ) (byte : UInt8) :
    memoryOf (ofMemory ((memoryOf state.1).modify index (· ^^^ byte)) : Words lanes).1 =
      (memoryOf state.1).modify index (· ^^^ byte) := by
  apply memoryOf_ofMemory
  rw [List.length_modify, length_memory]

/-- The lanes as bytes, permuted by any function. -/
def laneSponge (rate : SpongeRate lanes) (sponge : Words lanes → Words lanes) :
    ByteSponge (Words lanes) where
  rate := rate.bytes
  permute := sponge
  xorByte index byte state := ofMemory ((memoryOf state.1).modify index (· ^^^ byte))
  byteAt state index := (memoryOf state.1).getD index 0
  rate_pos := rate.pos
  xorByte_zero index state := by rw [modify_xor_zero, ofMemory_memoryOf]
  xorByte_xorByte index byte byte' state := by
    have hCompose : (fun x : UInt8 => x ^^^ byte') ∘ (fun x => x ^^^ byte) =
        fun x => x ^^^ (byte ^^^ byte') := funext fun x => UInt8.xor_assoc x byte byte'
    rw [memoryOf_modify, List.modify_modify_eq, hCompose]

section Regions

variable (rate : SpongeRate lanes) (sponge : Words lanes → Words lanes)

theorem xorAt_eq (offset : ℕ) (data : List UInt8) (state : Words lanes) :
    (laneSponge rate sponge).xorAt offset data state =
      ofMemory (xorRegion offset data (memoryOf state.1)) := by
  induction data generalizing offset state with
  | nil => exact (ofMemory_memoryOf state).symm
  | cons byte data ih =>
    rw [ByteSponge.xorAt, ih, xorRegion]
    exact congrArg (fun memory => ofMemory (xorRegion (offset + 1) data memory))
      (memoryOf_modify state offset byte)

theorem xorChunks_eq {block : List UInt8} (hLength : block.length = rate.bytes)
    (state : Words lanes) :
    xorChunks state block = (laneSponge rate sponge).xorAt 0 block state := by
  have hWhole := rate.whole
  have hState := rate.le_state
  have hRemainder : block.chunksRemainder 8 = [] := by
    rw [← List.length_eq_zero_iff, List.length_chunksRemainder, hLength]
    omega
  have hFlatten := List.flatten_chunksExact 8 block
  rw [hRemainder, List.append_nil] at hFlatten
  have hCount : (block.chunksExact 8).length ≤ state.1.length := by
    rw [state.2, List.length_chunksExact, hLength]
    omega
  have hWords := memoryOf_xorWords List.length_of_mem_chunksExact hCount
  rw [hFlatten] at hWords
  rw [xorAt_eq, ← hWords]
  exact (ofMemory_memoryOf (xorChunks state block)).symm

theorem absorbFull_eq {block : List UInt8} (hLength : block.length = rate.bytes)
    (state : Words lanes) :
    absorbFull state block = (laneSponge rate sponge).xorAt 0 block state :=
  xorChunks_eq rate sponge hLength state

/-- Both kinds of targets store the same bytes. -/
theorem absorbPartial_eq (littleEndian : Bool) {offset : ℕ} {data : List UInt8}
    (h : offset + data.length ≤ rate.bytes) (state : Words lanes) :
    absorbPartial littleEndian rate state offset data =
      (laneSponge rate sponge).xorAt offset data state := by
  cases littleEndian with
  | true => exact (xorAt_eq rate sponge offset data state).symm
  | false =>
    have hLength : (List.replicate offset 0 ++ data ++
        List.replicate (rate.bytes - offset - data.length) 0).length = rate.bytes := by
      simp only [List.length_append, List.length_replicate]
      omega
    have hChunks := xorChunks_eq rate sponge hLength state
    rw [ByteSponge.xorAt_append, ByteSponge.xorAt_append, ByteSponge.xorAt_zeros,
      ByteSponge.xorAt_zeros, List.length_replicate, Nat.zero_add] at hChunks
    exact hChunks

theorem readAt_eq {offset count : ℕ} (h : offset + count ≤ 8 * lanes) (state : Words lanes) :
    (laneSponge rate sponge).readAt state offset count =
      ((memoryOf state.1).drop offset).take count := by
  have hLength := length_memory state
  apply List.ext_getElem
  · simp only [ByteSponge.readAt, List.length_map, List.length_range', List.length_take,
      List.length_drop, hLength]
    omega
  · intro index hLeft hRight
    simp only [ByteSponge.readAt, List.length_map, List.length_range'] at hLeft
    have hIndex : offset + index < (memoryOf state.1).length := by omega
    simp only [ByteSponge.readAt, List.getElem_map, List.getElem_range', List.getElem_take,
      List.getElem_drop, Nat.one_mul]
    exact List.getD_eq_getElem (memoryOf state.1) 0 hIndex

theorem memory_of_rate (state : Words lanes) :
    (state.1.take (rate.bytes / 8)).flatMap wordToBytes = (memoryOf state.1).take rate.bytes := by
  have hWhole := rate.whole
  have hState := rate.le_state
  have hLength : (memoryOf (state.1.take (rate.bytes / 8))).length = rate.bytes := by
    rw [length_memoryOf, List.length_take, state.2]
    omega
  have hSplit : (memoryOf state.1) =
      memoryOf (state.1.take (rate.bytes / 8)) ++ memoryOf (state.1.drop (rate.bytes / 8)) := by
    rw [← memoryOf_append, List.take_append_drop]
  rw [hSplit, List.take_left' hLength]
  rfl

theorem squeezeReadFull_eq (state : Words lanes) :
    squeezeReadFull rate state = (laneSponge rate sponge).readAt state 0 rate.bytes := by
  have hState := rate.le_state
  rw [squeezeReadFull, memory_of_rate, readAt_eq rate sponge (by omega), List.drop_zero]

theorem squeezeReadPartial_eq (littleEndian : Bool) {offset length : ℕ}
    (h : offset + length ≤ rate.bytes) (state : Words lanes) :
    squeezeReadPartial littleEndian rate state offset length =
      (laneSponge rate sponge).readAt state offset length := by
  have hState := rate.le_state
  have hTake : (((memoryOf state.1).take rate.bytes).drop offset).take length =
      ((memoryOf state.1).drop offset).take length := by
    rw [List.drop_take, List.take_take, Nat.min_eq_left (by omega)]
  rw [readAt_eq rate sponge (by omega), squeezeReadPartial, memory_of_rate, ite_self, hTake]

end Regions

namespace SpongeCursor

variable {rate : SpongeRate lanes} (littleEndian : Bool) (sponge : Words lanes → Words lanes)

theorem absorbBlocks_eq (rate : SpongeRate lanes) (state : Words lanes) (data : List UInt8) :
    let result := absorbBlocks littleEndian sponge rate state data
    (result.2, result.1.pos) = (laneSponge rate sponge).absorb (state, 0) data := by
  have hRemainder := List.length_chunksRemainder rate.bytes data
  have hLt := Nat.mod_lt data.length rate.pos
  have hBlocks : ∀ (blocks : List (List UInt8)) (state : Words lanes),
      (∀ block ∈ blocks, block.length = rate.bytes) →
      blocks.foldl (fun state block => sponge (absorbFull state block)) state =
        (laneSponge rate sponge).absorbBlocks blocks state := by
    intro blocks
    induction blocks with
    | nil => exact fun _ _ => rfl
    | cons block blocks ih =>
      intro state hLength
      rw [List.forall_mem_cons] at hLength
      rw [List.foldl_cons, ih _ hLength.2, absorbFull_eq rate sponge hLength.1]
      rfl
  have hTail : ∀ state : Words lanes,
      (if (data.chunksRemainder rate.bytes).isEmpty then state
        else absorbPartial littleEndian rate state 0 (data.chunksRemainder rate.bytes)) =
      (laneSponge rate sponge).xorAt 0 (data.chunksRemainder rate.bytes) state := by
    intro state
    split
    · rename_i hEmpty
      rw [List.isEmpty_iff.mp hEmpty]
      rfl
    · exact absorbPartial_eq rate sponge littleEndian (by omega) state
  intro result
  rw [ByteSponge.absorb_chunks]
  refine Prod.ext ?_ hRemainder
  exact (hTail _).trans (congrArg _ (hBlocks _ state List.length_of_mem_chunksExact))

/-- One call absorbs its data byte by byte. -/
theorem absorbU64Le_eq (cursor : SpongeCursor rate) (state : Words lanes) (data : List UInt8) :
    let result := absorbU64Le littleEndian sponge cursor state data
    (result.2, result.1.pos) = (laneSponge rate sponge).absorb (state, cursor.pos) data := by
  have hPos := cursor.pos_lt
  intro result
  by_cases hStart : cursor.pos = 0
  · have hResult : result = absorbBlocks littleEndian sponge rate state data := if_pos hStart
    rw [hResult, hStart]
    exact absorbBlocks_eq littleEndian sponge rate state data
  by_cases hShort : data.length < rate.bytes - cursor.pos
  · have hFit : cursor.pos + data.length < rate.bytes := by omega
    have hResult : result = (⟨cursor.pos + data.length, hFit⟩,
        absorbPartial littleEndian rate state cursor.pos data) :=
      (if_neg hStart).trans (dif_pos hShort)
    rw [hResult, absorbPartial_eq rate sponge littleEndian hFit.le,
      ByteSponge.absorb_partial _ hFit]
  · have hResult : result = absorbBlocks littleEndian sponge rate
        (sponge (absorbPartial littleEndian rate state cursor.pos
          (data.take (rate.bytes - cursor.pos)))) (data.drop (rate.bytes - cursor.pos)) :=
      (if_neg hStart).trans (dif_neg hShort)
    have hHead : cursor.pos + (data.take (rate.bytes - cursor.pos)).length = rate.bytes := by
      rw [List.length_take]
      omega
    have hFill := ByteSponge.absorb_fill (laneSponge rate sponge) hPos hHead state
    conv_rhs => rw [← List.take_append_drop (rate.bytes - cursor.pos) data]
    rw [hResult, ByteSponge.absorb_append, hFill, absorbBlocks_eq,
      absorbPartial_eq rate sponge littleEndian hHead.le]
    rfl

theorem squeezeFull_eq (count : ℕ) (state : Words lanes) :
    squeezeFull sponge rate count state = (laneSponge rate sponge).squeezeBlocks count state := by
  induction count generalizing state with
  | zero => rfl
  | succ count ih =>
    rw [squeezeFull, ByteSponge.squeezeBlocks, ih, squeezeReadFull_eq rate sponge]
    rfl

theorem squeezeBlocks_eq (rate : SpongeRate lanes) (state : Words lanes) (length : ℕ) :
    let result := squeezeBlocks littleEndian sponge rate state length
    (result.1, (result.2.2, result.2.1.pos)) =
      (laneSponge rate sponge).squeeze length (state, 0) := by
  have hSplit := Nat.div_add_mod length rate.bytes
  have hLt := Nat.mod_lt length rate.pos
  have hFull : (laneSponge rate sponge).squeeze (rate.bytes * (length / rate.bytes)) (state, 0) =
      ((squeezeFull sponge rate (length / rate.bytes) state).1,
        ((squeezeFull sponge rate (length / rate.bytes) state).2, 0)) := by
    rw [squeezeFull_eq]
    exact ByteSponge.squeeze_blocks (laneSponge rate sponge) (length / rate.bytes) state
  intro result
  conv_rhs => rw [← hSplit, ByteSponge.squeeze_add, hFull]
  generalize hTail : length % rate.bytes = tail at hLt
  generalize hBlocks : squeezeFull sponge rate (length / rate.bytes) state = full
  by_cases hZero : tail = 0
  · have hResult : result = (full.1, (⟨0, rate.pos⟩, full.2)) := by
      simp only [result, squeezeBlocks, hTail, hBlocks, hZero, if_true]
    rw [hResult, hZero]
    exact congrArg (·, (full.2, 0)) (List.append_nil full.1).symm
  · have hResult : result = (full.1 ++ squeezeReadPartial littleEndian rate (sponge full.2) 0 tail,
        (⟨tail, hLt⟩, sponge full.2)) := by
      simp only [result, squeezeBlocks, hTail, hBlocks, if_neg hZero]
    have hStart := ByteSponge.squeeze_start (laneSponge rate sponge)
      (Nat.pos_of_ne_zero hZero) hLt.le full.2
    have hPartial := squeezeReadPartial_eq rate sponge littleEndian
      (show 0 + tail ≤ rate.bytes by omega) (sponge full.2)
    have hOpen : ¬tail = (laneSponge rate sponge).rate := hLt.ne
    rw [if_neg hOpen] at hStart
    rw [hResult, hStart, hPartial]
    rfl

/-- One call fills its buffer byte by byte. -/
theorem squeezeReadU64Le_eq (cursor : SpongeCursor rate) (state : Words lanes) (length : ℕ) :
    let result := squeezeReadU64Le littleEndian sponge cursor state length
    (result.1, (result.2.2, result.2.1.pos)) =
      (laneSponge rate sponge).squeeze length (state, cursor.pos) := by
  have hPos := cursor.pos_lt
  intro result
  by_cases hStart : cursor.pos = 0
  · have hResult : result = squeezeBlocks littleEndian sponge rate state length := if_pos hStart
    rw [hResult, hStart]
    exact squeezeBlocks_eq littleEndian sponge rate state length
  have hInside := Nat.pos_of_ne_zero hStart
  by_cases hShort : length < rate.bytes - cursor.pos
  · have hFit : cursor.pos + length < rate.bytes := by omega
    have hResult : result = (squeezeReadPartial littleEndian rate state cursor.pos length,
        (⟨cursor.pos + length, hFit⟩, state)) := (if_neg hStart).trans (dif_pos hShort)
    rw [hResult, squeezeReadPartial_eq rate sponge littleEndian hFit.le,
      ByteSponge.squeeze_partial _ hInside hFit]
  · have hHead : cursor.pos + (rate.bytes - cursor.pos) = rate.bytes := by omega
    have hLength : length = rate.bytes - cursor.pos + (length - (rate.bytes - cursor.pos)) := by
      omega
    have hResult : result =
        (squeezeReadPartial littleEndian rate state cursor.pos (rate.bytes - cursor.pos) ++
          (squeezeBlocks littleEndian sponge rate state
            (length - (rate.bytes - cursor.pos))).1,
          (squeezeBlocks littleEndian sponge rate state
            (length - (rate.bytes - cursor.pos))).2) :=
      (if_neg hStart).trans (dif_neg hShort)
    have hFill := ByteSponge.squeeze_fill (laneSponge rate sponge) hInside (by omega) hHead state
    have hRest := squeezeBlocks_eq littleEndian sponge rate state
      (length - (rate.bytes - cursor.pos))
    conv_rhs => rw [hLength, ByteSponge.squeeze_add, hFill, ← hRest]
    rw [hResult, squeezeReadPartial_eq rate sponge littleEndian hHead.le]

end SpongeCursor

end X301Provider
