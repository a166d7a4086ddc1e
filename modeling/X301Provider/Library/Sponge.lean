import Mathlib.Data.List.Basic
import Mathlib.Logic.Function.Iterate
import Mathlib.Tactic.Ring

/-!
# Sponges over bytes

A state that takes bytes by exclusive or and is permuted whenever a block is full. The
byte machine absorbs and squeezes one byte at a time, so it does not see how its input and
output are cut into pieces; a padded message and its output are also described block by
block.
-/

namespace List

variable {α : Type*}

/-- The first `count` pieces of a list. -/
def chunksOf (size : ℕ) : ℕ → List α → List (List α)
  | 0, _ => []
  | count + 1, list => list.take size :: chunksOf size count (list.drop size)

/-- `chunks_exact` and its remainder. -/
def chunksExact (size : ℕ) (list : List α) : List (List α) :=
  chunksOf size (list.length / size) list

def chunksRemainder (size : ℕ) (list : List α) : List α :=
  list.drop (size * (list.length / size))

theorem flatten_chunksOf (size count : ℕ) (list : List α) :
    (chunksOf size count list).flatten ++ list.drop (size * count) = list := by
  induction count generalizing list with
  | zero => rfl
  | succ count ih =>
    have hDrop : list.drop (size * (count + 1)) = (list.drop size).drop (size * count) := by
      rw [List.drop_drop, Nat.mul_succ, Nat.add_comm]
    rw [chunksOf, List.flatten_cons, List.append_assoc, hDrop, ih, List.take_append_drop]

theorem length_of_mem_chunksOf {size count : ℕ} {list : List α} (h : size * count ≤ list.length) :
    ∀ chunk ∈ chunksOf size count list, chunk.length = size := by
  induction count generalizing list with
  | zero => simp [chunksOf]
  | succ count ih =>
    rw [Nat.mul_succ] at h
    have hRest : size * count ≤ (list.drop size).length := by
      rw [List.length_drop]
      omega
    rw [chunksOf, List.forall_mem_cons]
    refine ⟨?_, ih hRest⟩
    rw [List.length_take]
    omega

theorem length_chunksExact (size : ℕ) (list : List α) :
    (chunksExact size list).length = list.length / size := by
  have hCount : ∀ (count : ℕ) (list : List α), (chunksOf size count list).length = count := by
    intro count
    induction count with
    | zero => exact fun _ => rfl
    | succ count ih => exact fun list => congrArg Nat.succ (ih (list.drop size))
  exact hCount _ list

theorem flatten_chunksExact (size : ℕ) (list : List α) :
    (chunksExact size list).flatten ++ chunksRemainder size list = list :=
  flatten_chunksOf size _ list

theorem length_of_mem_chunksExact {size : ℕ} {list : List α} :
    ∀ chunk ∈ chunksExact size list, chunk.length = size :=
  length_of_mem_chunksOf (Nat.mul_div_le list.length size)

theorem length_chunksRemainder (size : ℕ) (list : List α) :
    (chunksRemainder size list).length = list.length % size := by
  have hSplit := Nat.div_add_mod list.length size
  rw [chunksRemainder, List.length_drop]
  omega

end List

/-- A state with its permutation, its rate and access to its bytes. -/
structure ByteSponge (σ : Type*) where
  rate : ℕ
  permute : σ → σ
  xorByte : ℕ → UInt8 → σ → σ
  byteAt : σ → ℕ → UInt8
  rate_pos : 0 < rate
  xorByte_zero : ∀ index state, xorByte index 0 state = state
  xorByte_xorByte : ∀ index byte byte' state,
    xorByte index byte' (xorByte index byte state) = xorByte index (byte ^^^ byte') state

namespace ByteSponge

variable {σ : Type*} (S : ByteSponge σ)

/-- A string from an offset on, without permuting. -/
def xorAt : ℕ → List UInt8 → σ → σ
  | _, [], state => state
  | offset, byte :: bytes, state => xorAt (offset + 1) bytes (S.xorByte offset byte state)

/-- The bytes of a region. -/
def readAt (state : σ) (offset count : ℕ) : List UInt8 :=
  (List.range' offset count).map (S.byteAt state)

def absorbByte (cursor : σ × ℕ) (byte : UInt8) : σ × ℕ :=
  let state := S.xorByte cursor.2 byte cursor.1
  if cursor.2 + 1 = S.rate then (S.permute state, 0) else (state, cursor.2 + 1)

def absorb (cursor : σ × ℕ) (bytes : List UInt8) : σ × ℕ := bytes.foldl S.absorbByte cursor

/-- A block is permuted before its first byte is read. -/
def squeezeByte (cursor : σ × ℕ) : UInt8 × (σ × ℕ) :=
  let state := if cursor.2 = 0 then S.permute cursor.1 else cursor.1
  (S.byteAt state cursor.2, (state, if cursor.2 + 1 = S.rate then 0 else cursor.2 + 1))

def squeeze : ℕ → σ × ℕ → List UInt8 × (σ × ℕ)
  | 0, cursor => ([], cursor)
  | count + 1, cursor =>
    let first := S.squeezeByte cursor
    let rest := squeeze count first.2
    (first.1 :: rest.1, rest.2)

/-- Whole blocks, each permuted after it was taken. -/
def absorbBlocks (blocks : List (List UInt8)) (state : σ) : σ :=
  blocks.foldl (fun state block => S.permute (S.xorAt 0 block state)) state

section Absorbing

theorem xorAt_append (offset : ℕ) (left right : List UInt8) (state : σ) :
    S.xorAt offset (left ++ right) state =
      S.xorAt (offset + left.length) right (S.xorAt offset left state) := by
  induction left generalizing offset state with
  | nil => rfl
  | cons byte left ih =>
    rw [List.cons_append, xorAt, xorAt, ih, List.length_cons, Nat.add_right_comm, Nat.add_assoc]

theorem xorAt_zeros (offset count : ℕ) (state : σ) :
    S.xorAt offset (List.replicate count 0) state = state := by
  induction count generalizing offset with
  | zero => rfl
  | succ count ih => rw [List.replicate_succ, xorAt, S.xorByte_zero, ih]

theorem absorb_append (cursor : σ × ℕ) (left right : List UInt8) :
    S.absorb cursor (left ++ right) = S.absorb (S.absorb cursor left) right :=
  List.foldl_append

/-- Input that does not complete the block is only stored. -/
theorem absorb_partial {offset : ℕ} {bytes : List UInt8} (h : offset + bytes.length < S.rate)
    (state : σ) :
    S.absorb (state, offset) bytes = (S.xorAt offset bytes state, offset + bytes.length) := by
  induction bytes generalizing offset state with
  | nil => rfl
  | cons byte bytes ih =>
    rw [List.length_cons] at h
    have hNext : ¬offset + 1 = S.rate := by omega
    have hStep : S.absorbByte (state, offset) byte = (S.xorByte offset byte state, offset + 1) :=
      if_neg hNext
    have hSum : offset + 1 + bytes.length = offset + (bytes.length + 1) := by omega
    rw [absorb, List.foldl_cons, hStep, ← absorb, ih (by omega), xorAt, List.length_cons, hSum]

/-- Input that completes the block permutes the state once. -/
theorem absorb_fill {offset : ℕ} {bytes : List UInt8} (hOffset : offset < S.rate)
    (h : offset + bytes.length = S.rate) (state : σ) :
    S.absorb (state, offset) bytes = (S.permute (S.xorAt offset bytes state), 0) := by
  rcases List.eq_nil_or_concat bytes with rfl | ⟨init, last, rfl⟩
  · exact absurd h hOffset.ne
  · rw [List.concat_eq_append] at h ⊢
    rw [List.length_append, List.length_singleton] at h
    have hStep : ∀ state', S.absorbByte (state', offset + init.length) last =
        (S.permute (S.xorByte (offset + init.length) last state'), 0) := fun _ => if_pos h
    have hInit := S.absorb_partial (show offset + init.length < S.rate by omega) state
    rw [absorb_append, hInit, xorAt_append]
    exact hStep (S.xorAt offset init state)

theorem absorb_blocks {blocks : List (List UInt8)} (h : ∀ block ∈ blocks, block.length = S.rate)
    (state : σ) : S.absorb (state, 0) blocks.flatten = (S.absorbBlocks blocks state, 0) := by
  induction blocks generalizing state with
  | nil => rfl
  | cons block blocks ih =>
    rw [List.forall_mem_cons] at h
    have hBlock : 0 + block.length = S.rate := by rw [h.1, Nat.zero_add]
    rw [List.flatten_cons, absorb_append, S.absorb_fill S.rate_pos hBlock, ih h.2]
    rfl

/-- From the start of a block: the whole blocks, then what is left over. -/
theorem absorb_chunks (bytes : List UInt8) (state : σ) :
    S.absorb (state, 0) bytes =
      (S.xorAt 0 (bytes.chunksRemainder S.rate)
        (S.absorbBlocks (bytes.chunksExact S.rate) state), bytes.length % S.rate) := by
  have hRemainder := List.length_chunksRemainder S.rate bytes
  have hLt := Nat.mod_lt bytes.length S.rate_pos
  conv_lhs => rw [← List.flatten_chunksExact S.rate bytes]
  rw [absorb_append, S.absorb_blocks List.length_of_mem_chunksExact, S.absorb_partial (by omega),
    hRemainder, Nat.zero_add]

end Absorbing

section Squeezing

theorem squeeze_add (left right : ℕ) (cursor : σ × ℕ) :
    S.squeeze (left + right) cursor =
      ((S.squeeze left cursor).1 ++ (S.squeeze right (S.squeeze left cursor).2).1,
        (S.squeeze right (S.squeeze left cursor).2).2) := by
  induction left generalizing cursor with
  | zero =>
    rw [Nat.zero_add]
    rfl
  | succ left ih =>
    rw [Nat.succ_add, squeeze, ih]
    rfl

theorem length_squeeze (count : ℕ) (cursor : σ × ℕ) : (S.squeeze count cursor).1.length = count := by
  induction count generalizing cursor with
  | zero => rfl
  | succ count ih => rw [squeeze, List.length_cons, ih]

/-- Output from inside a block that does not use the block up. -/
theorem squeeze_partial {offset count : ℕ} (hOffset : 0 < offset) (h : offset + count < S.rate)
    (state : σ) :
    S.squeeze count (state, offset) = (S.readAt state offset count, (state, offset + count)) := by
  induction count generalizing offset with
  | zero => rfl
  | succ count ih =>
    have hStart : ¬offset = 0 := by omega
    have hNext : ¬offset + 1 = S.rate := by omega
    have hByte : S.squeezeByte (state, offset) = (S.byteAt state offset, (state, offset + 1)) := by
      simp only [squeezeByte, if_neg hStart, if_neg hNext]
    have hSum : offset + 1 + count = offset + (count + 1) := by omega
    rw [squeeze, hByte, ih (by omega) (by omega), readAt, readAt, List.range'_succ, List.map_cons,
      hSum]

/-- Output from inside a block that uses the block up. -/
theorem squeeze_fill {offset count : ℕ} (hOffset : 0 < offset) (hCount : 0 < count)
    (h : offset + count = S.rate) (state : σ) :
    S.squeeze count (state, offset) = (S.readAt state offset count, (state, 0)) := by
  obtain ⟨count, rfl⟩ := Nat.exists_eq_succ_of_ne_zero hCount.ne'
  have hStart : ¬offset + count = 0 := by omega
  have hNext : offset + count + 1 = S.rate := h
  have hByte : S.squeezeByte (state, offset + count) =
      (S.byteAt state (offset + count), (state, 0)) := by
    simp only [squeezeByte, if_neg hStart, if_pos hNext]
  rw [Nat.succ_eq_add_one, squeeze_add, S.squeeze_partial hOffset (by omega), squeeze, hByte, readAt,
    readAt, List.range'_1_concat, List.map_append]
  rfl

/-- A block that starts is permuted first. -/
theorem squeeze_start {count : ℕ} (hCount : 0 < count) (h : count ≤ S.rate) (state : σ) :
    S.squeeze count (state, 0) =
      (S.readAt (S.permute state) 0 count,
        (S.permute state, if count = S.rate then 0 else count)) := by
  obtain ⟨count, rfl⟩ := Nat.exists_eq_succ_of_ne_zero hCount.ne'
  have hByte : S.squeezeByte (state, 0) =
      (S.byteAt (S.permute state) 0, (S.permute state, if 0 + 1 = S.rate then 0 else 0 + 1)) := rfl
  rw [Nat.succ_eq_add_one] at h ⊢
  rw [squeeze, hByte, readAt, List.range'_succ, List.map_cons]
  by_cases hOne : 0 + 1 = S.rate
  · obtain rfl : count = 0 := by omega
    rw [if_pos hOne]
    rfl
  · rw [if_neg hOne]
    by_cases hFull : count + 1 = S.rate
    · rw [S.squeeze_fill (by omega) (by omega) (by omega), if_pos hFull]
      rfl
    · rw [S.squeeze_partial (by omega) (by omega), if_neg hFull, Nat.add_comm count]
      rfl

/-- Whole blocks of output, each read after a permutation. -/
def squeezeBlocks : ℕ → σ → List UInt8 × σ
  | 0, state => ([], state)
  | count + 1, state =>
    let next := S.permute state
    let rest := squeezeBlocks count next
    (S.readAt next 0 S.rate ++ rest.1, rest.2)

theorem squeeze_blocks (count : ℕ) (state : σ) :
    S.squeeze (S.rate * count) (state, 0) =
      ((S.squeezeBlocks count state).1, ((S.squeezeBlocks count state).2, 0)) := by
  induction count generalizing state with
  | zero => rfl
  | succ count ih =>
    rw [Nat.mul_succ, Nat.add_comm, squeeze_add, S.squeeze_start S.rate_pos le_rfl, if_pos rfl, ih]
    rfl

/-- How often the state was permuted after so many bytes of output. -/
def permutations (count : ℕ) : ℕ := (count + S.rate - 1) / S.rate

theorem permutations_succ (count : ℕ) : S.permutations (count + 1) = count / S.rate + 1 := by
  have hRate := S.rate_pos
  have hSum : count + 1 + S.rate - 1 = count + S.rate := by omega
  rw [permutations, hSum, Nat.add_div_right count hRate]

theorem permutations_of_mod {count : ℕ} (h : count % S.rate ≠ 0) :
    S.permutations count = count / S.rate + 1 := by
  cases count with
  | zero => exact absurd (Nat.zero_mod S.rate) h
  | succ count =>
    have hDiv : (count + 1) / S.rate = count / S.rate := by
      rw [Nat.succ_div, if_neg fun hDvd => h (Nat.mod_eq_zero_of_dvd hDvd), Nat.add_zero]
    rw [permutations_succ, hDiv]

theorem permutations_of_mod_zero {count : ℕ} (h : count % S.rate = 0) :
    S.permutations count = count / S.rate := by
  have hRate := S.rate_pos
  obtain ⟨k, rfl⟩ := Nat.dvd_of_mod_eq_zero h
  rw [Nat.mul_div_cancel_left k hRate]
  exact Nat.div_eq_of_lt_le (by rw [Nat.mul_comm]; omega) (by rw [Nat.add_mul, Nat.mul_comm]; omega)

/-- The whole output: byte `t` stands at `t % rate` of the state permuted `t / rate + 1` times. -/
theorem squeeze_eq (count : ℕ) (state : σ) :
    S.squeeze count (state, 0) =
      ((List.range count).map fun t => S.byteAt (S.permute^[t / S.rate + 1] state) (t % S.rate),
        (S.permute^[S.permutations count] state, count % S.rate)) := by
  have hRate := S.rate_pos
  induction count with
  | zero =>
    have hZero : S.permutations 0 = 0 := Nat.div_eq_of_lt (by omega)
    rw [hZero, Nat.zero_mod]
    rfl
  | succ count ih =>
    have hState : (if count % S.rate = 0 then S.permute (S.permute^[S.permutations count] state)
        else S.permute^[S.permutations count] state) = S.permute^[count / S.rate + 1] state := by
      split
      · rename_i hMod
        rw [S.permutations_of_mod_zero hMod, Function.iterate_succ_apply']
      · rename_i hMod
        rw [S.permutations_of_mod hMod]
    have hOffset : (if count % S.rate + 1 = S.rate then 0 else count % S.rate + 1) =
        (count + 1) % S.rate := by
      have hLt := Nat.mod_lt count hRate
      rw [← Nat.mod_add_mod]
      split
      · rename_i hFull
        rw [hFull, Nat.mod_self]
      · rename_i hNext
        rw [Nat.mod_eq_of_lt (lt_of_le_of_ne hLt hNext)]
    rw [squeeze_add, ih, squeeze, squeezeByte, hState, hOffset, permutations_succ, List.range_succ,
      List.map_append]
    rfl

end Squeezing

section Padding

/-- The end of a message: the domain byte, zeros and the byte that closes the block; in a block
with one byte left the two share it. -/
def padding (domain closing : UInt8) : ℕ → List UInt8
  | 0 => [domain ^^^ closing]
  | zeros + 1 => domain :: (List.replicate zeros 0 ++ [closing])

def padded (domain closing : UInt8) (message : List UInt8) : List UInt8 :=
  message ++ padding domain closing (S.rate - 1 - message.length % S.rate)

/-- The extendable output of a message. -/
def extendableOutput (domain closing : UInt8) (start : σ) (message : List UInt8) (count : ℕ) :
    List UInt8 :=
  let state := S.absorbBlocks ((S.padded domain closing message).chunksExact S.rate) start
  (List.range count).map fun t => S.byteAt (S.permute^[t / S.rate] state) (t % S.rate)

/-- Padding in place: the two bytes that change the state. -/
def padAt (domain closing : UInt8) (cursor : σ × ℕ) : σ :=
  S.xorByte (S.rate - 1) closing (S.xorByte cursor.2 domain cursor.1)

theorem length_padding (domain closing : UInt8) (zeros : ℕ) :
    (padding domain closing zeros).length = zeros + 1 := by
  cases zeros with
  | zero => rfl
  | succ zeros => simp [padding]

theorem xorAt_padding (domain closing : UInt8) (offset zeros : ℕ) (state : σ) :
    S.xorAt offset (padding domain closing zeros) state =
      S.xorByte (offset + zeros) closing (S.xorByte offset domain state) := by
  cases zeros with
  | zero => exact (S.xorByte_xorByte offset domain closing state).symm
  | succ zeros =>
    rw [padding, xorAt, xorAt_append, xorAt_zeros, List.length_replicate, Nat.add_right_comm]
    rfl

theorem length_padded_mod (domain closing : UInt8) (message : List UInt8) :
    (S.padded domain closing message).length % S.rate = 0 := by
  have hSplit := Nat.div_add_mod message.length S.rate
  have hLt := Nat.mod_lt message.length S.rate_pos
  have hLength : (S.padded domain closing message).length =
      S.rate * (message.length / S.rate + 1) := by
    rw [padded, List.length_append, length_padding, Nat.mul_succ]
    omega
  rw [hLength, Nat.mul_mod_right]

theorem permute_padAt (domain closing : UInt8) (start : σ) (message : List UInt8) :
    S.permute (S.padAt domain closing (S.absorb (start, 0) message)) =
      S.absorbBlocks ((S.padded domain closing message).chunksExact S.rate) start := by
  have hBlocks := S.absorb_chunks (S.padded domain closing message) start
  have hMod := S.length_padded_mod domain closing message
  have hRemainder : (S.padded domain closing message).chunksRemainder S.rate = [] := by
    rw [← List.length_eq_zero_iff, List.length_chunksRemainder, hMod]
  rw [hRemainder, hMod, padded, absorb_append] at hBlocks
  have hOffset : (S.absorb (start, 0) message).2 = message.length % S.rate := by
    rw [absorb_chunks]
  have hLt := Nat.mod_lt message.length S.rate_pos
  generalize S.absorb (start, 0) message = cursor at hBlocks hOffset ⊢
  obtain ⟨state, offset⟩ := cursor
  obtain rfl : offset = message.length % S.rate := hOffset
  have hFill : message.length % S.rate +
      (padding domain closing (S.rate - 1 - message.length % S.rate)).length = S.rate := by
    rw [length_padding]
    omega
  have hLast : message.length % S.rate + (S.rate - 1 - message.length % S.rate) = S.rate - 1 := by
    omega
  rw [S.absorb_fill hLt hFill, xorAt_padding, hLast] at hBlocks
  exact congrArg Prod.fst hBlocks

/-- Absorb, pad in place and squeeze: the output of the padded message. -/
theorem squeeze_padAt (domain closing : UInt8) (start : σ) (message : List UInt8) (count : ℕ) :
    (S.squeeze count (S.padAt domain closing (S.absorb (start, 0) message), 0)).1 =
      S.extendableOutput domain closing start message count := by
  rw [squeeze_eq, extendableOutput, ← permute_padAt]
  rfl

end Padding

end ByteSponge
