import X301Provider.Library.Bytes

/-!
# Words as memory

An array of words is the little-endian string of its bytes. Exclusive or of a string into
a region of that memory is the same byte by byte, word by word, and as one shifted word.
-/

namespace Limbs

/-- The memory that an array of words occupies on a little-endian machine. -/
def memoryOf (words : List UInt64) : List UInt8 := words.flatMap wordToBytes

@[simp] theorem memoryOf_nil : memoryOf [] = [] := rfl

@[simp] theorem memoryOf_cons (word : UInt64) (words : List UInt64) :
    memoryOf (word :: words) = wordToBytes word ++ memoryOf words := rfl

theorem memoryOf_append (left right : List UInt64) :
    memoryOf (left ++ right) = memoryOf left ++ memoryOf right := List.flatMap_append

theorem length_memoryOf (words : List UInt64) : (memoryOf words).length = 8 * words.length := by
  induction words with
  | nil => rfl
  | cons word words ih =>
    rw [memoryOf_cons, List.length_append, wordToBytes_length, ih, List.length_cons]
    ring

theorem wordOfBytes_wordToBytes (word : UInt64) : wordOfBytes (wordToBytes word) = word := by
  rw [wordOfBytes, bytesValue_wordToBytes, UInt64.ofNat_toNat]

theorem wordToBytes_wordOfBytes {bytes : List UInt8} (h : bytes.length = 8) :
    wordToBytes (wordOfBytes bytes) = bytes := by
  rw [wordToBytes, wordOfBytes_toNat h.le, ← h, leBytes_bytesValue]

theorem wordsOfBytes_memoryOf (words : List UInt64) :
    wordsOfBytes words.length (memoryOf words) = words := by
  induction words with
  | nil => rfl
  | cons word words ih =>
    have hLength := wordToBytes_length word
    rw [memoryOf_cons, List.length_cons, wordsOfBytes, List.take_left' hLength,
      List.drop_left' hLength, wordOfBytes_wordToBytes, ih]

theorem memoryOf_wordsOfBytes {count : ℕ} {bytes : List UInt8} (h : bytes.length = 8 * count) :
    memoryOf (wordsOfBytes count bytes) = bytes := by
  induction count generalizing bytes with
  | zero => exact (List.eq_nil_of_length_eq_zero h).symm
  | succ count ih =>
    have hTake : (bytes.take 8).length = 8 := by
      rw [List.length_take]
      omega
    have hDrop : (bytes.drop 8).length = 8 * count := by
      rw [List.length_drop]
      omega
    rw [wordsOfBytes, memoryOf_cons, wordToBytes_wordOfBytes hTake, ih hDrop,
      List.take_append_drop]

/-- A string, byte after byte, into the region at an offset. -/
def xorRegion : ℕ → List UInt8 → List UInt8 → List UInt8
  | _, [], memory => memory
  | offset, byte :: bytes, memory =>
    xorRegion (offset + 1) bytes (memory.modify offset (· ^^^ byte))

section Region

theorem xorRegion_append (offset : ℕ) (left right memory : List UInt8) :
    xorRegion offset (left ++ right) memory =
      xorRegion (offset + left.length) right (xorRegion offset left memory) := by
  induction left generalizing offset memory with
  | nil => rfl
  | cons byte left ih =>
    rw [List.cons_append, xorRegion, xorRegion, ih, List.length_cons, Nat.add_right_comm,
      Nat.add_assoc]

theorem modify_xor_zero (offset : ℕ) (memory : List UInt8) :
    memory.modify offset (· ^^^ 0) = memory := by
  have hId : (fun byte : UInt8 => byte ^^^ 0) = id := funext fun _ => UInt8.xor_zero
  rw [hId, List.modify_id]

theorem xorRegion_zeros (offset count : ℕ) (memory : List UInt8) :
    xorRegion offset (List.replicate count 0) memory = memory := by
  induction count generalizing offset with
  | zero => rfl
  | succ count ih => rw [List.replicate_succ, xorRegion, modify_xor_zero, ih]

theorem xorRegion_cons (offset : ℕ) (bytes : List UInt8) (first : UInt8) (memory : List UInt8) :
    xorRegion (offset + 1) bytes (first :: memory) = first :: xorRegion offset bytes memory := by
  induction bytes generalizing offset memory with
  | nil => rfl
  | cons byte bytes ih => rw [xorRegion, List.modify_succ_cons, ih, xorRegion]

/-- A region that starts behind the front leaves the front. -/
theorem xorRegion_skip (before : List UInt8) (offset : ℕ) (bytes memory : List UInt8) :
    xorRegion (before.length + offset) bytes (before ++ memory) =
      before ++ xorRegion offset bytes memory := by
  induction before with
  | nil => rw [List.length_nil, Nat.zero_add, List.nil_append, List.nil_append]
  | cons first before ih =>
    rw [List.length_cons, Nat.add_right_comm, List.cons_append, xorRegion_cons, ih,
      List.cons_append]

/-- A string as long as the front of the memory meets only the front. -/
theorem xorRegion_front {bytes front : List UInt8} (h : bytes.length = front.length)
    (memory : List UInt8) :
    xorRegion 0 bytes (front ++ memory) = List.zipWith (· ^^^ ·) front bytes ++ memory := by
  induction bytes generalizing front with
  | nil =>
    obtain rfl := List.eq_nil_of_length_eq_zero h.symm
    rfl
  | cons byte bytes ih =>
    cases front with
    | nil => exact absurd h (Nat.succ_ne_zero bytes.length)
    | cons first front =>
      rw [xorRegion, List.cons_append, List.modify_zero_cons, xorRegion_cons,
        ih (Nat.succ.inj h)]
      rfl

end Region

section Words

theorem leBytes_xor (count x y : ℕ) :
    leBytes count (x ^^^ y) = List.zipWith (· ^^^ ·) (leBytes count x) (leBytes count y) := by
  induction count generalizing x y with
  | zero => rfl
  | succ count ih =>
    have hHead : UInt8.ofNat (x ^^^ y) = UInt8.ofNat x ^^^ UInt8.ofNat y := by
      apply UInt8.toNat_inj.mp
      rw [UInt8.toNat_xor, UInt8.toNat_ofNat', UInt8.toNat_ofNat', UInt8.toNat_ofNat']
      exact Nat.xor_mod_two_pow
    have hTail : (x ^^^ y) / 256 = x / 256 ^^^ y / 256 := Nat.xor_div_two_pow (n := 8)
    rw [leBytes, hHead, hTail, ih]
    rfl

theorem wordToBytes_xor (x y : UInt64) :
    wordToBytes (x ^^^ y) = List.zipWith (· ^^^ ·) (wordToBytes x) (wordToBytes y) := by
  rw [wordToBytes, UInt64.toNat_xor, leBytes_xor]
  rfl

/-- The words of chunks of eight bytes, one after the other. -/
def xorWords : List UInt64 → List (List UInt8) → List UInt64
  | words, [] => words
  | [], _ :: _ => []
  | word :: words, chunk :: chunks => (word ^^^ wordOfBytes chunk) :: xorWords words chunks

theorem length_xorWords (words : List UInt64) (chunks : List (List UInt8)) :
    (xorWords words chunks).length = words.length := by
  induction chunks generalizing words with
  | nil =>
    cases words <;> rfl
  | cons chunk chunks ih =>
    cases words with
    | nil => rfl
    | cons word words => rw [xorWords, List.length_cons, ih, List.length_cons]

theorem memoryOf_xorWords {words : List UInt64} {chunks : List (List UInt8)}
    (hChunks : ∀ chunk ∈ chunks, chunk.length = 8) (h : chunks.length ≤ words.length) :
    memoryOf (xorWords words chunks) = xorRegion 0 chunks.flatten (memoryOf words) := by
  induction chunks generalizing words with
  | nil =>
    cases words <;> rfl
  | cons chunk chunks ih =>
    cases words with
    | nil => exact absurd h (Nat.not_succ_le_zero _)
    | cons word words =>
      rw [List.forall_mem_cons] at hChunks
      have hFront : chunk.length = (wordToBytes word).length := by
        rw [hChunks.1, wordToBytes_length]
      have hZip := wordToBytes_xor word (wordOfBytes chunk)
      rw [wordToBytes_wordOfBytes hChunks.1] at hZip
      have hOffset : 0 + chunk.length = (wordToBytes (word ^^^ wordOfBytes chunk)).length + 0 := by
        rw [wordToBytes_length, hChunks.1]
      rw [xorWords, memoryOf_cons, memoryOf_cons, List.flatten_cons, xorRegion_append,
        xorRegion_front hFront, ← hZip, hOffset, xorRegion_skip,
        ih hChunks.2 (Nat.le_of_succ_le_succ h)]

theorem leBytes_shift (count skip x : ℕ) :
    leBytes (skip + count) (256 ^ skip * x) = List.replicate skip 0 ++ leBytes count x := by
  induction skip with
  | zero => simp
  | succ skip ih =>
    have hSplit : 256 ^ (skip + 1) * x = 256 * (256 ^ skip * x) := by ring
    have hHead : UInt8.ofNat (256 * (256 ^ skip * x)) = 0 := by
      apply UInt8.toNat_inj.mp
      rw [UInt8.toNat_ofNat']
      exact Nat.mul_mod_right 256 _
    rw [Nat.succ_add, leBytes, hSplit, hHead, Nat.mul_div_cancel_left _ (by decide), ih]
    rfl

theorem leBytes_byte (count : ℕ) (byte : UInt8) :
    leBytes (count + 1) byte.toNat = byte :: List.replicate count 0 := by
  have hRest : ∀ count, leBytes count 0 = List.replicate count 0 := by
    intro count
    induction count with
    | zero => rfl
    | succ count ih =>
      rw [leBytes, ih]
      rfl
  rw [leBytes, UInt8.ofNat_toNat, Nat.div_eq_of_lt byte.toNat_lt, hRest]

/-- A byte shifted to its place in a word. -/
theorem wordToBytes_shift (byte : UInt8) {index : ℕ} (h : index < 8) :
    wordToBytes (byte.toUInt64 <<< UInt64.ofNat (8 * index)) =
      List.replicate index 0 ++ byte :: List.replicate (7 - index) 0 := by
  have hByte := byte.toNat_lt
  have hPower : 256 ^ index * 256 ^ (8 - index) = 2 ^ 64 := by
    rw [← pow_add, Nat.add_sub_cancel' h.le]
    rfl
  have hBound : 256 ^ index * byte.toNat < 2 ^ 64 := by
    rw [← hPower]
    refine Nat.mul_lt_mul_of_pos_left (hByte.trans_le ?_) (Nat.pow_pos (by decide))
    exact Nat.le_self_pow (by omega) 256
  have hShift : (byte.toUInt64 <<< UInt64.ofNat (8 * index)).toNat = 256 ^ index * byte.toNat := by
    have hIndex : (UInt64.ofNat (8 * index)).toNat % 64 = 8 * index := by
      rw [UInt64.toNat_ofNat']
      omega
    rw [UInt64.toNat_shiftLeft, hIndex, UInt8.toNat_toUInt64, Nat.shiftLeft_eq, Nat.pow_mul,
      Nat.mul_comm]
    exact Nat.mod_eq_of_lt hBound
  have hCount : 8 = index + (7 - index + 1) := by omega
  rw [wordToBytes, hShift]
  conv_lhs => rw [hCount]
  rw [leBytes_shift, leBytes_byte]

theorem memoryOf_shift (words : List UInt64) (byte : UInt8) (word : ℕ) {index : ℕ}
    (h : index < 8) :
    memoryOf (words.modify word (· ^^^ byte.toUInt64 <<< UInt64.ofNat (8 * index))) =
      (memoryOf words).modify (8 * word + index) (· ^^^ byte) := by
  change _ = xorRegion (8 * word + index) [byte] (memoryOf words)
  induction words generalizing word with
  | nil => simp [xorRegion]
  | cons first words ih =>
    cases word with
    | zero =>
      have hLength : (List.replicate index 0 ++ byte :: List.replicate (7 - index) 0).length =
          (wordToBytes first).length := by
        rw [← wordToBytes_shift byte h, wordToBytes_length, wordToBytes_length]
      have hWord := xorRegion_front hLength (memoryOf words)
      rw [List.append_cons, xorRegion_append, xorRegion_append, xorRegion_zeros, xorRegion_zeros]
        at hWord
      rw [List.modify_zero_cons, memoryOf_cons, memoryOf_cons, wordToBytes_xor,
        wordToBytes_shift byte h, List.append_cons, ← hWord, List.length_replicate]
    | succ word =>
      have hOffset : 8 * (word + 1) + index = (wordToBytes first).length + (8 * word + index) := by
        rw [wordToBytes_length, Nat.mul_succ, Nat.add_comm (8 * word), Nat.add_assoc]
      rw [List.modify_succ_cons, memoryOf_cons, memoryOf_cons, hOffset, xorRegion_skip, ih word]

end Words

end Limbs
