import Mathlib.Data.Vector.Basic
import X301Provider.Library.Limbs

/-!
# Little-endian byte strings

Byte strings denote integers least significant byte first. Fixed-length arrays
are length-indexed lists, so a byte array carries its own length.
-/

/-- A byte array of fixed length. -/
abbrev Bytes (n : ℕ) := List.Vector UInt8 n

/-- A `u64` array of fixed length. -/
abbrev Words (n : ℕ) := List.Vector UInt64 n

/-- Positions of five limbs and of 38 bytes are written as numerals. -/
instance neZeroLimbs : NeZero 5 := ⟨by decide⟩
instance neZeroBytes : NeZero 38 := ⟨by decide⟩

namespace Limbs

def bytesValue : List UInt8 → ℕ
  | [] => 0
  | byte :: bytes => byte.toNat + 256 * bytesValue bytes

def leBytes : ℕ → ℕ → List UInt8
  | 0, _ => []
  | count + 1, n => UInt8.ofNat n :: leBytes count (n / 256)

@[simp] theorem bytesValue_nil : bytesValue [] = 0 := rfl

@[simp] theorem bytesValue_cons (byte : UInt8) (bytes : List UInt8) :
    bytesValue (byte :: bytes) = byte.toNat + 256 * bytesValue bytes := rfl

@[simp] theorem leBytes_length (count n : ℕ) : (leBytes count n).length = count := by
  induction count generalizing n with
  | zero => rfl
  | succ count ih => rw [leBytes, List.length_cons, ih]

theorem bytesValue_append (left right : List UInt8) :
    bytesValue (left ++ right) = bytesValue left + 256 ^ left.length * bytesValue right := by
  induction left with
  | nil => simp
  | cons byte left ih =>
    rw [List.cons_append, bytesValue_cons, bytesValue_cons, ih, List.length_cons, pow_succ]
    ring

theorem two_pow_bytes (k j : ℕ) : (2 : ℕ) ^ (8 * k + j) = 256 ^ k * 2 ^ j := by
  rw [pow_add, pow_mul]
  rfl

theorem bytesValue_lt (bytes : List UInt8) : bytesValue bytes < 256 ^ bytes.length := by
  induction bytes with
  | nil => simp
  | cons byte bytes ih =>
    have hByte := byte.toNat_lt
    rw [bytesValue_cons, List.length_cons, pow_succ]
    omega

theorem bytesValue_leBytes (count n : ℕ) : bytesValue (leBytes count n) = n % 256 ^ count := by
  induction count generalizing n with
  | zero => simp [leBytes, Nat.mod_one]
  | succ count ih =>
    have hHead : (UInt8.ofNat n).toNat = n % 256 := UInt8.toNat_ofNat'
    rw [leBytes, bytesValue_cons, ih, hHead, pow_succ', Nat.mod_mul]

theorem leBytes_bytesValue (bytes : List UInt8) :
    leBytes bytes.length (bytesValue bytes) = bytes := by
  induction bytes with
  | nil => rfl
  | cons byte bytes ih =>
    have hByte := byte.toNat_lt
    have hHead : UInt8.ofNat (byte.toNat + 256 * bytesValue bytes) = byte := by
      apply UInt8.toNat_inj.mp
      rw [UInt8.toNat_ofNat']
      omega
    have hTail : (byte.toNat + 256 * bytesValue bytes) / 256 = bytesValue bytes := by omega
    rw [List.length_cons, leBytes, bytesValue_cons, hHead, hTail, ih]

theorem bytesValue_injective {left right : List UInt8} (hLength : left.length = right.length)
    (h : bytesValue left = bytesValue right) : left = right := by
  rw [← leBytes_bytesValue left, hLength, h, leBytes_bytesValue]

theorem bytesValue_eq_zero_iff (bytes : List UInt8) :
    bytesValue bytes = 0 ↔ ∀ byte ∈ bytes, byte = 0 := by
  induction bytes with
  | nil => simp
  | cons byte bytes ih =>
    have hByte : byte.toNat = 0 ↔ byte = 0 := by
      rw [← UInt8.toNat_inj]
      rfl
    rw [bytesValue_cons, List.forall_mem_cons, ← ih, ← hByte]
    omega

theorem byteAt_eq (bytes : List UInt8) (i : ℕ) :
    bytesValue bytes / 2 ^ (8 * i) % 256 = (bytes.getD i 0).toNat := by
  induction bytes generalizing i with
  | nil => simp
  | cons byte bytes ih =>
    have hByte := byte.toNat_lt
    cases i with
    | zero =>
      rw [mul_zero, pow_zero, Nat.div_one, bytesValue_cons, Nat.add_mul_mod_self_left,
        Nat.mod_eq_of_lt hByte]
      rfl
    | succ i =>
      have hPower : 2 ^ (8 * (i + 1)) = 256 * 2 ^ (8 * i) := by
        rw [mul_add, pow_add, mul_comm]
        rfl
      rw [hPower, ← Nat.div_div_eq_div_mul, bytesValue_cons,
        Nat.add_mul_div_left _ _ (by decide), Nat.div_eq_of_lt hByte, zero_add, ih]
      rfl

/-- An array of exactly `n` bytes, if the slice has that length. -/
def toArray (n : ℕ) (bytes : List UInt8) : Option (Bytes n) :=
  if h : bytes.length = n then some ⟨bytes, h⟩ else none

@[simp] theorem toArray_val {n : ℕ} (bytes : Bytes n) : toArray n bytes.1 = some bytes :=
  dif_pos bytes.2

theorem toArray_of_length_ne {n : ℕ} {bytes : List UInt8} (h : bytes.length ≠ n) :
    toArray n bytes = none := dif_neg h

theorem toArray_eq_none_iff {n : ℕ} {bytes : List UInt8} :
    toArray n bytes = none ↔ bytes.length ≠ n := by
  rw [toArray]
  split_ifs with h
  · simp [h]
  · simp [h]

theorem toArray_eq_some_iff {n : ℕ} {bytes : List UInt8} {array : Bytes n} :
    toArray n bytes = some array ↔ bytes = array.1 := by
  constructor
  · intro h
    rw [toArray] at h
    split_ifs at h with hLength
    rw [← Option.some.inj h]
  · rintro rfl
    exact toArray_val array

def leWords : ℕ → ℕ → List UInt64
  | 0, _ => []
  | count + 1, n => UInt64.ofNat n :: leWords count (n / wordBase)

@[simp] theorem leWords_length (count n : ℕ) : (leWords count n).length = count := by
  induction count generalizing n with
  | zero => rfl
  | succ count ih => rw [leWords, List.length_cons, ih]

theorem value_leWords (count n : ℕ) : value (leWords count n) = n % wordBase ^ count := by
  induction count generalizing n with
  | zero => simp [leWords, Nat.mod_one]
  | succ count ih =>
    have hHead : (UInt64.ofNat n).toNat = n % wordBase := UInt64.toNat_ofNat'
    rw [leWords, value_cons, ih, hHead, pow_succ', Nat.mod_mul]

/-- `u64::from_le_bytes`, for at most eight bytes. -/
def wordOfBytes (bytes : List UInt8) : UInt64 := UInt64.ofNat (bytesValue bytes)

/-- `u64::to_le_bytes`. -/
def wordToBytes (word : UInt64) : List UInt8 := leBytes 8 word.toNat

theorem wordOfBytes_toNat {bytes : List UInt8} (h : bytes.length ≤ 8) :
    (wordOfBytes bytes).toNat = bytesValue bytes := by
  have hLt := bytesValue_lt bytes
  have hPow : 256 ^ bytes.length ≤ 256 ^ 8 := Nat.pow_le_pow_right (by decide) h
  rw [wordOfBytes, UInt64.toNat_ofNat', Nat.mod_eq_of_lt]
  exact hLt.trans_le hPow

@[simp] theorem wordToBytes_length (word : UInt64) : (wordToBytes word).length = 8 :=
  leBytes_length 8 _

theorem bytesValue_wordToBytes (word : UInt64) : bytesValue (wordToBytes word) = word.toNat := by
  rw [wordToBytes, bytesValue_leBytes, Nat.mod_eq_of_lt]
  exact word.toNat_lt

/-- Bytes grouped into words, eight to a word. -/
def wordsOfBytes : ℕ → List UInt8 → List UInt64
  | 0, _ => []
  | count + 1, bytes => wordOfBytes (bytes.take 8) :: wordsOfBytes count (bytes.drop 8)

@[simp] theorem wordsOfBytes_length (count : ℕ) (bytes : List UInt8) :
    (wordsOfBytes count bytes).length = count := by
  induction count generalizing bytes with
  | zero => rfl
  | succ count ih => rw [wordsOfBytes, List.length_cons, ih]

theorem value_wordsOfBytes {count : ℕ} {bytes : List UInt8} (h : bytes.length ≤ 8 * count) :
    value (wordsOfBytes count bytes) = bytesValue bytes := by
  induction count generalizing bytes with
  | zero =>
    have hNil : bytes = [] := List.length_eq_zero_iff.mp (by omega)
    rw [hNil]
    rfl
  | succ count ih =>
    have hTake : (bytes.take 8).length ≤ 8 := by rw [List.length_take]; omega
    rw [wordsOfBytes, value_cons, wordOfBytes_toNat hTake, ih (by rw [List.length_drop]; omega)]
    conv_rhs => rw [← List.take_append_drop 8 bytes, bytesValue_append]
    by_cases hShort : bytes.length < 8
    · rw [List.drop_eq_nil_of_le hShort.le, bytesValue_nil, mul_zero, mul_zero]
    · rw [List.length_take, Nat.min_eq_left (by omega), wordBase]
      norm_num

theorem bytesValue_flatMap_wordToBytes (words : List UInt64) :
    bytesValue (words.flatMap wordToBytes) = value words := by
  induction words with
  | nil => rfl
  | cons word words ih =>
    rw [List.flatMap_cons, bytesValue_append, ih, bytesValue_wordToBytes, value_cons,
      wordToBytes_length, wordBase]
    norm_num

theorem bytesValue_take (bytes : List UInt8) (count : ℕ) :
    bytesValue (bytes.take count) = bytesValue bytes % 256 ^ count := by
  induction count generalizing bytes with
  | zero => simp [Nat.mod_one]
  | succ count ih =>
    cases bytes with
    | nil => simp
    | cons byte bytes =>
      have hByte := byte.toNat_lt
      have hMod : (byte.toNat + 256 * bytesValue bytes) % 256 = byte.toNat := by omega
      have hDiv : (byte.toNat + 256 * bytesValue bytes) / 256 = bytesValue bytes := by omega
      rw [List.take_succ_cons, bytesValue_cons, bytesValue_cons, ih, pow_succ', Nat.mod_mul,
        hMod, hDiv]

end Limbs
