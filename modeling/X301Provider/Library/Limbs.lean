import Mathlib.Algebra.Order.Ring.Nat
import Mathlib.Tactic.Ring
import Mathlib.Tactic.Linarith
import Mathlib.Tactic.LinearCombination

/-!
# Little-endian words and carry chains

A multi-word loop over `u64` words is a chain of `u128` accumulators: each
column adds the incoming carry, stores its low word and passes its high word
on. The chain is stated once, for any columns; additions, schoolbook rows and
folds are its instances.
-/

namespace Limbs

def wordBase : ℕ := 2 ^ 64

theorem wordBase_eq : wordBase = 18446744073709551616 := rfl

theorem wordBase_pos : 0 < wordBase := by decide

theorem toNat_lt (word : UInt64) : word.toNat < wordBase := word.toNat_lt

def value : List UInt64 → ℕ
  | [] => 0
  | word :: words => word.toNat + wordBase * value words

def columnSum : List ℕ → ℕ
  | [] => 0
  | column :: columns => column + wordBase * columnSum columns

@[simp] theorem value_nil : value [] = 0 := rfl

@[simp] theorem value_cons (word : UInt64) (words : List UInt64) :
    value (word :: words) = word.toNat + wordBase * value words := rfl

@[simp] theorem columnSum_nil : columnSum [] = 0 := rfl

@[simp] theorem columnSum_cons (column : ℕ) (columns : List ℕ) :
    columnSum (column :: columns) = column + wordBase * columnSum columns := rfl

theorem value_append (left right : List UInt64) :
    value (left ++ right) = value left + wordBase ^ left.length * value right := by
  induction left with
  | nil => simp
  | cons word left ih =>
    simp only [List.cons_append, value_cons, ih, List.length_cons, pow_succ]
    ring

theorem value_lt (words : List UInt64) : value words < wordBase ^ words.length := by
  induction words with
  | nil => simp
  | cons word words ih =>
    have hWord := toNat_lt word
    have hNext : wordBase * (value words + 1) ≤ wordBase * wordBase ^ words.length :=
      Nat.mul_le_mul_left _ ih
    rw [value_cons, List.length_cons, pow_succ']
    linarith

@[simp] theorem value_replicate_zero (count : ℕ) : value (List.replicate count 0) = 0 := by
  induction count with
  | zero => rfl
  | succ count ih => simp [List.replicate_succ, ih]

theorem value_injective : ∀ {left right : List UInt64}, left.length = right.length →
    value left = value right → left = right
  | [], [], _, _ => rfl
  | [], _ :: _, hLength, _ => by simp at hLength
  | _ :: _, [], hLength, _ => by simp at hLength
  | l :: left, r :: right, hLength, hValue => by
    have hl := toNat_lt l
    have hr := toNat_lt r
    simp only [value_cons, wordBase_eq] at hValue hl hr
    have hHead : l.toNat = r.toNat := by omega
    have hTail : value left = value right := by omega
    rw [UInt64.toNat_inj.mp hHead,
      value_injective (by simpa using hLength) hTail]

theorem columnSum_map_toNat (words : List UInt64) :
    columnSum (words.map UInt64.toNat) = value words := by
  induction words with
  | nil => rfl
  | cons word words ih => simp [ih]

/-- An unsigned 128-bit result, wrapping as release builds do. -/
def u128 (n : ℕ) : ℕ := n % 2 ^ 128

/-- `accumulator as u64`. -/
def lo (accumulator : ℕ) : UInt64 := UInt64.ofNat accumulator

/-- `(accumulator >> 64) as u64`. -/
def hi (accumulator : ℕ) : UInt64 := UInt64.ofNat (accumulator / wordBase)

theorem u128_eq {n : ℕ} (h : n < 2 ^ 128) : u128 n = n := Nat.mod_eq_of_lt h

@[simp] theorem lo_toNat (n : ℕ) : (lo n).toNat = n % wordBase := by
  rw [lo, UInt64.toNat_ofNat', wordBase]

theorem hi_toNat {n : ℕ} (h : n < 2 ^ 128) : (hi n).toNat = n / wordBase := by
  rw [hi, UInt64.toNat_ofNat', Nat.mod_eq_of_lt]
  rw [Nat.div_lt_iff_lt_mul wordBase_pos]
  exact h

theorem lo_add_hi {n : ℕ} (h : n < 2 ^ 128) : (lo n).toNat + wordBase * (hi n).toNat = n := by
  rw [lo_toNat, hi_toNat h, Nat.mod_add_div]

/-- One pass of column accumulators with a running carry. -/
def carryChain : List ℕ → UInt64 → List UInt64 × UInt64
  | [], carry => ([], carry)
  | column :: columns, carry =>
    let accumulator := u128 (column + carry.toNat)
    let rest := carryChain columns (hi accumulator)
    (lo accumulator :: rest.1, rest.2)

@[simp] theorem carryChain_length (columns : List ℕ) (carry : UInt64) :
    (carryChain columns carry).1.length = columns.length := by
  induction columns generalizing carry with
  | nil => rfl
  | cons column columns ih => simp [carryChain, ih]

/-- A column that leaves room for any carry word keeps its accumulator exact. -/
def Fits (column : ℕ) : Prop := column + wordBase ≤ 2 ^ 128

theorem Fits.accumulator_lt {column : ℕ} (h : Fits column) (carry : UInt64) :
    column + carry.toNat < 2 ^ 128 := by
  have hCarry := toNat_lt carry
  unfold Fits at h
  omega

theorem fits_add (left right : UInt64) : Fits (left.toNat + right.toNat) := by
  have hLeft := toNat_lt left
  have hRight := toNat_lt right
  simp only [Fits, wordBase_eq] at *
  omega

theorem fits_mul_add (left right old : UInt64) :
    Fits (left.toNat * right.toNat + old.toNat) := by
  have hLeft : left.toNat ≤ wordBase - 1 := Nat.le_pred_of_lt (toNat_lt left)
  have hRight : right.toNat ≤ wordBase - 1 := Nat.le_pred_of_lt (toNat_lt right)
  have hOld := toNat_lt old
  have hProduct := Nat.mul_le_mul hLeft hRight
  simp only [Fits, wordBase_eq] at *
  omega

theorem fits_word (word : UInt64) : Fits word.toNat := by
  have hWord := toNat_lt word
  simp only [Fits, wordBase_eq] at *
  omega

theorem carryChain_value (columns : List ℕ) (h : ∀ column ∈ columns, Fits column)
    (carry : UInt64) :
    value (carryChain columns carry).1 +
        wordBase ^ columns.length * (carryChain columns carry).2.toNat =
      columnSum columns + carry.toNat := by
  induction columns generalizing carry with
  | nil => simp [carryChain]
  | cons column columns ih =>
    have hFits := (h column List.mem_cons_self).accumulator_lt carry
    have hHead := lo_add_hi hFits
    have hTail := ih (fun c hc => h c (List.mem_cons_of_mem _ hc)) (hi (column + carry.toNat))
    simp only [carryChain, u128_eq hFits, value_cons, columnSum_cons, List.length_cons, pow_succ]
    linear_combination hHead + wordBase * hTail

/-- A carry above the room for the total is zero. -/
theorem carry_eq_zero {low room total : ℕ} {carry : UInt64} (h : low + room * carry.toNat = total)
    (hTotal : total < room) : carry = 0 ∧ low = total := by
  have hCarry : carry.toNat = 0 := by
    by_contra hNonzero
    have hLarge := Nat.mul_le_mul_left room (Nat.one_le_iff_ne_zero.mpr hNonzero)
    omega
  rw [hCarry, mul_zero, add_zero] at h
  exact ⟨UInt64.toNat_inj.mp hCarry, h⟩

/-- When the total fits the output words, no carry leaves the chain. -/
theorem carryChain_exact (columns : List ℕ) (h : ∀ column ∈ columns, Fits column)
    (carry : UInt64) (hTotal : columnSum columns + carry.toNat < wordBase ^ columns.length) :
    value (carryChain columns carry).1 = columnSum columns + carry.toNat ∧
      (carryChain columns carry).2 = 0 := by
  obtain ⟨hCarry, hValue⟩ := carry_eq_zero (carryChain_value columns h carry) hTotal
  exact ⟨hValue, hCarry⟩

end Limbs
