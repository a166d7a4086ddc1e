import X301Provider.Library.Bytes
import X301Provider.Library.IndexedLoops
import X301Provider.Library.LimbProducts

/-!
# Word loops that check themselves

The loops of a multi-word routine over the indices of its output array. Every sum is
reported before it is stored in 128 bits, and every word that leaves the routine is
reported as it is discarded. A row of multiplications keeps the value of the array
together with the running carry.
-/

namespace Limbs

open Observed (report Ensures)

/-- A sum about to be stored as a `u128`, or a word that is dropped. -/
inductive WordReport
  | accumulator (exact : ℕ)
  | discarded (word : UInt64)

/-- No accumulator overflows and nothing that is dropped carries information. -/
def WordReport.Exact : WordReport → Prop
  | .accumulator exact => exact < 2 ^ 128
  | .discarded word => word = 0

abbrev Checked := Observed WordReport

namespace Checked

def accumulate (exact : ℕ) : Checked ℕ := do
  report (.accumulator exact)
  pure (u128 exact)

def discard (word : UInt64) : Checked Unit := report (.discarded word)

theorem accumulate_ensures {exact : ℕ} (h : exact < 2 ^ 128) :
    Ensures WordReport.Exact (accumulate exact) (· = exact) := by
  have hReport : WordReport.Exact (.accumulator exact) := h
  exact (Observed.Passes.report hReport).ensures.bind fun _ _ => .pure (u128_eq h)

theorem discard_ensures {word : UInt64} (h : word = 0) :
    Ensures WordReport.Exact (discard word) fun _ => True := by
  have hReport : WordReport.Exact (.discarded word) := h
  exact (Observed.Passes.report hReport).ensures.mono fun _ _ => trivial

end Checked

section Values

variable {n : ℕ}

/-- Replacing a word, as an equation without subtraction. -/
theorem value_set (words : Words n) (i : Fin n) (word : UInt64) :
    value (words.set i word).1 + wordBase ^ (i : ℕ) * (words.get i).toNat =
      value words.1 + wordBase ^ (i : ℕ) * word.toNat := by
  obtain ⟨list, hList⟩ := words
  induction list generalizing n with
  | nil =>
    subst hList
    exact i.elim0
  | cons head rest ih =>
    subst hList
    cases i using Fin.cases with
    | zero =>
      change word.toNat + wordBase * value rest + wordBase ^ 0 * head.toNat =
        head.toNat + wordBase * value rest + wordBase ^ 0 * word.toNat
      ring
    | succ i =>
      have hRest := ih i rfl
      change head.toNat + wordBase * value (List.Vector.set ⟨rest, rfl⟩ i word).1 +
          wordBase ^ ((i : ℕ) + 1) * (List.Vector.get ⟨rest, rfl⟩ i).toNat =
        head.toNat + wordBase * value rest + wordBase ^ ((i : ℕ) + 1) * word.toNat
      rw [pow_succ]
      linear_combination wordBase * hRest

theorem get_mul_le_value (words : Words n) (i : Fin n) :
    wordBase ^ (i : ℕ) * (words.get i).toNat ≤ value words.1 := by
  have hSet := value_set words i 0
  have hZero : (0 : UInt64).toNat = 0 := rfl
  rw [hZero, mul_zero, add_zero] at hSet
  omega

/-- A word above the value of the array is zero. -/
theorem get_eq_zero_of_lt {words : Words n} {i : Fin n} (h : value words.1 < wordBase ^ (i : ℕ)) :
    words.get i = 0 := by
  have hSet := value_set words i 0
  have hZero : (0 : UInt64).toNat = 0 := rfl
  rw [hZero, mul_zero, add_zero] at hSet
  exact (carry_eq_zero hSet h).1

theorem value_take_succ (words : Words n) (i : Fin n) :
    value (words.1.take (i + 1)) =
      value (words.1.take i) + wordBase ^ (i : ℕ) * (words.get i).toNat := by
  rw [List.Vector.take_succ_eq, value_append, List.length_take, words.2,
    Nat.min_eq_left i.2.le, value_cons, value_nil, mul_zero, add_zero]

theorem value_drop (words : Words n) (i : Fin n) :
    value (words.1.drop i) = (words.get i).toNat + wordBase * value (words.1.drop (i + 1)) := by
  rw [List.Vector.drop_eq_cons, value_cons]

theorem value_take_length (words : Words n) : value (words.1.take n) = value words.1 := by
  rw [List.take_of_length_le words.2.le]

theorem diagonalSum_take_succ {n : ℕ} (words : Words n) (i : Fin n) :
    diagonalSum (words.1.take (i + 1)) =
      diagonalSum (words.1.take i) + wordBase ^ (2 * (i : ℕ)) * (words.get i).toNat ^ 2 := by
  rw [List.Vector.take_succ_eq, diagonalSum_append, List.length_take, words.2,
    Nat.min_eq_left i.2.le, diagonalSum, diagonalSum, mul_zero, add_zero]

/-- Arrays with the same words below an index. -/
theorem value_take_congr {words words' : Words n} {i : ℕ} (hi : i ≤ n)
    (h : ∀ position : Fin n, (position : ℕ) < i → words.get position = words'.get position) :
    value (words.1.take i) = value (words'.1.take i) := by
  induction i with
  | zero => rw [List.take_zero, List.take_zero]
  | succ i ih =>
    have hBelow := ih (by omega) fun position hPosition => h position (by omega)
    have hLast := h ⟨i, hi⟩ (Nat.lt_succ_self i)
    rw [value_take_succ words ⟨i, hi⟩, value_take_succ words' ⟨i, hi⟩, hLast]
    exact congrArg (· + _) hBelow

end Values

section Doubling

variable {n : ℕ}

/-- Below `i` the words are doubled, above `i` they are as they were. -/
structure DoubledBelow (words : Words n) (first : UInt64) (i : ℕ) (state : Words n × UInt64) :
    Prop where
  value_eq : value state.1.1 + wordBase ^ i * state.2.toNat =
    value words.1 + value (words.1.take i) + first.toNat
  carry_le : state.2.toNat ≤ 1
  above : ∀ position : Fin n, i ≤ position → state.1.get position = words.get position

variable {words : Words n} {first : UInt64}

theorem DoubledBelow.start (words : Words n) (h : first.toNat ≤ 1) :
    DoubledBelow words first 0 (words, first) where
  value_eq := by simp
  carry_le := h
  above _ _ := rfl

theorem DoubledBelow.next {i : Fin n} {state : Words n × UInt64}
    (h : DoubledBelow words first i state) :
    DoubledBelow words first (i + 1)
      (state.1.set i ((state.1.get i <<< 1) ||| state.2), state.1.get i >>> 63) := by
  obtain ⟨hValue, hCarry, hAbove⟩ := h
  obtain ⟨hNext, hWord⟩ := shiftLeftOne_word (state.1.get i) state.2 hCarry
  have hSet := value_set state.1 i ((state.1.get i <<< 1) ||| state.2)
  have hOld := hAbove i le_rfl
  constructor
  · rw [value_take_succ]
    simp only at hSet ⊢
    rw [hOld] at hWord hSet ⊢
    rw [pow_succ]
    linear_combination hSet + hValue + wordBase ^ (i : ℕ) * hWord
  · exact hNext
  · intro position hPosition
    have hNe : i ≠ position := by
      rintro rfl
      omega
    exact (List.Vector.get_set_of_ne hNe _).trans (hAbove position (by omega))

end Doubling

namespace Checked

variable {n k : ℕ}

/-- Add to the word at a position and to the carry from below it. -/
def accumulateAt (output : Words n) (position : Fin n) (addend : ℕ) (carry : UInt64) :
    Checked (Words n × UInt64) := do
  let accumulator ← accumulate (addend + (output.get position).toNat + carry.toNat)
  pure (output.set position (lo accumulator), hi accumulator)

theorem accumulateAt_ensures {output : Words n} {position : Fin n} {addend : ℕ}
    (hFits : Fits (addend + (output.get position).toNat)) (carry : UInt64) :
    Ensures WordReport.Exact (accumulateAt output position addend carry) fun state =>
      value state.1.1 + wordBase ^ ((position : ℕ) + 1) * state.2.toNat =
        value output.1 + wordBase ^ (position : ℕ) * (addend + carry.toNat) ∧
      ∀ other, position ≠ other → state.1.get other = output.get other := by
  have hLt := hFits.accumulator_lt carry
  refine (accumulate_ensures hLt).bind ?_
  rintro accumulator rfl
  apply Ensures.pure
  constructor
  · have hSet := value_set output position
      (lo (addend + (output.get position).toNat + carry.toNat))
    have hWord := lo_add_hi hLt
    rw [pow_succ]
    linear_combination hSet + wordBase ^ (position : ℕ) * hWord
  · intro other hOther
    exact List.Vector.get_set_of_ne hOther _

/-- Add a word times an array at an offset, with a running carry. -/
def mulAddRow (offset : ℕ) (h : offset + k ≤ n) (word : UInt64) (words : Words k)
    (output : Words n) : Checked (Words n × UInt64) :=
  Fin.foldlM k (fun state index =>
    accumulateAt state.1 ⟨offset + index, by omega⟩ (word.toNat * (words.get index).toNat) state.2)
    (output, 0)

/-- Pass a carry through the words from an offset to the top. -/
def propagate (offset : ℕ) (output : Words n) (carry : UInt64) : Checked (Words n × UInt64) :=
  Fin.foldlM (n - offset) (fun state index =>
    accumulateAt state.1 ⟨offset + index, by omega⟩ 0 state.2) (output, carry)

theorem mulAddRow_ensures {offset : ℕ} (h : offset + k ≤ n) (word : UInt64) (words : Words k)
    (output : Words n) :
    Ensures WordReport.Exact (mulAddRow offset h word words output) fun state =>
      value state.1.1 + wordBase ^ (offset + k) * state.2.toNat =
        value output.1 + wordBase ^ offset * (word.toNat * value words.1) ∧
      ∀ position : Fin n, offset + k ≤ position →
        state.1.get position = output.get position := by
  refine (Ensures.foldlM (fun i (state : Words n × UInt64) =>
    value state.1.1 + wordBase ^ (offset + i) * state.2.toNat =
        value output.1 + wordBase ^ offset * (word.toNat * value (words.1.take i)) ∧
      ∀ position : Fin n, offset + i ≤ position →
        state.1.get position = output.get position) ?_ ?_).mono ?_
  · rintro i ⟨state, carry⟩ ⟨hValue, hFrame⟩
    refine (accumulateAt_ensures (fits_mul_add _ _ _) carry).mono ?_
    rintro ⟨next, nextCarry⟩ ⟨hNext, hOthers⟩
    constructor
    · rw [value_take_succ, ← add_assoc]
      simp only at hNext hValue ⊢
      rw [pow_add] at hNext hValue
      linear_combination hNext + hValue
    · intro position hPosition
      rw [hOthers position (by rw [Ne, Fin.ext_iff]; simp only; omega)]
      exact hFrame position (by omega)
  · constructor
    · simp
    · intro position _
      rfl
  · rintro state hState
    rwa [value_take_length] at hState

/-- A row on an array below the end of the row, and the carry stored at the end. -/
theorem mulAddRow_set_ensures {offset : ℕ} (h : offset + k ≤ n) {last : Fin n}
    (hLast : (last : ℕ) = offset + k) {word : UInt64} {words : Words k} {output : Words n}
    (hOutput : value output.1 < wordBase ^ (last : ℕ)) :
    Ensures WordReport.Exact (do
      let row ← mulAddRow offset h word words output
      pure (row.1.set last row.2)) fun result =>
        value result.1 = value output.1 + wordBase ^ offset * (word.toNat * value words.1) := by
  refine (mulAddRow_ensures h word words output).bind ?_
  rintro ⟨row, carry⟩ ⟨hValue, hFrame⟩
  apply Ensures.pure
  have hSet := value_set row last carry
  have hZero : (0 : UInt64).toNat = 0 := rfl
  rw [hFrame last hLast.ge, get_eq_zero_of_lt hOutput, hZero, mul_zero, add_zero, hLast] at hSet
  exact hSet.trans hValue

theorem propagate_ensures {offset : ℕ} (h : offset ≤ n) (output : Words n) (carry : UInt64) :
    Ensures WordReport.Exact (propagate offset output carry) fun state =>
      value state.1.1 + wordBase ^ n * state.2.toNat =
        value output.1 + wordBase ^ offset * carry.toNat := by
  refine (Ensures.foldlM (fun i (state : Words n × UInt64) =>
    value state.1.1 + wordBase ^ (offset + i) * state.2.toNat =
      value output.1 + wordBase ^ offset * carry.toNat) ?_ rfl).mono ?_
  · rintro i ⟨state, running⟩ hValue
    refine (accumulateAt_ensures ?_ running).mono ?_
    · rw [zero_add]
      exact fits_word _
    · rintro ⟨next, nextCarry⟩ ⟨hNext, -⟩
      rw [zero_add] at hNext
      exact hNext.trans hValue
  · intro state hState
    rwa [Nat.add_sub_cancel' h] at hState

end Checked

end Limbs
