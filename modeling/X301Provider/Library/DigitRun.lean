import Mathlib.Algebra.Order.Ring.Nat
import Mathlib.Data.List.TakeWhile

/-!
# Bounded accumulation of digit runs

An accumulator that is multiplied by the base and increased by a digit, with the
overflow test made by a division before each step. It fails exactly when the integer
of the run exceeds the bound, and no intermediate result exceeds it. A text is split
at the end of its first maximal run.
-/

namespace DigitRun

variable {base bound : ℕ}

/-- The integer of a digit run, most significant digit first, appended to a prefix. -/
def value (base start : ℕ) (digits : List ℕ) : ℕ :=
  digits.foldl (fun accumulator digit => accumulator * base + digit) start

@[simp] theorem value_nil (start : ℕ) : value base start [] = start := rfl

@[simp] theorem value_cons (start digit : ℕ) (digits : List ℕ) :
    value base start (digit :: digits) = value base (start * base + digit) digits := rfl

theorem le_value (hBase : 0 < base) (start : ℕ) (digits : List ℕ) :
    start ≤ value base start digits := by
  induction digits generalizing start with
  | nil => exact le_refl start
  | cons digit digits ih =>
    calc start ≤ start * base := Nat.le_mul_of_pos_right start hBase
      _ ≤ start * base + digit := Nat.le_add_right _ _
      _ ≤ value base start (digit :: digits) := ih _

theorem guard_iff (hBase : 0 < base) {accumulator digit : ℕ} (hDigit : digit ≤ bound) :
    accumulator ≤ (bound - digit) / base ↔ accumulator * base + digit ≤ bound := by
  rw [Nat.le_div_iff_mul_le hBase]
  omega

def accumulate (base bound : ℕ) : ℕ → List ℕ → Option ℕ
  | accumulator, [] => some accumulator
  | accumulator, digit :: digits =>
    if accumulator > (bound - digit) / base then none
    else accumulate base bound (accumulator * base + digit) digits

/-- The run fails exactly when its integer exceeds the bound. -/
theorem accumulate_eq (hBase : 0 < base) {digits : List ℕ} (hDigits : ∀ d ∈ digits, d ≤ bound)
    {start : ℕ} (hStart : start ≤ bound) :
    accumulate base bound start digits =
      if value base start digits ≤ bound then some (value base start digits) else none := by
  induction digits generalizing start with
  | nil => rw [accumulate, value_nil, if_pos hStart]
  | cons digit digits ih =>
    obtain ⟨hDigit, hRest⟩ := List.forall_mem_cons.mp hDigits
    have hGuard := @guard_iff base bound hBase start digit hDigit
    rw [accumulate, value_cons]
    by_cases hFits : start * base + digit ≤ bound
    · rw [if_neg (not_lt.mpr (hGuard.mpr hFits)), ih hRest hFits]
    · have hLe := le_value hBase (start * base + digit) digits
      rw [if_pos (not_le.mp fun h => hFits (hGuard.mp h)), if_neg (by omega)]

section Split

variable {α : Type*} {isDigit : α → Bool}

theorem split_append {run rest : List α} (hRun : ∀ c ∈ run, isDigit c = true)
    (hRest : ∀ c ∈ rest.head?, isDigit c = false) :
    (run ++ rest).takeWhile isDigit = run ∧ (run ++ rest).dropWhile isDigit = rest := by
  have hStop : rest.takeWhile isDigit = [] ∧ rest.dropWhile isDigit = rest := by
    cases rest with
    | nil => exact ⟨rfl, rfl⟩
    | cons c rest =>
      have hc := hRest c rfl
      rw [List.takeWhile_cons, List.dropWhile_cons, hc]
      exact ⟨rfl, rfl⟩
  rw [List.takeWhile_append_of_pos hRun, List.dropWhile_append_of_pos hRun, hStop.1, hStop.2,
    List.append_nil]
  exact ⟨rfl, rfl⟩

theorem run_isDigit (text : List α) : ∀ c ∈ text.takeWhile isDigit, isDigit c = true :=
  fun _ h => List.mem_takeWhile_imp h

end Split

end DigitRun
