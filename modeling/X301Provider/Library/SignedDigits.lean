import Mathlib.Algebra.BigOperators.Intervals
import Mathlib.Algebra.BigOperators.Ring.Finset
import Mathlib.Algebra.Module.Basic
import Mathlib.Tactic.Linarith
import Mathlib.Tactic.Ring

/-!
# Signed digit expansions

Digits are integers, least significant first. The carry recoding moves digits
into a centred interval and the non-adjacent form of width `w` has odd digits
below `2 ^ (w - 1)`; both keep the integer. Loops over digit positions from the
top compute the corresponding multiple in any additive group.
-/

namespace SignedDigits

/-- The integer of a digit list. -/
def value (base : ℤ) : List ℤ → ℤ
  | [] => 0
  | digit :: digits => digit + base * value base digits

theorem value_eq_sum (base : ℤ) (digits : List ℤ) :
    value base digits = ∑ i ∈ Finset.range digits.length, digits.getD i 0 * base ^ i := by
  induction digits with
  | nil => rfl
  | cons digit digits ih =>
    rw [value, ih, List.length_cons, Finset.sum_range_succ', Finset.mul_sum, add_comm]
    refine congrArg₂ (· + ·) (Finset.sum_congr rfl fun i _ => ?_) ?_
    · rw [List.getD_cons_succ, pow_succ]
      ring
    · rw [List.getD_cons_zero, pow_zero, mul_one]

theorem value_even_odd (base : ℤ) {digits : List ℤ} {n : ℕ} (h : digits.length = 2 * n) :
    value base digits = ∑ i ∈ Finset.range n, digits.getD (2 * i) 0 * (base ^ 2) ^ i +
      base * ∑ i ∈ Finset.range n, digits.getD (2 * i + 1) 0 * (base ^ 2) ^ i := by
  rw [value_eq_sum, h]
  generalize digits.getD = digit
  clear h
  induction n with
  | zero => simp
  | succ n ih =>
    rw [show 2 * (n + 1) = 2 * n + 1 + 1 by ring, Finset.sum_range_succ, Finset.sum_range_succ, ih,
      Finset.sum_range_succ, Finset.sum_range_succ]
    ring

theorem value_digits (base n count : ℕ) :
    value base ((List.range count).map fun i => ((n / base ^ i % base : ℕ) : ℤ)) =
      (n % base ^ count : ℕ) := by
  rw [value_eq_sum, List.length_map, List.length_range]
  have hDigit : ∀ i ∈ Finset.range count,
      ((List.range count).map fun i => ((n / base ^ i % base : ℕ) : ℤ)).getD i 0 * (base : ℤ) ^ i =
        ((n / base ^ i % base * base ^ i : ℕ) : ℤ) := by
    intro i hi
    have hLt := Finset.mem_range.mp hi
    rw [List.getD_eq_getElem?_getD, List.getElem?_map, List.getElem?_range hLt]
    simp
  rw [Finset.sum_congr rfl hDigit]
  clear hDigit
  induction count with
  | zero => simp [Nat.mod_one]
  | succ count ih =>
    rw [Finset.sum_range_succ, ih, Nat.mod_pow_succ]
    push_cast
    ring

section Carry

variable (half : ℤ)

/-- Carry every digit but the last into `[-half, half)`. -/
def recode : List ℤ → List ℤ
  | digit :: next :: rest =>
    let carry := (digit + half) / (2 * half)
    (digit - carry * (2 * half)) :: recode ((next + carry) :: rest)
  | digits => digits
termination_by digits => digits.length

theorem recode_length (digits : List ℤ) : (recode half digits).length = digits.length := by
  fun_induction recode half digits with
  | case1 digit next rest carry ih => simpa using ih
  | case2 digits _ => rfl

theorem value_recode (digits : List ℤ) :
    value (2 * half) (recode half digits) = value (2 * half) digits := by
  fun_induction recode half digits with
  | case1 digit next rest carry ih =>
    rw [value, ih]
    simp only [value]
    ring
  | case2 digits _ => rfl

/-- Digits below the base stay within `[-half, half]`, given a top digit below `half`. -/
theorem recode_bounds {digits : List ℤ} (hHalf : 0 < half)
    (hFirst : ∀ d ∈ digits.head?, 0 ≤ d ∧ d ≤ 2 * half)
    (hDigits : ∀ d ∈ digits.tail, 0 ≤ d ∧ d < 2 * half)
    (hLast : ∀ d ∈ digits.getLast?, d < half + 1 ∧ (1 < digits.length → d < half)) :
    ∀ d ∈ recode half digits, -half ≤ d ∧ d ≤ half := by
  fun_induction recode half digits with
  | case1 digit next rest carry ih =>
    obtain ⟨hLow, hHigh⟩ := hFirst digit rfl
    obtain ⟨hNext, hRest⟩ := List.forall_mem_cons.mp hDigits
    have hCarry : carry = (digit + half) / (2 * half) := rfl
    have hDiv := Int.emod_add_mul_ediv (digit + half) (2 * half)
    have hModLow := Int.emod_nonneg (digit + half) (show 2 * half ≠ 0 by omega)
    have hModHigh := Int.emod_lt_of_pos (digit + half) (show 0 < 2 * half by omega)
    rw [← hCarry, mul_comm (2 * half) carry] at hDiv
    have hCarryLow : 0 ≤ carry := Int.ediv_nonneg (by omega) (by omega)
    have hCarryHigh : carry ≤ 1 := by
      have hLt : carry < 2 := Int.ediv_lt_of_lt_mul (by omega) (by omega)
      omega
    refine List.forall_mem_cons.mpr ⟨by omega, ih ?_ hRest ?_⟩
    · rintro d ⟨⟩
      omega
    · intro d hd
      cases rest with
      | nil =>
        obtain rfl : next + carry = d := by simpa using hd
        have hNextLast := (hLast next rfl).2 (by simp)
        exact ⟨by omega, by simp⟩
      | cons third rest =>
        have hMember : d ∈ (digit :: next :: third :: rest).getLast? := by simpa using hd
        have hBound := (hLast d hMember).2 (by simp)
        exact ⟨by omega, fun _ => hBound⟩
  | case2 digits hShort =>
    match digits, hShort with
    | [], _ => simp
    | [digit], _ =>
      intro d hd
      obtain rfl := List.mem_singleton.mp hd
      have hLow := hFirst d rfl
      have hHigh := hLast d rfl
      omega
    | digit :: next :: rest, hShort => exact absurd rfl (hShort digit next rest)

end Carry

section NonAdjacent

variable (w : ℕ)

/-- The lowest digit of the width-`w` non-adjacent form. -/
def nafDigit (v : ℕ) : ℤ :=
  if v % 2 = 0 then 0
  else if v % 2 ^ w < 2 ^ (w - 1) then (v % 2 ^ w : ℕ)
  else (v % 2 ^ w : ℕ) - (2 ^ w : ℕ)

/-- What remains after the lowest digit. -/
def nafRest (v : ℕ) : ℕ := ((v - nafDigit w v) / 2).toNat

def naf : ℕ → ℕ → List ℤ
  | 0, _ => []
  | count + 1, v => nafDigit w v :: naf count (nafRest w v)

variable {w}

theorem naf_length (count v : ℕ) : (naf w count v).length = count := by
  induction count generalizing v with
  | zero => rfl
  | succ count ih => rw [naf, List.length_cons, ih]

theorem nafDigit_bounds (hw : 2 ≤ w) (v : ℕ) :
    (nafDigit w v = 0 ∨ nafDigit w v % 2 = 1) ∧ (nafDigit w v).natAbs < 2 ^ (w - 1) := by
  obtain ⟨u, rfl⟩ : ∃ u, w = u + 2 := ⟨w - 2, by omega⟩
  have hRadix : 2 ^ (u + 2) = 2 * 2 ^ (u + 1) := pow_succ' 2 (u + 1)
  have hHalf : 2 ^ (u + 1) = 2 * 2 ^ u := pow_succ' 2 u
  have hPositive : 0 < 2 ^ u := Nat.two_pow_pos u
  have hModLt := Nat.mod_lt v (show 0 < 2 ^ (u + 2) by omega)
  have hParity : v % 2 ^ (u + 2) % 2 = v % 2 := by
    rw [hRadix, Nat.mod_mul_right_mod]
  have hPred : u + 2 - 1 = u + 1 := rfl
  rw [nafDigit, hPred]
  split_ifs with hEven hLow
  · exact ⟨Or.inl rfl, by simp⟩
  · omega
  · omega

theorem nafDigit_odd (hw : 2 ≤ w) {v : ℕ} (h : v % 2 = 1) : nafDigit w v % 2 = 1 := by
  refine (nafDigit_bounds hw v).1.resolve_left fun hZero => ?_
  have hEven : (2 : ℕ) ∣ 2 ^ w := dvd_pow_self 2 (by omega)
  have hParity : v % 2 ^ w % 2 = v % 2 := Nat.mod_mod_of_dvd v hEven
  have hLt := Nat.mod_lt v (Nat.two_pow_pos w)
  rw [nafDigit, if_neg (by omega)] at hZero
  split_ifs at hZero with hLow
  · omega
  · omega

theorem nafRest_spec (hw : 2 ≤ w) {v m : ℕ} (h : v ≤ 2 ^ m) :
    nafDigit w v + 2 * nafRest w v = v ∧ nafRest w v ≤ 2 ^ (m - 1) ∧
      (m = 0 → nafRest w v = 0) := by
  obtain ⟨u, rfl⟩ : ∃ u, w = u + 2 := ⟨w - 2, by omega⟩
  have hRadix : 2 ^ (u + 2) = 2 * 2 ^ (u + 1) := pow_succ' 2 (u + 1)
  have hHalf : 2 ^ (u + 1) = 2 * 2 ^ u := pow_succ' 2 u
  have hPositive : 0 < 2 ^ u := Nat.two_pow_pos u
  have hMod := Nat.div_add_mod v (2 ^ (u + 2))
  have hModLt := Nat.mod_lt v (show 0 < 2 ^ (u + 2) by omega)
  have hParity : v % 2 ^ (u + 2) % 2 = v % 2 := by
    rw [hRadix, Nat.mod_mul_right_mod]
  have hBound : 0 < 2 ^ (m - 1) := Nat.two_pow_pos (m - 1)
  have hPow : m = 0 ∧ 2 ^ m = 1 ∨ m ≠ 0 ∧ 2 ^ m = 2 * 2 ^ (m - 1) := by
    cases m with
    | zero => exact Or.inl ⟨rfl, rfl⟩
    | succ m => exact Or.inr ⟨Nat.succ_ne_zero m, pow_succ' 2 m⟩
  have hPred : u + 2 - 1 = u + 1 := rfl
  -- An odd value that is rounded up stays below the next multiple of the radix.
  have hRound : v % 2 = 1 → 2 ^ (u + 1) ≤ v % 2 ^ (u + 2) →
      2 ^ (u + 2) * (v / 2 ^ (u + 2)) + 2 ^ (u + 2) ≤ 2 ^ m := by
    intro hOdd hLow
    cases lt_or_ge m (u + 2) with
    | inl hm =>
      have hPowLe : 2 ^ m ≤ 2 ^ (u + 1) := Nat.pow_le_pow_right (by decide) (by omega)
      have hModLe := Nat.mod_le v (2 ^ (u + 2))
      omega
    | inr hm =>
      obtain ⟨k, hk⟩ := pow_dvd_pow 2 hm
      have hLt : v / 2 ^ (u + 2) < k := by
        apply Nat.div_lt_of_lt_mul
        rw [← hk]
        refine lt_of_le_of_ne h fun hEq => ?_
        rw [hEq, hk, hRadix, mul_assoc, Nat.mul_mod_right] at hOdd
        cases hOdd
      rw [hk, ← Nat.mul_succ]
      exact Nat.mul_le_mul_left _ hLt
  rw [hRadix, mul_assoc] at hMod hRound
  rw [nafRest, nafDigit, hPred, hRadix]
  generalize 2 ^ (u + 1) * (v / (2 * 2 ^ (u + 1))) = high at *
  rw [hRadix] at hModLt hParity
  split_ifs with hEven hLow
  · omega
  · omega
  · have hRoundUp := hRound (by omega) (by omega)
    omega

theorem naf_bounds (hw : 2 ≤ w) (count v : ℕ) :
    ∀ d ∈ naf w count v, (d = 0 ∨ d % 2 = 1) ∧ d.natAbs < 2 ^ (w - 1) := by
  induction count generalizing v with
  | zero => simp [naf]
  | succ count ih => exact List.forall_mem_cons.mpr ⟨nafDigit_bounds hw v, ih _⟩

theorem nafDigit_zero : nafDigit w 0 = 0 := if_pos rfl

theorem nafRest_zero : nafRest w 0 = 0 := by
  rw [nafRest, nafDigit_zero]
  rfl

theorem value_naf_zero (count : ℕ) : value 2 (naf w count 0) = 0 := by
  induction count with
  | zero => rfl
  | succ count ih =>
    rw [naf, value, nafRest_zero, ih, nafDigit_zero]
    rfl

theorem value_naf (hw : 2 ≤ w) {count v m : ℕ} (h : v ≤ 2 ^ m) (hCount : m < count) :
    value 2 (naf w count v) = v := by
  induction count generalizing v m with
  | zero => omega
  | succ count ih =>
    obtain ⟨hSplit, hBound, hZero⟩ := nafRest_spec hw h
    rw [naf, value]
    cases m with
    | zero =>
      rw [hZero rfl] at hSplit ⊢
      rw [value_naf_zero, ← hSplit]
      rfl
    | succ m => rw [ih hBound (by omega), ← hSplit]

theorem nafRest_iterate_eq_zero (hw : 2 ≤ w) {count v m : ℕ} (h : v ≤ 2 ^ m) (hCount : m < count) :
    (nafRest w)^[count] v = 0 := by
  induction count generalizing v m with
  | zero => omega
  | succ count ih =>
    obtain ⟨-, hBound, hZero⟩ := nafRest_spec hw h
    rw [Function.iterate_succ_apply]
    cases m with
    | zero =>
      rw [hZero rfl]
      exact Function.iterate_fixed nafRest_zero count
    | succ m => exact ih hBound (by omega)

theorem naf_getD {count i : ℕ} (v : ℕ) (h : i < count) :
    (naf w count v).getD i 0 = nafDigit w ((nafRest w)^[i] v) := by
  induction count generalizing v i with
  | zero => omega
  | succ count ih =>
    rw [naf]
    cases i with
    | zero => rfl
    | succ i =>
      rw [List.getD_cons_succ, Function.iterate_succ_apply]
      exact ih _ (by omega)

theorem nafDigit_iterate_of_dvd {k v i : ℕ} (h : 2 ^ k ∣ v) (hi : i < k) :
    nafDigit w ((nafRest w)^[i] v) = 0 := by
  induction i generalizing k v with
  | zero =>
    have hTwo : 2 ∣ v := (dvd_pow_self 2 (by omega)).trans h
    exact if_pos (Nat.mod_eq_zero_of_dvd hTwo)
  | succ i ih =>
    obtain ⟨k, rfl⟩ : ∃ j, k = j + 1 := ⟨k - 1, by omega⟩
    obtain ⟨half, rfl⟩ := h
    have hDigit : nafDigit w (2 ^ (k + 1) * half) = 0 :=
      if_pos (by rw [pow_succ', mul_assoc, Nat.mul_mod_right])
    have hRest : nafRest w (2 ^ (k + 1) * half) = 2 ^ k * half := by
      rw [nafRest, hDigit, pow_succ', mul_assoc]
      omega
    rw [Function.iterate_succ_apply, hRest]
    exact ih (Dvd.intro half rfl) (by omega)

theorem dvd_nafRest (hw : 2 ≤ w) {v : ℕ} (h : nafDigit w v ≠ 0) : 2 ^ (w - 1) ∣ nafRest w v := by
  obtain ⟨u, rfl⟩ : ∃ u, w = u + 1 := ⟨w - 1, by omega⟩
  obtain ⟨hSplit, -, -⟩ := nafRest_spec hw (show v ≤ 2 ^ v from Nat.lt_two_pow_self.le)
  have hOdd : ¬v % 2 = 0 := fun hEven => h (if_pos hEven)
  have hMod := congrArg (Nat.cast (R := ℤ)) (Nat.div_add_mod v (2 ^ (u + 1)))
  obtain ⟨round, hRound⟩ : ∃ round : ℤ,
      nafDigit (u + 1) v = (v % 2 ^ (u + 1) : ℕ) - round * (2 ^ (u + 1) : ℕ) := by
    rw [nafDigit, if_neg hOdd]
    split_ifs with hLow
    · exact ⟨0, by rw [zero_mul, sub_zero]⟩
    · exact ⟨1, by rw [one_mul]⟩
  have hPower : ((2 ^ (u + 1) : ℕ) : ℤ) = 2 * (2 ^ u : ℕ) := by
    rw [pow_succ', Nat.cast_mul, Nat.cast_ofNat]
  rw [Nat.cast_add, Nat.cast_mul, hPower] at hMod
  rw [hPower] at hRound
  rw [← Int.natCast_dvd_natCast, Nat.add_sub_cancel]
  refine ⟨(v / 2 ^ (u + 1) : ℕ) + round, ?_⟩
  linarith

theorem naf_sparse (hw : 2 ≤ w) {v i j : ℕ} (hLess : i < j) (hWindow : j < i + w)
    (h : nafDigit w ((nafRest w)^[i] v) ≠ 0) : nafDigit w ((nafRest w)^[j] v) = 0 := by
  obtain ⟨k, rfl⟩ : ∃ k, j = k + (i + 1) := ⟨j - (i + 1), by omega⟩
  rw [Function.iterate_add_apply, Function.iterate_succ_apply']
  exact nafDigit_iterate_of_dvd (dvd_nafRest hw h) (by omega)

end NonAdjacent

end SignedDigits
