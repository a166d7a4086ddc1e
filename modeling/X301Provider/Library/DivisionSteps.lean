import Mathlib.Algebra.Order.Group.Unbundled.Int
import Mathlib.Algebra.Order.Ring.Abs
import Mathlib.Data.Int.GCD
import Mathlib.Data.Int.ModEq
import Mathlib.RingTheory.Coprime.Lemmas
import Mathlib.Tactic.Linarith
import Mathlib.Tactic.LinearCombination
import Mathlib.Tactic.Ring

/-!
# Division steps

The greatest common divisor of an odd integer and another one by steps that look at one bit and
at the sign of a counter. After any number of steps both integers are known combinations of the
first ones, divided by a power of two; the combination depends on low bits only.
-/

namespace DivisionSteps

@[ext]
structure State where
  delta : ℤ
  f : ℤ
  g : ℤ

/-- The sum or difference is even, as both integers are odd. -/
def State.step (s : State) : State :=
  if s.g % 2 = 1 then
    if 0 < s.delta then ⟨2 - s.delta, s.g, (s.g - s.f) / 2⟩
    else ⟨2 + s.delta, s.f, (s.g + s.f) / 2⟩
  else ⟨2 + s.delta, s.f, s.g / 2⟩

def State.run (s : State) (n : ℕ) : State := State.step^[n] s

/-- The rows of a combination of two integers. -/
structure Transition where
  u : ℤ
  v : ℤ
  q : ℤ
  r : ℤ

def Transition.identity : Transition := ⟨1, 0, 0, 1⟩

/-- The combination after one more step. -/
def Transition.next (t : Transition) (s : State) : Transition :=
  if s.g % 2 = 1 then
    if 0 < s.delta then ⟨2 * t.q, 2 * t.r, t.q - t.u, t.r - t.v⟩
    else ⟨2 * t.u, 2 * t.v, t.q + t.u, t.r + t.v⟩
  else ⟨2 * t.u, 2 * t.v, t.q, t.r⟩

def State.transition (s : State) : ℕ → Transition
  | 0 => .identity
  | n + 1 => (s.transition n).next (s.run n)

namespace State

variable {s : State}

@[simp] theorem run_zero (s : State) : s.run 0 = s := rfl

theorem run_succ (s : State) (n : ℕ) : s.run (n + 1) = (s.run n).step :=
  Function.iterate_succ_apply' State.step n s

theorem run_add (s : State) (m n : ℕ) : s.run (m + n) = (s.run m).run n := by
  rw [run, add_comm, Function.iterate_add_apply]
  rfl

theorem step_cases (s : State) :
    (s.g % 2 = 1 ∧ 0 < s.delta ∧ s.step = ⟨2 - s.delta, s.g, (s.g - s.f) / 2⟩ ∧
      ∀ t : Transition, t.next s = ⟨2 * t.q, 2 * t.r, t.q - t.u, t.r - t.v⟩) ∨
    (s.g % 2 = 1 ∧ ¬0 < s.delta ∧ s.step = ⟨2 + s.delta, s.f, (s.g + s.f) / 2⟩ ∧
      ∀ t : Transition, t.next s = ⟨2 * t.u, 2 * t.v, t.q + t.u, t.r + t.v⟩) ∨
    (s.g % 2 = 0 ∧ s.step = ⟨2 + s.delta, s.f, s.g / 2⟩ ∧
      ∀ t : Transition, t.next s = ⟨2 * t.u, 2 * t.v, t.q, t.r⟩) := by
  by_cases hOdd : s.g % 2 = 1
  · by_cases hDelta : 0 < s.delta
    · exact Or.inl ⟨hOdd, hDelta, by simp only [step, hOdd, hDelta, if_true],
        fun t => by simp only [Transition.next, hOdd, hDelta, if_true]⟩
    · exact Or.inr (Or.inl ⟨hOdd, hDelta, by simp only [step, hOdd, hDelta, if_true, if_false],
        fun t => by simp only [Transition.next, hOdd, hDelta, if_true, if_false]⟩)
  · exact Or.inr (Or.inr ⟨by omega, by simp only [step, hOdd, if_false],
      fun t => by simp only [Transition.next, hOdd, if_false]⟩)

theorem step_odd (hOdd : s.f % 2 = 1) : s.step.f % 2 = 1 := by
  obtain ⟨hg, -, hStep, -⟩ | ⟨-, -, hStep, -⟩ | ⟨-, hStep, -⟩ := s.step_cases
  · rw [hStep]
    exact hg
  · rw [hStep]
    exact hOdd
  · rw [hStep]
    exact hOdd

theorem run_odd (hOdd : s.f % 2 = 1) (n : ℕ) : (s.run n).f % 2 = 1 := by
  induction n with
  | zero => exact hOdd
  | succ n ih =>
    rw [run_succ]
    exact step_odd ih

theorem isCoprime_two {f : ℤ} (hOdd : f % 2 = 1) : IsCoprime f 2 := ⟨1, -(f / 2), by omega⟩

/-- An odd integer shares no factor of two. -/
theorem gcd_half {f g : ℤ} (hOdd : f % 2 = 1) (hEven : g % 2 = 0) :
    Int.gcd f (g / 2) = Int.gcd f g := by
  have hg : g = 2 * (g / 2) := by omega
  have hTwo : Int.gcd f 2 = 1 := Int.isCoprime_iff_gcd_eq_one.mp (isCoprime_two hOdd)
  conv_rhs => rw [hg]
  exact (Int.gcd_mul_right_right_of_gcd_eq_one hTwo).symm

theorem step_gcd (hOdd : s.f % 2 = 1) : Int.gcd s.step.f s.step.g = Int.gcd s.f s.g := by
  obtain ⟨hg, -, hStep, -⟩ | ⟨hg, -, hStep, -⟩ | ⟨hg, hStep, -⟩ := s.step_cases
  · rw [hStep]
    change Int.gcd s.g ((s.g - s.f) / 2) = _
    rw [gcd_half hg (by omega), Int.gcd_self_sub_right, Int.gcd_comm]
  · rw [hStep]
    change Int.gcd s.f ((s.g + s.f) / 2) = _
    rw [gcd_half hOdd (by omega), Int.gcd_add_self_right]
  · rw [hStep]
    exact gcd_half hOdd hg

theorem run_gcd (hOdd : s.f % 2 = 1) (n : ℕ) :
    Int.gcd (s.run n).f (s.run n).g = Int.gcd s.f s.g := by
  induction n with
  | zero => rfl
  | succ n ih => rw [run_succ, step_gcd (run_odd hOdd n), ih]

/-- No step makes the integers larger. -/
theorem step_abs_le {bound : ℤ} (hf : |s.f| ≤ bound) (hg : |s.g| ≤ bound) :
    |s.step.f| ≤ bound ∧ |s.step.g| ≤ bound := by
  rw [abs_le] at hf hg
  obtain ⟨-, -, hStep, -⟩ | ⟨-, -, hStep, -⟩ | ⟨-, hStep, -⟩ := s.step_cases
  · rw [hStep]
    exact ⟨abs_le.mpr hg, abs_le.mpr ⟨by dsimp only; omega, by dsimp only; omega⟩⟩
  · rw [hStep]
    exact ⟨abs_le.mpr hf, abs_le.mpr ⟨by dsimp only; omega, by dsimp only; omega⟩⟩
  · rw [hStep]
    exact ⟨abs_le.mpr hf, abs_le.mpr ⟨by dsimp only; omega, by dsimp only; omega⟩⟩

theorem run_abs_le {bound : ℤ} (hf : |s.f| ≤ bound) (hg : |s.g| ≤ bound) (n : ℕ) :
    |(s.run n).f| ≤ bound ∧ |(s.run n).g| ≤ bound := by
  induction n with
  | zero => exact ⟨hf, hg⟩
  | succ n ih =>
    rw [run_succ]
    exact step_abs_le ih.1 ih.2

theorem run_delta_le (s : State) (n : ℕ) : |(s.run n).delta| ≤ |s.delta| + 2 * n := by
  induction n with
  | zero => simp
  | succ n ih =>
    have hStep : |(s.run n).step.delta| ≤ |(s.run n).delta| + 2 := by
      have hTwo : |(2 : ℤ)| = 2 := rfl
      obtain ⟨-, -, hStep, -⟩ | ⟨-, -, hStep, -⟩ | ⟨-, hStep, -⟩ := (s.run n).step_cases
      · rw [hStep]
        linarith [abs_sub (2 : ℤ) (s.run n).delta]
      · rw [hStep]
        linarith [abs_add_le (2 : ℤ) (s.run n).delta]
      · rw [hStep]
        linarith [abs_add_le (2 : ℤ) (s.run n).delta]
    rw [run_succ]
    push_cast
    linarith

/-- The combination that a number of steps computes. -/
theorem transition_spec (hOdd : s.f % 2 = 1) (n : ℕ) :
    2 ^ n * (s.run n).f = (s.transition n).u * s.f + (s.transition n).v * s.g ∧
      2 ^ n * (s.run n).g = (s.transition n).q * s.f + (s.transition n).r * s.g := by
  induction n with
  | zero => simp [transition, Transition.identity]
  | succ n ih =>
    obtain ⟨hf, hg⟩ := ih
    have hOddRun := run_odd hOdd n
    rw [run_succ, transition, pow_succ]
    obtain ⟨hBit, -, hStep, hNext⟩ | ⟨hBit, -, hStep, hNext⟩ | ⟨hBit, hStep, hNext⟩ :=
      (s.run n).step_cases
    · have hHalf : 2 * (((s.run n).g - (s.run n).f) / 2) = (s.run n).g - (s.run n).f := by omega
      rw [hStep, hNext]
      dsimp only
      exact ⟨by linear_combination 2 * hg, by linear_combination hg - hf + 2 ^ n * hHalf⟩
    · have hHalf : 2 * (((s.run n).g + (s.run n).f) / 2) = (s.run n).g + (s.run n).f := by omega
      rw [hStep, hNext]
      dsimp only
      exact ⟨by linear_combination 2 * hf, by linear_combination hg + hf + 2 ^ n * hHalf⟩
    · have hHalf : 2 * ((s.run n).g / 2) = (s.run n).g := by omega
      rw [hStep, hNext]
      dsimp only
      exact ⟨by linear_combination 2 * hf, by linear_combination hg + 2 ^ n * hHalf⟩

/-- The rows grow by at most a factor of two. -/
theorem transition_le (s : State) (n : ℕ) :
    |(s.transition n).u| + |(s.transition n).v| ≤ 2 ^ n ∧
      |(s.transition n).q| + |(s.transition n).r| ≤ 2 ^ n := by
  induction n with
  | zero => simp [transition, Transition.identity]
  | succ n ih =>
    obtain ⟨hUpper, hLower⟩ := ih
    rw [transition, pow_succ]
    generalize s.transition n = t at hUpper hLower
    have hTwice : ∀ x : ℤ, |2 * x| = 2 * |x| := fun x => abs_mul 2 x
    obtain ⟨-, -, -, hNext⟩ | ⟨-, -, -, hNext⟩ | ⟨-, -, hNext⟩ := (s.run n).step_cases
    · rw [hNext]
      dsimp only
      rw [hTwice, hTwice]
      exact ⟨by linarith, by linarith [abs_sub t.q t.u, abs_sub t.r t.v]⟩
    · rw [hNext]
      dsimp only
      rw [hTwice, hTwice]
      exact ⟨by linarith, by linarith [abs_add_le t.q t.u, abs_add_le t.r t.v]⟩
    · rw [hNext]
      dsimp only
      rw [hTwice, hTwice]
      have hPos : (0 : ℤ) < 2 ^ n := by positivity
      exact ⟨by linarith, by linarith⟩

/-- Once the second integer is zero only the counter moves. -/
theorem run_of_zero (hZero : s.g = 0) (n : ℕ) :
    s.run n = ⟨s.delta + 2 * n, s.f, 0⟩ ∧ s.transition n = ⟨2 ^ n, 0, 0, 1⟩ := by
  induction n with
  | zero =>
    refine ⟨?_, by simp [transition, Transition.identity]⟩
    ext <;> simp [hZero]
  | succ n ih =>
    rw [run_succ, transition, ih.1, ih.2]
    constructor
    · rw [step, if_neg (by simp)]
      ext
      · push_cast
        ring
      · rfl
      · rfl
    · rw [Transition.next, if_neg (by simp), pow_succ, mul_comm]
      rfl

/-- At zero the first integer is the greatest common divisor up to its sign. -/
theorem natAbs_run_of_zero (hOdd : s.f % 2 = 1) {n : ℕ} (hZero : (s.run n).g = 0) :
    (s.run n).f.natAbs = Int.gcd s.f s.g := by
  rw [← run_gcd hOdd n, hZero, Int.gcd_zero_right]

/-- The combination carries a congruence along: from multiples of the two integers modulo an odd
number to those of what the steps leave of them. -/
theorem transition_modEq {modulus value factor d e d' e' : ℤ} (hOdd : s.f % 2 = 1)
    (hModulus : modulus % 2 = 1) {n : ℕ}
    (hd : d * value ≡ factor * s.f [ZMOD modulus]) (he : e * value ≡ factor * s.g [ZMOD modulus])
    (hd' : 2 ^ n * d' ≡ (s.transition n).u * d + (s.transition n).v * e [ZMOD modulus])
    (he' : 2 ^ n * e' ≡ (s.transition n).q * d + (s.transition n).r * e [ZMOD modulus]) :
    d' * value ≡ factor * (s.run n).f [ZMOD modulus] ∧
      e' * value ≡ factor * (s.run n).g [ZMOD modulus] := by
  obtain ⟨hf, hg⟩ := transition_spec hOdd n
  have hCoprime : IsCoprime modulus (2 ^ n) := (isCoprime_two hModulus).pow_right
  have hCombine : ∀ {u v x y : ℤ}, 2 ^ n * x ≡ u * d + v * e [ZMOD modulus] →
      2 ^ n * y = u * s.f + v * s.g → x * value ≡ factor * y [ZMOD modulus] := by
    intro u v x y hx hy
    have hScaled : 2 ^ n * (x * value) ≡ 2 ^ n * (factor * y) [ZMOD modulus] := by
      calc
        2 ^ n * (x * value) = 2 ^ n * x * value := by ring
        _ ≡ (u * d + v * e) * value [ZMOD modulus] := hx.mul_right value
        _ = u * (d * value) + v * (e * value) := by ring
        _ ≡ u * (factor * s.f) + v * (factor * s.g) [ZMOD modulus] :=
          (hd.mul_left u).add (he.mul_left v)
        _ = 2 ^ n * (factor * y) := by linear_combination -factor * hy
    have hDvd := hScaled.dvd
    rw [← mul_sub] at hDvd
    exact Int.modEq_iff_dvd.mpr (hCoprime.dvd_of_dvd_mul_left hDvd)
  exact ⟨hCombine hd' hf, hCombine he' hg⟩

end State

end DivisionSteps
