import Mathlib.Algebra.BigOperators.Group.Finset.Basic
import Mathlib.Algebra.Module.BigOperators
import Mathlib.Tactic.Ring

/-!
# Loops over the digits of a number

A loop that runs over the digit positions from the top, and whose step appends
one digit to the number its state stands for, ends at the number itself. In an
additive group the same loop sums weighted contributions.
-/

namespace Horner

variable {β : Type*} {R : β → ℕ → Prop} {step : β → ℕ → β} {base V : ℕ}

/-- The run lemma: the state stands for `e` before the loop, and for `e` with the low `n`
digits of `V` appended after it. -/
theorem run (n : ℕ)
    (hStep : ∀ i < n, ∀ s e, R s e → R (step s i) (base * e + V / base ^ i % base))
    {s : β} {e : ℕ} (h : R s e) :
    R ((List.range n).reverse.foldl step s) (base ^ n * e + V % base ^ n) := by
  induction n generalizing s e with
  | zero => simpa [Nat.mod_one] using h
  | succ n ih =>
    rw [List.range_succ, List.reverse_append, List.reverse_singleton, List.singleton_append,
      List.foldl_cons]
    have hNext := hStep n (Nat.lt_succ_self n) s e h
    have hRest := ih (fun i hi => hStep i (Nat.lt_succ_of_lt hi)) hNext
    have hEq : base ^ n * (base * e + V / base ^ n % base) + V % base ^ n =
        base ^ (n + 1) * e + V % base ^ (n + 1) := by
      rw [Nat.mod_pow_succ]
      ring
    rwa [hEq] at hRest

theorem run_zero {n : ℕ} (hV : V < base ^ n)
    (hStep : ∀ i < n, ∀ s e, R s e → R (step s i) (base * e + V / base ^ i % base))
    {s : β} (h : R s 0) : R ((List.range n).reverse.foldl step s) V := by
  have hRun := run n hStep h
  rwa [mul_zero, zero_add, Nat.mod_eq_of_lt hV] at hRun

section Group

variable {G : Type*} [AddCommGroup G] {S : β → G → Prop} {f : ℕ → G}

theorem run_sum (c n : ℕ) (hStep : ∀ i < n, ∀ s A, S s A → S (step s i) (c • A + f i))
    {s : β} {A : G} (h : S s A) :
    S ((List.range n).reverse.foldl step s) (c ^ n • A + ∑ i ∈ Finset.range n, c ^ i • f i) := by
  induction n generalizing s A with
  | zero => simpa using h
  | succ n ih =>
    rw [List.range_succ, List.reverse_append, List.reverse_singleton, List.singleton_append,
      List.foldl_cons]
    have hRest := ih (fun i hi => hStep i (Nat.lt_succ_of_lt hi))
      (hStep n (Nat.lt_succ_self n) s A h)
    rw [smul_add, smul_smul, ← pow_succ, add_assoc] at hRest
    rwa [Finset.sum_range_succ, add_comm (∑ i ∈ Finset.range n, _)]

theorem scan_sum (n : ℕ) (hStep : ∀ i < n, ∀ s A, S s A → S (step s i) (A + f i)) {s : β} {A : G}
    (h : S s A) : S ((List.range n).foldl step s) (A + ∑ i ∈ Finset.range n, f i) := by
  induction n with
  | zero => simpa using h
  | succ n ih =>
    have hRest := ih fun i hi => hStep i (Nat.lt_succ_of_lt hi)
    rw [List.range_succ, List.foldl_append, List.foldl_cons, List.foldl_nil, Finset.sum_range_succ,
      ← add_assoc]
    exact hStep n (Nat.lt_succ_self n) _ _ hRest

end Group

end Horner
