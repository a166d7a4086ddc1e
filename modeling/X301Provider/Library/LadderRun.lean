import X301Provider.Library.MontgomeryLadder

/-!
# Runs of the ladder

A run keeps a multiple of the base point and the next multiple in two
registers. The swap is delayed: each step carries the bit of the previous one
and exchanges the registers when the two bits differ.
-/

namespace MontgomeryCurve

/-- Two projective `u`-coordinates. -/
@[ext] structure Registers (F : Type*) where
  x₂ : F
  z₂ : F
  x₃ : F
  z₃ : F

namespace Registers

variable {F : Type*}

def conditionalSwap (s : Registers F) (choice : Bool) : Registers F :=
  if choice then ⟨s.x₃, s.z₃, s.x₂, s.z₂⟩ else s

theorem conditionalSwap_xor (s : Registers F) (a b : Bool) :
    s.conditionalSwap (a ^^ b) = (s.conditionalSwap a).conditionalSwap b := by
  cases a <;> cases b <;> rfl

variable [Field F]

/-- Double the first register and add the second one to it. -/
def round (c n u : F) (s : Registers F) : Registers F where
  x₂ := (double c n s.x₂ s.z₂).1
  z₂ := (double c n s.x₂ s.z₂).2
  x₃ := (differentialAdd u s.x₂ s.z₂ s.x₃ s.z₃).1
  z₃ := (differentialAdd u s.x₂ s.z₂ s.x₃ s.z₃).2

/-- One round with the pending swap of the previous bit. -/
def step (c n u : F) (s : Registers F × Bool) (bit : Bool) : Registers F × Bool :=
  ((s.1.conditionalSwap (s.2 ^^ bit)).round c n u, bit)

/-- The rounds of a bit string, most significant bit first. -/
def run (c n u : F) (bits : List Bool) (s : Registers F × Bool) : Registers F × Bool :=
  bits.foldl (step c n u) s

/-- The swap that ends a run. -/
def settle (s : Registers F × Bool) : Registers F :=
  s.1.conditionalSwap s.2

end Registers

/-- Append binary digits, most significant first, to a number. -/
def appendBits (m : ℕ) (bits : List Bool) : ℕ :=
  bits.foldl (fun m bit => 2 * m + bit.toNat) m

/-- The low `n` binary digits of a bit string, most significant first. -/
def digitsDown (bit : ℕ → Bool) (n : ℕ) : List Bool :=
  (List.range n).reverse.map bit

theorem digitsDown_succ (bit : ℕ → Bool) (n : ℕ) :
    digitsDown bit (n + 1) = bit n :: digitsDown bit n := by
  simp [digitsDown, List.range_succ]

theorem appendBits_digitsDown (m k n : ℕ) :
    appendBits m (digitsDown k.testBit n) = m * 2 ^ n + k % 2 ^ n := by
  induction n generalizing m with
  | zero => simp [digitsDown, appendBits, Nat.mod_one]
  | succ n ih =>
    have hStep : appendBits m (digitsDown k.testBit (n + 1)) =
        appendBits (2 * m + (k.testBit n).toNat) (digitsDown k.testBit n) := by
      rw [digitsDown_succ]
      rfl
    rw [hStep, ih, Nat.mod_pow_succ, ← Nat.toNat_testBit]
    ring

variable {F : Type*} [Field F]

/-- The multiples `m • D` and `(m + 1) • D` stand in the registers. -/
structure Tracks [DecidableEq F] (M : MontgomeryCurve F) (D : M.Point) (m : ℕ)
    (s : Registers F) : Prop where
  low : M.Represents s.x₂ s.z₂ (m • D)
  high : M.Represents s.x₃ s.z₃ ((m + 1) • D)

open Registers

section Group

variable [DecidableEq F] {M : MontgomeryCurve F} {c n u v : F} {hBase : M.OnCurve u v}

theorem differBy_succ (D : M.Point) (m : ℕ) : DifferBy D (m • D) ((m + 1) • D) := by
  refine Or.inr ?_
  rw [succ_nsmul]
  abel

theorem Tracks.round (hc : c ≠ 0) (hn : 4 * n = c * (M.A - 2)) (hu : u ≠ 0) {m : ℕ}
    {s : Registers F} (h : Tracks M (.affine u v hBase) m s) (bit : Bool) :
    Tracks M (.affine u v hBase) (2 * m + bit.toNat)
      (((s.conditionalSwap bit).round c n u).conditionalSwap bit) := by
  cases bit with
  | false =>
    have hLow := h.low.double hc hn
    have hHigh := h.low.differentialAdd hBase hu (differBy_succ _ m) h.high
    rw [← add_nsmul] at hLow hHigh
    constructor
    · rw [show 2 * m + false.toNat = m + m by simp; ring]
      exact hLow
    · rw [show 2 * m + false.toNat + 1 = m + (m + 1) by simp; ring]
      exact hHigh
  | true =>
    have hHigh := h.high.double hc hn
    have hLow := h.high.differentialAdd hBase hu (differBy_succ _ m).swap h.low
    rw [← add_nsmul] at hLow hHigh
    constructor
    · rw [show 2 * m + true.toNat = m + 1 + m by simp; ring]
      exact hLow
    · rw [show 2 * m + true.toNat + 1 = m + 1 + (m + 1) by simp; ring]
      exact hHigh

theorem Tracks.step (hc : c ≠ 0) (hn : 4 * n = c * (M.A - 2)) (hu : u ≠ 0) {m : ℕ}
    {s : Registers F × Bool} (h : Tracks M (.affine u v hBase) m (settle s)) (bit : Bool) :
    Tracks M (.affine u v hBase) (2 * m + bit.toNat) (settle (step c n u s bit)) := by
  simp only [Registers.step, settle, conditionalSwap_xor]
  exact h.round hc hn hu bit

theorem Tracks.run (hc : c ≠ 0) (hn : 4 * n = c * (M.A - 2)) (hu : u ≠ 0) (bits : List Bool)
    {m : ℕ} {s : Registers F × Bool} (h : Tracks M (.affine u v hBase) m (settle s)) :
    Tracks M (.affine u v hBase) (appendBits m bits) (settle (run c n u bits s)) := by
  induction bits generalizing m s with
  | nil => exact h
  | cons bit bits ih => exact ih (h.step hc hn hu bit)

/-- The state `(1 : 0), (u : 1)` from which the plain ladder starts. -/
theorem tracks_start : Tracks M (.affine u v hBase) 0 ⟨1, 0, u, 1⟩ := by
  constructor
  · rw [zero_nsmul, Represents.infinity_iff]
    exact ⟨one_ne_zero, rfl⟩
  · rw [zero_add, one_nsmul, represents_affine]
    exact ⟨one_ne_zero, (mul_one u).symm⟩

/-- The state after a first round on a one bit, before its swap is undone. -/
theorem tracks_one (hc : c ≠ 0) (hn : 4 * n = c * (M.A - 2)) :
    Tracks M (.affine u v hBase) 1
      (settle (⟨(double c n u 1).1, (double c n u 1).2, u, 1⟩, true)) := by
  have hBaseRepresents : M.Represents u 1 (.affine u v hBase) :=
    ⟨one_ne_zero, (mul_one u).symm⟩
  constructor
  · rw [one_nsmul]
    exact hBaseRepresents
  · rw [one_add_one_eq_two, two_nsmul]
    exact hBaseRepresents.double hc hn

end Group

/-- With base coordinate zero every register ends at a zero denominator. -/
def Degenerate (s : Registers F) : Prop := s.x₂ * s.z₂ = 0 ∧ s.x₃ * s.z₃ = 0

theorem double_snd_eq_zero (c n : F) {X Z : F} (h : X * Z = 0) : (double c n X Z).2 = 0 := by
  have hDifference : (X + Z) ^ 2 - (X - Z) ^ 2 = 0 := by linear_combination 4 * h
  simp only [double, hDifference, zero_mul]

theorem round_zero (c n : F) {s : Registers F} (h : Degenerate s) :
    (s.round c n 0).z₂ = 0 ∧ (s.round c n 0).z₃ = 0 := by
  refine ⟨double_snd_eq_zero c n h.1, ?_⟩
  simp only [Registers.round, differentialAdd, zero_mul]

theorem Degenerate.conditionalSwap {s : Registers F} (h : Degenerate s) (choice : Bool) :
    Degenerate (s.conditionalSwap choice) := by
  cases choice with
  | false => exact h
  | true => exact ⟨h.2, h.1⟩

theorem degenerate_of_z_eq_zero {s : Registers F} (h : s.z₂ = 0 ∧ s.z₃ = 0) : Degenerate s := by
  simp [Degenerate, h]

theorem Degenerate.run (c n : F) (bits : List Bool) {s : Registers F × Bool}
    (h : Degenerate s.1) : Degenerate (run c n 0 bits s).1 := by
  induction bits generalizing s with
  | nil => exact h
  | cons bit bits ih =>
    exact ih (degenerate_of_z_eq_zero (round_zero c n (h.conditionalSwap _)))

end MontgomeryCurve
