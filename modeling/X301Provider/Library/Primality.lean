import Mathlib.FieldTheory.Finite.Basic
import Mathlib.Data.Nat.Size
import Mathlib.Tactic.NormNum.GCD
import Mathlib.Tactic.NormNum.Prime
import Mathlib.Tactic.Ring

/-!
# Primality from a partial factorization of the predecessor

A Fermat witness for a prime `q` forces `q` to divide `r - 1` for every prime
divisor `r` of `N`. If the product `F` of such primes exceeds the square root of
`N`, then `N` is prime; if it only exceeds the cube root, the base-`F` digits of
`N - 1` must in addition not come from two cofactors.
-/

namespace Primality

/-- Square and multiply over the `bits` low bits of the exponent. -/
def powMod (N a : ℕ) : ℕ → ℕ → ℕ
  | 0, _ => 1 % N
  | bits + 1, e =>
    let half := powMod N a bits (e / 2)
    let square := half * half % N
    if e % 2 = 1 then square * a % N else square

theorem powMod_eq (N a : ℕ) {bits e : ℕ} (h : e < 2 ^ bits) : powMod N a bits e = a ^ e % N := by
  induction bits generalizing e with
  | zero =>
    have hZero : e = 0 := by simpa using h
    rw [hZero, powMod, pow_zero]
  | succ bits ih =>
    have hHalf : powMod N a bits (e / 2) = a ^ (e / 2) % N := by
      apply ih
      rw [pow_succ] at h
      omega
    simp only [powMod, hHalf, ← Nat.mul_mod, ← pow_add]
    split_ifs with hOdd
    · rw [Nat.mod_mul_mod, ← pow_succ]
      congr 2
      omega
    · congr 2
      omega

/-- A Fermat witness: `a` has an order divisible by `q` modulo each prime divisor. -/
def Witness (N q : ℕ) : Prop :=
  q.Prime ∧ q ∣ N - 1 ∧ ∃ a, a ^ (N - 1) % N = 1 ∧ N.Coprime (a ^ ((N - 1) / q) % N - 1)

/-- The computable part of a witness. -/
def check (N q a : ℕ) : Bool :=
  (N - 1) % q == 0 && powMod N a N.size (N - 1) == 1 &&
    Nat.gcd N (powMod N a N.size ((N - 1) / q) - 1) == 1

theorem witness_of_check {N q : ℕ} (a : ℕ) (hq : q.Prime) (h : check N q a = true) :
    Witness N q := by
  have hBits : ∀ e ≤ N - 1, powMod N a N.size e = a ^ e % N := by
    intro e he
    apply powMod_eq
    have hSize := N.lt_size_self
    omega
  simp only [check, Bool.and_eq_true, beq_iff_eq] at h
  obtain ⟨⟨hDvd, hPow⟩, hGcd⟩ := h
  rw [hBits _ le_rfl] at hPow
  rw [hBits _ (Nat.div_le_self _ _)] at hGcd
  exact ⟨hq, Nat.dvd_of_mod_eq_zero hDvd, a, hPow, hGcd⟩

theorem Witness.dvd_pred {N q r : ℕ} (h : Witness N q) (hr : r.Prime) (hrN : r ∣ N) :
    q ∣ r - 1 := by
  obtain ⟨hq, hqN, a, hPow, hCoprime⟩ := h
  have : Fact r.Prime := ⟨hr⟩
  have hCast : ∀ n, ((a ^ n % N : ℕ) : ZMod r) = (a : ZMod r) ^ n := by
    intro n
    rw [← Nat.cast_pow, ZMod.natCast_eq_natCast_iff]
    exact (Nat.mod_modEq _ N).of_dvd hrN
  have hOne : (a : ZMod r) ^ (N - 1) = 1 := by rw [← hCast, hPow, Nat.cast_one]
  have hPart : (a : ZMod r) ^ ((N - 1) / q) ≠ 1 := by
    intro hEq
    rw [← hCast] at hEq
    have hPositive : 1 ≤ a ^ ((N - 1) / q) % N := by
      rw [Nat.one_le_iff_ne_zero]
      intro hZero
      rw [hZero, Nat.cast_zero] at hEq
      exact zero_ne_one hEq
    have hDvd : r ∣ a ^ ((N - 1) / q) % N - 1 := by
      rw [← ZMod.natCast_eq_zero_iff, Nat.cast_sub hPositive, hEq, Nat.cast_one, sub_self]
    exact Nat.Prime.not_coprime_iff_dvd.mpr ⟨r, hr, hrN, hDvd⟩ hCoprime
  have ha : (a : ZMod r) ≠ 0 := by
    intro hZero
    have hN : N - 1 ≠ 0 := by
      intro hN
      rw [hN] at hPart
      simp at hPart
    rw [hZero, zero_pow hN] at hOne
    exact zero_ne_one hOne
  have hOrder := orderOf_dvd_of_pow_eq_one hOne
  by_contra hNot
  have hqOrder : ¬q ∣ orderOf (a : ZMod r) := fun hDvd =>
    hNot (hDvd.trans (ZMod.orderOf_dvd_card_sub_one ha))
  have hCoprimeOrder : (orderOf (a : ZMod r)).Coprime q :=
    ((Nat.Prime.coprime_iff_not_dvd hq).mpr hqOrder).symm
  have hFactor : orderOf (a : ZMod r) ∣ (N - 1) / q := by
    rw [← Nat.div_mul_cancel hqN] at hOrder
    exact hCoprimeOrder.dvd_of_dvd_mul_right hOrder
  exact hPart (orderOf_dvd_iff_pow_eq_one.mp hFactor)

/-- Every prime divisor is one more than a multiple of `F`. -/
def Divides (N F : ℕ) : Prop := ∀ r : ℕ, r.Prime → r ∣ N → F ∣ r - 1

theorem divides_one (N : ℕ) : Divides N 1 := fun _ _ _ => one_dvd _

theorem Divides.mul {N F q : ℕ} (h : Divides N F) (hq : Witness N q) (hF : q.Coprime F) :
    Divides N (q * F) :=
  fun r hr hrN => hF.mul_dvd_of_dvd_of_dvd (hq.dvd_pred hr hrN) (h r hr hrN)

theorem Divides.of_dvd {N F m : ℕ} (h : Divides N F) (hm : m ∣ N) : Divides m F :=
  fun r hr hrm => h r hr (hrm.trans hm)

theorem Divides.modEq_one {F m : ℕ} (hm : m ≠ 0) (h : Divides m F) : m ≡ 1 [MOD F] := by
  induction m using Nat.recOnMul with
  | zero => exact absurd rfl hm
  | one => rfl
  | prime r hr => exact ((Nat.modEq_iff_dvd' hr.one_le).mpr (h r hr dvd_rfl)).symm
  | mul a b ha hb =>
    have ha₀ : a ≠ 0 := fun hZero => hm (by rw [hZero, zero_mul])
    have hb₀ : b ≠ 0 := fun hZero => hm (by rw [hZero, mul_zero])
    exact (ha ha₀ (h.of_dvd (Dvd.intro b rfl))).mul (hb hb₀ (h.of_dvd (Dvd.intro_left a rfl)))

theorem Divides.exists_eq {N F m : ℕ} (h : Divides N F) (hm : m ∣ N) (hOne : 1 < m) :
    ∃ a, 0 < a ∧ m = 1 + a * F := by
  have hMod := (h.of_dvd hm).modEq_one (by omega)
  obtain ⟨a, ha⟩ := (Nat.modEq_iff_dvd' hOne.le).mp hMod.symm
  refine ⟨a, ?_, ?_⟩
  · rw [Nat.pos_iff_ne_zero]
    rintro rfl
    omega
  · rw [mul_comm]
    omega

theorem prime_of_lt_sq {N F : ℕ} (hN : 1 < N) (h : Divides N F) (hF : N < F * F) : N.Prime := by
  by_contra hNot
  have hMin := Nat.minFac_prime (by omega : N ≠ 1)
  obtain ⟨a, ha, hEq⟩ := h.exists_eq (Nat.minFac_dvd N) hMin.one_lt
  have hSq := Nat.minFac_sq_le_self (by omega) hNot
  have hLe : F ≤ N.minFac := by
    rw [hEq]
    exact (Nat.le_mul_of_pos_left F ha).trans (Nat.le_add_left _ _)
  have hMul := Nat.mul_le_mul hLe hLe
  rw [sq] at hSq
  omega

/-- The cube-root criterion: the digits `c₁, c₂` of `N - 1` would otherwise be the sum and the
product of two cofactors, and their discriminant a square. -/
theorem prime_of_lt_cube {N F : ℕ} (c₁ c₂ s : ℕ) (h : Divides N F) (hN : N = 1 + F * (c₁ + c₂ * F))
    (hF : N < F * F * F) (hc₁ : 0 < c₁) (hc₁F : c₁ < F) (hLow : s * s + 4 * c₂ < c₁ * c₁)
    (hHigh : c₁ * c₁ < (s + 1) * (s + 1) + 4 * c₂) : N.Prime := by
  by_contra hNot
  have hF₀ : 0 < F := by omega
  have hOne : 1 < N := by
    rw [hN]
    have := Nat.mul_pos hF₀ (Nat.add_pos_left hc₁ (c₂ * F))
    omega
  have hMin := Nat.minFac_prime hOne.ne'
  obtain ⟨m, hm⟩ := Nat.minFac_dvd N
  have hm₁ : 1 < m := by
    rw [Nat.one_lt_iff_ne_zero_and_ne_one]
    constructor
    · rintro rfl
      omega
    · rintro rfl
      rw [mul_one] at hm
      exact hNot (hm ▸ hMin)
  obtain ⟨a, ha, haEq⟩ := h.exists_eq (Nat.minFac_dvd N) hMin.one_lt
  obtain ⟨b, hb, hbEq⟩ := h.exists_eq (Dvd.intro_left _ hm.symm) hm₁
  rw [haEq, hbEq] at hm
  have hExpanded : N = 1 + F * (a + b + a * b * F) := by
    rw [hm]
    ring
  have hDigits : a + b + a * b * F = c₁ + c₂ * F := by
    apply Nat.eq_of_mul_eq_mul_left hF₀
    omega
  have hProduct : a * b < F := by
    apply lt_of_mul_lt_mul_right (a := F * F) ?_ (Nat.zero_le _)
    calc a * b * (F * F) = F * (a * b * F) := by ring
      _ ≤ F * (a + b + a * b * F) := Nat.mul_le_mul_left F (Nat.le_add_left _ _)
      _ < N := by omega
      _ < F * F * F := hF
      _ = F * (F * F) := by ring
  have hSum : a + b ≤ F := by
    have hLe : a + b ≤ a * b + 1 := by
      obtain ⟨i, rfl⟩ := Nat.exists_eq_add_of_lt ha
      obtain ⟨j, rfl⟩ := Nat.exists_eq_add_of_lt hb
      ring_nf
      omega
    omega
  have hSumNe : a + b ≠ F := by
    intro hEq
    rw [hEq] at hDigits
    have hDvd : F ∣ c₁ := by
      rw [← Nat.dvd_add_left (Dvd.intro_left c₂ rfl), ← hDigits]
      exact Dvd.dvd.add dvd_rfl (Dvd.intro_left _ rfl)
    exact absurd (Nat.le_of_dvd hc₁ hDvd) (by omega)
  have hSumEq : a + b = c₁ := by
    have hMod := congrArg (· % F) hDigits
    simp only [Nat.add_mul_mod_self_right] at hMod
    rwa [Nat.mod_eq_of_lt (by omega), Nat.mod_eq_of_lt hc₁F] at hMod
  have hProductEq : a * b = c₂ := by
    apply Nat.eq_of_mul_eq_mul_right hF₀
    omega
  obtain ⟨t, ht⟩ : ∃ t, t * t + 4 * c₂ = c₁ * c₁ := by
    cases Nat.le_total a b with
    | inl hab =>
      obtain ⟨k, rfl⟩ := Nat.exists_eq_add_of_le hab
      exact ⟨k, by rw [← hSumEq, ← hProductEq]; ring⟩
    | inr hab =>
      obtain ⟨k, rfl⟩ := Nat.exists_eq_add_of_le hab
      exact ⟨k, by rw [← hSumEq, ← hProductEq]; ring⟩
  have hst : s < t := lt_of_mul_self_lt_mul_self₀ (Nat.zero_le t) (by omega)
  have hts : t < s + 1 := lt_of_mul_self_lt_mul_self₀ (Nat.zero_le _) (by omega)
  omega

end Primality
