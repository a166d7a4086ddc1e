import Mathlib.Data.List.GetD
import X301Provider.Field.Exactness
import X301Provider.Field.Power
import X301Provider.Library.IndexedLoops

/-!
# Fixed windows over arrays

The window loop with its table of sixteen powers and its indices into the five limbs
of the exponent. For up to 320 exponent bits every index is in range, and the loop of
either arithmetic returns the power by the exponent modulo the bits it reads.
-/

namespace X301Provider

open Limbs

namespace Indexed

section Windows

variable (mul : Fe301 → Fe301 → Fe301) (square : Fe301 → Fe301)

def powers (base : Fe301) : List.Vector Fe301 16 :=
  Fin.foldl 15 (fun powers index =>
    powers.set index.succ (mul (powers.get index.castSucc) base)) (.replicate 16 .one)

theorem windowIndex_lt {bits : ℕ} (h : bits ≤ 320) (window : Fin ((bits + 3) / 4)) :
    (window : ℕ) >>> 4 < 5 := by
  have hWindow := window.2
  rw [Nat.shiftRight_eq_div_pow]
  omega

/-- The four exponent bits of a window, a position in the table. -/
def digit (exponent : Words 5) {bits : ℕ} (h : bits ≤ 320) (window : Fin ((bits + 3) / 4)) :
    Fin 16 :=
  let word := exponent.get ⟨(window : ℕ) >>> 4, windowIndex_lt h window⟩ >>>
    UInt64.ofNat (((window : ℕ) &&& 15) <<< 2)
  ⟨(word &&& 15).toNat, Nat.lt_succ_of_le (by rw [UInt64.toNat_and]; exact Nat.and_le_right)⟩

def powWindows (base : Fe301) (exponent : Words 5) (bits : ℕ) (h : bits ≤ 320) : Fe301 :=
  let table := powers mul base
  Fin.foldr ((bits + 3) / 4) (fun window result =>
    let raised := square (square (square (square result)))
    let digit := digit exponent h window
    if digit ≠ 0 then mul raised (table.get digit) else raised) .one

end Windows

def powFixedWindow4 (x : Fe301) (exponent : Words 5) (bits : ℕ) (h : bits ≤ 320) : Fe301 :=
  powWindows Fe301.mul Fe301.square x exponent bits h

def powFixedWindow4Const (x : Fe301) (exponent : Words 5) (bits : ℕ) (h : bits ≤ 320) : Fe301 :=
  powWindows Fe301.mulConst Fe301.squareConst x exponent bits h

section Windows

variable {mul : Fe301 → Fe301 → Fe301} {square : Fe301 → Fe301}

theorem powers_get (base : Fe301) (n : Fin 16) :
    (powers mul base).get n = Fe301.windowPower mul base n := by
  suffices hLoop : ∀ n : Fin 16, (n : ℕ) < 15 + 1 →
      (powers mul base).get n = Fe301.windowPower mul base n from
    hLoop n n.2
  refine Fin.foldl_invariant (fun i (powers : List.Vector Fe301 16) =>
    ∀ n : Fin 16, (n : ℕ) < i + 1 → powers.get n = Fe301.windowPower mul base n) ?_ ?_
  · intro i powers hPowers
    have hLast := hPowers i.castSucc (Nat.lt_succ_self _)
    have hNext : mul (powers.get i.castSucc) base = Fe301.windowPower mul base i.succ := by
      rw [hLast]
      rfl
    exact List.Vector.get_set_below (Fe301.windowPower mul base) hPowers hNext
  · intro n hn
    have hFirst : n = 0 := Fin.ext (Nat.lt_one_iff.mp hn)
    subst hFirst
    rfl

theorem digit_val (exponent : Words 5) {bits : ℕ} (h : bits ≤ 320)
    (window : Fin ((bits + 3) / 4)) :
    (digit exponent h window : ℕ) = Fe301.windowDigit exponent window := by
  have hIndex : (window : ℕ) >>> 4 < exponent.1.length := by
    rw [exponent.2]
    exact windowIndex_lt h window
  rw [Fe301.windowDigit, List.getD_eq_getElem _ _ hIndex]
  rfl

/-- The arrays hold what the list form of the loop computes. -/
theorem powWindows_eq (base : Fe301) (exponent : Words 5) (bits : ℕ) (h : bits ≤ 320) :
    powWindows mul square base exponent bits h =
      Fe301.powWindows mul square base exponent bits := by
  apply Fin.foldr_eq_range
  intro window result
  have hDigit := digit_val exponent h window
  have hZero : digit exponent h window ≠ 0 ↔ Fe301.windowDigit exponent window ≠ 0 := by
    rw [← hDigit, Ne, Fin.ext_iff]
    rfl
  simp only [Fe301.powStep, hZero, powers_get, hDigit]

end Windows

end Indexed

namespace Fe301

/-- Both window loops return the power by the exponent bits that they read, and the compile-time
inversion by a fixed power agrees with the runtime inversion. -/
theorem windowPowers_exact [ModularInverse] :
    (∀ (x : Fe301) (exponent : Words 5) (bits : ℕ) (h : bits ≤ 320), x.Canonical →
      (Indexed.powFixedWindow4 x exponent bits h).Repr
          (x.toFp ^ (value exponent.1 % 2 ^ (4 * ((bits + 3) / 4)))) ∧
        Indexed.powFixedWindow4Const x exponent bits h =
          Indexed.powFixedWindow4 x exponent bits h ∧
        x.powFixedWindow4 exponent bits = Indexed.powFixedWindow4 x exponent bits h ∧
        x.powFixedWindow4Const exponent bits = Indexed.powFixedWindow4Const x exponent bits h) ∧
    ∀ x : Fe301, x.Canonical → x.toFp ≠ 0 →
      x.invertConstNonzero = x.invert.value ∧ x.invert.isSome = true ∧
        x.invertConstNonzero.Repr x.toFp⁻¹ := by
  constructor
  · intro x exponent bits h hx
    have hSixteen : (2 : ℕ) ^ (4 * ((bits + 3) / 4)) = 16 ^ ((bits + 3) / 4) := pow_mul 2 4 _
    have hPower := hx.repr.powFixedWindow4_mod exponent bits
    have hConst := hx.repr.powFixedWindow4Const_mod exponent bits
    have hIndexed : Indexed.powFixedWindow4 x exponent bits h = x.powFixedWindow4 exponent bits :=
      Indexed.powWindows_eq x exponent bits h
    have hIndexedConst : Indexed.powFixedWindow4Const x exponent bits h =
        x.powFixedWindow4Const exponent bits := Indexed.powWindows_eq x exponent bits h
    rw [hIndexed, hIndexedConst, hSixteen]
    exact ⟨hPower, hConst.ext hPower, rfl, rfl⟩
  · intro x hx hZero
    have hConst := hx.repr.invertConstNonzero hZero
    refine ⟨hConst.ext (hx.repr.invert hZero), ?_, hConst⟩
    rw [hx.repr.invert_isSome]
    exact decide_eq_true hZero

/-- The largest element, all the bits of an exponent and its inverse. -/
theorem windowPowers_exact_minusOne :
    Indexed.powFixedWindow4Const minusOne inversionExponent 320 le_rfl =
        Indexed.powFixedWindow4 minusOne inversionExponent 320 le_rfl ∧
      minusOne.invertConstNonzero.Repr minusOne.toFp⁻¹ := by
  obtain ⟨hPowers, hInverses⟩ := @windowPowers_exact .zeroAtZero
  obtain ⟨-, hConst, -, -⟩ := hPowers minusOne inversionExponent 320 le_rfl canonical_minusOne
  obtain ⟨-, -, hInverse⟩ := hInverses minusOne canonical_minusOne toFp_minusOne_ne_zero
  exact ⟨hConst, hInverse⟩

end Fe301

end X301Provider
