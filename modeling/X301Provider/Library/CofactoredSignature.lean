import Mathlib.Data.ZMod.Basic
import Mathlib.GroupTheory.OrderOfElement
import Mathlib.Tactic.Abel
import Mathlib.Tactic.LinearCombination
import Mathlib.Tactic.Ring

/-!
# Cofactored Schnorr verification

The verification equation over an arbitrary additive group, multiplied by a
cofactor. Torsion of the public key and of the commitment does not matter, yet
the response is determined modulo the order of the base point when the cofactor
is coprime to it, and two responses for one commitment give the secret away.
-/

namespace CofactoredSignature

variable {G : Type*} [AddCommGroup G] {cofactor order : ℕ} {base key commitment : G}

/-- The equation `[h s] base = [h] commitment + [h k] key`. -/
def Accepts (cofactor : ℕ) (base key commitment : G) (challenge response : ℕ) : Prop :=
  (cofactor * response) • base = cofactor • commitment + (cofactor * challenge) • key

theorem accepts_iff (challenge response : ℕ) :
    Accepts cofactor base key commitment challenge response ↔
      cofactor • (response • base - challenge • key + -commitment) = 0 := by
  rw [Accepts, mul_nsmul', mul_nsmul', ← nsmul_add, ← sub_eq_zero, ← nsmul_sub]
  have hEq : response • base - (commitment + challenge • key) =
      response • base - challenge • key + -commitment := by abel
  rw [hEq]

theorem accepts_honest (hOrder : order • base = 0) {nonce secret challenge response : ℕ}
    (hResponse : response ≡ nonce + challenge * secret [MOD order]) :
    Accepts cofactor base (secret • base) (nonce • base) challenge response := by
  have hDvd : addOrderOf base ∣ order := addOrderOf_dvd_of_nsmul_eq_zero hOrder
  have hBase : response • base = (nonce + challenge * secret) • base :=
    nsmul_eq_nsmul_iff_modEq.mpr (hResponse.of_dvd hDvd)
  rw [accepts_iff, hBase, add_nsmul, mul_nsmul']
  have hZero : nonce • base + challenge • secret • base - challenge • secret • base +
      -(nonce • base) = 0 := by abel
  rw [hZero, nsmul_zero]

/-- Two responses accepted for one commitment and challenge agree modulo the order. -/
theorem Accepts.modEq (hOrder : addOrderOf base = order) (hCoprime : order.Coprime cofactor)
    {challenge left right : ℕ} (hLeft : Accepts cofactor base key commitment challenge left)
    (hRight : Accepts cofactor base key commitment challenge right) :
    left ≡ right [MOD order] := by
  have hBase : (cofactor * left) • base = (cofactor * right) • base := hLeft.trans hRight.symm
  have hMod := nsmul_eq_nsmul_iff_modEq.mp hBase
  rw [hOrder] at hMod
  exact hMod.cancel_left_of_coprime hCoprime

/-- A multiple of a point killed by `order` depends on the multiplier modulo `order`. -/
theorem nsmul_eq_of_cast_eq {point : G} (hPoint : order • point = 0) {m n : ℕ}
    (h : (m : ZMod order) = n) : m • point = n • point := by
  have hDvd : addOrderOf point ∣ order := addOrderOf_dvd_of_nsmul_eq_zero hPoint
  exact nsmul_eq_nsmul_iff_modEq.mpr (((ZMod.natCast_eq_natCast_iff m n order).mp h).of_dvd hDvd)

/-- Two responses to different challenges for one commitment: what they leave of the equations. -/
theorem Accepts.sub (hBase : order • base = 0) (hKey : order • key = 0)
    (hCoprime : order.Coprime cofactor) {challenge challenge' response response' : ℕ}
    (h : Accepts cofactor base key commitment challenge response)
    (h' : Accepts cofactor base key commitment challenge' response') :
    response • base + challenge' • key = response' • base + challenge • key := by
  rw [Accepts, mul_nsmul', mul_nsmul'] at h h'
  have hCofactor : cofactor • (response • base + challenge' • key) =
      cofactor • (response' • base + challenge • key) := by
    rw [nsmul_add, nsmul_add, h, h']
    abel
  have hOrder : ∀ m n : ℕ, order • (m • base + n • key) = 0 := by
    intro m n
    rw [nsmul_add, nsmul_left_comm base m order, nsmul_left_comm key n order, hBase, hKey, nsmul_zero,
      nsmul_zero, add_zero]
  rw [← sub_eq_zero, ← nsmul_sub] at hCofactor
  rw [← sub_eq_zero]
  have hKilled := hOrder response challenge'
  have hKilled' := hOrder response' challenge
  generalize response • base + challenge' • key = left at *
  generalize response' • base + challenge • key = right at *
  have hOne : addOrderOf (left - right) ∣ 1 := by
    rw [← hCoprime]
    refine Nat.dvd_gcd (addOrderOf_dvd_of_nsmul_eq_zero ?_)
      (addOrderOf_dvd_of_nsmul_eq_zero hCofactor)
    rw [nsmul_sub, hKilled, hKilled', sub_zero]
  exact AddMonoid.addOrderOf_eq_one_iff.mp (Nat.dvd_one.mp hOne)

/-- The secret that two such responses determine when the challenges differ by a unit. -/
theorem Accepts.extract (hBase : order • base = 0) (hKey : order • key = 0)
    (hCoprime : order.Coprime cofactor) {challenge challenge' response response' secret : ℕ}
    (h : Accepts cofactor base key commitment challenge response)
    (h' : Accepts cofactor base key commitment challenge' response')
    {inverse : ℕ} (hInverse : ((challenge : ZMod order) - challenge') * inverse = 1)
    (hSecret : (secret : ZMod order) = (response - response') * inverse) :
    key = secret • base := by
  have hSub := congrArg (inverse • ·) (h.sub hBase hKey hCoprime h')
  simp only [nsmul_add, ← mul_nsmul'] at hSub
  have hResponse : (inverse * response) • base = (secret + inverse * response') • base := by
    refine nsmul_eq_of_cast_eq hBase ?_
    push_cast
    rw [hSecret]
    ring
  have hChallenge : (inverse * challenge) • key = (1 + inverse * challenge') • key := by
    refine nsmul_eq_of_cast_eq hKey ?_
    push_cast
    linear_combination hInverse
  rw [hResponse, hChallenge, add_nsmul, add_nsmul, one_nsmul] at hSub
  have hCancel : secret • base + ((inverse * response') • base + (inverse * challenge') • key) =
      key + ((inverse * response') • base + (inverse * challenge') • key) := by
    rw [← add_assoc, hSub]
    abel
  exact (add_right_cancel hCancel).symm

end CofactoredSignature
