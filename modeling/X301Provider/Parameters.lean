import Mathlib.Algebra.Field.ZMod
import X301Provider.Library.Bytes
import X301Provider.Library.PointOrder
import X301Provider.Library.Primality

/-!
# Parameters of ED301-v1 and X301

The sizes and constants of the parameter set, and the primality of the field
modulus and of the group order. The order has a partial factorization of its
predecessor above the cube root; the modulus is proved prime by a ladder that
kills a point at that order.
-/

namespace X301Provider

def fieldBits : ℕ := 301
def fieldBytes : ℕ := 38
def edwardsA : ℕ := 2086388329
def edwardsD : ℕ := 301

@[irreducible] def P : ℕ :=
  0x1ffffffffffffffffffffffffffffffffffffffffffffffffff80000000000000000000003b3

@[irreducible] def L : ℕ :=
  1018517988167243043134222844204689080525734197342817290458622896758534223469429834039334403

abbrev Fp := ZMod P

/-- The factored part of `L - 1`. -/
def factoredL : ℕ := 10140257736222944349715877 * (487 * (103 * (83 * (3 * (2 * 1)))))

namespace Certificate

open Primality

/-- Every numeric fact about the group order that later proofs rest on. -/
theorem L_facts : ((2 ^ 299 < L ∧ L < 2 ^ 300 ∧ 2 * L < 2 ^ 320) ∧
    L < 2 ^ 301 ∧ L < 2 ^ 303 ∧ L < 256 ^ 38 ∧ 2 ^ 301 < 4 * L ∧ ¬L ∣ 2 ∧ ¬L ∣ 4 ∧
    L.Coprime 4) ∧
    (check 568554653 2001953 2 = true ∧ check 401854544725549213 568554653 2 = true ∧
      check 401854544725549213 2 2 = true ∧
      check 10140257736222944349715877 401854544725549213 2 = true) ∧
    (check L 2 3 = true ∧ check L 3 3 = true ∧ check L 83 3 = true ∧ check L 103 3 = true ∧
      check L 487 3 = true ∧ check L 10140257736222944349715877 3 = true) ∧
    L = 1 + factoredL *
      (6051139500391183015087321111205 + 15873754483232440141221952 * factoredL) ∧
    L < factoredL * factoredL * factoredL ∧ 6051139500391183015087321111205 < factoredL ∧
    6051139500391183015087321111204 * 6051139500391183015087321111204 +
      4 * 15873754483232440141221952 <
      6051139500391183015087321111205 * 6051139500391183015087321111205 ∧
    6051139500391183015087321111205 * 6051139500391183015087321111205 <
      (6051139500391183015087321111204 + 1) * (6051139500391183015087321111204 + 1) +
        4 * 15873754483232440141221952 := by
  decide +kernel

theorem prime_2001953 : Nat.Prime 2001953 := by norm_num

theorem prime_568554653 : Nat.Prime 568554653 := by
  have h : Divides 568554653 (2001953 * 1) :=
    (divides_one _).mul (witness_of_check 2 prime_2001953 L_facts.2.1.1) (by norm_num)
  exact prime_of_lt_sq (by norm_num) h (by norm_num)

theorem prime_401854544725549213 : Nat.Prime 401854544725549213 := by
  have h : Divides 401854544725549213 (2 * (568554653 * 1)) :=
    ((divides_one _).mul (witness_of_check 2 prime_568554653 L_facts.2.1.2.1)
      (by norm_num)).mul (witness_of_check 2 Nat.prime_two L_facts.2.1.2.2.1) (by norm_num)
  exact prime_of_lt_sq (by norm_num) h (by norm_num)

theorem prime_10140257736222944349715877 : Nat.Prime 10140257736222944349715877 := by
  have h : Divides 10140257736222944349715877 (401854544725549213 * 1) :=
    (divides_one _).mul (witness_of_check 2 prime_401854544725549213 L_facts.2.1.2.2.2)
      (by norm_num)
  exact prime_of_lt_sq (by norm_num) h (by norm_num)

theorem divides_L : Divides L factoredL := by
  obtain ⟨-, -, ⟨hTwo, hThree, h83, h103, h487, hLarge⟩, -⟩ := L_facts
  have hWitness : ∀ q : ℕ, q.Prime → check L q 3 = true → Witness L q :=
    fun q hq h => witness_of_check 3 hq h
  refine Divides.mul (Divides.mul (Divides.mul (Divides.mul (Divides.mul (Divides.mul
    (divides_one L) (hWitness 2 Nat.prime_two hTwo) ?_) (hWitness 3 Nat.prime_three hThree) ?_)
    (hWitness 83 (by norm_num) h83) ?_) (hWitness 103 (by norm_num) h103) ?_)
    (hWitness 487 (by norm_num) h487) ?_)
    (hWitness _ prime_10140257736222944349715877 hLarge) ?_
  all_goals norm_num

end Certificate

theorem L_numeric : (2 ^ 299 < L ∧ L < 2 ^ 300 ∧ 2 * L < 2 ^ 320) ∧
    L < 2 ^ 301 ∧ L < 2 ^ 303 ∧ L < 256 ^ 38 ∧ 2 ^ 301 < 4 * L ∧ ¬L ∣ 2 ∧ ¬L ∣ 4 ∧
    L.Coprime 4 :=
  Certificate.L_facts.1

theorem L_bounds : 2 ^ 299 < L ∧ L < 2 ^ 300 ∧ 2 * L < 2 ^ 320 := L_numeric.1

theorem prime_L : L.Prime := by
  obtain ⟨-, -, -, hSplit, hCube, hRoot, hLow, hHigh⟩ := Certificate.L_facts
  exact Primality.prime_of_lt_cube 6051139500391183015087321111205 15873754483232440141221952
    6051139500391183015087321111204 Certificate.divides_L hSplit hCube (by norm_num) hRoot hLow hHigh

def baseU : ℕ := 0x86354e92a2dd42c9599bdd2129cf7053dfe493989d1b75e16fe96248a015fffc6ccf4f0a65b

open Limbs in
/-- Every numeric fact about the modulus that later proofs rest on; the last ones are for its
primality, the ladder of length `L` on the base coordinate ending at infinity. -/
theorem P_facts : ((2 ^ 301 + 2 ^ 203 < 2 * P ∧ 16 * (P * P) < 2 ^ 606 ∧ 8 * P < wordBase ^ 5 ∧
    4 * P * 2 ^ 32 < 2 ^ 335 ∧ P < 2 ^ 301 ∧ 2 ^ 301 < 2 * P) ∧
    (2 ^ 301 = P + (2 ^ 99 - 947) ∧ wordBase < P ∧ P < 256 ^ 38 ∧ P % 2 = 1) ∧
    P - 2 + 1 = P - 1 ∧ P - 1 = P - 3 + 2 ∧ 2 * ((P - 3) / 4) * 2 = P - 3 ∧
    P - 2 < 16 ^ ((301 + 3) / 4) ∧ (P - 3) / 4 < 16 ^ ((299 + 3) / 4)) ∧
    MontgomeryCurve.Kills P (edwardsA - edwardsD) edwardsD baseU L ∧ 1 < P ∧
    P.Coprime (2 * (edwardsA - edwardsD) * edwardsD * (edwardsA - edwardsD + edwardsD)) ∧
    P.Coprime baseU ∧
    P.Coprime ((edwardsA - edwardsD) * (baseU ^ 3 + 2 * baseU ^ 2 + baseU) +
      4 * edwardsD * baseU ^ 2) ∧ 4 * P < (L - 2) ^ 2 := by
  decide +kernel

open Limbs in
theorem P_numeric : (2 ^ 301 + 2 ^ 203 < 2 * P ∧ 16 * (P * P) < 2 ^ 606 ∧ 8 * P < wordBase ^ 5 ∧
    4 * P * 2 ^ 32 < 2 ^ 335 ∧ P < 2 ^ 301 ∧ 2 ^ 301 < 2 * P) ∧
    (2 ^ 301 = P + (2 ^ 99 - 947) ∧ wordBase < P ∧ P < 256 ^ 38 ∧ P % 2 = 1) ∧
    P - 2 + 1 = P - 1 ∧ P - 1 = P - 3 + 2 ∧ 2 * ((P - 3) / 4) * 2 = P - 3 ∧
    P - 2 < 16 ^ ((301 + 3) / 4) ∧ (P - 3) / 4 < 16 ^ ((299 + 3) / 4) :=
  P_facts.1

theorem P_bounds : 2 ^ 301 + 2 ^ 203 < 2 * P ∧ 16 * (P * P) < 2 ^ 606 ∧
    8 * P < Limbs.wordBase ^ 5 ∧ 4 * P * 2 ^ 32 < 2 ^ 335 ∧ P < 2 ^ 301 ∧ 2 ^ 301 < 2 * P :=
  P_numeric.1

theorem P_lt_bytes : P < 256 ^ 38 := P_numeric.2.1.2.2.1

theorem P_odd : P % 2 = 1 := P_numeric.2.1.2.2.2

theorem kills_baseU : MontgomeryCurve.Kills P (edwardsA - edwardsD) edwardsD baseU L :=
  P_facts.2.1

theorem prime_P : P.Prime := by
  obtain ⟨-, hKills, hOne, hFactors, hU, hBase, hLarge⟩ := P_facts
  exact MontgomeryCurve.prime_of_kills hOne prime_L hFactors hU hBase hKills hLarge

instance : Fact P.Prime := ⟨prime_P⟩

instance : Fact L.Prime := ⟨prime_L⟩

end X301Provider
