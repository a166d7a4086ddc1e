import X301Provider.BigInt.MontgomeryRetrieve
import X301Provider.BigInt.WindowedPower

/-!
# Residues in Montgomery form

The operations on reduced forms and the residues they stand for: for an odd modulus of any
number of limbs the forms are the ring of integers modulo it.
-/

namespace X301Provider.BigInt

open Limbs

variable {n k : ℕ}

section Retrieve

variable {params : MontyParams n} {form : Uint n} {z : ℕ}

/-- What a reduced form gives back, by any number that it stands for. -/
theorem value_montgomeryRetrieve (hForm : value form.1 < params.m)
    (h : params.Represents (value form.1) z) :
    value (montgomeryRetrieve form params.modulus.1 params.modNegInv).1 = z % params.m := by
  obtain ⟨hLt, hRetrieved⟩ := MontyParams.montgomeryRetrieve_spec hForm
  have hSame := Nat.ModEq.cancel_right_of_coprime params.coprime (hRetrieved.symm.trans h)
  rw [← hSame, Nat.mod_eq_of_lt hLt]

end Retrieve

namespace MontyForm

variable (params : MontyParams n)

def zero : MontyForm params where
  montgomeryForm := .zero
  reduced := by
    rw [Uint.value_zero]
    exact params.pos

def one : MontyForm params where
  montgomeryForm := params.one
  reduced := MontyParams.one_lt

/-- `R ^ 2` is below the modulus, so that any integer of the size may be multiplied by it. -/
theorem r2_lt : value params.r2.1 < params.m := by
  rw [params.r2_eq]
  exact Nat.mod_lt _ params.pos

def new (integer : Uint n) : MontyForm params where
  montgomeryForm := params.mul integer params.r2
  reduced := by
    apply MontyParams.mul_lt
    rw [mul_comm]
    exact MontyParams.product_lt (r2_lt params)

variable {params} (x y : MontyForm params)

def retrieve : Uint n := montgomeryRetrieve x.montgomeryForm params.modulus.1 params.modNegInv

def mul : MontyForm params where
  montgomeryForm := params.mul x.montgomeryForm y.montgomeryForm
  reduced := MontyParams.mul_lt (MontyParams.product_lt x.reduced)

def square : MontyForm params where
  montgomeryForm := squareMontgomeryForm x.montgomeryForm params.modulus.1 params.modNegInv
  reduced := by
    obtain ⟨total, -, hValue⟩ := MontyParams.value_squareMontgomeryForm x.reduced
    exact hValue.trans_lt (Nat.mod_lt _ params.pos)

def add : MontyForm params where
  montgomeryForm := x.montgomeryForm.addMod y.montgomeryForm params.modulus.1
  reduced := by
    have hx := x.reduced
    have hy := y.reduced
    rw [Uint.addMod_value _ _ _ (by omega)]
    exact Nat.mod_lt _ params.pos

def double : MontyForm params where
  montgomeryForm := x.montgomeryForm.doubleMod params.modulus.1
  reduced := by
    rw [Uint.doubleMod_value _ _ x.reduced]
    exact Nat.mod_lt _ params.pos

def sub : MontyForm params where
  montgomeryForm := x.montgomeryForm.subMod y.montgomeryForm params.modulus.1
  reduced := by
    rw [Uint.subMod_value _ _ _ x.reduced y.reduced]
    exact Nat.mod_lt _ params.pos

def neg : MontyForm params where
  montgomeryForm := x.montgomeryForm.negMod params.modulus.1
  reduced := by
    rw [Uint.negMod_value _ _ x.reduced]
    exact Nat.mod_lt _ params.pos

def ctEq : Bool := x.montgomeryForm.eq y.montgomeryForm

theorem represents : params.Represents (value x.montgomeryForm.1) (value x.retrieve.1) :=
  (MontyParams.montgomeryRetrieve_spec x.reduced).2

/-- A form is the first power of the number that it gives back. -/
theorem powerOf_one : params.PowerOf (value x.retrieve.1) x.montgomeryForm 1 := by
  rw [MontyParams.PowerOf, pow_one]
  exact ⟨x.reduced, x.represents⟩

def powBoundedExp (exponent : Uint k) (exponentBits : ℕ) : MontyForm params where
  montgomeryForm := powMontgomeryForm x.montgomeryForm exponent exponentBits params
  reduced := (MontyParams.powMontgomeryForm_spec x.powerOf_one exponent exponentBits).1

/-- The residue that a form stands for. -/
def toZMod : ZMod params.m := (value x.retrieve.1 : ZMod params.m)

variable {x y}

theorem retrieve_eq {z : ℕ} (h : params.Represents (value x.montgomeryForm.1) z) :
    value x.retrieve.1 = z % params.m := value_montgomeryRetrieve x.reduced h

theorem toZMod_eq {z : ℕ} (h : params.Represents (value x.montgomeryForm.1) z) :
    x.toZMod = z := by
  rw [toZMod, retrieve_eq h, ZMod.natCast_mod]

theorem retrieve_lt : value x.retrieve.1 < params.m :=
  (MontyParams.montgomeryRetrieve_spec x.reduced).1

theorem val_toZMod : x.toZMod.val = value x.retrieve.1 := ZMod.val_cast_of_lt retrieve_lt

theorem retrieve_inj : value x.retrieve.1 = value y.retrieve.1 ↔ x = y := by
  constructor
  · intro h
    have hx := x.represents
    rw [h] at hx
    exact MontyForm.ext (words_ext (hx.inj y.represents x.reduced y.reduced))
  · rintro rfl
    rfl

theorem toZMod_injective : Function.Injective (toZMod : MontyForm params → ZMod params.m) := by
  intro x y h
  rw [← retrieve_inj, ← val_toZMod, ← val_toZMod, h]

theorem ctEq_iff : x.ctEq y = true ↔ x = y := by
  rw [ctEq, Uint.eq_iff, MontyForm.ext_iff]

theorem represents_new (integer : Uint n) :
    params.Represents (value (new params integer).montgomeryForm.1) (value integer.1) := by
  have hProduct : value integer.1 * value params.r2.1 < params.m * wordBase ^ n := by
    rw [mul_comm]
    exact MontyParams.product_lt (r2_lt params)
  have hForm : value (new params integer).montgomeryForm.1 = _ := MontyParams.value_mul hProduct
  have hMod := (params.inner_spec integer params.r2).1.modEq
  have hSquare : value params.r2.1 ≡ wordBase ^ n * wordBase ^ n [MOD params.m] := by
    rw [params.r2_eq]
    exact Nat.mod_modEq _ _
  have hCancel := hMod.trans (hSquare.mul_left (value integer.1))
  rw [← mul_assoc] at hCancel
  rw [MontyParams.Represents, hForm]
  exact (Nat.mod_modEq _ _).trans (hCancel.cancel_right_of_coprime params.coprime)

theorem retrieve_new (integer : Uint n) :
    value (new params integer).retrieve.1 = value integer.1 % params.m :=
  retrieve_eq (represents_new integer)

theorem retrieve_zero : value (zero params).retrieve.1 = 0 := by
  have hZero : params.Represents (value (zero params).montgomeryForm.1) 0 := by
    change params.Represents (value (Uint.zero : Uint n).1) 0
    rw [Uint.value_zero]
    exact MontyParams.represents_zero
  rw [retrieve_eq hZero, Nat.zero_mod]

theorem retrieve_mul : value (x.mul y).retrieve.1 =
    value x.retrieve.1 * value y.retrieve.1 % params.m :=
  retrieve_eq
    (MontyParams.mul_spec (MontyParams.product_lt x.reduced) x.represents y.represents).2

theorem retrieve_square : value x.square.retrieve.1 = value x.retrieve.1 ^ 2 % params.m :=
  retrieve_eq (MontyParams.squareMontgomeryForm_spec x.reduced x.represents).2

theorem retrieve_powBoundedExp (exponent : Uint k) (exponentBits : ℕ) :
    value (x.powBoundedExp exponent exponentBits).retrieve.1 =
      value x.retrieve.1 ^ (value exponent.1 % 2 ^ exponentBits) % params.m :=
  retrieve_eq (MontyParams.powMontgomeryForm_spec x.powerOf_one exponent exponentBits).2

@[simp] theorem toZMod_new (integer : Uint n) : (new params integer).toZMod = value integer.1 :=
  toZMod_eq (represents_new integer)

@[simp] theorem toZMod_zero : (zero params).toZMod = 0 := by
  rw [toZMod, retrieve_zero, Nat.cast_zero]

@[simp] theorem toZMod_one : (one params).toZMod = 1 := by
  rw [toZMod_eq (x := one params) MontyParams.represents_one, Nat.cast_one]

@[simp] theorem toZMod_mul : (x.mul y).toZMod = x.toZMod * y.toZMod := by
  rw [toZMod, retrieve_mul, ZMod.natCast_mod, Nat.cast_mul]
  rfl

@[simp] theorem toZMod_square : x.square.toZMod = x.toZMod ^ 2 := by
  rw [toZMod, retrieve_square, ZMod.natCast_mod, Nat.cast_pow]
  rfl

@[simp] theorem toZMod_add : (x.add y).toZMod = x.toZMod + y.toZMod := by
  have hx := x.reduced
  have hy := y.reduced
  have hValue := Uint.addMod_value x.montgomeryForm y.montgomeryForm params.modulus.1 (by omega)
  have hSum : params.Represents (value (x.add y).montgomeryForm.1)
      (value x.retrieve.1 + value y.retrieve.1) :=
    (x.represents.add y.represents).congr (by rw [add, hValue]; exact Nat.mod_modEq _ _)
  rw [toZMod_eq hSum, Nat.cast_add]
  rfl

@[simp] theorem toZMod_double : x.double.toZMod = 2 * x.toZMod := by
  have hValue := Uint.doubleMod_value x.montgomeryForm params.modulus.1 x.reduced
  have hSum : params.Represents (value x.double.montgomeryForm.1)
      (value x.retrieve.1 + value x.retrieve.1) :=
    (x.represents.add x.represents).congr (by
      rw [double, hValue, ← two_mul]
      exact Nat.mod_modEq _ _)
  rw [toZMod_eq hSum, Nat.cast_add, two_mul]
  rfl

@[simp] theorem toZMod_sub : (x.sub y).toZMod = x.toZMod - y.toZMod := by
  have hValue := Uint.subMod_value x.montgomeryForm y.montgomeryForm params.modulus.1 x.reduced
    y.reduced
  have hy : value y.montgomeryForm.1 < params.m := y.reduced
  have hBack : value x.montgomeryForm.1 ≡
      value (x.sub y).montgomeryForm.1 + value y.montgomeryForm.1 [MOD params.m] := by
    have hMod := (Nat.mod_modEq (value x.montgomeryForm.1 +
      (params.m - value y.montgomeryForm.1)) params.m).add_right (value y.montgomeryForm.1)
    rw [add_assoc (value x.montgomeryForm.1), Nat.sub_add_cancel hy.le] at hMod
    rw [sub, hValue]
    exact (hMod.trans (Nat.add_mod_right _ _)).symm
  have hSum := toZMod_eq (((x.sub y).represents.add y.represents).congr hBack)
  rw [Nat.cast_add] at hSum
  rw [eq_sub_iff_add_eq]
  exact hSum.symm

@[simp] theorem toZMod_neg : x.neg.toZMod = -x.toZMod := by
  have hValue := Uint.negMod_value x.montgomeryForm params.modulus.1 x.reduced
  have hx : value x.montgomeryForm.1 < params.m := x.reduced
  have hBack : value (zero params).montgomeryForm.1 ≡
      value x.neg.montgomeryForm.1 + value x.montgomeryForm.1 [MOD params.m] := by
    change value (Uint.zero : Uint n).1 ≡ _ [MOD params.m]
    have hMod := (Nat.mod_modEq (params.m - value x.montgomeryForm.1) params.m).add_right
      (value x.montgomeryForm.1)
    rw [Nat.sub_add_cancel hx.le] at hMod
    rw [neg, hValue, Uint.value_zero]
    exact (hMod.trans (Nat.modEq_zero_iff_dvd.mpr dvd_rfl)).symm
  have hSum := toZMod_eq ((x.neg.represents.add x.represents).congr hBack)
  rw [Nat.cast_add, toZMod_zero] at hSum
  rw [eq_neg_iff_add_eq_zero]
  exact hSum.symm

theorem toZMod_surjective : Function.Surjective (toZMod : MontyForm params → ZMod params.m) := by
  intro z
  have : NeZero params.m := ⟨params.pos.ne'⟩
  refine ⟨new params (.ofNat n z.val), ?_⟩
  have hModulus := value_words_lt params.modulus.1
  rw [toZMod_new, value_ofNat, Nat.mod_eq_of_lt (z.val_lt.trans hModulus), ZMod.natCast_zmod_val]

/-- The forms of an odd modulus of any size are the integers modulo it, operation by
operation. -/
theorem arithmetic_exact (params : MontyParams n) :
    Function.Bijective (toZMod : MontyForm params → ZMod params.m) ∧
      (∀ integer : Uint n, value (new params integer).retrieve.1 = value integer.1 % params.m) ∧
      (zero params).toZMod = 0 ∧ (one params).toZMod = 1 ∧
      ∀ x y : MontyForm params, value x.retrieve.1 < params.m ∧
        (x.mul y).toZMod = x.toZMod * y.toZMod ∧ x.square.toZMod = x.toZMod ^ 2 ∧
        (x.add y).toZMod = x.toZMod + y.toZMod ∧ x.double.toZMod = 2 * x.toZMod ∧
        (x.sub y).toZMod = x.toZMod - y.toZMod ∧ x.neg.toZMod = -x.toZMod ∧
        (x.ctEq y = true ↔ x.toZMod = y.toZMod) :=
  ⟨⟨toZMod_injective, toZMod_surjective⟩, retrieve_new,
    toZMod_zero, toZMod_one, fun _ _ => ⟨retrieve_lt, toZMod_mul, toZMod_square, toZMod_add,
      toZMod_double, toZMod_sub, toZMod_neg, ctEq_iff.trans toZMod_injective.eq_iff.symm⟩⟩

/-- A power is reduced, and it is the power by the low bits of the exponent, for every odd modulus
and any bound on the bits. -/
theorem powBoundedExp_exact (x : MontyForm params) (exponent : Uint k) (exponentBits : ℕ) :
    value (powMontgomeryForm x.montgomeryForm exponent exponentBits params).1 < params.m ∧
      value (x.powBoundedExp exponent exponentBits).retrieve.1 =
        value x.retrieve.1 ^ (value exponent.1 % 2 ^ exponentBits) % params.m :=
  ⟨(x.powBoundedExp exponent exponentBits).reduced, retrieve_powBoundedExp exponent exponentBits⟩

end MontyForm

end X301Provider.BigInt
