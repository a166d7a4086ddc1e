import X301Provider.BigInt.MontgomeryProducts
import X301Provider.Library.Horner

/-!
# Powers by windows of four bits

The exponent is read from its top window down. The first window is cut to the bits that count
and has no squares before it; every other one appends four bits to the exponent that the
accumulator stands for. The squares of a window may leave a number that is not reduced; the
product with the table entry after them reduces it.
-/

namespace X301Provider.BigInt

open Limbs

variable {n k : ℕ}

section Bits

/-- A limb of an integer. -/
theorem getD_toNat (words : List UInt64) (i : ℕ) :
    (words.getD i 0).toNat = value words / wordBase ^ i % wordBase := by
  induction words generalizing i with
  | nil => simp [value_nil]
  | cons word words ih =>
    have hLt := toNat_lt word
    cases i with
    | zero =>
      rw [List.getD_cons_zero, value_cons, pow_zero, Nat.div_one, Nat.add_mul_mod_self_left,
        Nat.mod_eq_of_lt hLt]
    | succ i =>
      rw [List.getD_cons_succ, ih, value_cons, pow_succ', ← Nat.div_div_eq_div_mul,
        Nat.add_mul_div_left _ _ wordBase_pos, Nat.div_eq_of_lt hLt, zero_add]

/-- The four bits of a window. -/
theorem window_toNat (w : UInt64) {windowNum : ℕ} (h : windowNum < 16) :
    ((w >>> UInt64.ofNat (windowNum * 4)) &&& 15).toNat = w.toNat / 16 ^ windowNum % 16 := by
  have hShift : (UInt64.ofNat (windowNum * 4)).toNat % 64 = windowNum * 4 := by
    rw [UInt64.toNat_ofNat']
    omega
  have hFifteen : (15 : UInt64).toNat = 2 ^ 4 - 1 := rfl
  have hBase : 2 ^ (windowNum * 4) = 16 ^ windowNum := by
    rw [mul_comm, pow_mul]
    norm_num
  rw [UInt64.toNat_and, UInt64.toNat_shiftRight, hShift, hFifteen, Nat.and_two_pow_sub_one_eq_mod,
    Nat.shiftRight_eq_div_pow, hBase]

/-- The mask of the first window. -/
theorem mask_toNat {bits : ℕ} (h : bits ≤ 4) :
    ((1 : UInt64) <<< UInt64.ofNat bits - 1).toNat = 2 ^ bits - 1 := by
  have hAll : ∀ bits < 5, ((1 : UInt64) <<< UInt64.ofNat bits - 1).toNat = 2 ^ bits - 1 := by decide
  exact hAll bits (Nat.lt_succ_of_le h)

theorem and_mask_toNat (idx : UInt64) {bits : ℕ} (h : bits ≤ 4) :
    (idx &&& ((1 : UInt64) <<< UInt64.ofNat bits - 1)).toNat = idx.toNat % 2 ^ bits := by
  rw [UInt64.toNat_and, mask_toNat h, Nat.and_two_pow_sub_one_eq_mod]

end Bits

section Table

/-- The sweep over the table keeps the entry at the index. -/
theorem selectPower_eq (powers : List.Vector (Uint n) 16) {idx : UInt64} (h : idx.toNat < 16) :
    selectPower powers idx = powers.get ⟨idx.toNat, h⟩ := by
  have hStep : ∀ (j : Fin 15) (power : Uint n),
      power = (if idx.toNat ≤ j then powers.get ⟨idx.toNat, h⟩ else powers.get 0) →
        Uint.select power (powers.get j.succ) (UInt64.ofNat (j + 1) == idx) =
          if idx.toNat ≤ j + 1 then powers.get ⟨idx.toNat, h⟩ else powers.get 0 := by
    rintro j power rfl
    have hIndex : (UInt64.ofNat (j + 1)).toNat = j + 1 := by
      rw [UInt64.toNat_ofNat']
      omega
    have hChoice : (UInt64.ofNat (j + 1) == idx) = decide (idx.toNat = j + 1) := by
      rw [Bool.eq_iff_iff, beq_iff_eq, decide_eq_true_eq, ← UInt64.toNat_inj, hIndex, eq_comm]
    rw [Uint.select, hChoice]
    by_cases hHere : idx.toNat = j + 1
    · have hEntry : j.succ = ⟨idx.toNat, h⟩ := Fin.ext hHere.symm
      rw [decide_eq_true hHere, if_pos rfl, if_pos hHere.le, hEntry]
    · rw [decide_eq_false hHere, if_neg Bool.false_ne_true]
      split_ifs <;> first | rfl | omega
  have hStart : powers.head =
      if idx.toNat ≤ 0 then powers.get ⟨idx.toNat, h⟩ else powers.get 0 := by
    rw [← List.Vector.get_zero]
    split_ifs with hZero
    · have hFirst : (⟨idx.toNat, h⟩ : Fin 16) = 0 := Fin.ext (Nat.le_zero.mp hZero)
      rw [hFirst]
    · rfl
  have hSweep := Fin.foldl_invariant (fun j (power : Uint n) =>
    power = if idx.toNat ≤ j then powers.get ⟨idx.toNat, h⟩ else powers.get 0) hStep hStart
  exact hSweep.trans (if_pos (Nat.le_of_lt_succ h))

end Table

namespace MontyParams

variable {params : MontyParams n} {x z : Uint n} {base e : ℕ} {powers : List.Vector (Uint n) 16}

theorem one_lt : value params.one.1 < params.m := by
  rw [params.one_eq]
  exact Nat.mod_lt _ params.pos

variable (params) in
/-- A reduced form of a power of the base. -/
def PowerOf (base : ℕ) (z : Uint n) (e : ℕ) : Prop :=
  value z.1 < params.m ∧ params.Represents (value z.1) (base ^ e)

theorem powerOf_one : params.PowerOf base params.one 0 := by
  refine ⟨one_lt, ?_⟩
  rw [pow_zero]
  exact represents_one

/-- A product by a reduced power is reduced, whatever the other factor. -/
theorem PowerOf.mul_left {w : Uint n} {d : ℕ} (h : params.Represents (value z.1) (base ^ e))
    (h' : params.PowerOf base w d) : params.PowerOf base (params.mul z w) (e + d) := by
  rw [PowerOf, pow_add]
  have hProduct : value z.1 * value w.1 < params.m * wordBase ^ n := by
    rw [mul_comm]
    exact product_lt h'.1
  exact mul_spec hProduct h h'.2

/-- Four squares, which need not be reduced. -/
theorem PowerOf.squares (h : params.PowerOf base z e) :
    params.Represents
      (value (squareRepeatMontgomeryForm z 4 params.modulus.1 params.modNegInv).1)
      (base ^ (16 * e)) := by
  have hSquares := squareRepeatMontgomeryForm_represents h.1 h.2 4
  rw [← pow_mul, mul_comm e] at hSquares
  exact hSquares

/-- The base and its table. -/
theorem power_spec (hx : params.PowerOf base x 1) (i : ℕ) :
    params.PowerOf base (params.power x i) i := by
  fun_induction power params x i with
  | case1 => exact powerOf_one
  | case2 => exact hx
  | case3 i ih => exact PowerOf.mul_left ih.2 hx

theorem computePowers_spec (hx : params.PowerOf base x 1) (i : Fin 16) :
    params.PowerOf base ((params.computePowers x).get i) i := by
  rw [computePowers, List.Vector.get_ofFn]
  exact power_spec hx i

section Windows

variable (hPowers : ∀ i : Fin 16, params.PowerOf base (powers.get i) i)
include hPowers

theorem selectPower_spec {idx : UInt64} (h : idx.toNat < 16) :
    params.PowerOf base (selectPower powers idx) idx.toNat := by
  rw [selectPower_eq powers h]
  exact hPowers ⟨idx.toNat, h⟩

variable (exponent : Uint k) (exponentBits : ℕ)

/-- The first window, cut to its mask. -/
theorem powWindow_first (hz : params.PowerOf base z 0) :
    params.PowerOf base (powWindow params powers exponent exponentBits ((exponentBits - 1) / 64) z
        ((exponentBits - 1) % 64 / 4))
      ((exponent.1.getD ((exponentBits - 1) / 64) 0).toNat / 16 ^ ((exponentBits - 1) % 64 / 4) %
        2 ^ ((exponentBits - 1) % 64 % 4 + 1)) := by
  have hStart : (exponentBits - 1) % 64 / 4 < 16 := by omega
  have hBits : (exponentBits - 1) % 64 % 4 + 1 ≤ 4 := by omega
  have hWindow := window_toNat (exponent.1.getD ((exponentBits - 1) / 64) 0) hStart
  have hMask := and_mask_toNat ((exponent.1.getD ((exponentBits - 1) / 64) 0 >>>
    UInt64.ofNat ((exponentBits - 1) % 64 / 4 * 4)) &&& 15) hBits
  have hDvd : 2 ^ ((exponentBits - 1) % 64 % 4 + 1) ∣ 16 := by
    have hSixteen : 16 = 2 ^ 4 := rfl
    rw [hSixteen]
    exact pow_dvd_pow 2 hBits
  rw [hWindow, Nat.mod_mod_of_dvd _ hDvd] at hMask
  have hIndex := (Nat.mod_lt ((exponent.1.getD ((exponentBits - 1) / 64) 0).toNat /
    16 ^ ((exponentBits - 1) % 64 / 4)) (Nat.two_pow_pos _)).trans_le (Nat.le_of_dvd (by decide) hDvd)
  rw [← hMask] at hIndex
  have hProduct := PowerOf.mul_left hz.2 (selectPower_spec hPowers hIndex)
  rw [hMask, zero_add] at hProduct
  simp only [powWindow, powInit, beq_self_eq_true, Bool.and_true, if_true]
  exact hProduct

/-- Every other window appends its four bits. -/
theorem powWindow_later {limbNum windowNum : ℕ}
    (hWindowNum : windowNum < 16)
    (hLater : (limbNum == (exponentBits - 1) / 64 && windowNum == (exponentBits - 1) % 64 / 4) = false)
    (hz : params.PowerOf base z e) :
    params.PowerOf base (powWindow params powers exponent exponentBits limbNum z windowNum)
      (16 * e + (exponent.1.getD limbNum 0).toNat / 16 ^ windowNum % 16) := by
  have hWindow := window_toNat (exponent.1.getD limbNum 0) hWindowNum
  have hIndex := Nat.mod_lt ((exponent.1.getD limbNum 0).toNat / 16 ^ windowNum)
    (by decide : 0 < 16)
  rw [← hWindow] at hIndex ⊢
  simp only [powWindow, powInit, hLater, Bool.false_eq_true, if_false]
  exact PowerOf.mul_left hz.squares (selectPower_spec hPowers hIndex)

/-- The windows of the limbs below the first one append a limb each. -/
theorem powLimb_spec {limbNum : ℕ}
    (hLower : limbNum < (exponentBits - 1) / 64) (hz : params.PowerOf base z e) :
    params.PowerOf base
      ((List.range 16).reverse.foldl (powWindow params powers exponent exponentBits limbNum) z)
      (wordBase * e + value exponent.1 / wordBase ^ limbNum % wordBase) := by
  have hLater : ∀ windowNum,
      (limbNum == (exponentBits - 1) / 64 && windowNum == (exponentBits - 1) % 64 / 4) = false := by
    intro windowNum
    rw [beq_false_of_ne hLower.ne, Bool.false_and]
  have hRun := Horner.run 16 (fun windowNum hWindowNum s e hs =>
    powWindow_later hPowers exponent exponentBits hWindowNum (hLater windowNum) hs) hz
  have hBase : 16 ^ 16 = wordBase := rfl
  rw [hBase, Nat.mod_eq_of_lt (toNat_lt _), getD_toNat] at hRun
  exact hRun

/-- The limb where the exponent starts, read up to its last bit. -/
theorem powStart_spec :
    params.PowerOf base
      ((List.range ((exponentBits - 1) % 64 / 4 + 1)).reverse.foldl
        (powWindow params powers exponent exponentBits ((exponentBits - 1) / 64)) params.one)
      (value exponent.1 / wordBase ^ ((exponentBits - 1) / 64) % 2 ^ ((exponentBits - 1) % 64 + 1)) := by
  have hFirst := powWindow_first hPowers exponent exponentBits powerOf_one
  have hLater : ∀ windowNum < (exponentBits - 1) % 64 / 4,
      ((exponentBits - 1) / 64 == (exponentBits - 1) / 64 &&
        windowNum == (exponentBits - 1) % 64 / 4) = false := by
    intro windowNum hWindowNum
    rw [beq_false_of_ne hWindowNum.ne, Bool.and_false]
  have hRun := Horner.run ((exponentBits - 1) % 64 / 4) (fun windowNum hWindowNum s e hs =>
    powWindow_later hPowers exponent exponentBits (by omega) (hLater windowNum hWindowNum) hs)
    hFirst
  have hPower : 16 ^ ((exponentBits - 1) % 64 / 4) * 2 ^ ((exponentBits - 1) % 64 % 4 + 1) =
      2 ^ ((exponentBits - 1) % 64 + 1) := by
    have hSixteen : 16 = 2 ^ 4 := rfl
    rw [hSixteen, ← pow_mul, ← pow_add]
    congr 1
    omega
  have hDvd : 2 ^ ((exponentBits - 1) % 64 + 1) ∣ wordBase := pow_dvd_pow 2 (by omega)
  rw [add_comm, ← Nat.mod_mul, hPower, getD_toNat, Nat.mod_mod_of_dvd _ hDvd] at hRun
  rw [List.range_succ, List.reverse_append, List.reverse_singleton, List.singleton_append,
    List.foldl_cons]
  exact hRun

end Windows

/-- The loops over limbs and windows compute the power by the low bits of the exponent. -/
theorem powMontgomeryForm_spec (hx : params.PowerOf base x 1)
    (exponent : Uint k) (exponentBits : ℕ) :
    params.PowerOf base (powMontgomeryForm x exponent exponentBits params)
      (value exponent.1 % 2 ^ exponentBits) := by
  have hPowers := computePowers_spec hx
  have hClamp : value exponent.1 % 2 ^ exponentBits =
      value exponent.1 % 2 ^ (if exponentBits > 64 * k then 64 * k else exponentBits) := by
    split_ifs with hLarge
    · have hLt := value_words_lt exponent
      rw [wordBase, ← pow_mul] at hLt
      rw [Nat.mod_eq_of_lt hLt,
        Nat.mod_eq_of_lt (hLt.trans (Nat.pow_lt_pow_right one_lt_two hLarge))]
    · rfl
  rw [hClamp]
  simp only [powMontgomeryForm]
  generalize (if exponentBits > 64 * k then 64 * k else exponentBits) = bits
  split_ifs with hZero
  · rw [hZero, pow_zero, Nat.mod_one]
    exact powerOf_one
  · have hStart := powStart_spec hPowers exponent bits
    have hLower : ∀ limbNum < (bits - 1) / 64, ∀ (z : Uint n) (e : ℕ), params.PowerOf base z e →
        params.PowerOf base
          ((List.range (if limbNum = (bits - 1) / 64 then (bits - 1) % 64 / 4 + 1 else 16)).reverse.foldl
            (powWindow params (params.computePowers x) exponent bits limbNum) z)
          (wordBase * e + value exponent.1 / wordBase ^ limbNum % wordBase) := by
      intro limbNum hLimbNum z e hz
      rw [if_neg hLimbNum.ne]
      exact powLimb_spec hPowers exponent bits hLimbNum hz
    have hRun := Horner.run ((bits - 1) / 64) hLower hStart
    have hPower : wordBase ^ ((bits - 1) / 64) * 2 ^ ((bits - 1) % 64 + 1) = 2 ^ bits := by
      rw [wordBase, ← pow_mul, ← pow_add]
      congr 1
      omega
    have hValue := Nat.mod_mul (x := value exponent.1) (a := wordBase ^ ((bits - 1) / 64))
      (b := 2 ^ ((bits - 1) % 64 + 1))
    rw [hPower, add_comm] at hValue
    rw [← hValue] at hRun
    simp only [powInit]
    rw [List.range_succ, List.reverse_append, List.reverse_singleton, List.singleton_append,
      List.foldl_cons]
    simp only [if_true]
    exact hRun

end MontyParams

end X301Provider.BigInt
