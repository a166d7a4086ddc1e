import X301Provider.BigInt.MontgomeryProducts

/-!
# Leaving Montgomery form

The product with one, without a carry word: the running carry of a row is kept in the output
until the next limb takes its place. A reduced form gives a reduced number.
-/

namespace X301Provider.BigInt

open Limbs

variable {n : ℕ}

section Rows

variable {x modulus out : Uint n} {xi u : UInt64}

/-- The limbs below an index have moved one place down, and the word at the index is the
carry. -/
structure RetrieveInvariant (xi u : UInt64) (modulus out : Uint n) (j : ℕ) (row : Uint n) :
    Prop where
  moved : ∀ hj : j < n, wordBase * value (row.1.take j) +
      wordBase ^ (j + 1) * (row.get ⟨j, hj⟩).toNat =
    value (out.1.take (j + 1)) + xi.toNat + u.toNat * value (modulus.1.take (j + 1))
  rest : ∀ i : Fin n, j < i → row.get i = out.get i

theorem retrieveLimb_invariant {j : Fin (n - 1)} {row : Uint n}
    (h : RetrieveInvariant xi u modulus out j row) :
    RetrieveInvariant xi u modulus out (j + 1) (retrieveLimb u modulus row j) := by
  have hBound : (j : ℕ) + 1 < n := by omega
  have hMoved := h.moved (by omega)
  have hOut : row.get ⟨j + 1, hBound⟩ = out.get ⟨j + 1, hBound⟩ :=
    h.rest ⟨j + 1, hBound⟩ (Nat.lt_succ_self _)
  have hSum := carryingMulAdd_spec u (modulus.get ⟨j + 1, hBound⟩) (row.get ⟨j + 1, hBound⟩)
    (row.get ⟨j, by omega⟩)
  simp only [retrieveLimb]
  generalize carryingMulAdd u (modulus.get ⟨j + 1, hBound⟩) (row.get ⟨j + 1, hBound⟩)
    (row.get ⟨j, by omega⟩) = word at hSum ⊢
  have hNe : (⟨j + 1, hBound⟩ : Fin n) ≠ ⟨j, by omega⟩ := by
    rw [Ne, Fin.mk.injEq]
    omega
  constructor
  · intro hj
    have hList : ((row.set ⟨j, by omega⟩ word.1).set ⟨j + 1, hBound⟩ word.2).1 =
        (row.set ⟨j, by omega⟩ word.1).1.set (j + 1) word.2 :=
      List.Vector.toList_set _ ⟨j + 1, hBound⟩ word.2
    have hBelow : ((row.set ⟨j, by omega⟩ word.1).set ⟨j + 1, hBound⟩ word.2).1.take (j + 1) =
        (row.set ⟨j, by omega⟩ word.1).1.take (j + 1) := by
      rw [hList, List.take_set_of_le le_rfl]
    have hTake := value_take_set row ⟨j, by omega⟩ word.1
    have hOutTake := value_take_succ out ⟨j + 1, hBound⟩
    have hModulusTake := value_take_succ modulus ⟨j + 1, hBound⟩
    simp only at hTake hOutTake hModulusTake
    rw [List.Vector.get_set_same, hBelow, hTake, hOutTake, hModulusTake]
    rw [hOut] at hSum
    have hPower : wordBase ^ ((j : ℕ) + 1 + 1) = wordBase ^ ((j : ℕ) + 1) * wordBase := pow_succ _ _
    have hLast : wordBase ^ ((j : ℕ) + 1) = wordBase ^ (j : ℕ) * wordBase := pow_succ _ _
    rw [hPower]
    rw [hLast] at hMoved ⊢
    linear_combination hMoved + wordBase ^ (j : ℕ) * wordBase * hSum
  · intro i hi
    rw [List.Vector.get_set_of_ne (by rw [Ne, Fin.ext_iff]; simp only; omega),
      List.Vector.get_set_of_ne (by rw [Ne, Fin.ext_iff]; simp only; omega)]
    exact h.rest i (by omega)

/-- A row on the way out. -/
theorem retrieveRow_spec {modNegInv : UInt64}
    (hCancels : Montgomery.Cancels wordBase (value modulus.1) modNegInv.toNat) (out : Uint n)
    (i : Fin n) :
    ∃ u : UInt64, wordBase * value (retrieveRow x modulus modNegInv out i).1 =
      value out.1 + (x.get i).toNat * 1 + u.toNat * value modulus.1 := by
  refine ⟨(out.get ⟨0, i.pos⟩ + x.get i) * modNegInv, ?_⟩
  have hSum := carryingMulAdd_spec ((out.get ⟨0, i.pos⟩ + x.get i) * modNegInv)
    (modulus.get ⟨0, i.pos⟩) (x.get i) (out.get ⟨0, i.pos⟩)
  have hDvd := dvd_first hCancels i ((out.get ⟨0, i.pos⟩).toNat + (x.get i).toNat)
  have hLo : lo ((out.get ⟨0, i.pos⟩).toNat + (x.get i).toNat) =
      out.get ⟨0, i.pos⟩ + x.get i := by
    rw [← UInt64.toNat_inj, lo_toNat, UInt64.toNat_add, wordBase]
  rw [hLo] at hDvd
  simp only [retrieveRow]
  generalize (out.get ⟨0, i.pos⟩ + x.get i) * modNegInv = u at hSum hDvd ⊢
  generalize carryingMulAdd u (modulus.get ⟨0, i.pos⟩) (x.get i) (out.get ⟨0, i.pos⟩) = word
    at hSum ⊢
  have hLow : word.1.toNat = 0 := by
    have hTotal : (out.get ⟨0, i.pos⟩).toNat + (x.get i).toNat +
        u.toNat * (modulus.get ⟨0, i.pos⟩).toNat = word.1.toNat + wordBase * word.2.toNat := by
      rw [hSum]
      ring
    rw [hTotal, Nat.dvd_add_left (dvd_mul_right _ _)] at hDvd
    exact Nat.eq_zero_of_dvd_of_lt hDvd (toNat_lt _)
  have hInvariant := Fin.foldl_invariant (RetrieveInvariant (x.get i) u modulus out)
    (fun j row h => retrieveLimb_invariant h) (a := out.set ⟨0, i.pos⟩ word.2) (by
      constructor
      · intro hj
        have hOutTake := value_take_succ out ⟨0, i.pos⟩
        have hModulusTake := value_take_succ modulus ⟨0, i.pos⟩
        simp only [List.take_zero, value_nil, pow_zero, one_mul, zero_add, mul_zero, pow_one]
          at hOutTake hModulusTake ⊢
        rw [List.Vector.get_set_same, hOutTake, hModulusTake]
        rw [hLow, zero_add] at hSum
        linear_combination hSum
      · intro other hOther
        exact List.Vector.get_set_of_ne (by rw [Ne, Fin.ext_iff]; simp only; omega) _)
  have hLast : n - 1 + 1 = n := Nat.sub_add_cancel i.pos
  have hMoved := hInvariant.moved (Nat.sub_lt i.pos one_pos)
  have hTop := value_take_succ
    (Fin.foldl (n - 1) (retrieveLimb u modulus) (out.set ⟨0, i.pos⟩ word.2))
    ⟨n - 1, Nat.sub_lt i.pos one_pos⟩
  simp only [hLast, value_take_length] at hMoved hTop
  have hPower : wordBase ^ n = wordBase ^ (n - 1) * wordBase := by rw [← pow_succ, hLast]
  rw [hPower] at hMoved
  rw [hTop]
  linear_combination hMoved

end Rows

namespace MontyParams

variable {params : MontyParams n}

/-- A reduced form gives the reduced number that it stands for. -/
theorem montgomeryRetrieve_spec {form : Uint n} (hForm : value form.1 < params.m) :
    value (montgomeryRetrieve form params.modulus.1 params.modNegInv).1 < params.m ∧
      params.Represents (value form.1)
        (value (montgomeryRetrieve form params.modulus.1 params.modNegInv).1) := by
  have hRow : ∀ (i : Fin n) (out : Uint n),
      Montgomery.Reduces wordBase params.m i (value (form.1.take i)) 1 (value out.1) →
        Montgomery.Reduces wordBase params.m (i + 1) (value (form.1.take (i + 1))) 1
          (value (retrieveRow form params.modulus.1 params.modNegInv out i).1) := by
    intro i out hOut
    obtain ⟨u, hNext⟩ := retrieveRow_spec params.cancels out i (x := form)
    rw [value_take_succ]
    exact hOut.step (toNat_lt u) hNext
  have hStart : Montgomery.Reduces wordBase params.m 0 (value (form.1.take 0)) 1
      (value (Uint.zero : Uint n).1) := by
    rw [List.take_zero, Uint.value_zero]
    exact Montgomery.reduces_zero _ _ _
  have hReduces := Fin.foldl_invariant (fun i (out : Uint n) =>
      Montgomery.Reduces wordBase params.m i (value (form.1.take i)) 1 (value out.1)) hRow hStart
  rw [value_take_length] at hReduces
  refine ⟨hReduces.lt_of_one hForm, ?_⟩
  have hMod := hReduces.modEq
  rw [mul_one] at hMod
  exact hMod.symm

end MontyParams

end X301Provider.BigInt
