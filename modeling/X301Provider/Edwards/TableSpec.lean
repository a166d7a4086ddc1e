import Mathlib.Data.List.GetD
import X301Provider.Edwards.PointSpec
import X301Provider.Edwards.ScalarMul

/-!
# Tables of cached points

Batch normalization caches every point of a list, whichever arithmetic it runs
on. Entry `8 * row + entry` of the fixed-base table is the multiple of the base
point by `(entry + 1) * 256 ^ row`; the odd tables hold the odd multiples.
-/

namespace X301Provider

open EdwardsPoint AffineNielsPoint

/-- A cached point stands for whatever its projective point stands for. -/
def Caches (p : EdwardsPoint) (c : AffineNielsPoint) : Prop :=
  ∀ A, p.Denotes A → c.Denotes A

section Normalize

variable {mul : Fe301 → Fe301 → Fe301} {invert reciprocal : Fe301 → Fe301}
  {fromProjective : EdwardsPoint → Fe301 → AffineNielsPoint}

/-- The denominators of a batch are nonzero elements. -/
def Invertible (points : List EdwardsPoint) : Prop :=
  ∀ p ∈ points, ∃ v, p.z.Repr v ∧ v ≠ 0

/-- The unwound inverse of each point is the one of its own denominator. -/
theorem batchNormalizeFrom_exact
    (hMul : ∀ {x y : Fe301} {v w : Fp}, x.Repr v → y.Repr w → (mul x y).Repr (v * w))
    (hInvert : ∀ {x : Fe301} {v : Fp}, x.Repr v → v ≠ 0 → (invert x).Repr v⁻¹)
    (hReciprocal : ∀ {x : Fe301} {v : Fp}, x.Repr v → v ≠ 0 → (reciprocal x).Repr v⁻¹)
    {points : List EdwardsPoint} (hPoints : Invertible points) {product : Fe301} {c : Fp}
    (hProduct : product.Repr c) (hc : c ≠ 0) :
    (batchNormalizeFrom mul invert fromProjective product points).1 =
        points.map (fun p => fromProjective p (reciprocal p.z)) ∧
      (batchNormalizeFrom mul invert fromProjective product points).2.Repr c⁻¹ := by
  induction points generalizing product c with
  | nil => exact ⟨rfl, hInvert hProduct hc⟩
  | cons p points ih =>
    obtain ⟨⟨v, hZ, hv⟩, hRest⟩ := List.forall_mem_cons.mp hPoints
    obtain ⟨hOutput, hInverse⟩ := ih hRest (hMul hProduct hZ) (mul_ne_zero hc hv)
    have hPoint := hMul hInverse hProduct
    have hPrevious := hMul hInverse hZ
    rw [mul_inv, mul_right_comm, inv_mul_cancel₀ hc, one_mul] at hPoint
    rw [mul_inv, inv_mul_cancel_right₀ hv] at hPrevious
    refine ⟨?_, hPrevious⟩
    rw [List.map_cons, ← hOutput, ← hPoint.ext (hReciprocal hZ hv)]
    rfl

theorem batchNormalizeFrom_length (product : Fe301) (points : List EdwardsPoint) :
    (batchNormalizeFrom mul invert fromProjective product points).1.length = points.length := by
  induction points generalizing product with
  | nil => rfl
  | cons p points ih => rw [batchNormalizeFrom, List.length_cons, ih, List.length_cons]

theorem batchNormalizeConst_eq_map {points : List EdwardsPoint} (h : Invertible points) :
    batchNormalizeConst points =
      points.map fun p => fromProjectiveConst p p.z.invertConstNonzero := by
  refine (batchNormalizeFrom_exact (fun hx hy => ?_) Fe301.Repr.invertConstNonzero
    Fe301.Repr.invertConstNonzero h Fe301.repr_one one_ne_zero).1
  rw [Fe301.mulConst_eq]
  exact hx.mul hy

theorem batchNormalize_eq_map [ModularInverse] {points : List EdwardsPoint}
    (h : Invertible points) :
    batchNormalize points = points.map fun p => .fromProjective p p.z.invert.value :=
  (batchNormalizeFrom_exact Fe301.Repr.mul Fe301.Repr.invert Fe301.Repr.invert h Fe301.repr_one
    one_ne_zero).1

theorem invertible_of_denotes {points : List EdwardsPoint}
    (hPoints : ∀ p ∈ points, ∃ A, p.Denotes A) : Invertible points := by
  intro p hp
  obtain ⟨A, e, hRepr, he⟩ := hPoints p hp
  exact ⟨e.Z, hRepr.z, he.Z_ne_zero⟩

theorem forall₂_caches {normalize : EdwardsPoint → AffineNielsPoint} {points : List EdwardsPoint}
    (hNormalize : ∀ {p : EdwardsPoint} {e : EdwardsCurve.Extended Fp} {A : E.Point},
      p.Repr e → e.Represents E A → (normalize p).Denotes A) :
    List.Forall₂ Caches points (points.map normalize) := by
  rw [List.forall₂_map_right_iff, List.forall₂_same]
  rintro p - A ⟨e, hRepr, he⟩
  exact hNormalize hRepr he

theorem batchNormalizeConst_spec {points : List EdwardsPoint}
    (hPoints : ∀ p ∈ points, ∃ A, p.Denotes A) :
    List.Forall₂ Caches points (batchNormalizeConst points) := by
  rw [batchNormalizeConst_eq_map (invertible_of_denotes hPoints)]
  apply forall₂_caches
  intro p e A hp he
  exact denotes_fromProjectiveConst hp he (hp.z.invertConstNonzero he.Z_ne_zero)

theorem batchNormalize_spec [ModularInverse] {points : List EdwardsPoint}
    (hPoints : ∀ p ∈ points, ∃ A, p.Denotes A) :
    List.Forall₂ Caches points (batchNormalize points) := by
  rw [batchNormalize_eq_map (invertible_of_denotes hPoints)]
  apply forall₂_caches
  intro p e A hp he
  exact denotes_fromProjective hp he (hp.z.invert he.Z_ne_zero)

end Normalize

/-- Caching holds at every index, past the end for the identities. -/
theorem Caches.getD {points : List EdwardsPoint} {output : List AffineNielsPoint}
    (h : List.Forall₂ Caches points output) (i : ℕ) :
    Caches (points.getD i EdwardsPoint.identity) (output.getD i AffineNielsPoint.identity) := by
  induction h generalizing i with
  | nil =>
    intro A hA
    rw [hA.unique EdwardsPoint.denotes_identity]
    exact AffineNielsPoint.denotes_identity
  | cons hHead _ ih =>
    cases i with
    | zero => exact hHead
    | succ i => exact ih i

section Progression

variable {add : EdwardsPoint → EdwardsPoint → EdwardsPoint} {step point : EdwardsPoint}
  {A C : E.Point}

theorem progression_length (count : ℕ) (point : EdwardsPoint) :
    (progression add step count point).length = count := by
  induction count generalizing point with
  | zero => rfl
  | succ count ih => rw [progression, List.length_cons, ih]

theorem progression_denotes
    (hAdd : ∀ {p q : EdwardsPoint} {A C : E.Point}, p.Denotes A → q.Denotes C →
      (add p q).Denotes (A + C))
    (hStep : step.Denotes C) {count i : ℕ} (hi : i < count) (hPoint : point.Denotes A) :
    ((progression add step count point).getD i identity).Denotes (A + i • C) := by
  induction count generalizing i point A with
  | zero => cases hi
  | succ count ih =>
    cases i with
    | zero =>
      rw [zero_nsmul, add_zero]
      exact hPoint
    | succ i =>
      have hRest := ih (Nat.lt_of_succ_lt_succ hi) (hAdd hPoint hStep)
      rw [add_assoc, ← succ_nsmul'] at hRest
      exact hRest

theorem exists_denotes_of_getD {points : List EdwardsPoint}
    (h : ∀ i < points.length, ∃ A, (points.getD i identity).Denotes A) :
    ∀ p ∈ points, ∃ A, p.Denotes A := by
  intro p hp
  obtain ⟨i, hi, rfl⟩ := List.getElem_of_mem hp
  have hEntry := h i hi
  rwa [List.getD_eq_getElem _ _ hi] at hEntry

theorem progression_all
    (hAdd : ∀ {p q : EdwardsPoint} {A C : E.Point}, p.Denotes A → q.Denotes C →
      (add p q).Denotes (A + C))
    (hStep : step.Denotes C) (count : ℕ) (hPoint : point.Denotes A) :
    ∀ p ∈ progression add step count point, ∃ A, p.Denotes A := by
  apply exists_denotes_of_getD
  intro i hi
  rw [progression_length] at hi
  exact ⟨_, progression_denotes hAdd hStep hi hPoint⟩

end Progression

/-- A table of the odd multiples of a point. -/
def OddMultiples (table : List AffineNielsPoint) (A : E.Point) : Prop :=
  ∀ i < 64, (table.getD i AffineNielsPoint.identity).Denotes ((2 * i + 1) • A)

theorem oddMultiples_add (A : E.Point) (i : ℕ) : A + i • 2 • A = (2 * i + 1) • A := by
  rw [smul_smul, succ_nsmul', mul_comm]

theorem oddMultiples_basepoint : OddMultiples basepointOddTable B := by
  have hStep := denotes_basepoint.doubleConst
  have hAll := progression_all Denotes.addConst hStep 64 denotes_basepoint
  intro i hi
  rw [basepointOddTable, ← oddMultiples_add]
  exact Caches.getD (batchNormalizeConst_spec hAll) i _
    (progression_denotes Denotes.addConst hStep hi denotes_basepoint)

theorem basepointOddTable_length : basepointOddTable.length = 64 := by
  rw [basepointOddTable, batchNormalizeConst, batchNormalizeFrom_length, progression_length]

theorem buildVartimeOddPointTable_length [ModularInverse] (point : EdwardsPoint) :
    (buildVartimeOddPointTable point).length = 64 := by
  rw [buildVartimeOddPointTable, batchNormalize, batchNormalizeFrom_length, progression_length]

theorem oddMultiples_build [ModularInverse] {point : EdwardsPoint} {A : E.Point}
    (hPoint : point.Denotes A) : OddMultiples (buildVartimeOddPointTable point) A := by
  have hStep := hPoint.double
  have hAll := progression_all Denotes.add hStep 64 hPoint
  intro i hi
  rw [← oddMultiples_add]
  exact Caches.getD (batchNormalize_spec hAll) i _
    (progression_denotes Denotes.add hStep hi hPoint)

theorem doubleConst_iterate {p : EdwardsPoint} {A : E.Point} (h : p.Denotes A) (n : ℕ) :
    (doubleConst^[n] p).Denotes (2 ^ n • A) := by
  induction n with
  | zero => simpa using h
  | succ n ih =>
    rw [Function.iterate_succ_apply', pow_succ', mul_smul]
    exact ih.doubleConst

theorem basepointRows_length (rows : ℕ) (rowBase : EdwardsPoint) :
    (basepointRows rows rowBase).length = rows * 8 := by
  induction rows generalizing rowBase with
  | zero => rfl
  | succ rows ih =>
    rw [basepointRows, List.length_append, progression_length, ih]
    ring

theorem basepointRows_denotes {rows row entry : ℕ} (hRow : row < rows) (hEntry : entry < 8)
    {rowBase : EdwardsPoint} {A : E.Point} (h : rowBase.Denotes A) :
    ((basepointRows rows rowBase).getD (row * 8 + entry) identity).Denotes
      (((entry + 1) * 256 ^ row) • A) := by
  induction rows generalizing row rowBase A with
  | zero => cases hRow
  | succ rows ih =>
    rw [basepointRows]
    cases row with
    | zero =>
      rw [List.getD_append _ _ _ _ (by rw [progression_length]; omega), zero_mul, zero_add,
        pow_zero, mul_one, succ_nsmul']
      exact progression_denotes Denotes.addConst h hEntry h
    | succ row =>
      have hRest := ih (Nat.lt_of_succ_lt_succ hRow) (doubleConst_iterate h 8)
      have hIndex : (row + 1) * 8 + entry - 8 = row * 8 + entry := by omega
      have hPower : (entry + 1) * 256 ^ row * 2 ^ 8 = (entry + 1) * 256 ^ (row + 1) := by ring
      rw [smul_smul, hPower] at hRest
      rw [List.getD_append_right _ _ _ _ (by rw [progression_length]; omega),
        progression_length, hIndex]
      exact hRest

theorem basepointRows_all (rows : ℕ) {rowBase : EdwardsPoint} {A : E.Point}
    (h : rowBase.Denotes A) : ∀ p ∈ basepointRows rows rowBase, ∃ A, p.Denotes A := by
  apply exists_denotes_of_getD
  intro i hi
  rw [basepointRows_length] at hi
  rw [← Nat.div_add_mod' i 8]
  exact ⟨_, basepointRows_denotes (by omega) (by omega) h⟩

theorem basepointTable_eq :
    basepointTable = batchNormalizeConst (basepointRows basepointTableRows basepoint) := by
  delta basepointTable
  rfl

theorem basepointTable_denotes {row entry : ℕ} (hRow : row < 38) (hEntry : entry < 8) :
    (basepointTable.getD (row * 8 + entry) AffineNielsPoint.identity).Denotes
      (((entry + 1) * 256 ^ row) • B) := by
  have hAll := basepointRows_all basepointTableRows denotes_basepoint
  rw [basepointTable_eq]
  exact Caches.getD (batchNormalizeConst_spec hAll) _ _
    (basepointRows_denotes hRow hEntry denotes_basepoint)

end X301Provider
