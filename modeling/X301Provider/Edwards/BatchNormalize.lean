import X301Provider.Edwards.ConstTwins
import X301Provider.Edwards.TableSpec
import X301Provider.Library.IndexedLoops

/-!
# Batch normalization over arrays

The two loops of the shared inversion: prefix products going up, and the running
inverse going down. They compute what the recursive form computes, and every entry is
the point normalized by its own inverse, on either arithmetic.
-/

namespace X301Provider

open AffineNielsPoint

namespace Indexed

section Normalize

variable (mul : Fe301 → Fe301 → Fe301) (invert : Fe301 → Fe301)
  (fromProjective : EdwardsPoint → Fe301 → AffineNielsPoint) {n : ℕ}

/-- The product before each point, and the product of all. -/
def prefixes (points : List.Vector EdwardsPoint n) : List.Vector Fe301 n × Fe301 :=
  Fin.foldl n (fun state index =>
    (state.1.set index state.2, mul state.2 (points.get index).z)) (.replicate n .one, .one)

/-- The points from the last to the first, each by the inverse of the product that ends at it. -/
def unwind (points : List.Vector EdwardsPoint n) (prefixes : List.Vector Fe301 n)
    (inverse : Fe301) : List.Vector AffineNielsPoint n × Fe301 :=
  Fin.foldr n (fun index state =>
    let inverseZ := mul state.2 (prefixes.get index)
    (state.1.set index (fromProjective (points.get index) inverseZ),
      mul state.2 (points.get index).z)) (.replicate n .identity, inverse)

def normalize (points : List.Vector EdwardsPoint n) : List.Vector AffineNielsPoint n :=
  let products := prefixes mul points
  (unwind mul fromProjective points products.1 (invert products.2)).1

end Normalize

def batchNormalizeConst {n : ℕ} (points : List.Vector EdwardsPoint n) :
    List.Vector AffineNielsPoint n :=
  normalize Fe301.mulConst Fe301.invertConstNonzero fromProjectiveConst points

def batchNormalize [ModularInverse] {n : ℕ} (points : List.Vector EdwardsPoint n) :
    List.Vector AffineNielsPoint n :=
  normalize Fe301.mul (fun product => product.invert.value) fromProjective points

section Normalize

variable {mul : Fe301 → Fe301 → Fe301} {invert : Fe301 → Fe301}
  {fromProjective : EdwardsPoint → Fe301 → AffineNielsPoint} {n : ℕ}

/-- The product of the denominators below an index. -/
def prefixProduct (mul : Fe301 → Fe301 → Fe301) (points : List.Vector EdwardsPoint n) (i : ℕ) :
    Fe301 :=
  (points.1.take i).foldl (fun product point => mul product point.z) .one

theorem prefixProduct_succ (points : List.Vector EdwardsPoint n) (i : Fin n) :
    prefixProduct mul points (i + 1) = mul (prefixProduct mul points i) (points.get i).z := by
  rw [prefixProduct, List.Vector.take_succ_eq, List.foldl_append]
  rfl

/-- The running product at an index, and the prefix products below it. -/
structure PrefixesBelow (mul : Fe301 → Fe301 → Fe301) (points : List.Vector EdwardsPoint n) (i : ℕ)
    (state : List.Vector Fe301 n × Fe301) : Prop where
  product : state.2 = prefixProduct mul points i
  entries : ∀ j : Fin n, (j : ℕ) < i → state.1.get j = prefixProduct mul points j

theorem prefixes_below (points : List.Vector EdwardsPoint n) :
    PrefixesBelow mul points n (prefixes mul points) := by
  refine Fin.foldl_invariant (PrefixesBelow mul points) ?_ ?_
  · rintro i ⟨array, product⟩ ⟨hProduct, hArray⟩
    simp only at hProduct hArray
    constructor
    · rw [hProduct, prefixProduct_succ]
    · exact List.Vector.get_set_below (prefixProduct mul points) hArray hProduct
  · exact ⟨rfl, fun j hj => absurd hj (Nat.not_lt_zero j)⟩

/-- The loop that goes down holds, at each index, what the recursion returns for the points from
there on. -/
theorem unwind_eq {points : List.Vector EdwardsPoint n} {products : List.Vector Fe301 n × Fe301}
    (h : PrefixesBelow mul points n products) :
    ((unwind mul fromProjective points products.1 (invert products.2)).1.1,
        (unwind mul fromProjective points products.1 (invert products.2)).2) =
      batchNormalizeFrom mul invert fromProjective .one points.1 := by
  refine Fin.foldr_invariant (fun i (state : List.Vector AffineNielsPoint n × Fe301) =>
    (state.1.1.drop i, state.2) =
      batchNormalizeFrom mul invert fromProjective (prefixProduct mul points i)
        (points.1.drop i)) ?_ ?_
  · rintro i ⟨array, inverse⟩ hState
    have hEntry := h.entries i i.2
    have hNext : prefixProduct mul points (i + 1) = _ := prefixProduct_succ points i
    rw [List.Vector.drop_eq_cons points, batchNormalizeFrom, ← hNext, ← hState]
    simp only [List.Vector.drop_set_self, hEntry]
  · have hPoints : points.1.drop n = [] := List.drop_of_length_le points.2.le
    rw [hPoints, batchNormalizeFrom, h.product]
    congr 1
    exact List.drop_of_length_le (List.Vector.replicate n AffineNielsPoint.identity).2.le

theorem normalize_eq (points : List.Vector EdwardsPoint n) :
    (normalize mul invert fromProjective points).1 =
      (batchNormalizeFrom mul invert fromProjective .one points.1).1 :=
  congrArg Prod.fst (unwind_eq (prefixes_below points))

end Normalize

end Indexed

/-- Each entry of a batch is its point normalized by the inverse of its own denominator, and the
compile-time batch is the same array. -/
theorem batchNormalize_exact [ModularInverse] {n : ℕ} (points : List.Vector EdwardsPoint n)
    (h : ∀ i, (points.get i).Canonical ∧ (points.get i).z.toFp ≠ 0) :
    (∀ i, ∃ inverseZ : Fe301, inverseZ.Repr (points.get i).z.toFp⁻¹ ∧
        (Indexed.batchNormalize points).get i = .fromProjective (points.get i) inverseZ) ∧
      Indexed.batchNormalizeConst points = Indexed.batchNormalize points ∧
      (Indexed.batchNormalize points).1 = batchNormalize points.1 ∧
      (Indexed.batchNormalizeConst points).1 = batchNormalizeConst points.1 := by
  have hMem : ∀ p ∈ points.1, p.Canonical ∧ p.z.toFp ≠ 0 := by
    intro p hp
    obtain ⟨i, hi, rfl⟩ := List.getElem_of_mem hp
    exact h ⟨i, by rwa [points.2] at hi⟩
  have hInvertible : Invertible points.1 := fun p hp => ⟨_, (hMem p hp).1.z.repr, (hMem p hp).2⟩
  have hRuntime : (Indexed.batchNormalize points).1 = batchNormalize points.1 :=
    Indexed.normalize_eq points
  have hConst : (Indexed.batchNormalizeConst points).1 = batchNormalizeConst points.1 :=
    Indexed.normalize_eq points
  have hMap := hRuntime.trans (batchNormalize_eq_map hInvertible)
  refine ⟨?_, ?_, hRuntime, hConst⟩
  · intro i
    obtain ⟨hCanonical, hZ⟩ := h i
    refine ⟨_, hCanonical.z.repr.invert hZ, ?_⟩
    have hVector : Indexed.batchNormalize points =
        points.map fun p => .fromProjective p p.z.invert.value := Subtype.ext hMap
    rw [hVector, List.Vector.get_map]
  · apply Subtype.ext
    rw [hMap, hConst, batchNormalizeConst_eq_map hInvertible]
    apply List.map_congr_left
    intro p hp
    obtain ⟨hCanonical, hZ⟩ := hMem p hp
    have hInverse := hCanonical.z.repr.invertConstNonzero hZ
    rw [fromProjectiveConst_eq hCanonical.repr hInverse,
      hInverse.ext (hCanonical.z.repr.invert hZ)]

/-- Three points off the curve with the largest denominator. -/
theorem batchNormalize_exact_minusOne :
    Indexed.batchNormalizeConst (.replicate 3 ⟨Fe301.minusOne, Fe301.minusOne, Fe301.minusOne,
        Fe301.minusOne⟩) =
      @Indexed.batchNormalize .zeroAtZero 3 (.replicate 3 ⟨Fe301.minusOne, Fe301.minusOne,
        Fe301.minusOne, Fe301.minusOne⟩) := by
  have hLimbs := Fe301.canonical_minusOne
  refine (@batchNormalize_exact .zeroAtZero 3 _ ?_).2.1
  intro i
  rw [List.Vector.get_replicate]
  exact ⟨⟨hLimbs, hLimbs, hLimbs, hLimbs⟩, Fe301.toFp_minusOne_ne_zero⟩

end X301Provider
