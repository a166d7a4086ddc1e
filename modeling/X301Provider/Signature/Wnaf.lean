import X301Provider.Signature.ScalarSpec

/-!
# The recoding loop of public scalars

The loop is followed position by position: the value it holds there, the digit it
stores, and that neither the cast to eight bits nor the wrapping operations on 320
bits lose anything. The size of `L` makes 302 positions enough.
-/

namespace X301Provider.Scalar

open SignedDigits

/-- The value the recoding loop holds at a position. -/
def wnafValue (s : Scalar) (width : ℕ) (i : ℕ) : U320 := (wnafNext width)^[i] s.integer

/-- What the loop does at a position where it stores a nonzero digit. -/
structure WnafStores (width : ℕ) (value : U320) (digit : Int8) : Prop where
  cast_exact : digit.toInt = wnafDigit width value
  odd : digit.toInt % 2 = 1
  magnitude : digit.toInt.natAbs < 2 ^ (width - 1)
  index : digit.toInt.natAbs / 2 < 2 ^ (width - 2)
  add_exact : wnafDigit width value < 0 →
    value.toNat + (-wnafDigit width value).toNat < 2 ^ 320
  sub_exact : 0 ≤ wnafDigit width value → (wnafDigit width value).toNat ≤ value.toNat

theorem wnafFrom_getElem? (width : ℕ) {count i : ℕ} (value : U320) (h : i < count) :
    (wnafFrom width count value)[i]? =
      some (if ((wnafNext width)^[i] value).getLsbD 0 then
        Int8.ofInt (wnafDigit width ((wnafNext width)^[i] value)) else 0) := by
  induction count generalizing value i with
  | zero => omega
  | succ count ih =>
    rw [wnafFrom_succ]
    cases i with
    | zero => rfl
    | succ i =>
      rw [List.getElem?_cons_succ, Function.iterate_succ_apply]
      exact ih _ (by omega)

theorem wnafFrom_length (width count : ℕ) (value : U320) :
    (wnafFrom width count value).length = count := by
  induction count generalizing value with
  | zero => rfl
  | succ count ih => rw [wnafFrom_succ, List.length_cons, ih]

theorem natAbs_div_two_lt {w : ℕ} (hw : 2 ≤ w) {d : ℤ} (h : d.natAbs < 2 ^ (w - 1)) :
    d.natAbs / 2 < 2 ^ (w - 2) := by
  obtain ⟨u, rfl⟩ : ∃ u, w = u + 2 := ⟨w - 2, by omega⟩
  have hPower : 2 ^ (u + 2 - 1) = 2 * 2 ^ u := pow_succ' 2 u
  rw [hPower] at h
  exact Nat.div_lt_of_lt_mul h

section Loop

variable {s : Scalar} (hCanonical : s.integer.toNat < L) (width : WnafWidth)

include hCanonical

theorem toNat_wnafValue (i : ℕ) :
    (s.wnafValue width i).toNat = (nafRest width)^[i] s.integer.toNat ∧
      (s.wnafValue width i).toNat ≤ 2 ^ 300 := by
  induction i with
  | zero => exact ⟨rfl, (hCanonical.trans L_bounds.2.1).le⟩
  | succ i ih =>
    obtain ⟨hValue, hBound⟩ := ih
    have hNext : s.wnafValue width (i + 1) = wnafNext width (s.wnafValue width i) :=
      Function.iterate_succ_apply' _ _ _
    rw [hNext, Function.iterate_succ_apply', ← hValue]
    exact ⟨toNat_wnafNext width.2 hBound, toNat_wnafNext_le width.2 hBound⟩

theorem wnafValue_end : s.wnafValue width 302 = 0 := by
  apply BitVec.eq_of_toNat_eq
  rw [(toNat_wnafValue hCanonical width 302).1]
  exact nafRest_iterate_eq_zero width.2.1 (hCanonical.trans L_bounds.2.1).le (by decide)

omit hCanonical in
theorem vartimeWnaf_getD {i : ℕ} (hi : i < 302) :
    (s.vartimeWnaf width).getD i 0 =
      if (s.wnafValue width i).getLsbD 0 then Int8.ofInt (wnafDigit width (s.wnafValue width i))
      else 0 := by
  have hEntry := wnafFrom_getElem? width.1 s.integer hi
  rw [List.getD_eq_getElem?_getD]
  exact congrArg (Option.getD · 0) hEntry

theorem wnafStores {i : ℕ} (hi : i < 302) (hBit : (s.wnafValue width i).getLsbD 0 = true) :
    WnafStores width (s.wnafValue width i) ((s.vartimeWnaf width).getD i 0) := by
  have hEntry := @vartimeWnaf_getD s width i hi
  rw [hBit, if_pos rfl] at hEntry
  rw [getLsbD_zero_eq, decide_eq_true_eq] at hBit
  have hCast := toInt_wnafDigit width.2 hBit
  have hNaf := wnafDigit_eq width.2 hBit
  obtain ⟨-, hAbs⟩ := nafDigit_bounds width.2.1 (s.wnafValue width i).toNat
  have hOdd := nafDigit_odd width.2.1 hBit
  obtain ⟨hAdd, hSub⟩ := wnafDigit_fits width.2 (toNat_wnafValue hCanonical width i).2 hBit
  rw [hEntry]
  rw [← hNaf, ← hCast] at hOdd hAbs
  exact ⟨hCast, hOdd, hAbs, natAbs_div_two_lt width.2.1 hAbs, hAdd, hSub⟩

theorem vartimeWnaf_ne_zero_iff {i : ℕ} (hi : i < 302) :
    (s.vartimeWnaf width).getD i 0 ≠ 0 ↔ (s.wnafValue width i).getLsbD 0 = true := by
  constructor
  · intro hDigit
    by_contra hBit
    rw [vartimeWnaf_getD width hi, if_neg hBit] at hDigit
    exact hDigit rfl
  · intro hBit hZero
    have hOdd := (wnafStores hCanonical width hi hBit).odd
    rw [hZero] at hOdd
    cases hOdd

theorem vartimeWnaf_sparse {i j : ℕ} (hLess : i < j) (hWindow : j < i + width.1) (hj : j < 302)
    (hDigit : (s.vartimeWnaf width).getD i 0 ≠ 0) : (s.vartimeWnaf width).getD j 0 = 0 := by
  have hInts := digitInts_vartimeWnaf hCanonical width
  have hEntry : ∀ k < 302, ((s.vartimeWnaf width).getD k 0).toInt =
      nafDigit width ((nafRest width)^[k] s.integer.toNat) := by
    intro k hk
    rw [← digitInts_getD, hInts, naf_getD _ hk]
  apply Int8.toInt_inj.mp
  rw [hEntry j hj]
  apply naf_sparse width.2.1 hLess hWindow
  rw [← hEntry i (by omega)]
  intro hZero
  exact hDigit (Int8.toInt_inj.mp hZero)

end Loop

/-- The recoding of every canonical scalar at every supported width. -/
theorem vartimeWnaf_exact (s : Scalar) (hCanonical : s.integer.toNat < L) (width : WnafWidth) :
    let d := fun i => (s.vartimeWnaf width).getD i 0
    (s.vartimeWnaf width).length = 302 ∧
      ∑ i ∈ Finset.range 302, (d i).toInt * 2 ^ i = s.integer.toNat ∧
      (∀ i < 302, d i ≠ 0 ↔ (s.wnafValue width i).getLsbD 0 = true) ∧
      (∀ i < 302, d i ≠ 0 → WnafStores width (s.wnafValue width i) (d i)) ∧
      (∀ i j, i < j → j < i + width.1 → j < 302 → d i ≠ 0 → d j = 0) ∧
      s.wnafValue width 302 = 0 := by
  intro d
  refine ⟨wnafFrom_length _ _ _, ?_, ?_, ?_, ?_, wnafValue_end hCanonical width⟩
  · have hValue := value_vartimeWnaf hCanonical width
    rw [value_eq_sum, vartimeWnaf_length hCanonical] at hValue
    rw [← hValue]
    refine Finset.sum_congr rfl fun i _ => ?_
    rw [digitInts_getD]
  · intro i hi
    exact vartimeWnaf_ne_zero_iff hCanonical width hi
  · intro i hi hDigit
    exact wnafStores hCanonical width hi ((vartimeWnaf_ne_zero_iff hCanonical width hi).mp hDigit)
  · intro i j hLess hWindow hj hDigit
    exact vartimeWnaf_sparse hCanonical width hLess hWindow hj hDigit

theorem vartimeWnaf_exact_largest :
    wnafValue ⟨BitVec.ofNat 320 (L - 1)⟩ 8 302 = 0 := by
  have hLt : (BitVec.ofNat 320 (L - 1)).toNat < L := by
    have hPositive := prime_L.pos
    rw [toNat_ofNat (by omega)]
    omega
  exact (vartimeWnaf_exact ⟨BitVec.ofNat 320 (L - 1)⟩ hLt ⟨8, by decide⟩).2.2.2.2.2

end X301Provider.Scalar
