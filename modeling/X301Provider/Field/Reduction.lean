import X301Provider.Field.FieldLimbsSpec

/-!
# Pseudo-Mersenne reduction

Bits from 301 on are replaced by their multiple of `K = 2 ^ 99 - 947`. One fold
reduces small products and two folds reduce wide ones, both below twice the
modulus.
-/

namespace X301Provider

open Limbs

def K : ℕ := 2 ^ 99 - 947

/-- The powers of two that bound the inputs and outputs of the folds. -/
theorem fold_bounds : ((2 : ℕ) ^ 301 = wordBase ^ 4 * 2 ^ 45 ∧
    2 ^ 606 ≤ 2 ^ 301 * wordBase ^ 5 ∧ 2 ^ 305 * 2 ^ 99 + 2 ^ 301 < 2 ^ 405 ∧
    2 ^ 405 ≤ wordBase ^ 7 ∧ 2 ^ 405 ≤ 2 ^ 301 * wordBase ^ 2 ∧
    2 ^ 301 + 2 ^ 203 < wordBase ^ 5 ∧ 2 ^ 301 + 2 ^ 133 ≤ wordBase * wordBase ^ 4 ∧
    2 ^ 335 ≤ 2 ^ 301 * wordBase ^ 1) ∧ K + 947 = 2 ^ 99 ∧ K < 2 ^ 99 ∧
    foldConstantLow.toNat + wordBase * foldConstantHigh.toNat = K := by
  decide +kernel

theorem two_pow_301 : 2 ^ 301 = P + K := P_numeric.2.1.1

/-- The two conditional subtractions select the same words. -/
theorem conditionalSubtractModulusConst_eq (input : Words 5) :
    conditionalSubtractModulusConst input = conditionalSubtractModulusCt input := by
  obtain ⟨hLess, hGreater⟩ := subtractLimbsRuntime_spec input modulus
  have hAllOnes : (0 : UInt64) - (0 ^^^ 1) = -1 := by decide
  simp only [conditionalSubtractModulusConst, conditionalSubtractModulusCt,
    subtractLimbs_eq_runtime]
  apply List.Vector.ext
  intro i
  rw [List.Vector.zipWith_get]
  cases lt_or_ge (value input.1) (value modulus.1) with
  | inl h =>
    have hMask : (0 : UInt64) - (1 ^^^ 1) = 0 := by decide
    have hLsb : lsb (1 ^^^ 1) = false := by decide
    rw [(hLess h).1, hMask, hLsb]
    simp
  | inr h =>
    have hMask : (0 : UInt64) - (0 ^^^ 1) = -1 := by decide
    have hLsb : lsb (0 ^^^ 1) = true := by decide
    rw [(hGreater h).1, hMask, hLsb]
    simp

section Split

variable {n : ℕ}

/-- Bits at and above position 45 of a word string. -/
theorem value_joinShifted (word : UInt64) (words : List UInt64)
    (h : value (word :: words) < 2 ^ 45 * wordBase ^ words.length) :
    2 ^ 45 * value (List.zipWith (fun word next : UInt64 => (word >>> 45) ||| (next <<< 19))
      (word :: words) words) + word.toNat % 2 ^ 45 = value (word :: words) := by
  induction words generalizing word with
  | nil =>
    simp only [value_cons, value_nil, List.length_nil, pow_zero] at h
    simp only [List.zipWith_nil_right, value_cons, value_nil]
    omega
  | cons next words ih =>
    have hNext : value (next :: words) < 2 ^ 45 * wordBase ^ words.length := by
      rw [value_cons, List.length_cons, pow_succ' wordBase, Nat.mul_left_comm] at h
      exact lt_of_mul_lt_mul_left (by omega) (Nat.zero_le wordBase)
    have hRest := ih next hNext
    have hWord := toNat_lt word
    have hLow : (word >>> 45).toNat = word.toNat / 2 ^ 45 := shiftRight_toNat word (by decide)
    have hHigh : (next <<< 19).toNat = 2 ^ 19 * (next.toNat % 2 ^ 45) :=
      shiftLeft_toNat next (by decide)
    have hOr : ((word >>> 45) ||| (next <<< 19)).toNat =
        word.toNat / 2 ^ 45 + 2 ^ 19 * (next.toNat % 2 ^ 45) := by
      rw [wordBase_eq] at hWord
      rw [UInt64.or_comm, or_toNat hHigh (by omega), hHigh, hLow, add_comm]
    rw [List.zipWith_cons_cons, value_cons, hOr, value_cons word]
    have hSplit := Nat.div_add_mod word.toNat (2 ^ 45)
    have hBase : wordBase = 2 ^ 45 * 2 ^ 19 := by decide
    rw [← hRest]
    generalize value (List.zipWith _ (next :: words) words) = rest at *
    rw [hBase]
    linear_combination hSplit

theorem value_fold (words : Words (n + 5)) (h : value words.1 < 2 ^ 301 * wordBase ^ n) :
    value (foldLow words).1 + 2 ^ 301 * value (foldHigh words).1 = value words.1 ∧
      value (foldLow words).1 < 2 ^ 301 := by
  obtain ⟨list, hList⟩ := words
  match list, hList with
  | w₀ :: w₁ :: w₂ :: w₃ :: w₄ :: rest, hList =>
    have hRest : rest.length = n := by simpa using hList
    have hMask : (w₄ &&& topMask).toNat = w₄.toNat % 2 ^ 45 := by
      have hTop : topMask.toNat = 2 ^ 45 - 1 := by decide
      rw [UInt64.toNat_and, hTop, Nat.and_two_pow_sub_one_eq_mod]
    have hPower := fold_bounds.1.1
    have hTop : value (w₄ :: rest) < 2 ^ 45 * wordBase ^ rest.length := by
      rw [hRest]
      have hSplit : value (w₀ :: w₁ :: w₂ :: w₃ :: w₄ :: rest) =
          value [w₀, w₁, w₂, w₃] + wordBase ^ 4 * value (w₄ :: rest) :=
        value_append [w₀, w₁, w₂, w₃] (w₄ :: rest)
      rw [hSplit, hPower, mul_assoc] at h
      exact lt_of_mul_lt_mul_left (by omega) (Nat.zero_le (wordBase ^ 4))
    have hJoin := value_joinShifted w₄ rest hTop
    have hLow : value (foldLow (⟨w₀ :: w₁ :: w₂ :: w₃ :: w₄ :: rest, hList⟩ : Words (n + 5))).1 =
        value [w₀, w₁, w₂, w₃] + wordBase ^ 4 * (w₄.toNat % 2 ^ 45) := by
      rw [← hMask]
      exact value_append [w₀, w₁, w₂, w₃] [w₄ &&& topMask]
    have hHigh : (foldHigh (⟨w₀ :: w₁ :: w₂ :: w₃ :: w₄ :: rest, hList⟩ : Words (n + 5))).1 =
        List.zipWith (fun word next : UInt64 => (word >>> 45) ||| (next <<< 19))
          (w₄ :: rest) rest := rfl
    have hPrefix := value_lt [w₀, w₁, w₂, w₃]
    have hMod := Nat.mod_lt w₄.toNat (show 0 < 2 ^ 45 by decide)
    have hWhole : value (w₀ :: w₁ :: w₂ :: w₃ :: w₄ :: rest) =
        value [w₀, w₁, w₂, w₃] + wordBase ^ 4 * value (w₄ :: rest) :=
      value_append [w₀, w₁, w₂, w₃] (w₄ :: rest)
    rw [hLow, hHigh, hWhole, ← hJoin, hPower]
    constructor
    · ring
    · have hStep : wordBase ^ 4 * (w₄.toNat % 2 ^ 45 + 1) ≤ wordBase ^ 4 * 2 ^ 45 :=
        Nat.mul_le_mul_left _ hMod
      have hLength : [w₀, w₁, w₂, w₃].length = 4 := rfl
      rw [hLength] at hPrefix
      linarith

end Split

theorem value_take_replicate {words : List UInt64} {count : ℕ} (h : words.length ≤ count) :
    value ((words ++ List.replicate count 0).take count) = value words := by
  rw [List.take_append, List.take_of_length_le h, value_append, List.take_replicate,
    value_replicate_zero, mul_zero, add_zero]

theorem foldColumns_fits (constant : UInt64) (output high : List UInt64) :
    ∀ column ∈ foldColumns constant output high, Fits column := by
  have hWords : ∀ words : List UInt64, ∀ column ∈ words.map UInt64.toNat, Fits column := by
    intro words column hColumn
    obtain ⟨word, _, rfl⟩ := List.mem_map.mp hColumn
    exact fits_word word
  induction output generalizing high with
  | nil => cases high <;> exact hWords []
  | cons out output ih =>
    cases high with
    | nil => exact hWords (out :: output)
    | cons word high =>
      intro column hColumn
      simp only [foldColumns, List.mem_cons] at hColumn
      rcases hColumn with rfl | hColumn
      · rw [add_comm]
        exact fits_mul_add word constant out
      · exact ih high column hColumn

theorem columnSum_foldColumns (constant : UInt64) {output high : List UInt64}
    (h : high.length ≤ output.length) :
    columnSum (foldColumns constant output high) =
      value output + value high * constant.toNat := by
  induction output generalizing high with
  | nil =>
    rw [List.length_nil, Nat.le_zero, List.length_eq_zero_iff] at h
    subst h
    simp [foldColumns]
  | cons out output ih =>
    cases high with
    | nil =>
      rw [foldColumns, columnSum_map_toNat, value_nil, zero_mul, add_zero]
      simp
    | cons word high =>
      simp only [List.length_cons, Nat.add_le_add_iff_right] at h
      simp only [foldColumns, columnSum_cons, value_cons, ih h]
      ring

theorem fold_constants : foldConstantLow.toNat + wordBase * foldConstantHigh.toNat = K :=
  fold_bounds.2.2.2

theorem value_accumulateFold {n : ℕ} (low : Words 5) (high : Words n) (output : ℕ)
    (hLow : 5 ≤ output) (hHigh : n + 1 ≤ output)
    (hTotal : value low.1 + value high.1 * K < wordBase ^ output) :
    value (accumulateFold low high output).1 = value low.1 + value high.1 * K := by
  have hZero : (0 : UInt64).toNat = 0 := rfl
  have hConstants := fold_constants
  set start := (low.1 ++ List.replicate output 0).take output with hStart
  have hStartLength : start.length = output := by simp [hStart]
  have hStartValue : value start = value low.1 := value_take_replicate (by rw [low.2]; exact hLow)
  have hPartial : value low.1 + value high.1 * foldConstantLow.toNat < wordBase ^ output := by
    have hLe : value high.1 * foldConstantLow.toNat ≤ value high.1 * K :=
      Nat.mul_le_mul_left _ (by omega)
    omega
  have hFirst := (carryChain_exact _ (foldColumns_fits foldConstantLow start high.1) 0 (by
    rw [columnSum_foldColumns _ (by rw [high.2, hStartLength]; omega), foldColumns_length,
      hStartLength, hStartValue, hZero, add_zero]
    exact hPartial)).1
  rw [columnSum_foldColumns _ (by rw [high.2, hStartLength]; omega), hStartValue, hZero,
    add_zero] at hFirst
  set first := (carryChain (foldColumns foldConstantLow start high.1) 0).1 with hFirstDef
  have hFirstLength : first.length = output := by simp [hFirstDef, hStartLength]
  have hSplit := value_take_add_drop first 1 (by omega)
  rw [pow_one] at hSplit
  have hDropLength : (first.drop 1).length = output - 1 := by
    rw [List.length_drop, hFirstLength]
  have hColumns : columnSum (foldColumns foldConstantHigh (first.drop 1) high.1) =
      value (first.drop 1) + value high.1 * foldConstantHigh.toNat :=
    columnSum_foldColumns _ (by rw [high.2, hDropLength]; omega)
  have hSum : value (first.take 1) +
      wordBase * (value (first.drop 1) + value high.1 * foldConstantHigh.toNat) =
        value low.1 + value high.1 * K := by
    rw [← hConstants]
    linear_combination hSplit + hFirst
  have hPower : wordBase ^ output = wordBase * wordBase ^ (output - 1) := by
    rw [← pow_succ']
    congr 1
    omega
  have hSecond := (carryChain_exact _ (foldColumns_fits foldConstantHigh (first.drop 1) high.1) 0
    (by
      rw [hColumns, foldColumns_length, hDropLength, hZero, add_zero]
      apply lt_of_mul_lt_mul_left (a := wordBase) ?_ (Nat.zero_le _)
      omega)).1
  rw [hColumns, hZero, add_zero] at hSecond
  have hTake : (first.take 1).length = 1 := by
    rw [List.length_take, hFirstLength]
    omega
  calc value (accumulateFold low high output).1
      = value (first.take 1 ++
          (carryChain (foldColumns foldConstantHigh (first.drop 1) high.1) 0).1) := rfl
    _ = value low.1 + value high.1 * K := by
      rw [value_append, hTake, pow_one, hSecond, hSum]

theorem fold_modEq (low high : ℕ) : low + high * K ≡ low + 2 ^ 301 * high [MOD P] := by
  rw [two_pow_301]
  refine Nat.ModEq.add_left low ?_
  rw [mul_comm, add_mul]
  exact (Nat.modEq_iff_dvd' (Nat.le_add_left _ _)).mpr ⟨high, by omega⟩

/-- Both folds of a wide product are exact and leave room above them. -/
structure WideFolds (product : Words 10) (firstFold : Words 7) : Prop where
  split : value (foldLow (n := 5) product).1 + 2 ^ 301 * value (foldHigh (n := 5) product).1 =
    value product.1
  firstFold_eq : value firstFold.1 =
    value (foldLow (n := 5) product).1 + value (foldHigh (n := 5) product).1 * K
  firstFold_lt : value firstFold.1 < 2 ^ 405
  secondSplit : value (foldLow (n := 2) firstFold).1 + 2 ^ 301 * value (foldHigh (n := 2) firstFold).1 =
    value firstFold.1
  second_lt : value (foldLow (n := 2) firstFold).1 + value (foldHigh (n := 2) firstFold).1 * K <
    2 ^ 301 + 2 ^ 203

theorem wideFolds {product : Words 10} (h : value product.1 < 2 ^ 606) :
    WideFolds product (accumulateFold (foldLow (n := 5) product) (foldHigh (n := 5) product) 7) := by
  obtain ⟨-, hWide, hFirstPower, hSeven, hNarrow, -⟩ := fold_bounds.1
  obtain ⟨hSplit, hLow⟩ := value_fold (n := 5) product (h.trans_le hWide)
  have hHigh : value (foldHigh (n := 5) product).1 < 2 ^ 305 := by
    have hPower : (2 : ℕ) ^ 606 = 2 ^ 301 * 2 ^ 305 := by rw [← pow_add]
    apply lt_of_mul_lt_mul_left (a := 2 ^ 301) ?_ (Nat.zero_le _)
    omega
  have hK := fold_bounds.2.2.1
  have hTotal : value (foldLow (n := 5) product).1 + value (foldHigh (n := 5) product).1 * K <
      2 ^ 405 := by
    have hProduct := Nat.mul_lt_mul'' hHigh hK
    omega
  have hFirst := value_accumulateFold (foldLow (n := 5) product) (foldHigh (n := 5) product) 7
    (by decide) (by decide) (hTotal.trans_le hSeven)
  rw [← hFirst] at hTotal
  generalize accumulateFold (foldLow (n := 5) product) (foldHigh (n := 5) product) 7 = firstFold at *
  obtain ⟨hSecond, hSecondLow⟩ := value_fold (n := 2) firstFold (hTotal.trans_le hNarrow)
  have hSecondHigh : value (foldHigh (n := 2) firstFold).1 < 2 ^ 104 := by
    have hPower : (2 : ℕ) ^ 405 = 2 ^ 301 * 2 ^ 104 := by rw [← pow_add]
    apply lt_of_mul_lt_mul_left (a := 2 ^ 301) ?_ (Nat.zero_le _)
    omega
  have hSecondProduct : value (foldHigh (n := 2) firstFold).1 * K < 2 ^ 203 := by
    have hProduct := Nat.mul_lt_mul'' hSecondHigh hK
    rwa [← pow_add] at hProduct
  exact ⟨hSplit, hFirst, hTotal, hSecond, by omega⟩

/-- The second fold is the result of the reduction. -/
theorem value_secondFold {product : Words 10} {firstFold : Words 7}
    (h : WideFolds product firstFold) :
    value (accumulateFold (foldLow (n := 2) firstFold) (foldHigh (n := 2) firstFold) 5).1 =
      value (foldLow (n := 2) firstFold).1 + value (foldHigh (n := 2) firstFold).1 * K := by
  obtain ⟨-, -, -, -, -, hFive, -⟩ := fold_bounds.1
  exact value_accumulateFold (foldLow (n := 2) firstFold) (foldHigh (n := 2) firstFold) 5
    (by decide) (by decide) (h.second_lt.trans hFive)

theorem value_reduceWideUnreduced (product : Words 10) (h : value product.1 < 2 ^ 606) :
    value (reduceWideUnreduced product).1 < 2 ^ 301 + 2 ^ 203 ∧
      value (reduceWideUnreduced product).1 ≡ value product.1 [MOD P] := by
  have hFolds := wideFolds h
  have hResult := value_secondFold hFolds
  change value (reduceWideUnreduced product).1 = _ at hResult
  rw [hResult]
  refine ⟨hFolds.second_lt, (fold_modEq _ _).trans ?_⟩
  rw [hFolds.secondSplit, hFolds.firstFold_eq, ← hFolds.split]
  exact fold_modEq _ _

/-- The two shifted words of a small high part. -/
theorem shiftedHigh_toNat (high : UInt64) :
    (high <<< 35).toNat + wordBase * (high >>> 29).toNat = 2 ^ 35 * high.toNat := by
  have hLow : (high <<< 35).toNat = 2 ^ 35 * (high.toNat % 2 ^ 29) :=
    shiftLeft_toNat high (by decide)
  have hHigh : (high >>> 29).toNat = high.toNat / 2 ^ 29 := shiftRight_toNat high (by decide)
  rw [hLow, hHigh, wordBase_eq]
  omega

theorem value_addShifted (low : Words 5) {high : UInt64} (hLow : value low.1 < 2 ^ 301)
    (hHigh : high.toNat < 2 ^ 34) :
    value (low.head :: (carryChain [(low.get 1).toNat + (high <<< 35).toNat,
      (low.get 2).toNat + (high >>> 29).toNat, (low.get 3).toNat, (low.get 4).toNat] 0).1) =
        value low.1 + 2 ^ 99 * high.toNat := by
  have hZero : (0 : UInt64).toNat = 0 := rfl
  have hBase : wordBase = 2 ^ 64 := rfl
  obtain ⟨list, hList⟩ := low
  match list, hList, hLow with
  | [w₀, w₁, w₂, w₃, w₄], hList, hLow =>
    set columns := [w₁.toNat + (high <<< 35).toNat, w₂.toNat + (high >>> 29).toNat,
      w₃.toNat, w₄.toNat] with hColumns
    have hFits : ∀ column ∈ columns, Fits column := by
      simp only [hColumns, List.forall_mem_cons]
      exact ⟨fits_add _ _, fits_add _ _, fits_word _, fits_word _, by simp⟩
    have hSum : columnSum columns = value [w₁, w₂, w₃, w₄] + 2 ^ 35 * high.toNat := by
      rw [← shiftedHigh_toNat high, hColumns]
      simp only [columnSum_cons, columnSum_nil, value_cons, value_nil]
      ring
    have hValue : value [w₀, w₁, w₂, w₃, w₄] = w₀.toNat + wordBase * value [w₁, w₂, w₃, w₄] := rfl
    have hLength : columns.length = 4 := rfl
    have hTotal : columnSum columns + (0 : UInt64).toNat < wordBase ^ columns.length := by
      have hScaled : wordBase * columnSum columns < 2 ^ 301 + 2 ^ 133 := by
        rw [hSum, hBase]
        rw [hBase] at hValue
        simp only at hLow
        omega
      obtain ⟨-, -, -, -, -, -, hPower, -⟩ := fold_bounds.1
      rw [hZero, add_zero, hLength]
      exact lt_of_mul_lt_mul_left (hScaled.trans_le hPower) (Nat.zero_le _)
    have hChain := (carryChain_exact columns hFits 0 hTotal).1
    rw [hZero, add_zero, hSum] at hChain
    calc value (w₀ :: (carryChain columns 0).1)
        = w₀.toNat + wordBase * (value [w₁, w₂, w₃, w₄] + 2 ^ 35 * high.toNat) := by
          rw [value_cons, hChain]
      _ = value [w₀, w₁, w₂, w₃, w₄] + 2 ^ 99 * high.toNat := by
          rw [hValue, hBase]
          ring

theorem value_head_of_one (words : Words 1) : value words.1 = words.head.toNat := by
  obtain ⟨list, hList⟩ := words
  match list, hList with
  | [word], _ => exact Nat.add_zero _

/-- The small reduction adds before it subtracts, so the subtraction leaves no borrow. -/
theorem reduceSmallProduct_exact (product : Words 6) (h : value product.1 < 2 ^ 335) :
    let high := (foldHigh (n := 1) product).head
    let low := foldLow (n := 1) product
    let chain := borrowChain subWithBorrowRuntime
      (low.head :: (carryChain [(low.get 1).toNat + (high <<< 35).toNat,
        (low.get 2).toNat + (high >>> 29).toNat, (low.get 3).toNat, (low.get 4).toNat] 0).1)
      [lo (u128 (high.toNat * foldSubtrahend)), 0, 0, 0, 0] 0
    chain.2 = 0 ∧ value chain.1 + 947 * high.toNat = value low.1 + 2 ^ 99 * high.toNat ∧
      value low.1 + 2 ^ 301 * high.toNat = value product.1 ∧ value low.1 < 2 ^ 301 ∧
      high.toNat < 2 ^ 34 := by
  intro high low chain
  obtain ⟨-, -, -, -, -, -, -, hOne⟩ := fold_bounds.1
  obtain ⟨hFold, hLow⟩ := value_fold (n := 1) product (h.trans_le hOne)
  rw [value_head_of_one] at hFold
  change value low.1 + 2 ^ 301 * high.toNat = _ at hFold
  change value low.1 < _ at hLow
  have hHigh : high.toNat < 2 ^ 34 := by
    have hPower : (2 : ℕ) ^ 335 = 2 ^ 301 * 2 ^ 34 := by rw [← pow_add]
    apply lt_of_mul_lt_mul_left (a := 2 ^ 301) ?_ (Nat.zero_le _)
    omega
  have hLeft := value_addShifted low hLow hHigh
  have hLength : (low.head :: (carryChain [(low.get 1).toNat + (high <<< 35).toNat,
      (low.get 2).toNat + (high >>> 29).toNat, (low.get 3).toNat,
      (low.get 4).toNat] 0).1).length =
        [lo (u128 (high.toNat * foldSubtrahend)), 0, 0, 0, 0].length := by
    simp
  have hExact := borrowChain_exact borrowSpec_runtime hLength
  have hRight : value [lo (u128 (high.toNat * foldSubtrahend)), 0, 0, 0, 0] =
      947 * high.toNat := by
    have hZero : (0 : UInt64).toNat = 0 := rfl
    simp only [value_cons, value_nil, hZero, mul_zero, add_zero, lo_toNat, u128, foldSubtrahend,
      wordBase_eq]
    omega
  rw [hLeft, hRight] at hExact
  obtain ⟨hBorrow, hDifference⟩ := hExact.2 (by omega)
  exact ⟨hBorrow, hDifference, hFold, hLow, hHigh⟩

theorem value_reduceSmallProductUnreduced (product : Words 6) (h : value product.1 < 2 ^ 335) :
    value (reduceSmallProductUnreduced product).1 < 2 ^ 301 + 2 ^ 203 ∧
      value (reduceSmallProductUnreduced product).1 ≡ value product.1 [MOD P] := by
  obtain ⟨-, hDifference, hFold, hLow, hHigh⟩ := reduceSmallProduct_exact product h
  change value (reduceSmallProductUnreduced product).1 + _ = _ at hDifference
  generalize (foldHigh (n := 1) product).head.toNat = high at *
  generalize value (foldLow (n := 1) product).1 = low at *
  have hK := fold_bounds.2.1
  have hTotal : value (reduceSmallProductUnreduced product).1 = low + high * K := by
    have hScale : 2 ^ 99 * high = high * K + 947 * high := by
      rw [← hK]
      ring
    omega
  rw [hTotal]
  constructor
  · have hBound := Nat.mul_le_mul hHigh.le (show K ≤ 2 ^ 99 by omega)
    omega
  · rw [← hFold]
    exact fold_modEq low high

end X301Provider
