import X301Provider.Library.Limbs

/-!
# Schoolbook products

The output array of a word product is filled row by row. A row rewrites a window
of the output and appends its carry; the words left behind by the moving window
are final. Squares add the cross products once, double them with a shift and
then add the diagonal.
-/

namespace Limbs

/-- The columns of one row: a word times the right operand, added to the window. -/
def rowColumns (word : UInt64) (right window : List UInt64) : List ℕ :=
  List.zipWith (fun r old => word.toNat * r.toNat + old.toNat) right window

/-- One row: the rewritten window followed by the carry word. -/
def mulRow (word : UInt64) (right window : List UInt64) : List UInt64 :=
  let pass := carryChain (rowColumns word right window) 0
  pass.1 ++ [pass.2]

/-- All rows of a product; each row leaves its lowest word behind. -/
def mulRows (right : List UInt64) : List UInt64 → List UInt64 → List UInt64
  | [], window => window
  | word :: left, window =>
    let row := mulRow word right window
    row.take 1 ++ mulRows right left (row.drop 1)

theorem rowColumns_length {word : UInt64} {right window : List UInt64}
    (h : window.length = right.length) : (rowColumns word right window).length = right.length := by
  rw [rowColumns, List.length_zipWith, h, Nat.min_self]

theorem rowColumns_fits (word : UInt64) (right window : List UInt64) :
    ∀ column ∈ rowColumns word right window, Fits column := by
  intro column hColumn
  obtain ⟨i, hi, rfl⟩ := List.mem_iff_getElem.mp hColumn
  simp only [rowColumns, List.getElem_zipWith]
  exact fits_mul_add _ _ _

theorem columnSum_rowColumns (word : UInt64) {right window : List UInt64}
    (h : window.length = right.length) :
    columnSum (rowColumns word right window) = word.toNat * value right + value window := by
  induction right generalizing window with
  | nil =>
    rw [List.length_nil, List.length_eq_zero_iff] at h
    subst h
    rfl
  | cons r right ih =>
    cases window with
    | nil => simp at h
    | cons w window =>
      simp only [List.length_cons, Nat.add_right_cancel_iff] at h
      have hRest := ih h
      simp only [rowColumns, List.zipWith_cons_cons, columnSum_cons, value_cons] at *
      rw [hRest]
      ring

theorem mulRow_length (word : UInt64) {right window : List UInt64}
    (h : window.length = right.length) : (mulRow word right window).length = right.length + 1 := by
  simp [mulRow, rowColumns_length h]

theorem value_mulRow (word : UInt64) {right window : List UInt64}
    (h : window.length = right.length) :
    value (mulRow word right window) = word.toNat * value right + value window := by
  have hChain := carryChain_value _ (rowColumns_fits word right window) 0
  have hZero : (0 : UInt64).toNat = 0 := rfl
  rw [columnSum_rowColumns word h, hZero, add_zero] at hChain
  simp only [mulRow, value_append, carryChain_length, value_cons, value_nil, mul_zero, add_zero]
  exact hChain

theorem value_take_add_drop (words : List UInt64) (count : ℕ) (h : count ≤ words.length) :
    value (words.take count) + wordBase ^ count * value (words.drop count) = value words := by
  conv_rhs => rw [← List.take_append_drop count words, value_append]
  rw [List.length_take, Nat.min_eq_left h]

theorem mulRows_length {left right window : List UInt64} (h : window.length = right.length) :
    (mulRows right left window).length = left.length + right.length := by
  induction left generalizing window with
  | nil => simp [mulRows, h]
  | cons word left ih =>
    have hRow := mulRow_length word h
    have hWindow : ((mulRow word right window).drop 1).length = right.length := by
      rw [List.length_drop, hRow, Nat.add_sub_cancel]
    simp only [mulRows, List.length_append, List.length_take, ih hWindow, hRow, List.length_cons]
    omega

theorem value_mulRows {left right window : List UInt64} (h : window.length = right.length) :
    value (mulRows right left window) = value left * value right + value window := by
  induction left generalizing window with
  | nil => simp [mulRows]
  | cons word left ih =>
    have hRow := mulRow_length word h
    have hWindow : ((mulRow word right window).drop 1).length = right.length := by
      rw [List.length_drop, hRow, Nat.add_sub_cancel]
    have hTake : ((mulRow word right window).take 1).length = 1 := by
      rw [List.length_take, hRow]
      omega
    have hSplit := value_take_add_drop (mulRow word right window) 1 (by omega)
    simp only [mulRows, value_append, ih hWindow, hTake, value_cons]
    rw [value_mulRow word h] at hSplit
    linear_combination hSplit

/-- The cross products of a square, from the word position after the first diagonal. -/
def crossRows : List UInt64 → List UInt64 → List UInt64
  | [], window => window
  | [_], _ => [0]
  | word :: rest, window =>
    let row := mulRow word rest window
    row.take 2 ++ crossRows rest (row.drop 2)

/-- The sum of the products of two different words, each taken once. -/
def crossSum : List UInt64 → ℕ
  | [] => 0
  | word :: rest => word.toNat * value rest + wordBase ^ 2 * crossSum rest

/-- The sum of the squared words in their places. -/
def diagonalSum : List UInt64 → ℕ
  | [] => 0
  | word :: rest => word.toNat ^ 2 + wordBase ^ 2 * diagonalSum rest

theorem diagonalSum_append (left right : List UInt64) :
    diagonalSum (left ++ right) =
      diagonalSum left + wordBase ^ (2 * left.length) * diagonalSum right := by
  induction left with
  | nil => simp [diagonalSum]
  | cons word left ih =>
    simp only [List.cons_append, diagonalSum, ih, List.length_cons, mul_add, pow_add]
    ring

theorem value_sq (words : List UInt64) :
    value words ^ 2 = diagonalSum words + 2 * wordBase * crossSum words := by
  induction words with
  | nil => rfl
  | cons word rest ih =>
    simp only [value_cons, diagonalSum, crossSum]
    linear_combination wordBase ^ 2 * ih

theorem crossRows_length {words window : List UInt64} (hWords : words ≠ [])
    (h : window.length + 1 = words.length) :
    (crossRows words window).length + 1 = 2 * words.length := by
  induction words generalizing window with
  | nil => exact absurd rfl hWords
  | cons word rest ih =>
    cases rest with
    | nil => rfl
    | cons next rest =>
      have hWindow : window.length = (next :: rest).length := by simpa using h
      have hRow := mulRow_length word hWindow
      have hNext : ((mulRow word (next :: rest) window).drop 2).length + 1 =
          (next :: rest).length := by
        rw [List.length_drop, hRow, List.length_cons]
        omega
      have hRest := ih (by simp) hNext
      simp only [crossRows, List.length_append, List.length_take, hRow] at hRest ⊢
      simp only [List.length_cons] at hRest ⊢
      omega

theorem value_crossRows {words window : List UInt64} (hWords : words ≠ [])
    (h : window.length + 1 = words.length) :
    value (crossRows words window) = crossSum words + value window := by
  induction words generalizing window with
  | nil => exact absurd rfl hWords
  | cons word rest ih =>
    cases rest with
    | nil =>
      have hNil : window = [] := by simpa using h
      subst hNil
      simp [crossRows, crossSum]
    | cons next rest =>
      have hWindow : window.length = (next :: rest).length := by simpa using h
      have hRow := mulRow_length word hWindow
      have hNext : ((mulRow word (next :: rest) window).drop 2).length + 1 =
          (next :: rest).length := by
        rw [List.length_drop, hRow, List.length_cons]
        omega
      have hTake : ((mulRow word (next :: rest) window).take 2).length = 2 := by
        rw [List.length_take, hRow, List.length_cons]
        omega
      have hSplit := value_take_add_drop (mulRow word (next :: rest) window) 2
        (by rw [hRow, List.length_cons]; omega)
      rw [value_mulRow word hWindow] at hSplit
      have hCross : crossSum (word :: next :: rest) =
          word.toNat * value (next :: rest) + wordBase ^ 2 * crossSum (next :: rest) := rfl
      rw [crossRows, value_append, hTake, ih (by simp) hNext, hCross]
      · linear_combination hSplit
      · simp

/-- Shift a word string left by one bit, most significant bit dropped. -/
def shiftLeftOne : List UInt64 → UInt64 → List UInt64
  | [], _ => []
  | word :: words, carry => ((word <<< 1) ||| carry) :: shiftLeftOne words (word >>> 63)

@[simp] theorem shiftLeftOne_length (words : List UInt64) (carry : UInt64) :
    (shiftLeftOne words carry).length = words.length := by
  induction words generalizing carry with
  | nil => rfl
  | cons word words ih => rw [shiftLeftOne, List.length_cons, ih, List.length_cons]

theorem or_toNat {high low : UInt64} {k a : ℕ} (hHigh : high.toNat = 2 ^ k * a)
    (hLow : low.toNat < 2 ^ k) : (high ||| low).toNat = high.toNat + low.toNat := by
  rw [UInt64.toNat_or, hHigh, ← Nat.two_pow_add_eq_or_of_lt hLow]

theorem shiftLeft_toNat (word : UInt64) {k : ℕ} (hk : k < 64) :
    (word <<< UInt64.ofNat k).toNat = 2 ^ k * (word.toNat % 2 ^ (64 - k)) := by
  have hkNat : (UInt64.ofNat k).toNat % 64 = k := by
    rw [UInt64.toNat_ofNat']
    omega
  rw [UInt64.toNat_shiftLeft, hkNat, Nat.shiftLeft_eq, mul_comm, ← Nat.mul_mod_mul_left,
    ← pow_add, Nat.add_sub_cancel' hk.le]

theorem shiftRight_toNat (word : UInt64) {k : ℕ} (hk : k < 64) :
    (word >>> UInt64.ofNat k).toNat = word.toNat / 2 ^ k := by
  have hkNat : (UInt64.ofNat k).toNat % 64 = k := by
    rw [UInt64.toNat_ofNat']
    omega
  rw [UInt64.toNat_shiftRight, hkNat, Nat.shiftRight_eq_div_pow]

theorem shiftLeftOne_word (word carry : UInt64) (h : carry.toNat ≤ 1) :
    (word >>> 63).toNat ≤ 1 ∧
      ((word <<< 1) ||| carry).toNat + wordBase * (word >>> 63).toNat =
        2 * word.toNat + carry.toNat := by
  have hWord := toNat_lt word
  have hLeft : (word <<< 1).toNat = 2 ^ 1 * (word.toNat % 2 ^ 63) :=
    shiftLeft_toNat word (by decide)
  have hRight : (word >>> 63).toNat = word.toNat / 2 ^ 63 := shiftRight_toNat word (by decide)
  rw [or_toNat hLeft (by omega), hLeft, hRight]
  rw [wordBase_eq] at *
  omega

theorem value_shiftLeftOne (words : List UInt64) {carry : UInt64} (h : carry.toNat ≤ 1)
    (hTotal : 2 * value words + carry.toNat < wordBase ^ words.length) :
    value (shiftLeftOne words carry) = 2 * value words + carry.toNat := by
  induction words generalizing carry with
  | nil =>
    simp only [value_nil, List.length_nil, pow_zero, mul_zero, zero_add] at hTotal
    simp only [shiftLeftOne, value_nil]
    omega
  | cons word words ih =>
    obtain ⟨hNext, hWord⟩ := shiftLeftOne_word word carry h
    rw [value_cons, List.length_cons, pow_succ'] at hTotal
    have hRest : 2 * value words + (word >>> 63).toNat < wordBase ^ words.length := by
      apply lt_of_mul_lt_mul_left (a := wordBase) ?_ (Nat.zero_le _)
      linarith [Nat.zero_le ((word <<< 1 ||| carry).toNat)]
    rw [shiftLeftOne, value_cons, ih hNext hRest, value_cons]
    linear_combination hWord

/-- The columns that add the squared words to an array, two columns to a word. -/
def diagonalColumns : List UInt64 → List UInt64 → List ℕ
  | word :: words, even :: odd :: output =>
    (even.toNat + (lo (word.toNat * word.toNat)).toNat) ::
      (odd.toNat + word.toNat * word.toNat / wordBase) :: diagonalColumns words output
  | _, _ => []

/-- The high word of a square leaves room for another word. -/
theorem fits_add_high (odd word : UInt64) : Fits (odd.toNat + word.toNat * word.toNat / wordBase) := by
  have hWord := toNat_lt word
  have hOdd := toNat_lt odd
  have hDiv : word.toNat * word.toNat / wordBase < wordBase :=
    Nat.div_lt_of_lt_mul (Nat.mul_lt_mul'' hWord hWord)
  simp only [Fits, wordBase_eq] at *
  omega

theorem diagonalColumns_fits (words output : List UInt64) :
    ∀ column ∈ diagonalColumns words output, Fits column := by
  induction words, output using diagonalColumns.induct with
  | case1 word words even odd output ih =>
    intro column hColumn
    simp only [diagonalColumns, List.mem_cons] at hColumn
    rcases hColumn with rfl | rfl | hColumn
    · exact fits_add _ _
    · exact fits_add_high odd word
    · exact ih column hColumn
  | case2 words output h =>
    rw [diagonalColumns]
    · simp
    · exact h

theorem diagonalColumns_length {words output : List UInt64} (h : output.length = 2 * words.length) :
    (diagonalColumns words output).length = output.length := by
  induction words generalizing output with
  | nil =>
    have hNil : output = [] := by simpa using h
    subst hNil
    rfl
  | cons word words ih =>
    match output, h with
    | even :: odd :: output, h =>
      simp only [List.length_cons] at h
      have hRest := @ih output (by omega)
      simp only [diagonalColumns, List.length_cons, hRest]

theorem columnSum_diagonalColumns {words output : List UInt64}
    (h : output.length = 2 * words.length) :
    columnSum (diagonalColumns words output) = value output + diagonalSum words := by
  induction words generalizing output with
  | nil =>
    have hNil : output = [] := by simpa using h
    subst hNil
    rfl
  | cons word words ih =>
    match output, h with
    | even :: odd :: output, h =>
      simp only [List.length_cons] at h
      have hRest := @ih output (by omega)
      have hSquare := Nat.mod_add_div (word.toNat * word.toNat) wordBase
      simp only [diagonalColumns, columnSum_cons, value_cons, diagonalSum, lo_toNat, hRest]
      linear_combination hSquare

/-- The square of a word string: doubled cross products plus the diagonal. -/
def squareRows (words : List UInt64) : List UInt64 :=
  let cross := 0 :: crossRows words (List.replicate (words.length - 1) 0)
  let doubled := shiftLeftOne cross 0
  (carryChain (diagonalColumns words doubled) 0).1

theorem squareRows_spec {words : List UInt64} (hWords : words ≠ []) :
    (squareRows words).length = 2 * words.length ∧
      value (squareRows words) = value words ^ 2 := by
  have hPositive := List.length_pos_iff.mpr hWords
  have hWindow : (List.replicate (words.length - 1) (0 : UInt64)).length + 1 = words.length := by
    rw [List.length_replicate]
    omega
  have hLength := crossRows_length hWords hWindow
  have hCross := value_crossRows hWords hWindow
  rw [value_replicate_zero, add_zero] at hCross
  have hSq := value_sq words
  have hLt : value words ^ 2 < wordBase ^ (2 * words.length) := by
    rw [pow_mul', sq, sq]
    exact Nat.mul_lt_mul'' (value_lt words) (value_lt words)
  set cross := (0 : UInt64) :: crossRows words (List.replicate (words.length - 1) 0) with hCrossDef
  have hCrossLength : cross.length = 2 * words.length := by
    rw [hCrossDef, List.length_cons]
    omega
  have hCrossValue : value cross = wordBase * crossSum words := by
    rw [hCrossDef, value_cons, hCross]
    exact Nat.zero_add _
  have hZero : (0 : UInt64).toNat = 0 := rfl
  have hDoubled : value (shiftLeftOne cross 0) = 2 * (wordBase * crossSum words) := by
    rw [value_shiftLeftOne cross (by decide), hCrossValue, hZero, add_zero]
    rw [hCrossValue, hZero, add_zero, hCrossLength]
    linarith [Nat.zero_le (diagonalSum words)]
  have hShiftLength : (shiftLeftOne cross 0).length = 2 * words.length := by
    rw [shiftLeftOne_length, hCrossLength]
  have hColumns := columnSum_diagonalColumns hShiftLength
  have hColumnsLength := diagonalColumns_length hShiftLength
  rw [hShiftLength] at hColumnsLength
  rw [hDoubled] at hColumns
  have hTotal : columnSum (diagonalColumns words (shiftLeftOne cross 0)) = value words ^ 2 := by
    rw [hColumns, hSq]
    ring
  have hExact := carryChain_exact _ (diagonalColumns_fits words (shiftLeftOne cross 0)) 0
    (by rw [hTotal, hColumnsLength, hZero, add_zero]; exact hLt)
  rw [hTotal, hZero, add_zero] at hExact
  exact ⟨by rw [squareRows, carryChain_length, hColumnsLength], hExact.1⟩

end Limbs
