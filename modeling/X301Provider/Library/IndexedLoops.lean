import Mathlib.Data.Vector.Basic
import X301Provider.Library.Observation

/-!
# Loops over the indices of an array

A loop that counts up is `Fin.foldl` or, when its body reports, `Fin.foldlM`; a loop
that counts down is `Fin.foldr`. An invariant that mentions the index is carried from
the first index to the last or back; it speaks of the entries before the index, or of
those from it on.
-/

universe u

section Vectors

variable {α : Type u} {n : ℕ}

/-- The entries before the next index. -/
theorem List.Vector.take_succ_eq (array : List.Vector α n) (i : Fin n) :
    array.1.take (i + 1) = array.1.take i ++ [array.get i] := by
  have hIndex : (i : ℕ) < array.1.length := by
    rw [array.2]
    exact i.2
  rw [List.take_succ_eq_append_getElem hIndex]
  rfl

/-- The entries from an index on. -/
theorem List.Vector.drop_eq_cons (array : List.Vector α n) (i : Fin n) :
    array.1.drop i = array.get i :: array.1.drop (i + 1) := by
  have hIndex : (i : ℕ) < array.1.length := by
    rw [array.2]
    exact i.2
  rw [List.drop_eq_getElem_cons hIndex]
  rfl

/-- A store at an index leaves the entries after it. -/
theorem List.Vector.drop_set_self (array : List.Vector α n) (i : Fin n) (a : α) :
    (array.set i a).1.drop i = a :: array.1.drop (i + 1) := by
  have hList : (array.set i a).1 = array.1.set i a := List.Vector.toList_set array i a
  rw [List.Vector.drop_eq_cons, List.Vector.get_set_same, hList,
    List.drop_set_of_lt (Nat.lt_succ_self _)]

/-- An array filled below an index is filled below the next one by a store at it. -/
theorem List.Vector.get_set_below (entry : ℕ → α) {array : List.Vector α n} {i : Fin n} {a : α}
    (hBelow : ∀ j : Fin n, (j : ℕ) < i → array.get j = entry j) (hEntry : a = entry i) (j : Fin n)
    (hj : (j : ℕ) < i + 1) : (array.set i a).get j = entry j := by
  by_cases hNew : i = j
  · subst hNew
    rw [List.Vector.get_set_same, hEntry]
  · rw [List.Vector.get_set_of_ne hNew]
    have hNe := Fin.val_ne_of_ne hNew
    exact hBelow j (by omega)

end Vectors

section Pure

variable {α : Type u}

/-- Counting up: the invariant at an index gives the invariant at the next one. -/
theorem Fin.foldl_invariant (invariant : ℕ → α → Prop) {n : ℕ} {step : α → Fin n → α}
    (hStep : ∀ (i : Fin n) (a : α), invariant i a → invariant (i + 1) (step a i)) {a : α}
    (h : invariant 0 a) : invariant n (Fin.foldl n step a) := by
  induction n generalizing invariant a with
  | zero => exact h
  | succ n ih =>
    rw [Fin.foldl_succ]
    have hFirst := hStep 0 a h
    exact ih (fun i => invariant (i + 1)) (fun i => hStep i.succ) hFirst

/-- Counting down: the invariant after an index gives the invariant at it. -/
theorem Fin.foldr_invariant (invariant : ℕ → α → Prop) {n : ℕ} {step : Fin n → α → α}
    (hStep : ∀ (i : Fin n) (a : α), invariant (i + 1) a → invariant i (step i a)) {a : α}
    (h : invariant n a) : invariant 0 (Fin.foldr n step a) := by
  induction n generalizing invariant with
  | zero => exact h
  | succ n ih =>
    rw [Fin.foldr_succ]
    have hRest := ih (fun i => invariant (i + 1)) (fun i => hStep i.succ) h
    exact hStep 0 _ hRest

/-- A loop that counts down visits the range from its end. -/
theorem Fin.foldr_eq_range {n : ℕ} {step : Fin n → α → α} {next : α → ℕ → α}
    (h : ∀ (i : Fin n) (a : α), step i a = next a i) (a : α) :
    Fin.foldr n step a = (List.range n).reverse.foldl next a := by
  induction n generalizing a with
  | zero => rfl
  | succ n ih =>
    rw [Fin.foldr_succ_last, List.range_succ, List.reverse_append, List.reverse_singleton,
      List.singleton_append, List.foldl_cons, h]
    exact ih (fun i => h i.castSucc) _

end Pure

/-- Counting up with reports: what one pass ensures at an index, the loop ensures at the end. -/
theorem Observed.Ensures.foldlM {ε α : Type u} {accept : ε → Prop}
    (invariant : ℕ → α → Prop) {n : ℕ} {step : α → Fin n → Observed ε α}
    (hStep : ∀ (i : Fin n) (a : α), invariant i a →
      Observed.Ensures accept (step a i) (invariant (i + 1))) {a : α} (h : invariant 0 a) :
    Observed.Ensures accept (Fin.foldlM n step a) (invariant n) := by
  induction n generalizing invariant a with
  | zero =>
    rw [Fin.foldlM_zero]
    exact .pure h
  | succ n ih =>
    rw [Fin.foldlM_succ]
    refine (hStep 0 a h).bind ?_
    intro b hb
    exact ih (fun i => invariant (i + 1)) (fun i => hStep i.succ) hb
