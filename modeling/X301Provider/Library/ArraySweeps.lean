import Mathlib.Data.List.Nodup
import Mathlib.Data.Vector.Basic

/-!
# Sweeps over an array in place

A sweep whose passes touch disjoint regions computes every entry from the array it started
with. A walk along distinct positions moves every entry to the next one, the value in hand
being the one it read last.
-/

universe u

variable {α : Type u} {n : ℕ}

section Sweep

variable {ι : Type*} (region : ι → Fin n → Prop)
  (pass : ι → List.Vector α n → List.Vector α n) (value : Fin n → List.Vector α n → α)

/-- A pass fills its own region from that region alone. -/
structure FillsRegions : Prop where
  disjoint : ∀ x x' j, region x j → region x' j → x = x'
  frame : ∀ x array j, ¬region x j → (pass x array).get j = array.get j
  write : ∀ x array j, region x j → (pass x array).get j = value j array
  onlyRegion : ∀ x (array array' : List.Vector α n) j, region x j →
    (∀ i, region x i → array.get i = array'.get i) → value j array = value j array'

variable {region pass value}

theorem FillsRegions.get_of_forall_not (h : FillsRegions region pass value) {passes : List ι}
    {j : Fin n} (hNone : ∀ x ∈ passes, ¬region x j) (array : List.Vector α n) :
    (passes.foldl (fun array x => pass x array) array).get j = array.get j := by
  induction passes generalizing array with
  | nil => rfl
  | cons x passes ih =>
    rw [List.forall_mem_cons] at hNone
    rw [List.foldl_cons, ih hNone.2, h.frame x array j hNone.1]

theorem FillsRegions.get (h : FillsRegions region pass value) {passes : List ι}
    (hNodup : passes.Nodup) {x : ι} (hx : x ∈ passes) {j : Fin n} (hj : region x j)
    (array : List.Vector α n) :
    (passes.foldl (fun array x => pass x array) array).get j = value j array := by
  induction passes generalizing array with
  | nil => exact absurd hx List.not_mem_nil
  | cons first passes ih =>
    rw [List.nodup_cons] at hNodup
    rw [List.foldl_cons]
    by_cases hFirst : x = first
    · subst hFirst
      have hRest : ∀ x' ∈ passes, ¬region x' j := fun x' hx' hj' =>
        hNodup.1 (h.disjoint x x' j hj hj' ▸ hx')
      rw [h.get_of_forall_not hRest, h.write x array j hj]
    · have hLater := List.mem_of_ne_of_mem hFirst hx
      rw [ih hNodup.2 hLater]
      refine h.onlyRegion x _ _ j hj fun i hi => h.frame first array i fun hi' => ?_
      exact hFirst (h.disjoint x first i hi hi')

/-- One entry a pass. -/
theorem FillsRegions.of_set {position : ι → Fin n} (hInjective : Function.Injective position)
    (change : Fin n → α → α) :
    FillsRegions (fun x j => j = position x)
      (fun x array => array.set (position x) (change (position x) (array.get (position x))))
      (fun j array => change j (array.get j)) where
  disjoint _ _ _ h h' := hInjective (h.symm.trans h')
  frame _ _ _ h := List.Vector.get_set_of_ne (Ne.symm h) _
  write x array j h := by
    subst h
    exact List.Vector.get_set_same _ _ _
  onlyRegion _ _ _ j h hSame := congrArg (change j) (hSame j h)

end Sweep

section Walk

/-- One step of a walk: take the entry at a position, leave the changed value in hand there. -/
def walkStep (carried : α × List.Vector α n) (step : Fin n × (α → α)) : α × List.Vector α n :=
  (carried.2.get step.1, carried.2.set step.1 (step.2 carried.1))

def walk (carried : α × List.Vector α n) (steps : List (Fin n × (α → α))) :
    α × List.Vector α n :=
  steps.foldl walkStep carried

/-- The value in hand after some steps: the entry at the last position. -/
def inHand (last : α) (array : List.Vector α n) (steps : List (Fin n × (α → α))) : α :=
  (steps.getLast?.map fun step => array.get step.1).getD last

theorem walk_get_of_notMem {steps : List (Fin n × (α → α))} {j : Fin n}
    (h : j ∉ steps.map Prod.fst) (carried : α × List.Vector α n) :
    (walk carried steps).2.get j = carried.2.get j := by
  induction steps generalizing carried with
  | nil => rfl
  | cons step steps ih =>
    rw [List.map_cons, List.mem_cons, not_or] at h
    have hFirst : (walkStep carried step).2.get j = carried.2.get j :=
      List.Vector.get_set_of_ne (Ne.symm h.1) _
    exact (ih h.2 _).trans hFirst

theorem walk_fst {steps : List (Fin n × (α → α))} (hNodup : (steps.map Prod.fst).Nodup) (last : α)
    (array : List.Vector α n) : (walk (last, array) steps).1 = inHand last array steps := by
  rcases List.eq_nil_or_concat steps with rfl | ⟨init, step, rfl⟩
  · rfl
  · rw [List.concat_eq_append] at hNodup ⊢
    rw [List.map_append, List.map_singleton, List.nodup_append] at hNodup
    have hFresh : step.1 ∉ init.map Prod.fst := fun hMem =>
      hNodup.2.2 step.1 hMem step.1 (List.mem_singleton_self _) rfl
    have hRead := walk_get_of_notMem hFresh (last, array)
    rw [walk, List.foldl_append, inHand, List.getLast?_append]
    exact hRead

/-- Every position of the walk holds the changed entry of the position before it. -/
theorem walk_get {before after : List (Fin n × (α → α))} {step : Fin n × (α → α)}
    (hNodup : ((before ++ step :: after).map Prod.fst).Nodup) (last : α)
    (array : List.Vector α n) :
    (walk (last, array) (before ++ step :: after)).2.get step.1 =
      step.2 (inHand last array before) := by
  rw [List.map_append, List.map_cons, List.nodup_append, List.nodup_cons] at hNodup
  have hAfter := walk_get_of_notMem hNodup.2.1.1
    (walkStep (walk (last, array) before) step)
  have hStep : (walkStep (walk (last, array) before) step).2.get step.1 =
      step.2 (walk (last, array) before).1 := List.Vector.get_set_same _ _ _
  rw [walk_fst hNodup.1] at hStep
  rw [walk, List.foldl_append]
  exact hAfter.trans hStep

theorem inHand_take (start : Fin n) (array : List.Vector α n) (steps : List (Fin n × (α → α)))
    {i : ℕ} (h : i < (start :: steps.map Prod.fst).length) :
    inHand (array.get start) array (steps.take i) =
      array.get ((start :: steps.map Prod.fst)[i]) := by
  cases i with
  | zero => rfl
  | succ i =>
    rw [List.length_cons, List.length_map] at h
    have hStep : i < steps.length := by omega
    have hLast : (steps.take (i + 1)).getLast? = some steps[i] := by
      rw [List.take_succ_eq_append_getElem hStep, List.getLast?_append]
      rfl
    rw [inHand, hLast, List.getElem_cons_succ, List.getElem_map]
    rfl

/-- The walk that starts with an entry of the array in hand. -/
theorem walk_get_index {steps : List (Fin n × (α → α))} (hNodup : (steps.map Prod.fst).Nodup)
    {start source : Fin n} {i : ℕ} {step : Fin n × (α → α)} (hStep : steps[i]? = some step)
    (hSource : (start :: steps.map Prod.fst)[i]? = some source) (array : List.Vector α n) :
    (walk (array.get start, array) steps).2.get step.1 = step.2 (array.get source) := by
  obtain ⟨h, rfl⟩ := List.getElem?_eq_some_iff.mp hStep
  obtain ⟨h', rfl⟩ := List.getElem?_eq_some_iff.mp hSource
  have hSplit : steps = steps.take i ++ steps[i] :: steps.drop (i + 1) := by
    rw [← List.drop_eq_getElem_cons h, List.take_append_drop]
  have hWalk := hNodup
  rw [hSplit] at hWalk
  have hGet := walk_get hWalk (array.get start) array
  rw [← hSplit, inHand_take start array steps h'] at hGet
  exact hGet

end Walk
