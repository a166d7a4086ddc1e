import Mathlib.Data.List.Nodup

/-!
# Functions with a cleanup label

A computation on a state that may jump to the end of its function, keeping the
state it had there. A triple gives the states in which it returns and the states
in which it jumps. What is acquired and released on the way is a trace of events.
-/

/-- The result is missing if the computation jumped. -/
def Cleanup (σ α : Type) : Type := σ → Option α × σ

namespace Cleanup

variable {σ α β : Type}

instance : Monad (Cleanup σ) where
  pure a := fun s => (some a, s)
  bind m f := fun s =>
    match m s with
    | (none, s) => (none, s)
    | (some a, s) => f a s

/-- `goto cleanup`. -/
def jump : Cleanup σ α := fun s => (none, s)

/-- Jump unless the condition holds. -/
def require (condition : Bool) : Cleanup σ Unit := if condition then pure () else jump

/-- Jump on a missing value. -/
def present (value : Option α) : Cleanup σ α := fun s => (value, s)

/-- An operation that does not jump. -/
def lift (f : σ → α × σ) : Cleanup σ α := fun s => (some (f s).1, (f s).2)

def modify (f : σ → σ) : Cleanup σ Unit := lift fun s => ((), f s)

variable {m : Cleanup σ α} {f : α → Cleanup σ β} {s s' : σ} {a : α} {b : β}

@[simp] theorem pure_apply (a : α) (s : σ) : (pure a : Cleanup σ α) s = (some a, s) := rfl

@[simp] theorem lift_apply (g : σ → α × σ) (s : σ) : lift g s = (some (g s).1, (g s).2) := rfl

@[simp] theorem modify_apply (g : σ → σ) (s : σ) : modify g s = (some (), g s) := rfl

@[simp] theorem present_apply (value : Option α) (s : σ) : present value s = (value, s) := rfl

@[simp] theorem require_apply (condition : Bool) (s : σ) :
    require condition s = (if condition then some () else none, s) := by
  cases condition with
  | true => rfl
  | false => rfl

theorem bind_apply : (m >>= f) s = match m s with
    | (none, s) => (none, s)
    | (some a, s) => f a s := rfl

theorem bind_of_some (h : m s = (some a, s')) : (m >>= f) s = f a s' := by
  rw [bind_apply, h]

theorem bind_of_none (h : m s = (none, s')) : (m >>= f) s = (none, s') := by
  rw [bind_apply, h]

@[simp] theorem lift_bind (g : σ → α × σ) (s : σ) : (lift g >>= f) s = f (g s).1 (g s).2 := rfl

@[simp] theorem modify_bind (g : σ → σ) (rest : Unit → Cleanup σ β) (s : σ) :
    (modify g >>= rest) s = rest () (g s) := rfl

@[simp] theorem present_bind (value : Option α) (s : σ) :
    (present value >>= f) s = match value with
      | none => (none, s)
      | some a => f a s := by
  cases value with
  | none => rfl
  | some a => rfl

@[simp] theorem require_bind (condition : Bool) (rest : Unit → Cleanup σ β) (s : σ) :
    (require condition >>= rest) s = if condition then rest () s else (none, s) := by
  cases condition with
  | true => rfl
  | false => rfl

theorem bind_eq_some (h : (m >>= f) s = (some b, s')) :
    ∃ a middle, m s = (some a, middle) ∧ f a middle = (some b, s') := by
  rcases hFirst : m s with ⟨_ | a, middle⟩
  · rw [bind_of_none hFirst] at h
    cases (Prod.mk.inj h).1
  · rw [bind_of_some hFirst] at h
    exact ⟨a, middle, rfl, h⟩

/-! ### Triples -/

/-- From `before` the computation returns into `after` or jumps into `jumped`. -/
def Triple (before : σ → Prop) (m : Cleanup σ α) (after : α → σ → Prop) (jumped : σ → Prop) :
    Prop :=
  ∀ s, before s → (∀ a, (m s).1 = some a → after a (m s).2) ∧ ((m s).1 = none → jumped (m s).2)

variable {before : σ → Prop} {after : β → σ → Prop} {middle : α → σ → Prop} {jumped : σ → Prop}

theorem Triple.bind (hFirst : Triple before m middle jumped)
    (hRest : ∀ a, Triple (middle a) (f a) after jumped) :
    Triple before (m >>= f) after jumped := by
  intro s hs
  obtain ⟨hReturn, hJump⟩ := hFirst s hs
  rcases hm : m s with ⟨_ | a, next⟩
  · rw [bind_of_none hm]
    rw [hm] at hJump
    refine ⟨?_, fun _ => hJump rfl⟩
    rintro _ ⟨⟩
  · rw [bind_of_some hm]
    rw [hm] at hReturn
    exact hRest a next (hReturn a rfl)

theorem Triple.pure {a : α} (h : ∀ s, before s → middle a s) :
    Triple before (Pure.pure a) middle jumped := by
  intro s hs
  constructor
  · rintro _ ⟨⟩
    exact h s hs
  · rintro ⟨⟩

theorem Triple.lift {g : σ → α × σ} (h : ∀ s, before s → middle (g s).1 (g s).2) :
    Triple before (Cleanup.lift g) middle jumped := by
  intro s hs
  constructor
  · rintro a ⟨⟩
    exact h s hs
  · rintro ⟨⟩

theorem Triple.require {condition : Bool} (hJump : ∀ s, before s → jumped s) :
    Triple before (Cleanup.require condition) (fun _ => before) jumped := by
  intro s hs
  rw [require_apply]
  exact ⟨fun _ _ => hs, fun _ => hJump s hs⟩

theorem Triple.present {value : Option α} (hJump : ∀ s, before s → jumped s) :
    Triple before (Cleanup.present value) (fun _ => before) jumped :=
  fun s hs => ⟨fun _ _ => hs, fun _ => hJump s hs⟩

theorem Triple.conseq {before' : σ → Prop} {after' : α → σ → Prop}
    (h : Triple before' m after' jumped) (hBefore : ∀ s, before s → before' s)
    (hAfter : ∀ a s, after' a s → middle a s) : Triple before m middle jumped := by
  intro s hs
  obtain ⟨hReturn, hJump⟩ := h s (hBefore s hs)
  exact ⟨fun a ha => hAfter a _ (hReturn a ha), hJump⟩

end Cleanup

/-! ### Acquired and released resources -/

inductive ResourceEvent (R : Type)
  | acquired (resource : R)
  | released (resource : R)
  deriving DecidableEq

namespace ResourceEvent

variable {R : Type}

def resource : ResourceEvent R → R
  | .acquired resource => resource
  | .released resource => resource

variable [DecidableEq R] {held freed : List R} {resource : R}

/-- The resource was never acquired, or acquired once and then released once. -/
def ReleasedOnce (trace : List (ResourceEvent R)) (resource : R) : Prop :=
  (trace.filter fun event => event.resource = resource) = [] ∨
    (trace.filter fun event => event.resource = resource) =
      [.acquired resource, .released resource]

theorem filter_map_of_not_mem {make : R → ResourceEvent R} (hMake : ∀ r, (make r).resource = r)
    (h : resource ∉ held) :
    ((held.map make).filter fun event => event.resource = resource) = [] := by
  rw [List.filter_eq_nil_iff]
  intro event hEvent
  obtain ⟨r, hr, rfl⟩ := List.mem_map.mp hEvent
  rw [hMake, decide_eq_true_iff]
  rintro rfl
  exact h hr

theorem filter_map_of_mem {make : R → ResourceEvent R} (hMake : ∀ r, (make r).resource = r)
    (hNodup : held.Nodup) (h : resource ∈ held) :
    ((held.map make).filter fun event => event.resource = resource) = [make resource] := by
  induction held with
  | nil => cases h
  | cons first held ih =>
    obtain ⟨hFirst, hRest⟩ := List.nodup_cons.mp hNodup
    rw [List.map_cons, List.filter_cons]
    rcases List.mem_cons.mp h with rfl | hMem
    · rw [if_pos (by rw [hMake, decide_eq_true_iff]), filter_map_of_not_mem hMake hFirst]
    · rw [if_neg, ih hRest hMem]
      rw [hMake, decide_eq_true_iff]
      rintro rfl
      exact hFirst hMem

theorem releasedOnce_of_perm (hNodup : held.Nodup) (hPerm : freed.Perm held) (resource : R) :
    ReleasedOnce (held.map .acquired ++ freed.map .released) resource := by
  rw [ReleasedOnce, List.filter_append]
  by_cases hHeld : resource ∈ held
  · right
    rw [filter_map_of_mem (fun _ => rfl) hNodup hHeld,
      filter_map_of_mem (fun _ => rfl) (hPerm.nodup_iff.mpr hNodup) (hPerm.mem_iff.mpr hHeld)]
    rfl
  · left
    rw [filter_map_of_not_mem (fun _ => rfl) hHeld,
      filter_map_of_not_mem (fun _ => rfl) (fun hFreed => hHeld (hPerm.mem_iff.mp hFreed))]
    rfl

end ResourceEvent
