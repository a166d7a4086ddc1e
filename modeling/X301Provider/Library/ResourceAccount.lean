import X301Provider.Library.Cleanup

/-!
# Accounts of resources

A trace accounts for a set of resources when these were acquired and not yet released,
and everything else was never acquired or released exactly once. Acquiring a fresh
resource and releasing a live one keep the account.
-/

namespace ResourceEvent

variable {R : Type} [DecidableEq R]

/-- The events about one resource. -/
def about (trace : List (ResourceEvent R)) (resource : R) : List (ResourceEvent R) :=
  trace.filter fun event => event.resource = resource

def Fresh (trace : List (ResourceEvent R)) (resource : R) : Prop := about trace resource = []

/-- The live resources are those acquired and not released. -/
structure Accounts (trace : List (ResourceEvent R)) (live : R → Prop) : Prop where
  held : ∀ resource, live resource → about trace resource = [.acquired resource]
  settled : ∀ resource, ¬live resource → ReleasedOnce trace resource

variable {trace events : List (ResourceEvent R)} {live live' : R → Prop} {resource other : R}

theorem about_append (left right : List (ResourceEvent R)) (resource : R) :
    about (left ++ right) resource = about left resource ++ about right resource :=
  List.filter_append left right

theorem about_singleton_self (event : ResourceEvent R) : about [event] event.resource = [event] :=
  List.filter_cons_of_pos (decide_eq_true rfl)

theorem about_singleton_of_ne {event : ResourceEvent R} (h : event.resource ≠ resource) :
    about [event] resource = [] :=
  List.filter_cons_of_neg (by rwa [decide_eq_true_eq])

theorem Fresh.append (h : Fresh trace resource) {event : ResourceEvent R}
    (hEvent : event.resource ≠ resource) : Fresh (trace ++ [event]) resource := by
  rw [Fresh, about_append, about_singleton_of_ne hEvent, List.append_nil]
  exact h

theorem fresh_of_forall (h : ∀ event ∈ trace, event.resource ≠ resource) :
    Fresh trace resource := by
  refine List.filter_eq_nil_iff.mpr fun event hEvent => ?_
  rw [decide_eq_true_eq]
  exact h event hEvent

theorem accounts_nil : Accounts ([] : List (ResourceEvent R)) fun _ => False :=
  ⟨fun _ => False.elim, fun _ _ => Or.inl rfl⟩

section Map

variable {S : Type} [DecidableEq S] {f : R → S}

/-- The same event about a resource under another name. -/
def map (f : R → S) : ResourceEvent R → ResourceEvent S
  | .acquired resource => .acquired (f resource)
  | .released resource => .released (f resource)

omit [DecidableEq R] [DecidableEq S] in
theorem resource_map (f : R → S) (event : ResourceEvent R) :
    (event.map f).resource = f event.resource := by
  cases event <;> rfl

theorem about_map (hf : Function.Injective f) (trace : List (ResourceEvent R)) (resource : R) :
    about (trace.map (map f)) (f resource) = (about trace resource).map (map f) := by
  rw [about, List.filter_map, about]
  refine congrArg (List.map (map f)) (List.filter_congr fun event _ => ?_)
  rw [Function.comp_apply, resource_map, decide_eq_decide, hf.eq_iff]

omit [DecidableEq R] in
theorem about_map_of_forall_ne {other : S} (h : ∀ resource, f resource ≠ other)
    (trace : List (ResourceEvent R)) : about (trace.map (map f)) other = [] := by
  apply fresh_of_forall
  intro event hEvent
  obtain ⟨inner, -, rfl⟩ := List.mem_map.mp hEvent
  rw [resource_map]
  exact h inner.resource

end Map

namespace Accounts

theorem congr (h : Accounts trace live) (hLive : ∀ resource, live resource ↔ live' resource) :
    Accounts trace live' :=
  ⟨fun resource hr => h.held resource ((hLive resource).mpr hr),
    fun resource hr => h.settled resource fun hr' => hr ((hLive resource).mp hr')⟩

theorem acquire (h : Accounts trace live) (hFresh : Fresh trace resource) :
    Accounts (trace ++ [.acquired resource]) fun other => other = resource ∨ live other := by
  have hSelf := about_singleton_self (.acquired resource)
  have hOther : ∀ other, other ≠ resource →
      about (trace ++ [.acquired resource]) other = about trace other := by
    intro other hNe
    have hEvent : (ResourceEvent.acquired resource).resource ≠ other := hNe.symm
    rw [about_append, about_singleton_of_ne hEvent, List.append_nil]
  constructor
  · intro other hLive
    by_cases hNe : other = resource
    · subst hNe
      rw [about_append, hFresh]
      exact hSelf
    · rw [hOther other hNe]
      exact h.held other (hLive.resolve_left hNe)
  · intro other hLive
    rw [not_or] at hLive
    rw [ReleasedOnce, ← about, hOther other hLive.1]
    exact h.settled other hLive.2

theorem release (h : Accounts trace live) (hLive : live resource) :
    Accounts (trace ++ [.released resource]) fun other => other ≠ resource ∧ live other := by
  have hSelf := about_singleton_self (.released resource)
  have hOther : ∀ other, other ≠ resource →
      about (trace ++ [.released resource]) other = about trace other := by
    intro other hNe
    have hEvent : (ResourceEvent.released resource).resource ≠ other := hNe.symm
    rw [about_append, about_singleton_of_ne hEvent, List.append_nil]
  constructor
  · rintro other ⟨hNe, hOld⟩
    rw [hOther other hNe]
    exact h.held other hOld
  · intro other hGone
    by_cases hNe : other = resource
    · subst hNe
      refine Or.inr ?_
      rw [← about, about_append, h.held other hLive]
      exact congrArg (ResourceEvent.acquired other :: ·) hSelf
    · rw [ReleasedOnce, ← about, hOther other hNe]
      exact h.settled other fun hOld => hGone ⟨hNe, hOld⟩

/-- Acquired and released again. -/
theorem passing (h : Accounts trace live) (hFresh : Fresh trace resource) :
    Accounts (trace ++ [.acquired resource, .released resource]) live := by
  have hNotLive : ¬live resource := fun hLive => by
    rw [Fresh, h.held resource hLive] at hFresh
    cases hFresh
  have hBoth := (h.acquire hFresh).release (Or.inl rfl)
  rw [List.append_assoc] at hBoth
  refine hBoth.congr fun other => ?_
  constructor
  · rintro ⟨hNe, hOr⟩
    exact hOr.resolve_left hNe
  · intro hOld
    exact ⟨fun hEq => hNotLive (hEq ▸ hOld), Or.inr hOld⟩

theorem releasedOnce (h : Accounts trace live) (hNone : ∀ resource, ¬live resource) (resource : R) :
    ReleasedOnce trace resource := h.settled resource (hNone resource)

end Accounts

end ResourceEvent
