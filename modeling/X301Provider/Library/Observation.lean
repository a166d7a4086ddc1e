import Mathlib.Control.Monad.Writer

/-!
# Computations that report on their way

A program that checks or records its intermediate results is a writer computation,
and what it computes without the reports is its value. `Passes` says that the value
is a given one and that every report is acceptable; its rules follow the structure of
the program.
-/

universe u

/-- A computation with the reports it makes, in order. -/
abbrev Observed (ε α : Type u) := Writer (List ε) α

namespace Observed

variable {ε α β ι : Type u} {accept : ε → Prop}

/-- What the computation returns when nobody listens. -/
def value (x : Observed ε α) : α := x.run.run.1

def reports (x : Observed ε α) : List ε := x.run.run.2

def report (event : ε) : Observed ε PUnit := tell [event]

@[simp] theorem value_bind (x : Observed ε α) (f : α → Observed ε β) :
    (x >>= f).value = (f x.value).value := rfl

@[simp] theorem reports_bind (x : Observed ε α) (f : α → Observed ε β) :
    (x >>= f).reports = x.reports ++ (f x.value).reports := rfl

@[simp] theorem reports_report (event : ε) : (report event).reports = [event] := rfl

/-- The computation returns the value, and every report on the way is accepted. -/
structure Passes (accept : ε → Prop) (x : Observed ε α) (a : α) : Prop where
  value_eq : x.value = a
  accepted : ∀ event ∈ x.reports, accept event

theorem Passes.pure (a : α) : Passes accept (pure a) a := by
  constructor
  · rfl
  · rintro event ⟨⟩

theorem Passes.report {event : ε} (h : accept event) : Passes accept (report event) ⟨⟩ := by
  constructor
  · rfl
  · intro other hOther
    rw [reports_report, List.mem_singleton] at hOther
    exact hOther ▸ h

theorem Passes.bind {x : Observed ε α} {f : α → Observed ε β} {a : α} {b : β}
    (hx : Passes accept x a) (hf : Passes accept (f a) b) : Passes accept (x >>= f) b := by
  have hValue := hx.value_eq
  constructor
  · rw [value_bind, hValue, hf.value_eq]
  · intro event hEvent
    rw [reports_bind, List.mem_append, hValue] at hEvent
    cases hEvent with
    | inl hFirst =>
      exact hx.accepted event hFirst
    | inr hRest =>
      exact hf.accepted event hRest

/-- A loop passes when its body does under an invariant of the silent loop. -/
theorem Passes.foldlM {step : α → ι → Observed ε α} {silent : α → ι → α} {invariant : α → Prop}
    (hStep : ∀ a i, invariant a →
      Passes accept (step a i) (silent a i) ∧ invariant (silent a i))
    (items : List ι) {a : α} (h : invariant a) :
    Passes accept (items.foldlM step a) (items.foldl silent a) := by
  induction items generalizing a with
  | nil => exact .pure a
  | cons i items ih =>
    obtain ⟨hBody, hNext⟩ := hStep a i h
    exact hBody.bind (ih hNext)

/-- The value meets a postcondition, and every report on the way is accepted. -/
structure Ensures (accept : ε → Prop) (x : Observed ε α) (post : α → Prop) : Prop where
  value_post : post x.value
  accepted : ∀ event ∈ x.reports, accept event

section Ensures

variable {x : Observed ε α} {post post' : α → Prop}

theorem Ensures.pure {a : α} (h : post a) : Ensures accept (Pure.pure a) post := by
  constructor
  · exact h
  · rintro event ⟨⟩

theorem Ensures.bind {f : α → Observed ε β} {last : β → Prop} (hx : Ensures accept x post)
    (hf : ∀ a, post a → Ensures accept (f a) last) : Ensures accept (x >>= f) last := by
  have hRest := hf x.value hx.value_post
  constructor
  · exact hRest.value_post
  · intro event hEvent
    rw [reports_bind, List.mem_append] at hEvent
    cases hEvent with
    | inl hFirst =>
      exact hx.accepted event hFirst
    | inr hLater =>
      exact hRest.accepted event hLater

theorem Ensures.mono (hx : Ensures accept x post) (h : ∀ a, post a → post' a) :
    Ensures accept x post' := by
  constructor
  · exact h _ hx.value_post
  · exact hx.accepted

theorem Passes.ensures {a : α} (hx : Passes accept x a) : Ensures accept x (· = a) := by
  constructor
  · exact hx.value_eq
  · exact hx.accepted

/-- A postcondition that only one value meets determines the value. -/
theorem Ensures.passes {a : α} (hx : Ensures accept x post) (h : ∀ b, post b → b = a) :
    Passes accept x a := by
  constructor
  · exact h _ hx.value_post
  · exact hx.accepted

end Ensures

end Observed
