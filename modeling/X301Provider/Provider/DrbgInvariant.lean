import X301Provider.Provider.Drbg

/-!
# At most one generator

In every interleaving a single context is ever published. All calls that succeed use it,
it stays until teardown, and every other object that an attempt acquired was released by
that attempt. A call fails only if libcrypto failed, and no interleaving blocks.
-/

namespace X301Provider

open ResourceEvent

section Attempt

variable (attempt : ℕ) (rand : RandOutcomes)

/-- What an attempt can do: nothing, the algorithm only, both and back, or a context. -/
theorem drbgNew_cases :
    drbgNew attempt rand = (none, []) ∨
    drbgNew attempt rand =
      (none, [.acquired (.algorithm attempt), .released (.algorithm attempt)]) ∨
    drbgNew attempt rand = (none, [.acquired (.algorithm attempt), .acquired (.context attempt),
      .released (.algorithm attempt), .released (.context attempt)]) ∨
    drbgNew attempt rand = (some attempt, [.acquired (.algorithm attempt),
      .acquired (.context attempt), .released (.algorithm attempt)]) := by
  unfold drbgNew
  by_cases hPrimary : !rand.getPrimary
  · exact Or.inl (if_pos hPrimary)
  rw [if_neg hPrimary]
  by_cases hFetch : !rand.fetch "CTR-DRBG"
  · exact Or.inl (if_pos hFetch)
  rw [if_neg hFetch]
  by_cases hContext : !rand.contextNew
  · exact Or.inr (Or.inl (if_pos hContext))
  rw [if_neg hContext]
  by_cases hReady : !rand.enableLocking || !rand.instantiate securityBits "AES-256-CTR"
  · exact Or.inr (Or.inr (Or.inl (if_pos hReady)))
  · exact Or.inr (Or.inr (Or.inr (if_neg hReady)))

theorem attempt_of_mem_drbgNew :
    ∀ event ∈ (drbgNew attempt rand).2, event.resource.attempt = attempt := by
  rcases drbgNew_cases attempt rand with h | h | h | h <;> rw [h] <;>
    simp [ResourceEvent.resource, DrbgResource.attempt]

variable {attempt rand}

/-- Only the context that is returned stays alive. -/
theorem drbgNew_accounts {trace : DrbgTrace} {live : DrbgResource → Prop}
    (h : Accounts trace live) (hAlgorithm : Fresh trace (.algorithm attempt))
    (hContext : Fresh trace (.context attempt)) :
    Accounts (trace ++ (drbgNew attempt rand).2) fun resource =>
      (drbgNew attempt rand).1.map .context = some resource ∨ live resource := by
  have hNotLive : ∀ resource, Fresh trace resource → ¬live resource := by
    intro resource hFresh hLive
    rw [Fresh, h.held resource hLive] at hFresh
    cases hFresh
  have hDistinct : DrbgResource.algorithm attempt ≠ .context attempt := by simp
  have hContext' : Fresh (trace ++ [.acquired (.algorithm attempt)]) (.context attempt) :=
    hContext.append hDistinct
  have hBoth := ((h.acquire hAlgorithm).acquire hContext').release (Or.inr (Or.inl rfl))
  rw [List.append_assoc, List.append_assoc] at hBoth
  rcases drbgNew_cases attempt rand with hNew | hNew | hNew | hNew
  · rw [hNew, List.append_nil]
    exact h.congr fun resource => by simp
  · rw [hNew]
    exact (h.passing hAlgorithm).congr fun resource => by simp
  · rw [hNew]
    have hBack := @Accounts.release _ _ _ _ (.context attempt) hBoth
      ⟨hDistinct.symm, Or.inl rfl⟩
    rw [List.append_assoc] at hBack
    refine hBack.congr fun resource => ?_
    constructor
    · rintro ⟨hNe, hNe', hEq | hEq | hLive⟩
      · exact absurd hEq hNe
      · exact absurd hEq hNe'
      · exact Or.inr hLive
    · rintro (⟨⟨⟩⟩ | hLive)
      exact ⟨fun hEq => hNotLive _ hContext (hEq ▸ hLive),
        fun hEq => hNotLive _ hAlgorithm (hEq ▸ hLive), Or.inr (Or.inr hLive)⟩
  · rw [hNew]
    refine hBoth.congr fun resource => ?_
    constructor
    · rintro ⟨hNe, hEq | hEq | hLive⟩
      · exact Or.inl (congrArg some hEq.symm)
      · exact absurd hEq hNe
      · exact Or.inr hLive
    · rintro (hEq | hLive)
      · obtain rfl := Option.some.inj hEq
        exact ⟨hDistinct.symm, Or.inl rfl⟩
      · exact ⟨fun hEq => hNotLive _ hAlgorithm (hEq ▸ hLive), Or.inr (Or.inr hLive)⟩

end Attempt

/-- How many steps a call has left. -/
def DrbgCall.remaining : DrbgCall → ℕ
  | .idle => 0
  | .returned _ => 1
  | .writeDone _ => 2
  | .storing _ => 3
  | .creating => 4
  | .writing => 5
  | .missing => 6
  | .readDone _ => 7
  | .reading => 8
  | .entering => 9

/-- A call that can still succeed. -/
def DrbgCall.Unfailed : DrbgCall → Prop
  | .storing drbg | .writeDone drbg | .returned drbg => drbg.isSome = true
  | _ => True

/-- The RAND functions answer success to the arguments that they are called with. -/
structure RandOutcomes.Success (rand : RandOutcomes) : Prop where
  getPrimary : rand.getPrimary = true
  fetch : rand.fetch "CTR-DRBG" = true
  contextNew : rand.contextNew = true
  enableLocking : rand.enableLocking = true
  instantiate : rand.instantiate securityBits "AES-256-CTR" = true
  generate : rand.generate 38 securityBits = 1

theorem RandOutcomes.Success.drbgNew {rand : RandOutcomes} (h : rand.Success) (attempt : ℕ) :
    (drbgNew attempt rand).1 = some attempt := by
  simp [X301Provider.drbgNew, h.getPrimary, h.fetch, h.contextNew, h.enableLocking, h.instantiate]

/-- The step's arguments are those that the Rust side passes, and libcrypto does not fail. -/
structure DrbgEnvironment.Works (environment : DrbgEnvironment) : Prop where
  output : environment.outputIsNull = false ∧ environment.outputLength = 38
  locks : environment.locks = true
  rand : environment.rand.Success

namespace DrbgWorld

variable {τ : Type} [DecidableEq τ] {world : DrbgWorld τ} {t : τ} {call : DrbgCall}

/-- The context published in the provider, or about to be. -/
def Owns (world : DrbgWorld τ) (resource : DrbgResource) : Prop :=
  ∃ context, resource = .context context ∧
    (world.drbg = some context ∨ ∃ t, world.calls t = .storing (some context))

/-- What holds in every state of every interleaving. -/
structure Invariant (world : DrbgWorld τ) : Prop where
  locked : world.lock.Matches fun t => (world.calls t).hold
  known : ∀ t context, (world.calls t).known = some context → world.drbg = some context
  unpublished : ∀ t, world.calls t = .creating ∨ (∃ drbg, world.calls t = .storing drbg) →
    world.drbg = none
  finished : ∀ call ∈ world.finished,
    (∀ context, call.drbg = some context → world.drbg = some context) ∧
      (call.drbg = none → call.status = false)
  attempts : ∀ event ∈ world.trace, event.resource.attempt < world.attempts
  accounts : Accounts world.trace world.Owns

omit [DecidableEq τ] in
theorem invariant_initial (hasLibctx hasLock : Bool) :
    (initial hasLibctx hasLock : DrbgWorld τ).Invariant where
  locked := RwLock.matches_unlocked
  known _ _ h := by cases h
  unpublished t h := by
    rcases h with h | ⟨_, h⟩ <;> cases h
  finished _ h := by cases h
  attempts _ h := by cases h
  accounts := accounts_nil.congr fun resource => by simp [Owns, initial]

@[simp] theorem goto_calls (world : DrbgWorld τ) (t : τ) (call : DrbgCall) :
    (world.goto t call).calls t = call := by
  simp only [goto, Function.update_self]

theorem goto_calls_of_ne (world : DrbgWorld τ) {s t : τ} (h : s ≠ t) (call : DrbgCall) :
    (world.goto t call).calls s = world.calls s := by
  simp only [goto, Function.update_of_ne h]

theorem hold_update (calls : τ → DrbgCall) (t : τ) (call : DrbgCall) :
    (fun s => (Function.update calls t call s).hold) =
      Function.update (fun s => (calls s).hold) t call.hold := by
  funext s
  exact Function.apply_update (fun _ => DrbgCall.hold) calls t call s

/-- A thread moves on, perhaps with the lock; it had nothing to publish and has nothing yet. -/
theorem Invariant.move (h : world.Invariant) {lock : RwLock τ}
    (hLock : lock.Matches (Function.update (fun s => (world.calls s).hold) t call.hold))
    (hKnown : ∀ context, call.known = some context → world.drbg = some context)
    (hPublished : call = .creating ∨ (∃ drbg, call = .storing drbg) → world.drbg = none)
    (hBefore : ∀ context, world.calls t ≠ .storing (some context))
    (hAfter : ∀ context, call ≠ .storing (some context)) :
    ({ world.goto t call with lock } : DrbgWorld τ).Invariant where
  locked := by
    rw [← hold_update] at hLock
    exact hLock
  known s context hs := by
    change (Function.update world.calls t call s).known = some context at hs
    by_cases hSame : s = t
    · subst hSame
      rw [Function.update_self] at hs
      exact hKnown context hs
    · rw [Function.update_of_ne hSame] at hs
      exact h.known s context hs
  unpublished s hs := by
    change Function.update world.calls t call s = .creating ∨
      (∃ drbg, Function.update world.calls t call s = .storing drbg) at hs
    by_cases hSame : s = t
    · subst hSame
      rw [Function.update_self] at hs
      exact hPublished hs
    · rw [Function.update_of_ne hSame] at hs
      exact h.unpublished s hs
  finished := h.finished
  attempts := h.attempts
  accounts := by
    refine h.accounts.congr fun resource => ?_
    have hStoring : ∀ context, (∃ s, world.calls s = .storing (some context)) ↔
        ∃ s, Function.update world.calls t call s = .storing (some context) := by
      intro context
      constructor
      · rintro ⟨s, hs⟩
        have hNe : s ≠ t := fun hSame => hBefore context (hSame ▸ hs)
        exact ⟨s, by rwa [Function.update_of_ne hNe]⟩
      · rintro ⟨s, hs⟩
        by_cases hSame : s = t
        · subst hSame
          rw [Function.update_self] at hs
          exact absurd hs (hAfter context)
        · exact ⟨s, by rwa [Function.update_of_ne hSame] at hs⟩
    simp only [Owns, hStoring]
    rfl

theorem Invariant.goto (h : world.Invariant) (hHold : call.hold = (world.calls t).hold)
    (hKnown : ∀ context, call.known = some context → world.drbg = some context)
    (hPublished : call = .creating ∨ (∃ drbg, call = .storing drbg) → world.drbg = none)
    (hBefore : ∀ context, world.calls t ≠ .storing (some context))
    (hAfter : ∀ context, call ≠ .storing (some context)) :
    (world.goto t call).Invariant := by
  refine h.move ?_ hKnown hPublished hBefore hAfter
  have hLocked := h.locked
  rwa [hHold, Function.update_eq_self t fun s => (world.calls s).hold]

theorem Invariant.finish (h : world.Invariant) {drbg : Option Handle} {status : Bool}
    (hCall : (world.calls t).hold = .nothing)
    (hDrbg : ∀ context, drbg = some context → world.drbg = some context)
    (hStatus : drbg = none → status = false) : (world.finish t drbg status).Invariant := by
  have hBefore : ∀ context, world.calls t ≠ .storing (some context) := by
    intro context hStoring
    rw [hStoring] at hCall
    cases hCall
  have hIdle : (world.goto t .idle).Invariant :=
    h.goto hCall.symm nofun (by simp) hBefore nofun
  refine ⟨hIdle.locked, hIdle.known, hIdle.unpublished, ?_, hIdle.attempts, hIdle.accounts⟩
  intro call hMem
  rcases List.mem_append.mp hMem with hOld | hNew
  · exact h.finished call hOld
  · obtain rfl := List.mem_singleton.mp hNew
    exact ⟨hDrbg, hStatus⟩

omit [DecidableEq τ] in
/-- A thread in the writing part knows that no other thread is there. -/
theorem Invariant.alone (h : world.Invariant) (hWrite : (world.calls t).hold = .write) {s : τ}
    (hNe : s ≠ t) : (world.calls s).hold = .nothing :=
  h.locked.nothing_of_write hWrite hNe

omit [DecidableEq τ] in
theorem Invariant.fresh (h : world.Invariant) {resource : DrbgResource}
    (hAttempt : resource.attempt = world.attempts) : Fresh world.trace resource := by
  refine fresh_of_forall fun event hEvent hSame => ?_
  have hLt := h.attempts event hEvent
  rw [hSame, hAttempt] at hLt
  exact lt_irrefl _ hLt

/-- The only writer makes an attempt. -/
theorem Invariant.create (h : world.Invariant) (hCall : world.calls t = .creating)
    (rand : RandOutcomes) :
    ({ world.goto t (.storing (drbgNew world.attempts rand).1) with
      attempts := world.attempts + 1
      trace := world.trace ++ (drbgNew world.attempts rand).2 } : DrbgWorld τ).Invariant := by
  have hWrite : (world.calls t).hold = .write := by
    rw [hCall]
    rfl
  have hEmpty := h.unpublished t (Or.inl hCall)
  generalize hNew : drbgNew world.attempts rand = new
  have hSame : ∀ s, Function.update world.calls t (.storing new.1) s =
      if s = t then .storing new.1 else world.calls s := fun s => Function.update_apply _ _ _ s
  have hNotStoring : ∀ s context, world.calls s ≠ .storing (some context) := by
    intro s context hs
    by_cases hNe : s = t
    · rw [hNe, hCall] at hs
      cases hs
    · have hNothing := h.alone hWrite hNe
      rw [hs] at hNothing
      cases hNothing
  constructor
  · have hLocked := h.locked
    rw [← Function.update_eq_self t fun s => (world.calls s).hold, hWrite] at hLocked
    change world.lock.Matches fun s => (Function.update world.calls t (.storing new.1) s).hold
    rw [hold_update]
    exact hLocked
  · intro s context hs
    change (Function.update world.calls t (.storing new.1) s).known = some context at hs
    rw [hSame] at hs
    split at hs
    · cases hs
    · exact h.known s context hs
  · exact fun _ _ => hEmpty
  · exact h.finished
  · intro event hEvent
    rcases List.mem_append.mp hEvent with hOld | hNewEvent
    · exact Nat.lt_succ_of_lt (h.attempts event hOld)
    · have hAttempt := attempt_of_mem_drbgNew world.attempts rand event
      rw [hNew] at hAttempt
      rw [hAttempt hNewEvent]
      exact Nat.lt_succ_self _
  · have hAccounts := @drbgNew_accounts world.attempts rand _ _ h.accounts (h.fresh rfl)
      (h.fresh rfl)
    rw [hNew] at hAccounts
    refine hAccounts.congr fun resource => ?_
    constructor
    · rintro (hSome | ⟨context, -, hOld | ⟨s, hs⟩⟩)
      · obtain ⟨context, hContext, rfl⟩ := Option.map_eq_some_iff.mp hSome
        refine ⟨context, rfl, Or.inr ⟨t, ?_⟩⟩
        change Function.update world.calls t (.storing new.1) t = _
        rw [Function.update_self, hContext]
      · rw [hEmpty] at hOld
        cases hOld
      · exact absurd hs (hNotStoring s context)
    · rintro ⟨context, rfl, hDrbg | ⟨s, hs⟩⟩
      · have hNone : world.drbg = some context := hDrbg
        rw [hEmpty] at hNone
        cases hNone
      · change Function.update world.calls t (.storing new.1) s = _ at hs
        rw [hSame] at hs
        split at hs
        · rw [DrbgCall.storing.inj hs]
          exact Or.inl rfl
        · exact absurd hs (hNotStoring s context)

/-- The only writer publishes what its attempt returned. -/
theorem Invariant.store (h : world.Invariant) {drbg : Option Handle}
    (hCall : world.calls t = .storing drbg) :
    ({ world.goto t (.writeDone drbg) with drbg } : DrbgWorld τ).Invariant := by
  have hWrite : (world.calls t).hold = .write := by
    rw [hCall]
    rfl
  have hEmpty := h.unpublished t (Or.inr ⟨drbg, hCall⟩)
  have hNotKnown : ∀ s context, (world.calls s).known ≠ some context := by
    intro s context hs
    have hKnown := h.known s context hs
    rw [hEmpty] at hKnown
    cases hKnown
  have hSame : ∀ s, Function.update world.calls t (.writeDone drbg) s =
      if s = t then .writeDone drbg else world.calls s := fun s => Function.update_apply _ _ _ s
  constructor
  · have hLocked := h.locked
    rw [← Function.update_eq_self t fun s => (world.calls s).hold, hWrite] at hLocked
    change world.lock.Matches fun s => (Function.update world.calls t (.writeDone drbg) s).hold
    rw [hold_update]
    exact hLocked
  · intro s context hs
    change (Function.update world.calls t (.writeDone drbg) s).known = some context at hs
    rw [hSame] at hs
    split at hs
    · exact hs
    · exact absurd hs (hNotKnown s context)
  · intro s hs
    change Function.update world.calls t (.writeDone drbg) s = .creating ∨
      (∃ drbg', Function.update world.calls t (.writeDone drbg) s = .storing drbg') at hs
    rw [hSame] at hs
    split at hs
    · rcases hs with hs | ⟨_, hs⟩ <;> cases hs
    · rename_i hNe
      have hNothing := h.alone hWrite hNe
      rcases hs with hs | ⟨_, hs⟩ <;> rw [hs] at hNothing <;> cases hNothing
  · intro call hMem
    refine ⟨fun context hContext => ?_, (h.finished call hMem).2⟩
    have hOld := (h.finished call hMem).1 context hContext
    rw [hEmpty] at hOld
    cases hOld
  · exact h.attempts
  · refine h.accounts.congr fun resource => ?_
    constructor
    · rintro ⟨context, rfl, hOld | ⟨s, hs⟩⟩
      · rw [hEmpty] at hOld
        cases hOld
      · have hThread : s = t := h.locked.eq_of_write (by rw [hs]; rfl) hWrite
        rw [hThread, hCall] at hs
        exact ⟨context, rfl, Or.inl (DrbgCall.storing.inj hs)⟩
    · rintro ⟨context, rfl, hDrbg | ⟨s, hs⟩⟩
      · have hStored : drbg = some context := hDrbg
        exact ⟨context, rfl, Or.inr ⟨t, by rw [hCall, hStored]⟩⟩
      · change Function.update world.calls t (.writeDone drbg) s = _ at hs
        rw [hSame] at hs
        split at hs
        · cases hs
        · exact ⟨context, rfl, Or.inr ⟨s, hs⟩⟩

/-- Every step keeps the invariant. -/
theorem Invariant.step (h : world.Invariant) (t : τ) (environment : DrbgEnvironment) :
    (world.step t environment).Invariant := by
  rw [DrbgWorld.step]
  have hLocked := h.locked
  have hKnown := h.known t
  cases hCall : world.calls t with
  | idle =>
    have hHold : (world.calls t).hold = .nothing := by rw [hCall]; rfl
    simp only
    split
    · exact h.finish hHold nofun fun _ => rfl
    · split
      · exact h.goto hHold.symm nofun (by simp) (by simp [hCall]) (by simp)
      · exact h.goto hHold.symm nofun (by simp) (by simp [hCall]) (by simp)
  | entering =>
    have hHold : (world.calls t).hold = .nothing := by rw [hCall]; rfl
    simp only
    split
    · exact h.goto hHold.symm nofun (by simp) (by simp [hCall]) (by simp)
    · cases hRead : world.lock.read t with
      | none => exact h
      | some lock =>
        exact h.move (hLocked.read hHold hRead) nofun (by simp) (by simp [hCall]) (by simp)
  | reading =>
    have hHold : (world.calls t).hold = .read := by rw [hCall]; rfl
    exact h.goto hHold.symm (fun _ hContext => hContext) (by simp) (by simp [hCall]) (by simp)
  | readDone drbg =>
    have hHold : (world.calls t).hold ≠ .nothing := by rw [hCall]; exact nofun
    rw [hCall] at hKnown
    cases drbg with
    | none => exact h.move (hLocked.unlock hHold) nofun (by simp) (by simp [hCall]) (by simp)
    | some context =>
      exact h.move (hLocked.unlock hHold) hKnown (by simp) (by simp [hCall]) (by simp)
  | missing =>
    have hHold : (world.calls t).hold = .nothing := by rw [hCall]; rfl
    simp only
    split
    · exact h.goto hHold.symm nofun (by simp) (by simp [hCall]) (by simp)
    · cases hWrite : world.lock.write t with
      | none => exact h
      | some lock =>
        exact h.move (hLocked.write hWrite) nofun (by simp) (by simp [hCall]) (by simp)
  | writing =>
    have hHold : (world.calls t).hold = .write := by rw [hCall]; rfl
    cases hDrbg : world.drbg with
    | none => exact h.goto hHold.symm nofun (fun _ => hDrbg) (by simp [hCall]) (by simp)
    | some context =>
      exact h.goto hHold.symm (fun _ hContext => hDrbg.trans hContext) (by simp) (by simp [hCall])
        (by simp)
  | creating => exact h.create hCall environment.rand
  | storing drbg => exact h.store hCall
  | writeDone drbg =>
    have hHold : (world.calls t).hold ≠ .nothing := by rw [hCall]; exact nofun
    rw [hCall] at hKnown
    exact h.move (hLocked.unlock hHold) hKnown (by simp) (by simp [hCall]) (by simp)
  | returned drbg =>
    have hHold : (world.calls t).hold = .nothing := by rw [hCall]; rfl
    rw [hCall] at hKnown
    cases drbg with
    | none => exact h.finish hHold nofun fun _ => rfl
    | some context => exact h.finish hHold hKnown nofun

theorem Invariant.run (h : world.Invariant) (schedule : List (τ × DrbgEnvironment)) :
    (world.run schedule).Invariant := by
  induction schedule generalizing world with
  | nil => exact h
  | cons event schedule ih => exact ih (h.step event.1 event.2)

/-- A published context is never replaced. -/
theorem Invariant.step_drbg (h : world.Invariant) {context : Handle}
    (hDrbg : world.drbg = some context) (t : τ) (environment : DrbgEnvironment) :
    (world.step t environment).drbg = some context := by
  cases hCall : world.calls t with
  | storing drbg =>
    rw [h.unpublished t (Or.inr ⟨drbg, hCall⟩)] at hDrbg
    cases hDrbg
  | idle =>
    simp only [DrbgWorld.step, hCall]
    split
    · exact hDrbg
    · split <;> exact hDrbg
  | entering =>
    simp only [DrbgWorld.step, hCall]
    split
    · exact hDrbg
    · split <;> exact hDrbg
  | missing =>
    simp only [DrbgWorld.step, hCall]
    split
    · exact hDrbg
    · split <;> exact hDrbg
  | reading =>
    simp only [DrbgWorld.step, hCall]
    exact hDrbg
  | readDone drbg =>
    cases drbg <;> simp only [DrbgWorld.step, hCall] <;> exact hDrbg
  | writing =>
    simp only [DrbgWorld.step, hCall, hDrbg]
    exact hDrbg
  | creating =>
    simp only [DrbgWorld.step, hCall]
    exact hDrbg
  | writeDone drbg =>
    simp only [DrbgWorld.step, hCall]
    exact hDrbg
  | returned drbg =>
    cases drbg <;> simp only [DrbgWorld.step, hCall] <;> exact hDrbg

theorem Invariant.run_drbg (h : world.Invariant) {context : Handle}
    (hDrbg : world.drbg = some context) (schedule : List (τ × DrbgEnvironment)) :
    (world.run schedule).drbg = some context := by
  induction schedule generalizing world with
  | nil => exact hDrbg
  | cons event schedule ih =>
    exact ih (h.step event.1 event.2) (h.step_drbg hDrbg event.1 event.2)

omit [DecidableEq τ] in
/-- Teardown between calls settles every account. -/
theorem Invariant.teardown (h : world.Invariant) (hIdle : ∀ t, world.calls t = .idle)
    (resource : DrbgResource) : ReleasedOnce world.teardown.trace resource := by
  have hOwns : ∀ resource, world.Owns resource ↔ world.drbg.map .context = some resource := by
    intro resource
    rw [Option.map_eq_some_iff]
    constructor
    · rintro ⟨context, hResource, hDrbg | ⟨t, ht⟩⟩
      · exact ⟨context, hDrbg, hResource.symm⟩
      · rw [hIdle] at ht
        cases ht
    · rintro ⟨context, hDrbg, hResource⟩
      exact ⟨context, hResource.symm, Or.inl hDrbg⟩
  have hAccounts := h.accounts.congr hOwns
  rw [DrbgWorld.teardown]
  cases hDrbg : world.drbg with
  | none =>
    rw [hDrbg] at hAccounts
    simp only [drbgFree, List.append_nil]
    exact hAccounts.releasedOnce (fun _ => nofun) resource
  | some context =>
    rw [hDrbg] at hAccounts
    have hReleased := @Accounts.release _ _ _ _ (.context context) hAccounts rfl
    refine hReleased.releasedOnce ?_ resource
    rintro other ⟨hNe, hOther⟩
    exact hNe (Option.some.inj hOther).symm

/-- The whole life of a generator: whatever the scheduler and libcrypto do, a published context
stays, every successful call ran on it, the thread that creates it is alone, and after teardown
everything that was ever acquired was released exactly once. -/
theorem run_shares_context (hasLibctx hasLock : Bool)
    (before after : List (τ × DrbgEnvironment)) :
    let first := (initial hasLibctx hasLock : DrbgWorld τ).run before
    let last := first.run after
    (∀ context, first.drbg = some context → last.drbg = some context) ∧
      (∀ call ∈ last.finished, ∀ context, call.drbg = some context → last.drbg = some context) ∧
      (∀ call ∈ last.finished, call.drbg = none → call.status = false) ∧
      (∀ s t, (last.calls s).hold = .write → t ≠ s → (last.calls t).hold = .nothing) ∧
      ((∀ t, last.calls t = .idle) →
        ∀ resource, ReleasedOnce last.teardown.trace resource) := by
  intro first last
  have hFirst : first.Invariant := (invariant_initial hasLibctx hasLock).run before
  have hLast : last.Invariant := hFirst.run after
  exact ⟨fun _ hDrbg => hFirst.run_drbg hDrbg after,
    fun call hMem context => (hLast.finished call hMem).1 context,
    fun call hMem => (hLast.finished call hMem).2,
    fun _ _ hWrite hNe => hLast.alone hWrite hNe, hLast.teardown⟩

section Progress

/-- The thread waits for the lock. -/
def Waits (world : DrbgWorld τ) (t : τ) : Prop :=
  (world.calls t = .entering ∧ world.lock.read t = none) ∨
    (world.calls t = .missing ∧ world.lock.write t = none)

/-- A step of a call shortens it, or the thread waits and nothing happens. -/
theorem step_remaining (world : DrbgWorld τ) {t : τ} (hCall : world.calls t ≠ .idle)
    (environment : DrbgEnvironment) :
    (world.Waits t ∧ world.step t environment = world) ∨
      ((world.step t environment).calls t).remaining < (world.calls t).remaining := by
  cases hNow : world.calls t with
  | idle => exact absurd hNow hCall
  | entering =>
    simp only [DrbgWorld.step, hNow]
    split
    · refine Or.inr ?_
      rw [goto_calls]
      decide
    · cases hRead : world.lock.read t with
      | none => exact Or.inl ⟨Or.inl ⟨hNow, hRead⟩, rfl⟩
      | some lock =>
        refine Or.inr ?_
        change ((world.goto t .reading).calls t).remaining < _
        rw [goto_calls]
        decide
  | missing =>
    simp only [DrbgWorld.step, hNow]
    split
    · refine Or.inr ?_
      rw [goto_calls]
      decide
    · cases hWrite : world.lock.write t with
      | none => exact Or.inl ⟨Or.inr ⟨hNow, hWrite⟩, rfl⟩
      | some lock =>
        refine Or.inr ?_
        change ((world.goto t .writing).calls t).remaining < _
        rw [goto_calls]
        decide
  | reading =>
    refine Or.inr ?_
    simp only [DrbgWorld.step, hNow, goto_calls]
    exact Nat.lt_succ_self 7
  | readDone drbg =>
    refine Or.inr ?_
    cases drbg with
    | none =>
      simp only [DrbgWorld.step, hNow, goto_calls]
      exact Nat.lt_succ_self 6
    | some context =>
      simp only [DrbgWorld.step, hNow, goto_calls, DrbgCall.remaining]
      decide
  | writing =>
    refine Or.inr ?_
    cases hDrbg : world.drbg with
    | none =>
      simp only [DrbgWorld.step, hNow, hDrbg, goto_calls]
      exact Nat.lt_succ_self 4
    | some context =>
      simp only [DrbgWorld.step, hNow, hDrbg, goto_calls, DrbgCall.remaining]
      decide
  | creating =>
    refine Or.inr ?_
    simp only [DrbgWorld.step, hNow, goto_calls]
    exact Nat.lt_succ_self 3
  | storing drbg =>
    refine Or.inr ?_
    simp only [DrbgWorld.step, hNow, goto_calls]
    exact Nat.lt_succ_self 2
  | writeDone drbg =>
    refine Or.inr ?_
    simp only [DrbgWorld.step, hNow, goto_calls]
    exact Nat.lt_succ_self 1
  | returned drbg =>
    refine Or.inr ?_
    cases drbg with
    | none =>
      simp only [DrbgWorld.step, hNow, DrbgWorld.finish, goto_calls]
      exact Nat.lt_succ_self 0
    | some context =>
      simp only [DrbgWorld.step, hNow, DrbgWorld.finish, goto_calls]
      exact Nat.lt_succ_self 0

omit [DecidableEq τ] in
/-- Whoever waits, waits for a thread that does not. -/
theorem Invariant.exists_not_waits (h : world.Invariant) (hCall : world.calls t ≠ .idle) :
    ∃ s, world.calls s ≠ .idle ∧ ¬world.Waits s := by
  have hHolder : ∀ s, (world.calls s).hold ≠ .nothing →
      world.calls s ≠ .idle ∧ ¬world.Waits s := by
    intro s hs
    refine ⟨fun hIdle => hs (by rw [hIdle]; rfl), ?_⟩
    rintro (⟨hEntering, -⟩ | ⟨hMissing, -⟩)
    · exact hs (by rw [hEntering]; rfl)
    · exact hs (by rw [hMissing]; rfl)
  by_cases hWaits : world.Waits t
  · rcases hWaits with ⟨-, hRead⟩ | ⟨-, hWrite⟩
    · obtain ⟨s, hs⟩ := h.locked.exists_of_read_none hRead
      exact ⟨s, hHolder s (by rw [hs]; exact nofun)⟩
    · obtain ⟨s, hs⟩ := h.locked.exists_of_write_none hWrite
      exact ⟨s, hHolder s hs⟩
  · exact ⟨t, hCall, hWaits⟩

/-- In no interleaving do the calls block each other: as long as one is open, some thread shortens
its call with whatever step it takes, and every step of a call shortens it or changes nothing. -/
theorem run_progress (hasLibctx hasLock : Bool) (schedule : List (τ × DrbgEnvironment)) :
    let world := (initial hasLibctx hasLock : DrbgWorld τ).run schedule
    (∀ t environment, world.calls t ≠ .idle →
      world.step t environment = world ∨
        ((world.step t environment).calls t).remaining < (world.calls t).remaining) ∧
      ((∃ t, world.calls t ≠ .idle) →
        ∃ t, ∀ environment,
          ((world.step t environment).calls t).remaining < (world.calls t).remaining) := by
  intro world
  have hWorld : world.Invariant := (invariant_initial hasLibctx hasLock).run schedule
  constructor
  · intro t environment hCall
    cases world.step_remaining hCall environment with
    | inl hWaits => exact Or.inl hWaits.2
    | inr hShorter => exact Or.inr hShorter
  · rintro ⟨t, hCall⟩
    obtain ⟨s, hOpen, hMoves⟩ := hWorld.exists_not_waits hCall
    refine ⟨s, fun environment => ?_⟩
    cases world.step_remaining hOpen environment with
    | inl hWaits => exact absurd hWaits.1 hMoves
    | inr hShorter => exact hShorter

end Progress

section Success

/-- No call has failed. -/
structure Served (world : DrbgWorld τ) : Prop where
  ready : world.hasLibctx = true ∧ world.hasLock = true
  calls : ∀ t, (world.calls t).Unfailed
  finished : ∀ call ∈ world.finished, call.status = true

variable {environment : DrbgEnvironment}

theorem Served.update (h : world.Served) (hCall : call.Unfailed) (s : τ) :
    ((world.goto t call).calls s).Unfailed := by
  by_cases hSame : s = t
  · subst hSame
    rwa [goto_calls]
  · rw [goto_calls_of_ne world hSame]
    exact h.calls s

theorem Served.step (h : world.Served) (t : τ) (hWorks : environment.Works) :
    (world.step t environment).Served := by
  have hCalls := h.calls t
  obtain ⟨hLibctx, hLock⟩ := h.ready
  have hMove : ∀ call : DrbgCall, call.Unfailed → (world.goto t call).Served := fun call hCall =>
    ⟨h.ready, h.update hCall, h.finished⟩
  cases hCall : world.calls t with
  | idle =>
    simp only [DrbgWorld.step, hCall, hWorks.output, hLibctx, hLock]
    exact hMove .entering trivial
  | entering =>
    simp only [DrbgWorld.step, hCall, hWorks.locks]
    cases world.lock.read t with
    | none => exact h
    | some lock => exact ⟨h.ready, h.update trivial, h.finished⟩
  | missing =>
    simp only [DrbgWorld.step, hCall, hWorks.locks]
    cases world.lock.write t with
    | none => exact h
    | some lock => exact ⟨h.ready, h.update trivial, h.finished⟩
  | reading =>
    simp only [DrbgWorld.step, hCall]
    exact hMove _ trivial
  | readDone drbg =>
    cases drbg with
    | none =>
      simp only [DrbgWorld.step, hCall]
      exact ⟨h.ready, h.update trivial, h.finished⟩
    | some context =>
      simp only [DrbgWorld.step, hCall]
      exact ⟨h.ready, h.update rfl, h.finished⟩
  | writing =>
    cases hDrbg : world.drbg with
    | none =>
      simp only [DrbgWorld.step, hCall, hDrbg]
      exact hMove _ trivial
    | some context =>
      simp only [DrbgWorld.step, hCall, hDrbg]
      exact hMove _ rfl
  | creating =>
    simp only [DrbgWorld.step, hCall, hWorks.rand.drbgNew]
    exact ⟨h.ready, h.update rfl, h.finished⟩
  | storing drbg =>
    rw [hCall] at hCalls
    simp only [DrbgWorld.step, hCall]
    exact ⟨h.ready, h.update hCalls, h.finished⟩
  | writeDone drbg =>
    rw [hCall] at hCalls
    simp only [DrbgWorld.step, hCall]
    exact ⟨h.ready, h.update hCalls, h.finished⟩
  | returned drbg =>
    rw [hCall] at hCalls
    cases drbg with
    | none => cases hCalls
    | some context =>
      simp only [DrbgWorld.step, hCall, hWorks.rand.generate]
      refine ⟨h.ready, h.update trivial, ?_⟩
      intro finished hMem
      rcases List.mem_append.mp hMem with hOld | hNew
      · exact h.finished finished hOld
      · obtain rfl := List.mem_singleton.mp hNew
        rfl

/-- While libcrypto does not fail, no interleaving makes a call fail. -/
theorem run_served {schedule : List (τ × DrbgEnvironment)}
    (hWorks : ∀ event ∈ schedule, event.2.Works) :
    ∀ call ∈ ((initial true true : DrbgWorld τ).run schedule).finished, call.status = true := by
  have hRun : ∀ {world : DrbgWorld τ}, world.Served → (world.run schedule).Served := by
    induction schedule with
    | nil => exact id
    | cons event schedule ih =>
      intro world h
      rw [List.forall_mem_cons] at hWorks
      exact ih hWorks.2 (h.step event.1 hWorks.1)
  have hInitial : (initial true true : DrbgWorld τ).Served :=
    ⟨⟨rfl, rfl⟩, fun _ => trivial, fun _ hMem => by cases hMem⟩
  exact (hRun hInitial).finished

def workingEnvironment : DrbgEnvironment :=
  ⟨false, 38, true, ⟨true, fun _ => true, true, true, fun _ _ => true, fun _ _ => 1⟩⟩

/-- Two threads that enter together; the second waits while the first creates the context. -/
theorem run_served_two : (((initial true true : DrbgWorld Bool).run
    ((List.replicate 12 [true, false]).flatten.map fun t => (t, workingEnvironment))).finished.all
      fun call => call.status) = true := by
  refine List.all_eq_true.mpr (run_served fun event hMem => ?_)
  obtain ⟨t, -, rfl⟩ := List.mem_map.mp hMem
  exact ⟨⟨rfl, rfl⟩, rfl, ⟨rfl, rfl, rfl, rfl, rfl, rfl⟩⟩

end Success

end DrbgWorld

end X301Provider
