import Mathlib.Data.List.Nodup
import Mathlib.Logic.Function.Basic

/-!
# Reader-writer locks

A lock knows the threads that hold it. As long as it agrees with what the threads believe
to hold, a writer is alone, and a thread that has to wait waits for one that holds the
lock.
-/

/-- What a thread holds of a lock. -/
inductive Hold
  | nothing
  | read
  | write
  deriving DecidableEq

structure RwLock (τ : Type*) where
  readers : List τ
  writer : Option τ

namespace RwLock

variable {τ : Type*} [DecidableEq τ]

def unlocked : RwLock τ := ⟨[], none⟩

/-- Without a result the thread has to wait. -/
def read (lock : RwLock τ) (t : τ) : Option (RwLock τ) :=
  if lock.writer.isNone then some { lock with readers := t :: lock.readers } else none

def write (lock : RwLock τ) (t : τ) : Option (RwLock τ) :=
  if lock.writer.isNone && lock.readers.isEmpty then some { lock with writer := some t } else none

def unlock (lock : RwLock τ) (t : τ) : RwLock τ :=
  if lock.writer = some t then { lock with writer := none }
  else { lock with readers := lock.readers.erase t }

/-- The lock agrees with the threads. -/
structure Matches (lock : RwLock τ) (hold : τ → Hold) : Prop where
  nodup : lock.readers.Nodup
  readers : ∀ t, t ∈ lock.readers ↔ hold t = .read
  writer : ∀ t, lock.writer = some t ↔ hold t = .write
  exclusive : lock.writer = none ∨ lock.readers = []

variable {lock next : RwLock τ} {hold : τ → Hold} {s t : τ}

omit [DecidableEq τ] in
theorem matches_unlocked : (unlocked : RwLock τ).Matches fun _ => .nothing where
  nodup := List.nodup_nil
  readers t := by simp [unlocked]
  writer t := by simp [unlocked]
  exclusive := Or.inl rfl

namespace Matches

omit [DecidableEq τ] in
theorem eq_of_write (h : lock.Matches hold) (hs : hold s = .write) (ht : hold t = .write) :
    s = t := by
  have hWriter := (h.writer s).mpr hs
  rw [(h.writer t).mpr ht] at hWriter
  exact (Option.some.inj hWriter).symm

omit [DecidableEq τ] in
/-- A writer is alone. -/
theorem nothing_of_write (h : lock.Matches hold) (hs : hold s = .write) (hNe : t ≠ s) :
    hold t = .nothing := by
  cases ht : hold t with
  | nothing => rfl
  | write => exact absurd (h.eq_of_write ht hs) hNe
  | read =>
    have hReader := (h.readers t).mpr ht
    cases h.exclusive with
    | inl hNone =>
      rw [(h.writer s).mpr hs] at hNone
      cases hNone
    | inr hNil =>
      rw [hNil] at hReader
      cases hReader

theorem read (h : lock.Matches hold) (hNothing : hold t = .nothing)
    (hLock : lock.read t = some next) : next.Matches (Function.update hold t .read) := by
  rw [RwLock.read] at hLock
  split at hLock
  · rename_i hNone
    obtain rfl := Option.some.inj hLock
    rw [Option.isNone_iff_eq_none] at hNone
    have hFresh : t ∉ lock.readers := by
      rw [h.readers, hNothing]
      exact nofun
    refine ⟨List.nodup_cons.mpr ⟨hFresh, h.nodup⟩, fun s => ?_, fun s => ?_, Or.inl hNone⟩
    · by_cases hs : s = t
      · simp [hs]
      · simp [hs, h.readers]
    · by_cases hs : s = t
      · simp [hs, hNone]
      · simp [hs, h.writer]
  · cases hLock

theorem write (h : lock.Matches hold)
    (hLock : lock.write t = some next) : next.Matches (Function.update hold t .write) := by
  rw [RwLock.write] at hLock
  split at hLock
  · rename_i hFree
    obtain rfl := Option.some.inj hLock
    rw [Bool.and_eq_true, Option.isNone_iff_eq_none, List.isEmpty_iff] at hFree
    refine ⟨h.nodup, fun s => ?_, fun s => ?_, Or.inr hFree.2⟩
    · by_cases hs : s = t
      · simp [hs, hFree.2]
      · simp [hs, h.readers]
    · have hNone : ¬hold s = .write := by
        rw [← h.writer, hFree.1]
        exact nofun
      by_cases hs : s = t
      · simp [hs]
      · simp [hs, hNone, Ne.symm hs]
  · cases hLock

theorem unlock (h : lock.Matches hold) (hHeld : hold t ≠ .nothing) :
    (lock.unlock t).Matches (Function.update hold t .nothing) := by
  rw [RwLock.unlock]
  split
  · rename_i hWriter
    have hWrite := (h.writer t).mp hWriter
    refine ⟨h.nodup, fun s => ?_, fun s => ?_, Or.inl rfl⟩
    · by_cases hs : s = t
      · simp [hs, h.readers, hWrite]
      · simp [hs, h.readers]
    · by_cases hs : s = t
      · simp [hs]
      · simp [hs, h.nothing_of_write hWrite hs]
  · rename_i hWriter
    have hRead : hold t = .read := by
      cases ht : hold t with
      | nothing => exact absurd ht hHeld
      | read => rfl
      | write => exact absurd ((h.writer t).mpr ht) hWriter
    refine ⟨h.nodup.erase t, fun s => ?_, fun s => ?_, ?_⟩
    · by_cases hs : s = t
      · simp [hs, h.nodup.not_mem_erase]
      · simp [hs, List.mem_erase_of_ne hs, h.readers]
    · by_cases hs : s = t
      · simp [hs, hWriter]
      · simp [hs, h.writer]
    · cases h.exclusive with
      | inl hNone => exact Or.inl hNone
      | inr hNil => exact Or.inr (by rw [hNil]; rfl)

omit [DecidableEq τ] in
/-- Waiting to read means that someone writes. -/
theorem exists_of_read_none (h : lock.Matches hold) (hLock : lock.read t = none) :
    ∃ s, hold s = .write := by
  rw [RwLock.read] at hLock
  split at hLock
  · cases hLock
  · rename_i hSome
    obtain ⟨s, hs⟩ := Option.ne_none_iff_exists'.mp fun hNone =>
      hSome (Option.isNone_iff_eq_none.mpr hNone)
    exact ⟨s, (h.writer s).mp hs⟩

omit [DecidableEq τ] in
/-- Waiting to write means that someone holds the lock. -/
theorem exists_of_write_none (h : lock.Matches hold) (hLock : lock.write t = none) :
    ∃ s, hold s ≠ .nothing := by
  rw [RwLock.write] at hLock
  split at hLock
  · cases hLock
  · rename_i hTaken
    rw [Bool.and_eq_true, Option.isNone_iff_eq_none, List.isEmpty_iff, not_and_or] at hTaken
    cases hTaken with
    | inl hWriter =>
      obtain ⟨s, hs⟩ := Option.ne_none_iff_exists'.mp hWriter
      exact ⟨s, by rw [(h.writer s).mp hs]; exact nofun⟩
    | inr hReaders =>
      obtain ⟨s, hs⟩ := List.exists_mem_of_ne_nil _ hReaders
      exact ⟨s, by rw [(h.readers s).mp hs]; exact nofun⟩

end Matches

end RwLock
