import Mathlib.Data.List.Induction

/-!
# A log of captured values

Capturing an own value starts over; capturing a peer value replaces the last
peer. Replaying the log yields a pair exactly when the log ends with captures of
peers, the last one of that peer, after the capture of that own value.
-/

inductive Capture (α β : Type)
  | own (value : α)
  | peer (value : β)

namespace Capture

variable {α β : Type} {a : α} {b : β} {log : List (Capture α β)}

/-- The two registers after one capture. -/
def apply (registers : Option α × Option β) : Capture α β → Option α × Option β
  | .own a => (some a, none)
  | .peer b => (registers.1, some b)

def replay (log : List (Capture α β)) : Option α × Option β := log.foldl apply (none, none)

theorem replay_concat (log : List (Capture α β)) (capture : Capture α β) :
    replay (log ++ [capture]) = apply (replay log) capture := by
  rw [replay, List.foldl_append]
  rfl

/-- Only peers were captured. -/
def OnlyPeers (log : List (Capture α β)) : Prop := ∀ capture ∈ log, ∃ b, capture = .peer b

/-- The own value was captured last before a run of peers that ends with this one. -/
def LastPair (log : List (Capture α β)) (a : α) (b : β) : Prop :=
  ∃ earlier middle, log = earlier ++ .own a :: (middle ++ [.peer b]) ∧ OnlyPeers middle

theorem foldl_peers {middle : List (Capture α β)} (h : OnlyPeers middle)
    (registers : Option α × Option β) : (middle.foldl apply registers).1 = registers.1 := by
  induction middle generalizing registers with
  | nil => rfl
  | cons capture middle ih =>
    obtain ⟨b, rfl⟩ := h capture List.mem_cons_self
    exact ih (fun later hLater => h later (List.mem_cons_of_mem _ hLater)) (registers.1, some b)

theorem own_of_replay (h : (replay log).1 = some a) :
    ∃ earlier later, log = earlier ++ .own a :: later ∧ OnlyPeers later := by
  induction log using List.reverseRecOn with
  | nil => cases h
  | append_singleton log capture ih =>
    rw [replay_concat] at h
    cases capture with
    | own other =>
      obtain rfl := Option.some.inj h
      exact ⟨log, [], rfl, by rintro _ ⟨⟩⟩
    | peer b =>
      obtain ⟨earlier, later, rfl, hPeers⟩ := ih h
      refine ⟨earlier, later ++ [.peer b], by simp, ?_⟩
      intro capture hMem
      cases List.mem_append.mp hMem with
      | inl hOld =>
        exact hPeers capture hOld
      | inr hNew =>
        exact ⟨b, List.mem_singleton.mp hNew⟩

theorem replay_eq_iff : replay log = (some a, some b) ↔ LastPair log a b := by
  constructor
  · intro h
    rcases List.eq_nil_or_concat log with rfl | ⟨front, capture, rfl⟩
    · cases h
    · rw [List.concat_eq_append, replay_concat] at h
      cases capture with
      | own other => cases h
      | peer other =>
        obtain rfl := Option.some.inj (Prod.mk.inj h).2
        obtain ⟨earlier, later, rfl, hPeers⟩ := own_of_replay (Prod.mk.inj h).1
        exact ⟨earlier, later, by simp, hPeers⟩
  · rintro ⟨earlier, middle, rfl, hPeers⟩
    have hSplit : earlier ++ .own a :: (middle ++ [.peer b]) =
        (earlier ++ .own a :: middle) ++ [.peer b] := by simp
    have hOwn : (replay (earlier ++ .own a :: middle)).1 = some a := by
      rw [replay, List.foldl_append, List.foldl_cons, foldl_peers hPeers]
      rfl
    rw [hSplit, replay_concat, apply, hOwn]

end Capture
