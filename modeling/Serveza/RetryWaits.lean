import Serveza.AcceptorCases
import Serveza.Foundation.Timer

/-!
# What starts an accept and what arms a retry

An accept is started by `accept_next` only, and a wait on the retry timer by `retry_accept`
only. Everything else that the handlers of an accepting listener call leaves the number of
outstanding accepts and the number of waits on the retry timer alone.
-/

namespace Serveza

open Foundation

/-- No accept has been started and no retry armed between the two listeners. -/
structure StartsNothing (s t : AcceptorListener) : Prop where
  accepts : t.acceptor.accepts = s.acceptor.accepts
  retries : t.retryTimer.waits.length = s.retryTimer.waits.length

namespace StartsNothing

variable {s t u : AcceptorListener} {answers : AcceptorAnswers}

/-- Nothing is started in two parts in a row. -/
theorem trans (h : StartsNothing s t) (k : StartsNothing t u) : StartsNothing s u :=
  ⟨k.accepts.trans h.accepts, k.retries.trans h.retries⟩

/-- What starts nothing starts no accept. -/
theorem not_lt (h : StartsNothing s t) : ¬ s.acceptor.accepts < t.acceptor.accepts := by
  rw [h.accepts]
  exact Nat.lt_irrefl _

/-- Finishing a generation starts nothing. -/
theorem finish (s : AcceptorListener) (ec : ErrorCode) (reason : ListenerStopReason) :
    StartsNothing s (s.finish ec reason) := by
  unfold AcceptorListener.finish
  split
  · exact ⟨rfl, rfl⟩
  · exact ⟨rfl, List.length_map _⟩

/-- Draining starts nothing. -/
theorem maybeFinish (s : AcceptorListener) : StartsNothing s s.maybeFinish := by
  unfold AcceptorListener.maybeFinish
  split
  · exact finish s _ _
  · exact ⟨rfl, rfl⟩

/-- Giving the sessions their grace period starts nothing. -/
theorem armGrace (s : AcceptorListener) (answers : AcceptorAnswers) :
    StartsNothing s (s.armGrace answers) := by
  unfold AcceptorListener.armGrace
  split
  · exact ⟨rfl, rfl⟩
  · cases answers.graceTimer <;> exact ⟨rfl, rfl⟩

/-- Beginning to stop starts nothing. -/
theorem beginStop (s : AcceptorListener) (answers : AcceptorAnswers) (ec : ErrorCode)
    (reason : ListenerStopReason) :
    StartsNothing s (s.beginStop answers ec reason) := by
  have hclosed : StartsNothing s (s.closeDown ec reason) := ⟨rfl, List.length_map _⟩
  have hannounced : StartsNothing s (s.mapCore fun c => c.announceStop ec reason) := ⟨rfl, rfl⟩
  rcases s.beginStop_cases answers ec reason with ⟨-, heq⟩ | ⟨-, heq⟩ | ⟨-, heq⟩
  · rw [heq]
    exact hannounced.trans (finish _ _ _)
  · rw [heq]
    exact hclosed.trans ((armGrace _ _).trans (maybeFinish _))
  · rw [heq]
    exact ⟨rfl, rfl⟩

/-- Dropping a session starts nothing. -/
theorem removeSession (s : AcceptorListener) (key : ℕ) : StartsNothing s (s.removeSession key) := by
  unfold AcceptorListener.removeSession
  split <;> exact ⟨rfl, rfl⟩

end StartsNothing

namespace AcceptorListener

/-- The next accept would be started: the listener runs, no accept is outstanding, there is room
for a session, and the initiation does not throw. -/
def mayAccept (s : AcceptorListener) (answers : AcceptorAnswers) : Prop :=
  s.core.state = .running ∧ s.acceptPending = false ∧
    s.sessions.length < s.options.maxActiveSessions ∧ answers.accept = none

instance (s : AcceptorListener) (answers : AcceptorAnswers) : Decidable (s.mayAccept answers) :=
  inferInstanceAs (Decidable (_ ∧ _ ∧ _ ∧ _))

variable (s : AcceptorListener) (answers : AcceptorAnswers)

/-- Whether the next accept may be started once a session has been dropped. -/
theorem removeSession_mayAccept (key : ℕ) : (s.removeSession key).mayAccept answers ↔
    s.core.state = .running ∧ s.acceptPending = false ∧
    (s.sessions.erase key).length < s.options.maxActiveSessions ∧
      answers.accept = none := by
  unfold removeSession
  split
  · rfl
  · rename_i hmem
    rw [List.erase_of_not_mem hmem]
    rfl

/-- What starting the next accept in a running listener without one comes to: nothing for want of
room, an accept, or the beginning of a stop. -/
theorem acceptNext_of_running (hs : s.core.state = .running) (hnone : s.acceptPending = false)
    (reason : ListenerStopReason) :
    (s.acceptNext answers reason).1 = s ∨ s.mayAccept answers ∧
    (s.acceptNext answers reason).1 = s.startAccept ∨
      ∃ t ec, StartsNothing s t ∧ Quiet s.core t.core ∧
      (s.acceptNext answers reason).1 = t.beginStop answers ec reason := by
  unfold acceptNext
  rw [if_neg (by simp [hs, hnone])]
  by_cases hfull : s.options.maxActiveSessions ≤ s.sessions.length
  · rw [if_pos hfull]
    exact Or.inl rfl
  · rw [if_neg hfull]
    cases haccept : answers.accept with
    | none => exact Or.inr (Or.inl ⟨⟨hs, hnone, Nat.lt_of_not_le hfull, haccept⟩, rfl⟩)
    | some e =>
      exact Or.inr (Or.inr ⟨s.mapCore fun c => c.acceptFailed e.error (some e.exception),
        e.error, ⟨rfl, rfl⟩, (s.noted_acceptFailed _ _).quiet, rfl⟩)

/-- Starting the next accept starts an accept in a listener that accepts, or nothing. -/
theorem acceptNext_starts (reason : ListenerStopReason) :
    StartsNothing s (s.acceptNext answers reason).1 ∨
    s.Accepting ∧ s.acceptNext answers reason = (s.startAccept, .success) := by
  unfold acceptNext
  split
  · exact Or.inl (.maybeFinish s)
  · rename_i hopen
    split
    · exact Or.inl ⟨rfl, rfl⟩
    · cases answers.accept with
      | none =>
        refine Or.inr ⟨?_, rfl⟩
        rw [not_or, Classical.not_and_iff_not_or_not, not_not, not_not] at hopen
        exact hopen.1
      | some e =>
        have hnoted : StartsNothing s
            (s.mapCore fun c => c.acceptFailed e.error (some e.exception)) := ⟨rfl, rfl⟩
        exact Or.inl (hnoted.trans (.beginStop _ _ _ _))

/-- A listener that has counted a transient accept error and armed the retry that follows it. -/
def armRetry (acceptEc : ErrorCode) : AcceptorListener :=
  { s with
    core := s.core.acceptFailed acceptEc none
    consecutiveAcceptErrors := s.consecutiveAcceptErrors + 1
    retryTimer := s.retryTimer.expiresAfter.asyncWait
      ⟨s.core.generation, acceptRetryDelay s.options.toListenerOptions
        (s.consecutiveAcceptErrors + 1)⟩ }

/-- Reacting to a failed accept starts no accept, and arms the retry that follows it or none. -/
theorem retryAccept_starts (acceptEc : ErrorCode) :
    StartsNothing s (s.retryAccept answers acceptEc) ∨
    s.retryAccept answers acceptEc = s.armRetry acceptEc := by
  unfold retryAccept
  extract_lets s₁ s₂ s₃
  split
  · have hnoted : StartsNothing s s₁ := ⟨rfl, rfl⟩
    exact Or.inl (hnoted.trans (.beginStop _ _ _ _))
  · split
    · have hcounted : StartsNothing s s₂ := ⟨rfl, rfl⟩
      exact Or.inl (hcounted.trans (.beginStop _ _ _ _))
    · cases answers.retryTimer with
      | none => exact Or.inr rfl
      | some e =>
        have hcancelled : StartsNothing s
            (s₃.mapCore fun c => c.recordDiagnostic (exceptionToError (some e)) (some e)) :=
          ⟨rfl, List.length_map _⟩
        exact Or.inl (hcancelled.trans (.beginStop _ _ _ _))

end AcceptorListener

end Serveza
