import Serveza.AcceptorCases
import Serveza.Backoff
import Serveza.Listener

/-!
# What the timers are armed with

A listener arms the shutdown timer with its grace period only, and an accepting listener arms the
retry timer only with the delay of a retry after one error up to one less than the budget.
-/

namespace Serveza

open Foundation

/-- The shutdown timer has been armed with one grace period only. -/
def GraceArmed (grace : ℤ) (c : ListenerCore) : Prop :=
  c.shutdownTimer.Tagged fun arming => arming.delay = grace

namespace GraceArmed

variable {grace : ℤ} {a b : ListenerCore}

/-- Finishing a generation arms nothing. -/
theorem finish (h : GraceArmed grace a) (ec : ErrorCode) (reason : ListenerStopReason) :
    GraceArmed grace (a.finish ec reason) := by
  unfold ListenerCore.finish
  split
  · exact h
  · exact Timer.Tagged.cancel h

/-- Quiet changes arm nothing. -/
theorem quiet (h : GraceArmed grace a) (hquiet : Quiet a b) : GraceArmed grace b := by
  unfold GraceArmed
  rw [hquiet.shutdownTimer]
  exact h

/-- The bookkeeping of waits arms nothing. -/
theorem waitsOnly (h : GraceArmed grace a) (hw : WaitsOnly a b) : GraceArmed grace b := by
  unfold GraceArmed
  rw [hw.shutdownTimer]
  exact h

/-- A step off the strand arms nothing. -/
theorem call {alive : Bool} {l : CoreLabel} (h : GraceArmed grace a)
    (hcall : CallStep alive l a b) : GraceArmed grace b := by
  cases hcall with
  | graceExpires hexpire => exact Timer.Tagged.expire h hexpire
  | _ => exact h

end GraceArmed

/-- Both timers of an accepting listener have been armed with durations of its options only. -/
structure Timed (options : AcceptorOptions) (s : AcceptorListener) : Prop where
  configured : s.options = options
  graced : GraceArmed options.shutdownGracePeriod s.core
  retries : s.retryTimer.Tagged fun arming => ∃ n, 1 ≤ n ∧ n < options.maxConsecutiveAcceptErrors ∧
    arming.delay = acceptRetryDelay options.toListenerOptions n

namespace Timed

variable {options : AcceptorOptions} {s t : AcceptorListener} {answers : AcceptorAnswers}

/-- A change of the shared part that arms nothing. -/
theorem withCore (h : Timed options s) {c : ListenerCore}
    (hc : GraceArmed options.shutdownGracePeriod c) :
    Timed options { s with core := c } := ⟨h.configured, hc, h.retries⟩

/-- Finishing a generation arms nothing. -/
theorem finish (h : Timed options s) (ec : ErrorCode) (reason : ListenerStopReason) :
    Timed options (s.finish ec reason) := by
  unfold AcceptorListener.finish
  split
  · exact h
  · exact ⟨h.configured, h.graced.finish ec reason, h.retries.cancel⟩

/-- Draining arms nothing. -/
theorem maybeFinish (h : Timed options s) : Timed options s.maybeFinish := by
  unfold AcceptorListener.maybeFinish
  split
  · exact h.finish _ _
  · exact h

/-- The sessions are given the grace period of the options. -/
theorem armGrace (h : Timed options s) : Timed options (s.armGrace answers) := by
  unfold AcceptorListener.armGrace
  split
  · exact h
  · cases answers.graceTimer with
    | none =>
      exact h.withCore ((Timer.Tagged.cancel h.graced).asyncWait (by rw [← h.configured]; rfl))
    | some e => exact h.withCore (Timer.Tagged.cancel h.graced)

/-- Beginning to stop arms the grace period at most. -/
theorem beginStop (h : Timed options s) (ec : ErrorCode) (reason : ListenerStopReason) :
    Timed options (s.beginStop answers ec reason) := by
  have hannounced : Timed options (s.mapCore fun c => c.announceStop ec reason) :=
    h.withCore h.graced
  have hclosed : Timed options (s.closeDown ec reason) := ⟨h.configured, h.graced, h.retries.cancel⟩
  rcases s.beginStop_cases answers ec reason with ⟨-, heq⟩ | ⟨-, heq⟩ | ⟨-, heq⟩
  · rw [heq]
    exact hannounced.finish ec reason
  · rw [heq]
    exact hclosed.armGrace.maybeFinish
  · rwa [heq]

/-- Starting the next accept arms the grace period at most. -/
theorem acceptNext (h : Timed options s) (reason : ListenerStopReason) :
    Timed options (s.acceptNext answers reason).1 := by
  unfold AcceptorListener.acceptNext
  split
  · exact h.maybeFinish
  · split
    · exact h
    · cases answers.accept with
      | none => exact ⟨h.configured, h.graced, h.retries⟩
      | some e =>
        exact beginStop (s := s.mapCore fun c => c.acceptFailed e.error (some e.exception))
          (h.withCore h.graced) _ _

/-- A retry is armed with the delay after an error that does not exhaust the budget. -/
theorem retryAccept (h : Timed options s) (acceptEc : ErrorCode) :
    Timed options (s.retryAccept answers acceptEc) := by
  unfold AcceptorListener.retryAccept
  extract_lets s₁ s₂ s₃
  have hnoted : Timed options s₁ := h.withCore h.graced
  split
  · exact hnoted.beginStop _ _
  · have hcounted : Timed options s₂ := ⟨h.configured, h.graced, h.retries⟩
    split
    · exact hcounted.beginStop _ _
    · rename_i hbudget
      have hcancelled : Timed options s₃ := ⟨h.configured, h.graced, h.retries.cancel⟩
      cases answers.retryTimer with
      | none =>
        refine ⟨h.configured, h.graced, hcancelled.retries.asyncWait
          ⟨s.consecutiveAcceptErrors + 1, Nat.succ_pos _, ?_, ?_⟩⟩
        · rw [← h.configured]
          exact Nat.lt_of_not_le hbudget
        · rw [← h.configured]
          rfl
      | some e =>
        exact beginStop (s := s₃.mapCore fun c => c.recordDiagnostic
          (exceptionToError (some e)) (some e)) (hcancelled.withCore h.graced) _ _

/-- The handler of an accept arms durations of the options only. -/
theorem accepted (h : Timed options s) (result : AcceptResult) :
    Timed options (s.accepted answers result) := by
  have hreturned : Timed options { s with acceptPending := false } :=
    ⟨h.configured, h.graced, h.retries⟩
  rcases s.accepted_cases answers result with
    ⟨-, heq⟩ | ⟨-, heq | ⟨info, -, ec, ep, heq⟩ | ⟨info, -, heq⟩⟩
  · rw [heq]
    exact hreturned.maybeFinish
  · rw [heq]
    exact hreturned.retryAccept _
  · rw [heq]
    refine acceptNext ?_ _
    exact ⟨h.configured, h.graced, h.retries⟩
  · rw [heq]
    refine acceptNext ?_ _
    exact ⟨h.configured, h.graced, h.retries⟩

/-- The strand step of a session's report arms the grace period at most. -/
theorem sessionFinished (h : Timed options s) (report : SessionReport) :
    Timed options (s.sessionFinished answers report) := by
  have hremoved : Timed options (s.removeSession report.info.id) := by
    unfold AcceptorListener.removeSession
    split
    · exact ⟨h.configured, h.graced, h.retries⟩
    · exact h
  obtain ⟨t, rfl, heq⟩ := s.sessionFinished_eq answers report
  have hnoted :=
    hremoved.withCore (hremoved.graced.quiet (quiet_sessionStopped _ report.info report))
  rw [heq]
  split
  · exact (acceptNext hnoted _).maybeFinish
  · exact maybeFinish hnoted

/-- The strand step of a start arms the grace period at most. -/
theorem startOnStrand (h : Timed options s) (handler : CompletionHandler) :
    Timed options (s.startOnStrand answers handler) := by
  rcases s.startOnStrand_cases answers handler with
    ⟨-, heq⟩ | ⟨-, heq⟩ | ⟨-, acceptor, endpoint, -, hbegun⟩
  · rw [heq]
    exact h.withCore h.graced
  · rw [heq]
    exact h.withCore h.graced
  · have hopened : Timed options (s.opened acceptor endpoint) := ⟨h.configured, h.graced, h.retries⟩
    rcases hbegun with ⟨ec, heq⟩ | ⟨t, ec, hnext, ⟨-, heq⟩ | ⟨-, heq⟩⟩
    · rw [heq]
      refine finish ?_ ec .startupFailure
      exact hopened.withCore hopened.graced
    all_goals
      have ht : Timed options ((s.opened acceptor endpoint).acceptNext answers .startupFailure).1 :=
      hopened.acceptNext _
      rw [hnext] at ht
      rw [heq]
      exact ht.withCore ht.graced

/-- Running a posted message arms durations of the options only. -/
theorem handle (h : Timed options s) (message : Message) :
    Timed options (s.handle answers message) := by
  cases message with
  | start handler cancelled =>
    cases cancelled with
    | true => exact h.withCore h.graced
    | false => exact h.startOnStrand handler
  | wait w => exact h.withCore (h.graced.waitsOnly (registerWait_waitsOnly _ w))
  | cancelWait id => exact h.withCore (h.graced.waitsOnly (cancelWait_waitsOnly _ id))
  | stop => exact h.beginStop _ _
  | sessionFinished report => exact h.sessionFinished report
  | complete completion => exact h.withCore h.graced

/-- Every step arms durations of the options only. -/
theorem step {l : AcceptorLabel} (h : Timed options s) (hstep : s.step l = some t) :
    Timed options t := by
  cases s.step_cases hstep with
  | core hcall => exact h.withCore (h.graced.call hcall)
  | run hstrand =>
    refine handle ?_ _
    exact h.withCore h.graced
  | accepted hpos =>
    refine accepted ?_ _
    exact ⟨h.configured, h.graced, h.retries⟩
  | retryExpires hexpire => exact ⟨h.configured, h.graced, h.retries.expire hexpire⟩
  | retryAborted htake hw =>
    refine maybeFinish ?_
    exact ⟨h.configured, h.graced, h.retries.take htake⟩
  | retryDue htake hw =>
    refine acceptNext ?_ _
    exact ⟨h.configured, h.graced, h.retries.take htake⟩
  | graceAborted htake hw => exact h.withCore (Timer.Tagged.take h.graced htake)
  | graceDue htake hw => exact h.withCore (Timer.Tagged.take h.graced htake)

end Timed

/-- The timer of a bound-socket listener has been armed with the grace period of its options
only. -/
structure SocketTimed (options : SocketOptions) (s : SocketListener) : Prop where
  configured : s.options = options
  graced : GraceArmed options.shutdownGracePeriod s.core

namespace SocketTimed

variable {options : SocketOptions} {s t : SocketListener} {answers : SocketAnswers}

/-- A listener with the same options and the same shutdown timer. -/
theorem same (h : SocketTimed options s) (hoptions : t.options = s.options)
    (htimer : t.core.shutdownTimer = s.core.shutdownTimer) : SocketTimed options t := by
  refine ⟨hoptions.trans h.configured, ?_⟩
  unfold GraceArmed
  rw [htimer]
  exact h.graced

/-- Draining arms nothing. -/
theorem maybeFinish (h : SocketTimed options s) : SocketTimed options s.maybeFinish := by
  unfold SocketListener.maybeFinish
  split
  · exact ⟨h.configured, h.graced.finish _ _⟩
  · exact h

/-- The strand step of a stop arms the grace period of the options. -/
theorem stopOnStrand (h : SocketTimed options s) : SocketTimed options s.stopOnStrand := by
  unfold SocketListener.stopOnStrand
  extract_lets announced
  have hannounced : SocketTimed options announced := ⟨h.configured, h.graced⟩
  have harmed : SocketTimed options announced.armGrace := by
    unfold SocketListener.armGrace
    split
    · exact hannounced
    · exact ⟨h.configured, (Timer.Tagged.cancel h.graced).asyncWait (by rw [← h.configured]; rfl)⟩
  cases s.core.state with
  | idle => exact ⟨h.configured, hannounced.graced.finish _ _⟩
  | starting => exact harmed.maybeFinish
  | running => exact harmed.maybeFinish
  | stopping => exact h
  | stopped => exact h

/-- The strand step of a session's report arms nothing. -/
theorem sessionFinished (h : SocketTimed options s) (report : SessionReport) :
    SocketTimed options (s.sessionFinished report) := by
  obtain ⟨c, hquiet, -, -, ⟨-, reason, heq⟩ | ⟨-, heq⟩⟩ := s.sessionFinished_cases report
  · have hnoted := h.graced.quiet hquiet
    have hstopping : GraceArmed options.shutdownGracePeriod (c.transitionTo .stopping) := hnoted
    rw [heq]
    exact ⟨h.configured, hstopping.finish _ _⟩
  · rw [heq]
    refine maybeFinish ?_
    exact ⟨h.configured, h.graced.quiet hquiet⟩

/-- The strand step of a start arms nothing. -/
theorem startOnStrand (h : SocketTimed options s) (handler : CompletionHandler) :
    SocketTimed options (s.startOnStrand answers handler) := by
  rcases s.startOnStrand_cases answers handler with
    ⟨-, heq⟩ | ⟨-, heq⟩ | ⟨-, endpoint, ⟨c, ec, hquiet, -, -, heq⟩ | heq⟩
  · rw [heq]
    exact ⟨h.configured, h.graced⟩
  · rw [heq]
    exact ⟨h.configured, h.graced⟩
  · have hopened : GraceArmed options.shutdownGracePeriod (s.opened endpoint).core := h.graced
    have hnoted := hopened.quiet hquiet
    have hcompleted : GraceArmed options.shutdownGracePeriod
        (c.completeOn ⟨handler, none, ec, .startupFailed⟩) := hnoted
    rw [heq]
    exact ⟨h.configured, hcompleted.finish _ _⟩
  · have hopened : SocketTimed options (s.opened endpoint) := h.same rfl rfl
    have hlaunched : SocketTimed options (s.opened endpoint).launched := hopened.same rfl rfl
    rw [heq]
    exact hlaunched.same rfl rfl

/-- Running a posted message arms the grace period at most. -/
theorem handle (h : SocketTimed options s) (message : Message) :
    SocketTimed options (s.handle answers message) := by
  cases message with
  | start handler cancelled =>
    cases cancelled with
    | true => exact ⟨h.configured, h.graced⟩
    | false => exact h.startOnStrand handler
  | wait w => exact ⟨h.configured, h.graced.waitsOnly (registerWait_waitsOnly _ w)⟩
  | cancelWait id => exact ⟨h.configured, h.graced.waitsOnly (cancelWait_waitsOnly _ id)⟩
  | stop => exact h.stopOnStrand
  | sessionFinished report => exact h.sessionFinished report
  | complete completion => exact ⟨h.configured, h.graced⟩

/-- Every step arms the grace period at most. -/
theorem step {l : SocketLabel} (h : SocketTimed options s) (hstep : s.step l = some t) :
    SocketTimed options t := by
  cases l with
  | core l =>
    obtain ⟨c, hc, rfl⟩ := Option.map_eq_some_iff.mp hstep
    exact ⟨h.configured, h.graced.call (call_cases hc)⟩
  | run answers =>
    cases hstrand : s.core.strand with
    | nil => simp [SocketListener.step, hstrand] at hstep
    | cons message rest =>
      obtain rfl : _ = t := by simpa [SocketListener.step, hstrand] using hstep
      refine handle ?_ _
      exact ⟨h.configured, h.graced⟩
  | graceHandler k =>
    obtain ⟨⟨w, timer⟩, htake, rfl⟩ := Option.map_eq_some_iff.mp hstep
    have htaken : GraceArmed options.shutdownGracePeriod { s.core with shutdownTimer := timer } :=
      Timer.Tagged.take h.graced htake
    change SocketTimed options
      ((s.mapCore fun c => { c with shutdownTimer := timer }).graceExpired (waitError w.status))
    unfold SocketListener.graceExpired
    have hbefore : SocketTimed options (s.mapCore fun c => { c with shutdownTimer := timer }) :=
      ⟨h.configured, htaken⟩
    split
    · exact hbefore
    · exact hbefore.same rfl rfl

end SocketTimed

end Serveza
