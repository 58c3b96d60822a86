import Serveza.AcceptorListener
import Serveza.SocketListener

/-!
# What the handlers of a listener do not look at

The handlers of a listener do not look at the handles to it, and all they do with its waits is
to release them at the end of a generation. So they go on in the same way when the handles and
the waits are changed, as long as the change respects what is completed and what is released.
-/

namespace Serveza

open Foundation ListenerCore

/-- The part of a listener that its handlers do not look at. -/
structure Bookkeeping where
  handles : ℕ
  nextWaiterId : ℕ
  waiters : List WaitOperation
  strand : List Message
  initiating : List WaitOperation
  cancelled : List ℕ
  cancelling : List ℕ
  delivered : List Completion

namespace Bookkeeping

/-- Complete an operation. -/
def completeOn (b : Bookkeeping) (completion : Completion) : Bookkeeping :=
  { b with strand := b.strand ++ [.complete completion] }

/-- Complete every registered wait. -/
def completeWaiters (b : Bookkeeping) (ec : ErrorCode) : Bookkeeping :=
  { b with
    strand := b.strand ++ b.waiters.map fun w => .complete ⟨w.handler, some w.id, ec, .stopped⟩
    waiters := [] }

/-- A change that respects the completion of starts and the release of waits. -/
structure Neutral (f : Bookkeeping → Bookkeeping) : Prop where
  completes : ∀ b completion, completion.wait = none →
    f (b.completeOn completion) = (f b).completeOn completion
  releases : ∀ b ec, f (b.completeWaiters ec) = (f b).completeWaiters ec

end Bookkeeping

open Bookkeeping

variable {f : Bookkeeping → Bookkeeping}

namespace ListenerCore

/-- The part of a listener that its handlers do not look at. -/
def bookkeeping (c : ListenerCore) : Bookkeeping :=
  ⟨c.handles, c.nextWaiterId, c.waiters, c.strand, c.initiating, c.cancelled,
    c.cancelling, c.delivered⟩

/-- The listener with another such part. -/
def withBookkeeping (c : ListenerCore) (b : Bookkeeping) : ListenerCore :=
  { c with
    handles := b.handles
    nextWaiterId := b.nextWaiterId
    waiters := b.waiters
    strand := b.strand
    initiating := b.initiating
    cancelled := b.cancelled
    cancelling := b.cancelling
    delivered := b.delivered }

/-- Change what the handlers do not look at. -/
def reshape (f : Bookkeeping → Bookkeeping) (c : ListenerCore) : ListenerCore :=
  c.withBookkeeping (f c.bookkeeping)

variable (c : ListenerCore)

/-- The completion of a start is respected. -/
theorem reshape_completeOn (hf : Neutral f) {completion : Completion}
    (hwait : completion.wait = none) :
    (c.reshape f).completeOn completion = (c.completeOn completion).reshape f := by
  have hcompletes := hf.completes c.bookkeeping completion hwait
  exact congrArg c.withBookkeeping hcompletes.symm

/-- The release of the waits is respected. -/
theorem reshape_completeWaiters (hf : Neutral f) :
    (c.reshape f).completeWaiters = c.completeWaiters.reshape f := by
  have hreleases := hf.releases c.bookkeeping c.terminalError
  exact congrArg c.withBookkeeping hreleases.symm

/-- Finishing a generation goes on in the same way. -/
theorem reshape_finish (hf : Neutral f) (ec : ErrorCode) (reason : ListenerStopReason) :
    (c.reshape f).finish ec reason = (c.finish ec reason).reshape f := by
  unfold finish
  rw [apply_ite (reshape f)]
  extract_lets lastError lastError'
  rw [← reshape_completeWaiters _ hf]
  rfl

/-- Noting the end of a session goes on in the same way. -/
theorem reshape_sessionStopped (info : ConnectionInfo) (report : SessionReport) :
    (c.reshape f).sessionStopped info report = (c.sessionStopped info report).reshape f := by
  unfold sessionStopped
  split <;> rfl

end ListenerCore

/-- The message moves a wait along or delivers a completion. -/
def Message.isAboutWaits : Message → Bool
  | .wait _ | .cancelWait _ | .complete _ => true
  | _ => false

namespace AcceptorListener

variable (s : AcceptorListener) (answers : AcceptorAnswers)

/-- Change what the handlers do not look at. -/
def reshape (f : Bookkeeping → Bookkeeping) (s : AcceptorListener) : AcceptorListener :=
  s.mapCore (ListenerCore.reshape f)

/-- Finishing a generation goes on in the same way. -/
theorem reshape_finish (hf : Neutral f) (ec : ErrorCode) (reason : ListenerStopReason) :
    (s.reshape f).finish ec reason = (s.finish ec reason).reshape f := by
  unfold finish
  rw [apply_ite (reshape f)]
  have hcore : (s.reshape f).core.finish ec reason = (s.core.finish ec reason).reshape f :=
    s.core.reshape_finish hf ec reason
  rw [hcore]
  rfl

/-- Draining goes on in the same way. -/
theorem reshape_maybeFinish (hf : Neutral f) :
    (s.reshape f).maybeFinish = s.maybeFinish.reshape f := by
  unfold maybeFinish
  rw [apply_ite (reshape f), ← reshape_finish _ hf]
  rfl

/-- Arming the grace period goes on in the same way. -/
theorem reshape_armGrace : (s.reshape f).armGrace answers = (s.armGrace answers).reshape f := by
  unfold armGrace
  rw [apply_ite (reshape f)]
  cases answers.graceTimer <;> rfl

/-- Beginning to stop goes on in the same way. -/
theorem reshape_beginStop (hf : Neutral f) (ec : ErrorCode) (reason : ListenerStopReason) :
    (s.reshape f).beginStop answers ec reason = (s.beginStop answers ec reason).reshape f := by
  have hclosed : (((s.reshape f).closeDown ec reason).armGrace answers).maybeFinish =
      (((s.closeDown ec reason).armGrace answers).maybeFinish).reshape f := by
    rw [← reshape_maybeFinish _ hf, ← reshape_armGrace]
    rfl
  have hstate : (s.reshape f).core.state = s.core.state := rfl
  unfold beginStop
  rw [hstate]
  cases s.core.state with
  | idle => exact (s.mapCore fun c => c.announceStop ec reason).reshape_finish hf ec reason
  | starting => exact hclosed
  | running => exact hclosed
  | stopping => rfl
  | stopped => rfl

/-- Starting the next accept goes on in the same way. -/
theorem reshape_acceptNext (hf : Neutral f) (reason : ListenerStopReason) :
    (s.reshape f).acceptNext answers reason =
    ((s.acceptNext answers reason).1.reshape f, (s.acceptNext answers reason).2) := by
  unfold acceptNext
  change (if (s.core.state ≠ .starting ∧ s.core.state ≠ .running) ∨ s.acceptPending = true then _
    else if s.options.maxActiveSessions ≤ s.sessions.length then _ else _) = _
  split
  · rw [reshape_maybeFinish _ hf]
  · split
    · rfl
    · cases answers.accept with
      | none => rfl
      | some e =>
        have hstop := (s.mapCore fun c => c.acceptFailed e.error
          (some e.exception)).reshape_beginStop answers hf e.error reason
        exact congrArg (·, e.error) hstop

/-- The next accept leaves the changed listener as it leaves the other. -/
theorem reshape_acceptNext_fst (hf : Neutral f) (reason : ListenerStopReason) :
    ((s.reshape f).acceptNext answers reason).1 = (s.acceptNext answers reason).1.reshape f := by
  rw [reshape_acceptNext _ _ hf]

/-- Completing a start goes on in the same way. -/
theorem reshape_completeStart (hf : Neutral f) {completion : Completion}
    (hwait : completion.wait = none) :
    (s.reshape f).mapCore (·.completeOn completion) =
    (s.mapCore (·.completeOn completion)).reshape f :=
  congrArg (fun c => { s with core := c }) (s.core.reshape_completeOn hf hwait)

/-- A start goes on in the same way. -/
theorem reshape_startOnStrand (hf : Neutral f) (handler : CompletionHandler) :
    (s.reshape f).startOnStrand answers handler = (s.startOnStrand answers handler).reshape f := by
  unfold startOnStrand
  change (if s.core.state = .running then _ else if s.core.state ≠ .idle ∧
    s.core.state ≠ .stopped then _ else _) = _
  split
  · exact s.reshape_completeStart hf rfl
  · split
    · exact s.reshape_completeStart hf rfl
    · extract_lets l₁ l₂ bindError ec l₃ s₁ s₂ bindError' ec' s₃
      change (if ec'.failed = true then _ else _) = _
      split
      · have hcompleted : (s₂.reshape f).mapCore
            (·.completeOn ⟨handler, none, ec', .startupFailed⟩) = _ :=
          s₂.reshape_completeStart hf rfl
        exact (congrArg (fun t => t.finish ec' .startupFailure) hcompleted).trans
          (reshape_finish _ hf _ _)
      · have hnext : l₃.acceptNext answers .startupFailure =
            ((s₃.acceptNext answers .startupFailure).1.reshape f,
            (s₃.acceptNext answers .startupFailure).2) := s₃.reshape_acceptNext
            answers hf .startupFailure
        rw [hnext]
        obtain ⟨t, acceptEc⟩ := s₃.acceptNext answers .startupFailure
        change (if acceptEc.failed = true then _ else _) =
          (if acceptEc.failed = true then _ else _ : AcceptorListener).reshape f
        split
        · exact t.reshape_completeStart hf rfl
        · exact (t.mapCore (·.transitionTo .running)).reshape_completeStart hf rfl

/-- Reacting to a failed accept goes on in the same way. -/
theorem reshape_retryAccept (hf : Neutral f) (acceptEc : ErrorCode) :
    (s.reshape f).retryAccept answers acceptEc = (s.retryAccept answers acceptEc).reshape f := by
  unfold retryAccept
  extract_lets l₁ l₂ l₃ delay s₁ s₂ s₃ delay'
  split
  · exact s₁.reshape_beginStop answers hf acceptEc .runtimeFailure
  · change (if s₂.options.maxConsecutiveAcceptErrors ≤ s₂.consecutiveAcceptErrors then _ else _) = _
    split
    · exact s₂.reshape_beginStop answers hf acceptEc .runtimeFailure
    · cases answers.retryTimer with
      | none => rfl
      | some e =>
        exact (s₃.mapCore fun c => c.recordDiagnostic (exceptionToError (some e))
          (some e)).reshape_beginStop answers hf _ .runtimeFailure

/-- The handler of an accept goes on in the same way. -/
theorem reshape_accepted (hf : Neutral f) (result : AcceptResult) :
    (s.reshape f).accepted answers result = (s.accepted answers result).reshape f := by
  unfold accepted
  extract_lets l₁ l₂ info s₁ s₂ info'
  change (if s₁.core.state ≠ .running then _ else _) = _
  split
  · exact s₁.reshape_maybeFinish hf
  · split
    · exact s₁.reshape_retryAccept answers hf result.error
    · cases answers.factory with
      | some e =>
        exact (s₂.mapCore fun c => c.sessionFactoryFailed info' (exceptionToError (some e))
          (some e)).reshape_acceptNext_fst answers hf .runtimeFailure
      | none => exact (s₂.addSession info').reshape_acceptNext_fst answers hf .runtimeFailure

/-- The report of a session goes on in the same way. -/
theorem reshape_sessionFinished (hf : Neutral f) (report : SessionReport) :
    (s.reshape f).sessionFinished answers report =
    (s.sessionFinished answers report).reshape f := by
  have hremove : (s.reshape f).removeSession report.info.id =
      (s.removeSession report.info.id).reshape f := by
    unfold removeSession
    rw [apply_ite (reshape f)]
    rfl
  unfold sessionFinished
  extract_lets l₁ l₂ l₃ s₁ s₂ s₃
  have hnoted : l₂ = s₂.reshape f := by
    change l₁.mapCore _ = _
    rw [show l₁ = s₁.reshape f from hremove]
    exact congrArg (fun c => { s₁ with core := c })
      (s₁.core.reshape_sessionStopped report.info report)
  have hnext : l₃ = s₃.reshape f := by
    change (if l₂.core.state = .running then (l₂.acceptNext answers .runtimeFailure).1 else l₂) =
      (if s₂.core.state = .running then (s₂.acceptNext answers .runtimeFailure).1 else s₂).reshape f
    rw [hnoted, apply_ite (reshape f), reshape_acceptNext_fst _ _ hf]
    rfl
  rw [hnext]
  exact s₃.reshape_maybeFinish hf

/-- Running a message that is not about waits goes on in the same way. -/
theorem reshape_handle (hf : Neutral f) {message : Message}
    (hwaits : message.isAboutWaits = false) :
    (s.reshape f).handle answers message = (s.handle answers message).reshape f := by
  cases message with
  | start handler cancelled =>
    cases cancelled with
    | true => exact s.reshape_completeStart hf rfl
    | false => exact s.reshape_startOnStrand answers hf handler
  | stop => exact s.reshape_beginStop answers hf .success .requested
  | sessionFinished report => exact s.reshape_sessionFinished answers hf report
  | wait | cancelWait | complete => contradiction

/-- The handler of the retry timer goes on in the same way. -/
theorem reshape_retryExpired (hf : Neutral f) (ec : ErrorCode) :
    (s.reshape f).retryExpired answers ec = (s.retryExpired answers ec).reshape f := by
  unfold retryExpired
  rw [apply_ite (reshape f), apply_ite (reshape f), ← reshape_maybeFinish _ hf,
    ← reshape_beginStop _ _ hf, ← reshape_acceptNext_fst _ _ hf]

/-- The handler of the shutdown timer goes on in the same way. -/
theorem reshape_graceExpired (ec : ErrorCode) :
    (s.reshape f).graceExpired ec = (s.graceExpired ec).reshape f := by
  unfold graceExpired
  rw [apply_ite (reshape f)]
  rfl

variable {s} {t : AcceptorListener} {l : AcceptorLabel}

/-- The handlers of accepts and timers go on in the same way. -/
theorem reshape_step (hf : Neutral f) (hcore : ∀ k, l ≠ .core k)
    (hrun : ∀ answers, l ≠ .run answers) (hstep : s.step l = some t) :
    (s.reshape f).step l = some (t.reshape f) := by
  cases l with
  | core k => exact absurd rfl (hcore k)
  | run answers => exact absurd rfl (hrun answers)
  | accepted result answers =>
    obtain ⟨hpos, hstep⟩ := Option.ite_none_right_eq_some.mp hstep
    obtain rfl := Option.some.inj hstep
    refine (if_pos hpos).trans (congrArg some ?_)
    exact reshape_accepted { s with
      acceptor := ⟨s.acceptor.isOpen, s.acceptor.accepts - 1⟩ } answers hf result
  | retryExpires k =>
    obtain ⟨timer, htimer, rfl⟩ := Option.map_eq_some_iff.mp hstep
    exact Option.map_eq_some_iff.mpr ⟨timer, htimer, rfl⟩
  | retryHandler k answers =>
    obtain ⟨⟨w, timer⟩, htake, rfl⟩ := Option.map_eq_some_iff.mp hstep
    refine Option.map_eq_some_iff.mpr ⟨(w, timer), htake, ?_⟩
    exact reshape_retryExpired { s with retryTimer := timer } answers hf (waitError w.status)
  | graceHandler k =>
    obtain ⟨⟨w, timer⟩, htake, rfl⟩ := Option.map_eq_some_iff.mp hstep
    refine Option.map_eq_some_iff.mpr ⟨(w, timer), htake, ?_⟩
    exact (s.mapCore fun c => { c with shutdownTimer := timer }).reshape_graceExpired
      (waitError w.status)

end AcceptorListener

namespace SocketListener

variable (s : SocketListener) (answers : SocketAnswers)

/-- Change what the handlers do not look at. -/
def reshape (f : Bookkeeping → Bookkeeping) (s : SocketListener) : SocketListener :=
  s.mapCore (ListenerCore.reshape f)

/-- Finishing a generation goes on in the same way. -/
theorem reshape_finish (hf : Neutral f) (ec : ErrorCode) (reason : ListenerStopReason) :
    (s.reshape f).finish ec reason = (s.finish ec reason).reshape f :=
  congrArg (fun c => { s with core := c }) (s.core.reshape_finish hf ec reason)

/-- Draining goes on in the same way. -/
theorem reshape_maybeFinish (hf : Neutral f) :
    (s.reshape f).maybeFinish = s.maybeFinish.reshape f := by
  unfold maybeFinish
  rw [apply_ite (reshape f), ← reshape_finish _ hf]
  rfl

/-- Completing a start goes on in the same way. -/
theorem reshape_completeStart (hf : Neutral f) {completion : Completion}
    (hwait : completion.wait = none) :
    (s.reshape f).mapCore (·.completeOn completion) =
    (s.mapCore (·.completeOn completion)).reshape f :=
  congrArg (fun c => { s with core := c }) (s.core.reshape_completeOn hf hwait)

/-- A start that fails goes on in the same way. -/
theorem reshape_failStart (hf : Neutral f) (handler : CompletionHandler) (ec : ErrorCode) :
    ((s.reshape f).mapCore (·.completeOn ⟨handler, none, ec, .startupFailed⟩)).finish
    ec .startupFailure =
      ((s.mapCore (·.completeOn ⟨handler, none, ec, .startupFailed⟩)).finish ec
        .startupFailure).reshape f := by
  rw [reshape_completeStart _ hf rfl, reshape_finish _ hf]

/-- A start goes on in the same way. -/
theorem reshape_startOnStrand (hf : Neutral f) (handler : CompletionHandler) :
    (s.reshape f).startOnStrand answers handler = (s.startOnStrand answers handler).reshape f := by
  unfold startOnStrand
  change (if s.core.state = .running then _ else if s.core.state ≠ .idle ∧
    s.core.state ≠ .stopped then _ else _) = _
  split
  · exact s.reshape_completeStart hf rfl
  · split
    · exact s.reshape_completeStart hf rfl
    · extract_lets l₁ ec l₂ l₃ l₄ l₅ s₁ ec' s₂ s₃ s₄ s₅
      change (if ec'.failed = true then _ else _) = _
      split
      · exact s₁.reshape_failStart hf handler ec'
      · cases answers.factory with
        | some e =>
          exact (s₂.mapCore fun c => c.sessionFactoryFailed {} (exceptionToError (some e))
            (some e)).reshape_failStart hf handler _
        | none =>
          have hsession : l₃ = s₃.reshape f := rfl
          have hrunning : l₄ = s₄.reshape f :=
            congrArg (fun u : SocketListener => u.mapCore fun c => (c.transitionTo .running).emit
              .sessionStarted {} .success none) hsession
          have hcompleted : l₅ = s₅.reshape f :=
            (congrArg (fun u : SocketListener =>
              u.mapCore (·.completeOn ⟨handler, none, .success, .started⟩)) hrunning).trans
              (s₄.reshape_completeStart hf rfl)
          exact congrArg (fun u : SocketListener => u.mapCore fun c =>
            c.postTo u.session.toList .start) hcompleted

/-- The report of a session goes on in the same way. -/
theorem reshape_sessionFinished (hf : Neutral f) (report : SessionReport) :
    (s.reshape f).sessionFinished report = (s.sessionFinished report).reshape f := by
  unfold sessionFinished
  extract_lets l₁ l₂ reason s₁ s₂
  have hnoted : l₂ = s₂.reshape f :=
    congrArg (fun c => { s₁ with core := c })
      (reshape_sessionStopped { s.core with activeSessions := 0 } {} report)
  have hends (u v : SocketListener) (h : u = v.reshape f) :
      (if u.core.state = .running
        then (u.mapCore fun c => c.transitionTo .stopping).finish report.error reason
        else u.maybeFinish) =
      (if v.core.state = .running
        then (v.mapCore fun c => c.transitionTo .stopping).finish report.error reason
        else v.maybeFinish).reshape f := by
    rw [h, apply_ite (reshape f), ← reshape_finish _ hf, ← reshape_maybeFinish _ hf]
    rfl
  exact hends l₂ s₂ hnoted

/-- Beginning to stop goes on in the same way. -/
theorem reshape_stopOnStrand (hf : Neutral f) :
    (s.reshape f).stopOnStrand = s.stopOnStrand.reshape f := by
  have harm :
      ((s.mapCore fun c => (c.setStopReason .requested).transitionTo .stopping).reshape
        f).armGrace =
      (s.mapCore fun c => (c.setStopReason .requested).transitionTo .stopping).armGrace.reshape
        f := by
    unfold armGrace
    rw [apply_ite (reshape f)]
    rfl
  have hclosed := (s.mapCore fun c => (c.setStopReason .requested).transitionTo
    .stopping).armGrace.reshape_maybeFinish hf
  rw [← harm] at hclosed
  have hstate : (s.reshape f).core.state = s.core.state := rfl
  unfold stopOnStrand
  rw [hstate]
  cases s.core.state with
  | idle =>
    exact (s.mapCore fun c => (c.setStopReason .requested).transitionTo .stopping).reshape_finish
      hf .success .requested
  | starting => exact hclosed
  | running => exact hclosed
  | stopping => rfl
  | stopped => rfl

/-- Running a message that is not about waits goes on in the same way. -/
theorem reshape_handle (hf : Neutral f) {message : Message}
    (hwaits : message.isAboutWaits = false) :
    (s.reshape f).handle answers message = (s.handle answers message).reshape f := by
  cases message with
  | start handler cancelled =>
    cases cancelled with
    | true => exact s.reshape_completeStart hf rfl
    | false => exact s.reshape_startOnStrand answers hf handler
  | stop => exact s.reshape_stopOnStrand hf
  | sessionFinished report => exact s.reshape_sessionFinished hf report
  | wait | cancelWait | complete => contradiction

/-- The handler of the shutdown timer goes on in the same way. -/
theorem reshape_graceExpired (ec : ErrorCode) :
    (s.reshape f).graceExpired ec = (s.graceExpired ec).reshape f := by
  unfold graceExpired
  rw [apply_ite (reshape f)]
  rfl

variable {s} {t : SocketListener} {l : SocketLabel}

/-- The handlers of the timer go on in the same way. -/
theorem reshape_step (hcore : ∀ k, l ≠ .core k) (hrun : ∀ answers, l ≠ .run answers)
    (hstep : s.step l = some t) :
    (s.reshape f).step l = some (t.reshape f) := by
  cases l with
  | core k => exact absurd rfl (hcore k)
  | run answers => exact absurd rfl (hrun answers)
  | graceHandler k =>
    obtain ⟨⟨w, timer⟩, htake, rfl⟩ := Option.map_eq_some_iff.mp hstep
    refine Option.map_eq_some_iff.mpr ⟨(w, timer), htake, ?_⟩
    exact (s.mapCore fun c => { c with shutdownTimer := timer }).reshape_graceExpired
      (waitError w.status)

end SocketListener

end Serveza
