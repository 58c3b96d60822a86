import Serveza.AcceptorListener
import Serveza.Steps

/-!
# The handlers of the accepting listener, case by case

One lemma per handler says which of the smaller operations it comes to and when. Everything
else about the accepting listener is proved from these cases, without unfolding a handler.
-/

namespace Serveza

open Foundation

/-- The listeners differ in diagnostics, events and retries only. -/
structure Noted (s t : AcceptorListener) : Prop where
  quiet : Quiet s.core t.core
  activeSessions : t.core.activeSessions = s.core.activeSessions
  heap : t.core.heap = s.core.heap
  options : t.options = s.options
  acceptor : t.acceptor = s.acceptor
  nextConnectionId : t.nextConnectionId = s.nextConnectionId
  acceptPending : t.acceptPending = s.acceptPending
  sessions : t.sessions = s.sessions
  retries : s.retryTimer.waits ≠ [] → t.retryTimer.waits ≠ []
  events : ∃ added, t.core.events = s.core.events ++ added ∧
    ∀ e ∈ added, e.type = .acceptFailed ∧ e.status.activeSessions = s.core.activeSessions

/-- Diagnostics do not decide whether a listener accepts. -/
theorem Noted.accepting {s t : AcceptorListener} (h : Noted s t) (hs : s.Accepting) :
    t.Accepting := by
  rw [AcceptorListener.Accepting, h.quiet.state]
  exact hs

namespace AcceptorListener

variable (s : AcceptorListener) (answers : AcceptorAnswers)

/-- Noting a failed accept. -/
theorem noted_acceptFailed (ec : ErrorCode) (ep : Option ThrownException) :
    Noted s (s.mapCore fun c => c.acceptFailed ec ep) :=
  ⟨quiet_failure _ (by simp) (by simp) _ _ _, rfl, rfl, rfl, rfl, rfl, rfl, rfl, id, _, rfl,
    fun _ he => List.mem_singleton.mp he ▸ ⟨rfl, rfl⟩⟩

/-- A listener that is not stopping has nothing to drain. -/
theorem maybeFinish_of_not_stopping (h : s.core.state ≠ .stopping) : s.maybeFinish = s := by
  rw [maybeFinish, if_neg fun hdrained => h hdrained.1]

/-- What beginning to stop comes to: a new listener finishes at once, one that accepts closes
down, and one that is halted already is left alone. -/
theorem beginStop_cases (ec : ErrorCode) (reason : ListenerStopReason) :
    s.core.state = .idle ∧
      s.beginStop answers ec reason =
        (s.mapCore fun c => c.announceStop ec reason).finish ec reason ∨
    s.Accepting ∧ s.beginStop answers ec reason =
      ((s.closeDown ec reason).armGrace answers).maybeFinish ∨
    s.core.state.Halted ∧ s.beginStop answers ec reason = s := by
  unfold beginStop
  cases hs : s.core.state with
  | idle => exact Or.inl ⟨rfl, rfl⟩
  | starting => exact Or.inr (Or.inl ⟨Or.inl hs, rfl⟩)
  | running => exact Or.inr (Or.inl ⟨Or.inr hs, rfl⟩)
  | stopping => exact Or.inr (Or.inr ⟨Or.inl rfl, rfl⟩)
  | stopped => exact Or.inr (Or.inr ⟨Or.inr rfl, rfl⟩)

/-- What starting the next accept comes to: nothing to start, no room, an accept, or a failure
that stops the listener. -/
theorem acceptNext_cases (reason : ListenerStopReason) :
    (¬ s.Accepting ∨ s.acceptPending = true) ∧
    s.acceptNext answers reason = (s.maybeFinish, .success) ∨
    (s.Accepting ∧ s.acceptPending = false) ∧
      (s.options.maxActiveSessions ≤ s.sessions.length ∧
        s.acceptNext answers reason = (s, .success) ∨
        s.sessions.length < s.options.maxActiveSessions ∧
        (s.acceptNext answers reason = (s.startAccept, .success) ∨
          ∃ (t : AcceptorListener) (e : FailingException), Noted s t ∧
            s.acceptNext answers reason = (t.beginStop answers e.error reason, e.error))) := by
  have hguard : ((s.core.state ≠ .starting ∧ s.core.state ≠ .running) ∨ s.acceptPending = true) ↔
      (¬ s.Accepting ∨ s.acceptPending = true) := by rw [Accepting, not_or]
  by_cases hbusy : ¬ s.Accepting ∨ s.acceptPending = true
  · exact Or.inl ⟨hbusy, by rw [acceptNext, if_pos (hguard.mpr hbusy)]⟩
  · have hopen : s.Accepting ∧ s.acceptPending = false := by simpa [not_or] using hbusy
    refine Or.inr ⟨hopen, ?_⟩
    rw [acceptNext, if_neg (mt hguard.mp hbusy)]
    by_cases hfull : s.options.maxActiveSessions ≤ s.sessions.length
    · exact Or.inl ⟨hfull, if_pos hfull⟩
    · rw [if_neg hfull]
      refine Or.inr ⟨Nat.lt_of_not_le hfull, ?_⟩
      cases answers.accept with
      | none => exact Or.inl rfl
      | some e => exact Or.inr ⟨_, e, s.noted_acceptFailed _ _, rfl⟩

/-- What a failed accept comes to: the listener stops, or a retry is armed. -/
theorem retryAccept_cases (acceptEc : ErrorCode) : ∃ t, Noted s t ∧
    ((∃ ec, s.retryAccept answers acceptEc = t.beginStop answers ec .runtimeFailure) ∨
      ∃ tag, s.retryAccept answers acceptEc =
        { t with retryTimer := t.retryTimer.asyncWait tag }) := by
  have hnoted (ec : ErrorCode) (ep : Option ThrownException) (errors : ℕ) (timer : Timer Arming)
      (htimer : s.retryTimer.waits ≠ [] → timer.waits ≠ []) : Noted s { s with
        core := (s.core.acceptFailed acceptEc none).recordDiagnostic ec ep
        consecutiveAcceptErrors := errors
        retryTimer := timer } :=
    ⟨(s.noted_acceptFailed acceptEc none).quiet.trans (quiet_recordDiagnostic _ ec ep),
      rfl, rfl, rfl, rfl, rfl, rfl, rfl, htimer, (s.noted_acceptFailed acceptEc none).events⟩
  have hcancelled : s.retryTimer.waits ≠ [] → s.retryTimer.expiresAfter.waits ≠ [] := by
    simp [Timer.expiresAfter, Timer.cancel]
  unfold retryAccept
  extract_lets s₁ s₂ s₃
  split
  · exact ⟨s₁, hnoted acceptEc none _ _ id, Or.inl ⟨acceptEc, rfl⟩⟩
  · split
    · exact ⟨s₂, hnoted acceptEc none _ _ id, Or.inl ⟨acceptEc, rfl⟩⟩
    · cases answers.retryTimer with
      | none => exact ⟨s₃, hnoted acceptEc none _ _ hcancelled, Or.inr ⟨_, rfl⟩⟩
      | some e =>
        exact ⟨s₃.mapCore fun c => c.recordDiagnostic (exceptionToError (some e)) (some e),
          hnoted _ _ _ _ hcancelled, Or.inl ⟨_, rfl⟩⟩

/-- What a completed accept comes to: draining, a retry, or the next accept, with a new
session unless the factory failed. -/
theorem accepted_cases (result : AcceptResult) :
    s.core.state ≠ .running ∧
    s.accepted answers result = { s with acceptPending := false }.maybeFinish ∨
    s.core.state = .running ∧
      (s.accepted answers result = { s with acceptPending := false }.retryAccept
        answers result.error ∨
        (∃ info : ConnectionInfo, info.id = s.nextConnectionId + 1 ∧
          ∃ ec ep, s.accepted answers result =
          (({ s with acceptPending := false }.nextConnection.mapCore fun c =>
            c.sessionFactoryFailed info ec ep).acceptNext answers .runtimeFailure).1) ∨
        ∃ info : ConnectionInfo, info.id = s.nextConnectionId + 1 ∧ s.accepted answers result =
          (({ s with acceptPending := false }.nextConnection.addSession info).acceptNext answers
            .runtimeFailure).1) := by
  unfold accepted
  simp only
  split
  · rename_i hstate
    exact Or.inl ⟨hstate, rfl⟩
  · rename_i hstate
    refine Or.inr ⟨not_not.mp hstate, ?_⟩
    split
    · exact Or.inl rfl
    · cases answers.factory with
      | some e => exact Or.inr (Or.inl ⟨_, rfl, _, some e, rfl⟩)
      | none => exact Or.inr (Or.inr ⟨_, rfl, rfl⟩)

/-- What a session's report comes to: the session is dropped and its end noted, a listener that
runs starts the next accept, and the listener drains. -/
theorem sessionFinished_eq (report : SessionReport) :
    ∃ t, t = ((s.removeSession report.info.id).mapCore fun c => c.sessionStopped
      report.info report) ∧
      s.sessionFinished answers report =
        (if t.core.state = .running then (t.acceptNext answers .runtimeFailure).1
          else t).maybeFinish :=
  ⟨_, rfl, rfl⟩

/-- A listener whose new generation has begun, with its acceptor as far as it got. -/
def opened (acceptor : Acceptor) (endpoint : String) : AcceptorListener :=
  { s with core := { s.core.beginGeneration with endpoint := endpoint }, acceptor := acceptor }

/-- What a start comes to: it joins a running generation, is rejected during a transition, or
begins a generation, which fails to open, fails to accept, or runs. -/
theorem startOnStrand_cases (handler : CompletionHandler) :
    s.core.state = .running ∧ s.startOnStrand answers handler =
      (s.mapCore fun c => c.completeOn ⟨handler, none, .success, .joined⟩) ∨
    (s.core.state = .starting ∨ s.core.state = .stopping) ∧ s.startOnStrand answers handler =
      (s.mapCore fun c => c.completeOn ⟨handler, none, .operationAborted, .rejected⟩) ∨
    (s.core.state = .idle ∨ s.core.state = .stopped) ∧ ∃ acceptor endpoint, acceptor.accepts =
    s.acceptor.accepts ∧
      ((∃ ec, s.startOnStrand answers handler =
          (((s.opened acceptor endpoint).mapCore fun c =>
            c.completeOn ⟨handler, none, ec, .startupFailed⟩).finish ec
            .startupFailure)) ∨
        ∃ t ec, (s.opened acceptor endpoint).acceptNext answers .startupFailure = (t, ec) ∧
          (ec.failed = true ∧ s.startOnStrand answers handler =
              (t.mapCore fun c => c.completeOn ⟨handler, none, ec, .startupFailed⟩) ∨
            ec.failed = false ∧ s.startOnStrand answers handler =
              t.mapCore fun c => (c.transitionTo .running).completeOn
                ⟨handler, none, .success, .started⟩)) := by
  unfold startOnStrand
  split
  · rename_i hrunning
    exact Or.inl ⟨hrunning, rfl⟩
  · rename_i hrunning
    split
    · rename_i hbusy
      refine Or.inr (Or.inl ⟨?_, rfl⟩)
      cases hs : s.core.state <;> simp [hs] at hrunning hbusy ⊢
    · rename_i hidle
      have hstate : s.core.state = .idle ∨ s.core.state = .stopped := by
        by_contra hcontra
        exact hidle ⟨fun h => hcontra (Or.inl h), fun h => hcontra (Or.inr h)⟩
      refine Or.inr (Or.inr ⟨hstate, ?_⟩)
      extract_lets s₁ s₂ bindError ec s₃
      split
      · exact ⟨⟨s.acceptor.isOpen || !answers.opened.failed, s.acceptor.accepts⟩,
          s.core.endpoint, rfl, Or.inl ⟨ec, rfl⟩⟩
      · refine ⟨⟨s.acceptor.isOpen || !answers.opened.failed, s.acceptor.accepts⟩,
          answers.localEndpoint.getD s.core.endpoint, rfl, Or.inr ?_⟩
        change ∃ t ec, s₃.acceptNext answers .startupFailure = (t, ec) ∧ _
        obtain ⟨t, acceptEc⟩ := s₃.acceptNext answers .startupFailure
        refine ⟨t, acceptEc, rfl, ?_⟩
        by_cases hec : acceptEc.failed = true
        · exact Or.inl ⟨hec, if_pos hec⟩
        · exact Or.inr ⟨Bool.not_eq_true _ ▸ hec, if_neg hec⟩

/-- What a step of the accepting listener does. A retry wait that is aborted drains and one
that is due accepts; a grace wait acts only when it is due. -/
inductive Step : AcceptorLabel → AcceptorListener → Prop where
  | core {l c} (h : CallStep s.alive l s.core c) : Step (.core l) { s with core := c }
  | run {answers message rest} (h : s.core.strand = message :: rest) :
    Step (.run answers) ((s.mapCore fun c => { c with strand := rest }).handle answers message)
  | accepted {result answers} (h : 0 < s.acceptor.accepts) :
    Step (.accepted result answers)
      ({ s with acceptor := ⟨s.acceptor.isOpen, s.acceptor.accepts - 1⟩ }.accepted answers result)
  | retryExpires {k timer} (h : s.retryTimer.expire k = some timer) :
    Step (.retryExpires k) { s with retryTimer := timer }
  | retryAborted {k answers w timer} (h : s.retryTimer.take k = some (w, timer))
    (hw : w.status = .aborted) :
    Step (.retryHandler k answers) { s with retryTimer := timer }.maybeFinish
  | retryDue {k answers w timer} (h : s.retryTimer.take k = some (w, timer))
    (hw : w.status = .expired) :
    Step (.retryHandler k answers)
      ({ s with retryTimer := timer }.acceptNext answers .runtimeFailure).1
  | graceAborted {k w timer} (h : s.core.shutdownTimer.take k = some (w, timer))
    (hw : w.status = .aborted) :
    Step (.graceHandler k) (s.mapCore fun c => { c with shutdownTimer := timer })
  | graceDue {k w timer} (h : s.core.shutdownTimer.take k = some (w, timer))
    (hw : w.status = .expired) :
    Step (.graceHandler k) (s.mapCore fun c => { c with
      shutdownTimer := timer }.forceShutdown s.sessions)

/-- Every step has the effect of its label. -/
theorem step_cases {l : AcceptorLabel} {t : AcceptorListener} (h : s.step l = some t) :
    s.Step l t := by
  cases l with
  | core l =>
    obtain ⟨c, hc, rfl⟩ := Option.map_eq_some_iff.mp h
    exact .core (call_cases hc)
  | run answers =>
    cases hstrand : s.core.strand with
    | nil => simp [step, hstrand] at h
    | cons message rest =>
      obtain rfl : _ = t := by simpa [step, hstrand] using h
      exact .run hstrand
  | accepted result answers =>
    obtain ⟨hpos, h⟩ := Option.ite_none_right_eq_some.mp h
    obtain rfl := Option.some.inj h
    exact .accepted hpos
  | retryExpires k =>
    obtain ⟨timer, htimer, rfl⟩ := Option.map_eq_some_iff.mp h
    exact .retryExpires htimer
  | retryHandler k answers =>
    obtain ⟨⟨⟨tag, status⟩, timer⟩, htake, rfl⟩ := Option.map_eq_some_iff.mp h
    cases status with
    | pending => exact absurd rfl (Timer.take_cases htake).2.1
    | expired => exact .retryDue htake rfl
    | aborted => exact .retryAborted htake rfl
  | graceHandler k =>
    obtain ⟨⟨⟨tag, status⟩, timer⟩, htake, rfl⟩ := Option.map_eq_some_iff.mp h
    cases status with
    | pending => exact absurd rfl (Timer.take_cases htake).2.1
    | expired => exact .graceDue htake rfl
    | aborted => exact .graceAborted htake rfl

end AcceptorListener

end Serveza
