import Serveza.SocketListener
import Serveza.Steps

/-!
# The bound-socket listener refines the control steps

The same result as for the accepting listener: each handler acts on the shared part by
moves, and each step is one of the control steps.
-/

namespace Serveza

open Foundation

namespace SocketListener

variable (s : SocketListener) (answers : SocketAnswers) {a : ListenerCore}

/-- Draining either does nothing or finishes the generation. -/
theorem maybeFinish_moves (h : Moves a s.core) : Moves a s.maybeFinish.core := by
  unfold maybeFinish
  split
  · rename_i hdrained
    exact h.tail (.finish _ _ (Or.inr hdrained.1))
  · exact h

/-- Announcing a requested stop and giving the session its grace period arms the timer if
there is a session, and posts to it. -/
theorem announced_armGrace_core : ∃ timer, GraceArming s.core timer ∧
    Quiet ({ s.core.setStopReason .requested with shutdownTimer := timer }.transitionTo .stopping)
      (s.mapCore fun c => (c.setStopReason .requested).transitionTo .stopping).armGrace.core := by
  unfold armGrace
  split
  · exact ⟨_, .none, Quiet.refl _⟩
  · exact ⟨_, .armed s.options.shutdownGracePeriod, quiet_postTo _ _ _⟩

/-- Announcing a requested stop is a move. -/
theorem announce_moves
    (h : s.core.state = .idle ∨ s.core.state = .starting ∨ s.core.state = .running)
    {timer : Timer Arming} (ht : GraceArming s.core timer) :
    Moves s.core ({ s.core.setStopReason .requested with
      shutdownTimer := timer }.transitionTo .stopping) :=
  .tail (Moves.quiet (quiet_update s.core _ .requested _ _ _ _ (.of_heap rfl)))
    (.stopping h (ht.congr rfl rfl))

/-- The strand step of a stop acts by moves. -/
theorem stopOnStrand_moves : Moves s.core s.stopOnStrand.core := by
  obtain ⟨timer, harming, hquiet⟩ := s.announced_armGrace_core
  have hgrace (hs : s.core.state = .starting ∨ s.core.state = .running) :=
    maybeFinish_moves _ ((s.announce_moves (Or.inr hs) harming).tail (.quiet hquiet))
  unfold stopOnStrand
  cases hs : s.core.state with
  | idle => exact (s.announce_moves (Or.inl hs) .none).tail (.finish _ _ (Or.inr rfl))
  | starting => exact hgrace (Or.inl hs)
  | running => exact hgrace (Or.inr hs)
  | stopping => exact .refl
  | stopped => exact .refl

/-- After a stop the listener is halted. -/
theorem stopOnStrand_halted : s.stopOnStrand.core.state.Halted := by
  obtain ⟨timer, -, hquiet⟩ := s.announced_armGrace_core
  have hactive := moves_halted (maybeFinish_moves _ (Moves.quiet hquiet)) (Or.inl rfl)
  unfold stopOnStrand
  cases hs : s.core.state with
  | idle => exact Or.inr (finish_state _ _ _)
  | starting => exact hactive
  | running => exact hactive
  | stopping => exact Or.inl hs
  | stopped => exact Or.inr hs

/-- What a session's report comes to: the session is dropped and its end noted, a listener that
runs ends its generation, and any other drains. -/
theorem sessionFinished_eq (report : SessionReport) :
    ∃ t : SocketListener, t = { s with
        core := { s.core with activeSessions := 0 }.sessionStopped {} report
        session := none } ∧
      s.sessionFinished report = if t.core.state = .running then
        (t.mapCore fun c => c.transitionTo .stopping).finish report.error
          (if report.error.failed then .runtimeFailure else .completed)
      else t.maybeFinish :=
  ⟨_, rfl, rfl⟩

/-- What a session's report does to the shared part: it drops the session quietly, and the
generation ends if the listener runs or stops. -/
theorem sessionFinished_cases (report : SessionReport) :
    ∃ c, Quiet s.core c ∧ c.heap = s.core.heap ∧
    c.activeSessions = 0 ∧ (s.core.state = .running ∧ (∃ reason, s.sessionFinished report =
        ({ s with core := c.transitionTo .stopping, session := none }.finish report.error reason)) ∨
      s.core.state ≠ .running ∧
        s.sessionFinished report = { s with core := c, session := none }.maybeFinish) := by
  have hquiet : Quiet s.core ({ s.core with activeSessions := 0 }.sessionStopped {} report) :=
    (quiet_activeSessions s.core 0).trans (quiet_sessionStopped _ _ _)
  refine ⟨_, hquiet, ?_, ?_, ?_⟩
  · unfold ListenerCore.sessionStopped
    split <;> rfl
  · unfold ListenerCore.sessionStopped
    split <;> rfl
  · obtain ⟨t, rfl, heq⟩ := s.sessionFinished_eq report
    rw [← hquiet.state, heq]
    by_cases hrunning : ({ s.core with activeSessions := 0 }.sessionStopped {} report).state =
      .running
    · exact Or.inl ⟨hrunning, _, if_pos hrunning⟩
    · exact Or.inr ⟨hrunning, if_neg hrunning⟩

/-- The strand step of a session's report acts by moves. -/
theorem sessionFinished_moves (report : SessionReport) :
    Moves s.core (s.sessionFinished report).core := by
  obtain ⟨c, hquiet, -, -, ⟨hrunning, reason, heq⟩ | ⟨-, heq⟩⟩ := s.sessionFinished_cases report
  · rw [heq]
    exact ((Moves.quiet hquiet).tail
      (.stopping (Or.inr (Or.inr (hquiet.state.trans hrunning))) .none)).tail
      (.finish _ _ (Or.inr rfl))
  · rw [heq]
    exact maybeFinish_moves _ (Moves.quiet hquiet)

/-- A listener whose new generation has begun, with the endpoint of its socket. -/
def opened (endpoint : String) : SocketListener :=
  { s with core := { s.core.beginGeneration with endpoint := endpoint } }

/-- A listener that holds the session of its generation and runs. -/
def launched : SocketListener :=
  s.addSession.mapCore fun c => (c.transitionTo .running).emit .sessionStarted {} .success none

/-- What a start comes to: it joins a running generation, is rejected during a transition, or
begins a generation, which fails with a diagnostic or runs with its session. -/
theorem startOnStrand_cases (handler : CompletionHandler) :
    s.core.state = .running ∧ s.startOnStrand answers handler =
      (s.mapCore fun c => c.completeOn ⟨handler, none, .success, .joined⟩) ∨
    (s.core.state = .starting ∨ s.core.state = .stopping) ∧ s.startOnStrand answers handler =
      (s.mapCore fun c => c.completeOn ⟨handler, none, .operationAborted, .rejected⟩) ∨
    (s.core.state = .idle ∨ s.core.state = .stopped) ∧ ∃ endpoint,
      ((∃ c ec, Quiet (s.opened endpoint).core c ∧ c.heap = s.core.heap ∧
        c.activeSessions = s.core.activeSessions ∧
          s.startOnStrand answers handler =
            ({ s with core := c.completeOn ⟨handler, none, ec, .startupFailed⟩ }.finish
              ec .startupFailure)) ∨
        s.startOnStrand answers handler = ((s.opened endpoint).launched.mapCore fun c =>
          c.completeOn ⟨handler, none, .success, .started⟩).mapCore fun c =>
            c.postTo [s.core.generation + 1] .start) := by
  unfold startOnStrand
  split
  · rename_i hrunning
    exact Or.inl ⟨hrunning, rfl⟩
  · rename_i hrunning
    split
    · rename_i hbusy
      refine Or.inr (Or.inl ⟨?_, rfl⟩)
      cases hs : s.core.state <;> simp [hs] at hrunning hbusy ⊢
    · rename_i hidle
      have hstate : s.core.state = .idle ∨ s.core.state = .stopped := by
        by_contra hcontra
        exact hidle ⟨fun h => hcontra (Or.inl h), fun h => hcontra (Or.inr h)⟩
      refine Or.inr (Or.inr ⟨hstate, ?_⟩)
      extract_lets s₁ ec s₂
      split
      · exact ⟨s.core.endpoint, Or.inl ⟨s₁.core, ec, Quiet.refl _, rfl, rfl, rfl⟩⟩
      · refine ⟨answers.localEndpoint.getD s.configuredEndpoint.text, ?_⟩
        cases answers.factory with
        | some e =>
          exact Or.inl ⟨s₂.core.sessionFactoryFailed {} (exceptionToError (some e)) (some e),
            exceptionToError (some e), quiet_failure _ (by simp) (by simp) _ _ _, rfl, rfl, rfl⟩
        | none => exact Or.inr rfl

/-- A start from idle or stopped begins a generation and completes its handler exactly once,
with moves before and after; any other start completes its handler at once. -/
theorem startOnStrand_core (handler : CompletionHandler) :
    ∃ completion, completion.EndsStart handler ∧
      ((s.startOnStrand answers handler).core = s.core.completeOn completion ∨
        ((s.core.state = .idle ∨ s.core.state = .stopped) ∧ ∃ m, Moves s.core.beginGeneration m ∧
          Moves (m.completeOn completion) (s.startOnStrand answers handler).core)) := by
  rcases s.startOnStrand_cases answers handler with
    ⟨-, heq⟩ | ⟨-, heq⟩ | ⟨hs, endpoint, ⟨c, ec, hquiet, -, -, heq⟩ | heq⟩
  · rw [heq]
    exact ⟨⟨handler, none, .success, .joined⟩, ⟨rfl, rfl, rfl⟩, Or.inl rfl⟩
  · rw [heq]
    exact ⟨⟨handler, none, .operationAborted, .rejected⟩, ⟨rfl, rfl, rfl⟩, Or.inl rfl⟩
  · have hbegun : Quiet s.core.beginGeneration c := (quiet_endpoint _ endpoint).trans hquiet
    rw [heq]
    exact ⟨⟨handler, none, ec, .startupFailed⟩, ⟨rfl, rfl, trivial⟩,
      Or.inr ⟨hs, c, Moves.quiet hbegun, .single (.finish _ _ (Or.inl hbegun.state))⟩⟩
  · have hopened : Moves s.core.beginGeneration (s.opened endpoint).core :=
      Moves.quiet (quiet_endpoint _ _)
    have hadd : Quiet (s.opened endpoint).core (s.opened endpoint).addSession.core :=
      quiet_addSession _ _ _
    have hrunning : Moves s.core.beginGeneration (s.opened endpoint).launched.core :=
      ((hopened.tail (.quiet hadd)).tail (.running rfl)).tail
        (.quiet (quiet_emit _ (by simp) (by simp) {} .success none))
    rw [heq]
    exact ⟨⟨handler, none, .success, .started⟩, ⟨rfl, rfl, rfl⟩,
      Or.inr ⟨hs, (s.opened endpoint).launched.core, hrunning, Moves.quiet (quiet_postTo _ _ _)⟩⟩

/-- The kind of a step of a bound-socket listener. -/
def kind : SocketLabel → StepKind
  | .core l => .off l
  | .run _ => (s.core.strand.head?.map Message.kind).getD .handler
  | .graceHandler k => ((s.core.shutdownTimer.take k).map fun (w, _) => graceKind w).getD .handler

/-- Running a posted message is a control step. -/
theorem handle_core {message : Message} {rest : List Message}
    (h : s.core.strand = message :: rest) :
    CoreStep message.kind s.core
      ((s.mapCore fun c => { c with strand := rest }).handle answers message).core := by
  cases message with
  | start handler cancelled =>
    cases cancelled with
    | true => exact .settleStart h ⟨handler, none, .operationAborted, .cancelled⟩ ⟨rfl, rfl, rfl⟩
    | false =>
      obtain ⟨completion, hends, hsettled | ⟨hstate, m, hbefore, hafter⟩⟩ :=
        (s.mapCore fun c => { c with strand := rest }).startOnStrand_core answers handler
      · simp only [handle, Bool.false_eq_true, if_false, hsettled]
        exact .settleStart h completion hends
      · exact .start h hstate completion hends hbefore hafter
  | wait w => exact .wait h
  | cancelWait id => exact .cancelWait h
  | stop =>
    exact .stop h (stopOnStrand_moves (s.mapCore fun c => { c with strand := rest }))
      (stopOnStrand_halted _)
  | sessionFinished report =>
    exact .report h (sessionFinished_moves (s.mapCore fun c => { c with strand := rest }) report)
  | complete completion => exact .deliver h

/-- Running the handler of a wait on the shutdown timer is a control step. -/
theorem graceHandler_core {k : ℕ} {w : TimerWait Arming} {timer : Timer Arming}
    (h : s.core.shutdownTimer.take k = some (w, timer)) :
    CoreStep (graceKind w) s.core
      ((s.mapCore fun c => { c with shutdownTimer := timer }).graceExpired
        (waitError w.status)).core := by
  obtain ⟨-, hdecided, -⟩ := Timer.take_cases h
  obtain ⟨tag, status⟩ := w
  cases status with
  | pending => exact absurd rfl hdecided
  | expired => exact .force h rfl s.session.toList
  | aborted =>
    have hfailed : (waitError .aborted).failed = true := by decide
    rw [graceExpired, if_pos hfailed]
    exact .graceAborted h rfl

/-- Every step of a bound-socket listener is a control step. -/
theorem step_core {l : SocketLabel} {t : SocketListener} (h : s.step l = some t) :
    CoreStep (s.kind l) s.core t.core := by
  cases l with
  | core l =>
    obtain ⟨c, hc, rfl⟩ := Option.map_eq_some_iff.mp h
    exact .off s.alive (fun hpos => by simp [alive, ListenerCore.referenced, hpos]) (call_cases hc)
  | run answers =>
    cases hstrand : s.core.strand with
    | nil => simp [step, hstrand] at h
    | cons message rest =>
      obtain rfl : _ = t := by simpa [step, hstrand] using h
      simpa [kind, hstrand] using s.handle_core answers hstrand
  | graceHandler k =>
    obtain ⟨⟨w, timer⟩, hw, rfl⟩ := Option.map_eq_some_iff.mp h
    simpa [kind, hw] using s.graceHandler_core hw

end SocketListener

end Serveza
