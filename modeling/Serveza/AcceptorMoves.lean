import Serveza.AcceptorCases

/-!
# The accepting listener refines the control steps

Each handler of the accepting listener acts on the shared part by moves, and each of its
steps is one of the control steps. The lemmas extend a sequence of moves, so that a handler
that calls another one is covered by the lemmas of the two.
-/

namespace Serveza

open Foundation

namespace AcceptorListener

variable (s : AcceptorListener) (answers : AcceptorAnswers) {a : ListenerCore}

/-- The shared part of a finished listener is the shared `finish`. -/
theorem finish_core (ec : ErrorCode) (reason : ListenerStopReason) :
    (s.finish ec reason).core = s.core.finish ec reason := by
  unfold finish
  split
  · rename_i h
    simp [ListenerCore.finish, h]
  · rfl

/-- Draining either does nothing or finishes the generation. -/
theorem maybeFinish_moves (h : Moves a s.core) : Moves a s.maybeFinish.core := by
  unfold maybeFinish
  split
  · rename_i hdrained
    rw [finish_core]
    exact h.tail (.finish _ _ (Or.inr hdrained.1))
  · exact h

/-- Closing down and giving the sessions their grace period announces the stop, arms the
timer if it can, and posts to the sessions. -/
theorem closeDown_armGrace_core (ec : ErrorCode) (reason : ListenerStopReason) :
    ∃ timer, GraceArming s.core timer ∧
      Quiet ({ s.core with shutdownTimer := timer }.announceStop ec reason)
        ((s.closeDown ec reason).armGrace answers).core := by
  unfold armGrace
  split
  · exact ⟨_, .none, quiet_postTo _ _ _⟩
  · cases answers.graceTimer with
    | none => exact ⟨_, .armed s.options.shutdownGracePeriod, quiet_postTo _ _ _⟩
    | some e => exact ⟨_, .failed, (quiet_postTo _ _ _).trans (quiet_postTo _ _ _)⟩

/-- Closing down and giving the sessions their grace period acts by moves. -/
theorem closeDown_armGrace_moves (ec : ErrorCode) (reason : ListenerStopReason)
    (hs : s.core.state = .starting ∨ s.core.state = .running) (h : Moves a s.core) :
    Moves a ((s.closeDown ec reason).armGrace answers).core := by
  obtain ⟨timer, harming, hquiet⟩ := s.closeDown_armGrace_core answers ec reason
  exact (h.trans (announceStop_moves s.core ec reason (Or.inr hs) harming)).tail (.quiet hquiet)

/-- Beginning to stop acts by moves. -/
theorem beginStop_moves (ec : ErrorCode) (reason : ListenerStopReason) (h : Moves a s.core) :
    Moves a (s.beginStop answers ec reason).core := by
  rcases s.beginStop_cases answers ec reason with ⟨hs, heq⟩ | ⟨hs, heq⟩ | ⟨-, heq⟩
  · rw [heq, finish_core]
    exact (h.trans (announceStop_moves s.core ec reason (Or.inl hs) .none)).tail
      (.finish _ _ (Or.inr rfl))
  · rw [heq]
    exact maybeFinish_moves _ (s.closeDown_armGrace_moves answers ec reason hs h)
  · rwa [heq]

/-- After beginning to stop the listener is halted. -/
theorem beginStop_halted (ec : ErrorCode) (reason : ListenerStopReason) :
    (s.beginStop answers ec reason).core.state.Halted := by
  rcases s.beginStop_cases answers ec reason with ⟨hs, heq⟩ | ⟨hs, heq⟩ | ⟨hs, heq⟩
  · rw [heq, finish_core]
    exact Or.inr (finish_state _ _ _)
  · rw [heq]
    obtain ⟨timer, -, hquiet⟩ := s.closeDown_armGrace_core answers ec reason
    exact moves_halted (maybeFinish_moves _ (Moves.quiet hquiet)) (Or.inl rfl)
  · rwa [heq]

/-- Starting the next accept acts by moves. -/
theorem acceptNext_moves (reason : ListenerStopReason) (h : Moves a s.core) :
    Moves a (s.acceptNext answers reason).1.core := by
  rcases s.acceptNext_cases answers reason with
    ⟨-, heq⟩ | ⟨-, ⟨-, heq⟩ | ⟨-, heq | ⟨t, e, hnoted, heq⟩⟩⟩
  · rw [heq]
    exact s.maybeFinish_moves h
  · rw [heq]
    exact h
  · rw [heq]
    exact h
  · rw [heq]
    exact t.beginStop_moves answers e.error reason (h.tail (.quiet hnoted.quiet))

/-- A listener that accepts keeps its shared part as long as no accept fails to start. -/
theorem acceptNext_core (reason : ListenerStopReason) (hs : s.Accepting)
    (h : (s.acceptNext answers reason).2.failed = false) :
    (s.acceptNext answers reason).1.core = s.core := by
  rcases s.acceptNext_cases answers reason with ⟨-, heq⟩ | ⟨-, ⟨-, heq⟩ | ⟨-, heq | ⟨t, e, -, heq⟩⟩⟩
  · rw [heq, s.maybeFinish_of_not_stopping (by rcases hs with hs | hs <;> simp [hs])]
  · rw [heq]
  · rw [heq]
    rfl
  · rw [heq] at h
    exact Bool.noConfusion (e.failed.symm.trans h)

/-- Reacting to a failed accept acts by moves. -/
theorem retryAccept_moves (acceptEc : ErrorCode) (h : Moves a s.core) :
    Moves a (s.retryAccept answers acceptEc).core := by
  obtain ⟨t, hnoted, ⟨ec, heq⟩ | ⟨tag, heq⟩⟩ := s.retryAccept_cases answers acceptEc
  · rw [heq]
    exact t.beginStop_moves answers ec .runtimeFailure (h.tail (.quiet hnoted.quiet))
  · rw [heq]
    exact h.tail (.quiet hnoted.quiet)

/-- Holding a new session is quiet. -/
theorem addSession_quiet (info : ConnectionInfo) : Quiet s.core (s.addSession info).core :=
  (quiet_addSession s.core _ _).trans
    (.trans (quiet_emit _ (by simp) (by simp) _ _ _) (quiet_postTo _ _ _))

/-- The handler of an accept acts by moves. -/
theorem accepted_moves (result : AcceptResult) (h : Moves a s.core) :
    Moves a (s.accepted answers result).core := by
  rcases s.accepted_cases answers result with
    ⟨-, heq⟩ | ⟨-, heq | ⟨info, -, ec, ep, heq⟩ | ⟨info, -, heq⟩⟩
  · rw [heq]
    exact maybeFinish_moves _ h
  · rw [heq]
    exact retryAccept_moves _ answers result.error h
  · rw [heq]
    exact acceptNext_moves _ answers .runtimeFailure
      (h.tail (.quiet (quiet_failure _ (by simp) (by simp) _ _ _)))
  · rw [heq]
    exact acceptNext_moves _ answers .runtimeFailure (h.tail (.quiet (addSession_quiet _ _)))

/-- Dropping a session is quiet. -/
theorem removeSession_quiet (key : ℕ) : Quiet s.core (s.removeSession key).core := by
  unfold removeSession
  split
  · exact quiet_activeSessions _ _
  · exact Quiet.refl _

/-- The strand step of a session's report acts by moves. -/
theorem sessionFinished_moves (report : SessionReport) (h : Moves a s.core) :
    Moves a (s.sessionFinished answers report).core := by
  have hnote : Quiet s.core
      ((s.removeSession report.info.id).core.sessionStopped report.info report) :=
    (s.removeSession_quiet _).trans (quiet_sessionStopped _ _ _)
  unfold sessionFinished
  simp only
  refine maybeFinish_moves _ ?_
  split
  · exact acceptNext_moves _ answers .runtimeFailure (h.tail (.quiet hnote))
  · exact h.tail (.quiet hnote)

/-- A start from idle or stopped begins a generation and completes its handler exactly once,
with moves before and after; any other start completes its handler at once. -/
theorem startOnStrand_core (handler : CompletionHandler) :
    ∃ completion, completion.EndsStart handler ∧
      ((s.startOnStrand answers handler).core = s.core.completeOn completion ∨
        ((s.core.state = .idle ∨ s.core.state = .stopped) ∧ ∃ m, Moves s.core.beginGeneration m ∧
          Moves (m.completeOn completion) (s.startOnStrand answers handler).core)) := by
  rcases s.startOnStrand_cases answers handler with
    ⟨-, heq⟩ | ⟨-, heq⟩ | ⟨hs, acceptor, endpoint, -, hbegun⟩
  · exact ⟨⟨handler, none, .success, .joined⟩, ⟨rfl, rfl, rfl⟩, Or.inl (by rw [heq]; rfl)⟩
  · exact ⟨⟨handler, none, .operationAborted, .rejected⟩, ⟨rfl, rfl, rfl⟩,
      Or.inl (by rw [heq]; rfl)⟩
  · have hopened : Moves s.core.beginGeneration (s.opened acceptor endpoint).core :=
      Moves.quiet (quiet_endpoint _ endpoint)
    rcases hbegun with ⟨ec, heq⟩ | ⟨t, ec, hnext, ⟨-, heq⟩ | ⟨hec, heq⟩⟩
    · refine ⟨⟨handler, none, ec, .startupFailed⟩, ⟨rfl, rfl, trivial⟩, Or.inr ⟨hs, _, hopened, ?_⟩⟩
      rw [heq, finish_core]
      exact .single (.finish _ _ (Or.inl rfl))
    · have ht := (s.opened acceptor endpoint).acceptNext_moves answers .startupFailure hopened
      rw [hnext] at ht
      refine ⟨⟨handler, none, ec, .startupFailed⟩, ⟨rfl, rfl, trivial⟩, Or.inr ⟨hs, t.core, ht, ?_⟩⟩
      rw [heq]
      exact .refl
    · have hcore :=
        (s.opened acceptor endpoint).acceptNext_core answers .startupFailure (Or.inl rfl)
      rw [hnext] at hcore
      have ht : Moves s.core.beginGeneration (t.core.transitionTo .running) := by
        rw [hcore hec]
        exact hopened.tail (.running rfl)
      refine ⟨⟨handler, none, .success, .started⟩, ⟨rfl, rfl, rfl⟩, Or.inr ⟨hs, _, ht, ?_⟩⟩
      rw [heq]
      exact .refl

/-- The kind of a step of an accepting listener. -/
def kind : AcceptorLabel → StepKind
  | .core l => .off l
  | .run _ => (s.core.strand.head?.map Message.kind).getD .handler
  | .graceHandler k => ((s.core.shutdownTimer.take k).map fun (w, _) => graceKind w).getD .handler
  | _ => .handler

/-- Running a posted message is a control step. -/
theorem handle_core {message : Message} {rest : List Message}
    (h : s.core.strand = message :: rest) :
    CoreStep message.kind s.core
      ((s.mapCore fun c => { c with strand := rest }).handle answers message).core := by
  cases message with
  | start handler cancelled =>
    cases cancelled with
    | true => exact .settleStart h ⟨handler, none, .operationAborted, .cancelled⟩ ⟨rfl, rfl, rfl⟩
    | false =>
      obtain ⟨completion, hends, hsettled | ⟨hstate, m, hbefore, hafter⟩⟩ :=
        (s.mapCore fun c => { c with strand := rest }).startOnStrand_core answers handler
      · simp only [handle, Bool.false_eq_true, if_false, hsettled]
        exact .settleStart h completion hends
      · exact .start h hstate completion hends hbefore hafter
  | wait w => exact .wait h
  | cancelWait id => exact .cancelWait h
  | stop =>
    exact .stop h (beginStop_moves (s.mapCore fun c => { c with strand := rest }) answers _ _ .refl)
      (beginStop_halted _ _ _ _)
  | sessionFinished report =>
    exact .report h (sessionFinished_moves (s.mapCore fun c => { c with strand := rest })
      answers report .refl)
  | complete completion => exact .deliver h

/-- Every step of an accepting listener is a control step. -/
theorem step_core {l : AcceptorLabel} {t : AcceptorListener} (h : s.step l = some t) :
    CoreStep (s.kind l) s.core t.core := by
  cases s.step_cases h with
  | core hcall =>
    exact .off s.alive (fun hpos => by simp [alive, ListenerCore.referenced, hpos]) hcall
  | @run answers message rest hstrand => simpa [kind, hstrand] using s.handle_core answers hstrand
  | accepted hpos => exact .asynchronous (accepted_moves _ _ _ .refl)
  | retryExpires hexpire => exact .asynchronous .refl
  | retryAborted htake hw => exact .asynchronous (maybeFinish_moves _ .refl)
  | retryDue htake hw => exact .asynchronous (acceptNext_moves _ _ _ .refl)
  | @graceAborted k w timer htake hw =>
    have hkind : s.kind (.graceHandler k) = .handler := by simp [kind, htake, graceKind, hw]
    rw [hkind]
    exact .graceAborted htake hw
  | @graceDue k w timer htake hw =>
    have hkind : s.kind (.graceHandler k) = .force w.tag := by simp [kind, htake, graceKind, hw]
    rw [hkind]
    exact .force htake hw s.sessions

end AcceptorListener

end Serveza
