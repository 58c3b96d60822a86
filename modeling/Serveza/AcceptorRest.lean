import Serveza.AcceptorBooks
import Serveza.Tending

/-!
# The accepting listener between steps

Between two steps an accepting listener is never half started. If it runs, something will
make it accept again: an outstanding accept, a retry that is armed or due, or the end of a
session in a full listener. If it stops, something is left to drain.
-/

namespace Serveza

open Foundation

/-- Something is going to make the listener accept again. -/
def Awake (s : AcceptorListener) : Prop :=
  s.acceptPending = true ∨ s.retryTimer.HasLive ∨ s.options.maxActiveSessions ≤ s.sessions.length

/-- The listener is between two steps. -/
structure Rest (s : AcceptorListener) : Prop where
  started : s.core.state ≠ .starting
  awake : s.core.state = .running → Awake s
  drains : s.core.state = .stopping → s.acceptPending = true ∨ s.sessions ≠ []

namespace Rest

variable {s t : AcceptorListener} {answers : AcceptorAnswers}

/-- A stopped listener is at rest. -/
theorem of_stopped (h : s.core.state = .stopped) : Rest s :=
  ⟨by simp [h], by simp [h], by simp [h]⟩

/-- Finishing a generation brings the listener to rest. -/
theorem finish (s : AcceptorListener) (ec : ErrorCode) (reason : ListenerStopReason) :
    Rest (s.finish ec reason) :=
  of_stopped (by rw [AcceptorListener.finish_core]; exact finish_state _ _ _)

/-- Draining brings the listener to rest. -/
theorem maybeFinish (hs : s.core.state ≠ .starting) (hawake : s.core.state = .running → Awake s) :
    Rest s.maybeFinish := by
  unfold AcceptorListener.maybeFinish
  split
  · exact finish s _ _
  · rename_i hleft
    refine ⟨hs, hawake, fun hstopping => ?_⟩
    by_contra hdrained
    rw [not_or, not_not, Bool.not_eq_true] at hdrained
    exact hleft ⟨hstopping, hdrained⟩

/-- Beginning to stop brings the listener to rest. -/
theorem beginStop (hdrains : s.core.state = .stopping → s.acceptPending = true ∨ s.sessions ≠ [])
    (ec : ErrorCode) (reason : ListenerStopReason) : Rest (s.beginStop answers ec reason) := by
  rcases s.beginStop_cases answers ec reason with ⟨-, heq⟩ | ⟨-, heq⟩ | ⟨hs, heq⟩
  · rw [heq]
    exact finish _ _ _
  · obtain ⟨timer, -, hquiet⟩ := s.closeDown_armGrace_core answers ec reason
    have hstopping : ((s.closeDown ec reason).armGrace answers).core.state = .stopping :=
      hquiet.state
    rw [heq]
    exact maybeFinish (by simp [hstopping]) (by simp [hstopping])
  · rw [heq]
    rcases hs with hs | hs
    · exact ⟨by simp [hs], by simp [hs], hdrains⟩
    · exact of_stopped hs

/-- A listener that accepts stops at once if it has to. -/
theorem beginStop_accepting (hs : s.Accepting) (ec : ErrorCode) (reason : ListenerStopReason) :
    Rest (s.beginStop answers ec reason) :=
  beginStop (fun hstopping => by rcases hs with hs | hs <;> simp [hs] at hstopping) ec reason

/-- Starting the next accept makes a listener that accepts awake. -/
theorem awake_acceptNext (hs : s.Accepting) {reason : ListenerStopReason}
    (h : (s.acceptNext answers reason).2.failed = false) :
    Awake (s.acceptNext answers reason).1 := by
  rcases s.acceptNext_cases answers reason with
    ⟨hbusy, heq⟩ | ⟨-, ⟨hfull, heq⟩ | ⟨-, heq | ⟨t, e, -, heq⟩⟩⟩
  · rw [heq, s.maybeFinish_of_not_stopping (by rcases hs with hs | hs <;> simp [hs])]
    exact Or.inl (hbusy.resolve_left (not_not.mpr hs))
  · rw [heq]
    exact Or.inr (Or.inr hfull)
  · rw [heq]
    exact Or.inl rfl
  · rw [heq] at h
    exact Bool.noConfusion (e.failed.symm.trans h)

/-- Starting the next accept brings the listener to rest. -/
theorem acceptNext (hs : s.core.state ≠ .starting) (reason : ListenerStopReason) :
    Rest (s.acceptNext answers reason).1 := by
  rcases s.acceptNext_cases answers reason with
    ⟨hbusy, heq⟩ | ⟨⟨haccepting, -⟩, ⟨hfull, heq⟩ | ⟨-, heq | ⟨t, e, hnoted, heq⟩⟩⟩
  · rw [heq]
    exact maybeFinish hs fun hrunning => Or.inl (hbusy.resolve_left (not_not.mpr (Or.inr hrunning)))
  · rw [heq]
    exact ⟨hs, fun _ => Or.inr (Or.inr hfull), fun hstopping =>
      by rcases haccepting with h | h <;> simp [h] at hstopping⟩
  · rw [heq]
    exact ⟨hs, fun _ => Or.inl rfl, fun _ => Or.inl rfl⟩
  · rw [heq]
    exact beginStop_accepting (hnoted.accepting haccepting) _ _

/-- Reacting to a failed accept brings the listener to rest. -/
theorem retryAccept (hs : s.core.state = .running) (acceptEc : ErrorCode) :
    Rest (s.retryAccept answers acceptEc) := by
  obtain ⟨t, hnoted, ⟨ec, heq⟩ | ⟨tag, heq⟩⟩ := s.retryAccept_cases answers acceptEc
  · rw [heq]
    exact beginStop_accepting (hnoted.accepting (Or.inr hs)) _ _
  · have ht : t.core.state = .running := hnoted.quiet.state.trans hs
    rw [heq]
    exact ⟨by simp [ht], fun _ => Or.inr (Or.inl (Timer.hasLive_asyncWait _ tag)), by simp [ht]⟩

/-- Rest depends on the shared part through the state only. -/
theorem withCore (h : Rest s) (c : ListenerCore) (hstate : c.state = s.core.state) :
    Rest { s with core := c } :=
  ⟨fun hs => h.started (hstate ▸ hs), fun hs => h.awake (hstate ▸ hs), fun hs =>
    h.drains (hstate ▸ hs)⟩

/-- An accept that fails to start brings the listener to rest. -/
theorem acceptNext_failed {reason : ListenerStopReason}
    (h : (s.acceptNext answers reason).2.failed = true) :
    Rest (s.acceptNext answers reason).1 := by
  rcases s.acceptNext_cases answers reason with
    ⟨-, heq⟩ | ⟨⟨hs, -⟩, ⟨-, heq⟩ | ⟨-, heq | ⟨t, e, hnoted, heq⟩⟩⟩
  · rw [heq] at h
    contradiction
  · rw [heq] at h
    contradiction
  · rw [heq] at h
    contradiction
  · rw [heq]
    exact beginStop_accepting (hnoted.accepting hs) _ _

/-- The handler of an accept brings the listener to rest. -/
theorem accepted (hs : s.core.state ≠ .starting) (result : AcceptResult) :
    Rest (s.accepted answers result) := by
  rcases s.accepted_cases answers result with
    ⟨hstate, heq⟩ | ⟨hrunning, heq | ⟨info, -, ec, ep, heq⟩ | ⟨info, -, heq⟩⟩
  · rw [heq]
    exact maybeFinish hs fun hrunning => absurd hrunning hstate
  · rw [heq]
    refine retryAccept ?_ _
    exact hrunning
  · rw [heq]
    refine acceptNext ?_ _
    exact hs
  · rw [heq]
    refine acceptNext ?_ _
    exact hs

/-- The strand step of a session's report brings the listener to rest. -/
theorem sessionFinished (hs : s.core.state ≠ .starting) (report : SessionReport) :
    Rest (s.sessionFinished answers report) := by
  obtain ⟨t, ht, heq⟩ := s.sessionFinished_eq answers report
  have hstate : t.core.state = s.core.state := by
    rw [ht]
    exact ((s.removeSession_quiet report.info.id).trans (quiet_sessionStopped _ _ _)).state
  rw [heq]
  split
  · have hrest : Rest (t.acceptNext answers .runtimeFailure).1 := acceptNext (hstate ▸ hs) _
    exact maybeFinish hrest.started hrest.awake
  · rename_i hrunning
    exact maybeFinish (hstate ▸ hs) fun h => absurd h hrunning

/-- The strand step of a start brings the listener to rest. -/
theorem startOnStrand (h : Rest s) (handler : CompletionHandler) :
    Rest (s.startOnStrand answers handler) := by
  rcases s.startOnStrand_cases answers handler with
    ⟨-, heq⟩ | ⟨-, heq⟩ | ⟨hs, acceptor, endpoint, haccepts, hbegun⟩
  · rw [heq]
    exact h.withCore _ rfl
  · rw [heq]
    exact h.withCore _ rfl
  · rcases hbegun with ⟨ec, heq⟩ | ⟨t, ec, hnext, ⟨hec, heq⟩ | ⟨hec, heq⟩⟩
    · rw [heq]
      exact finish _ _ _
    · have ht : Rest t := by
        have hrest := acceptNext_failed (s := s.opened acceptor endpoint) (by rw [hnext]; exact hec)
        rwa [hnext] at hrest
      rw [heq]
      exact ht.withCore _ rfl
    · have ht : Awake t := by
        have hawake :=
          awake_acceptNext (s := s.opened acceptor endpoint) (Or.inl rfl) (by rw [hnext]; exact hec)
        rwa [hnext] at hawake
      rw [heq]
      exact ⟨nofun, fun _ => ht, nofun⟩

/-- Running a posted message keeps the listener at rest. -/
theorem handle (h : Rest s) (message : Message) : Rest (s.handle answers message) := by
  cases message with
  | start handler cancelled =>
    cases cancelled with
    | true => exact h.withCore _ rfl
    | false => exact h.startOnStrand handler
  | wait w => exact h.withCore _ (registerWait_waitsOnly s.core w).state
  | cancelWait id => exact h.withCore _ (cancelWait_waitsOnly s.core id).state
  | stop => exact beginStop h.drains _ _
  | sessionFinished report => exact sessionFinished h.started report
  | complete completion => exact h.withCore _ rfl

/-- Every step leaves the listener at rest. -/
theorem step {l : AcceptorLabel} (h : Rest s) (hstep : s.step l = some t) : Rest t := by
  cases s.step_cases hstep with
  | core hcall => exact h.withCore _ hcall.frame.1
  | @run answers message rest hstrand =>
    exact handle (h.withCore { s.core with strand := rest } rfl) message
  | accepted hpos =>
    exact accepted (s := { s with acceptor := ⟨s.acceptor.isOpen, s.acceptor.accepts - 1⟩ })
      h.started _
  | retryExpires hexpire =>
    exact ⟨h.started, fun _ => Or.inr (Or.inl (Timer.hasLive_expire hexpire)), h.drains⟩
  | retryAborted htake hw =>
    refine maybeFinish h.started fun hrunning => (h.awake hrunning).imp_right fun hleft => ?_
    exact hleft.imp_left fun hlive => Timer.hasLive_take htake hw hlive
  | @retryDue k answers w timer htake hw =>
    exact acceptNext (s := { s with retryTimer := timer }) h.started _
  | graceAborted htake hw => exact h.withCore _ rfl
  | graceDue htake hw => exact h.withCore _ rfl

end Rest

/-- A new listener is at rest. -/
theorem rest_create (id : ℕ) (endpoint : Endpoint) (options : AcceptorOptions) :
    Rest (.create id endpoint options) := ⟨nofun, nofun, nofun⟩

/-- A running accepting listener never goes deaf: in every state it can be in between two
steps an accept is outstanding, or a retry is armed or due, or the listener is full. -/
theorem acceptorListener_awake {id : ℕ} {endpoint : Endpoint} {options : AcceptorOptions}
    {s : AcceptorListener} (h : Reachable AcceptorListener.step (.create id endpoint options) s)
    (hrunning : s.core.state = .running) :
    0 < s.acceptor.accepts ∨ s.retryTimer.HasLive ∨
    options.maxActiveSessions ≤ s.sessions.length := by
  have hbooks :=
    h.invariant (Books options) (fun _ _ _ hs hstep => hs.step hstep) (.create id endpoint options)
  have hrest :=
    h.invariant Rest (fun _ _ _ hs hstep => hs.step hstep) (rest_create id endpoint options)
  rw [← hbooks.configured]
  refine (hrest.awake hrunning).imp_left fun hpending => ?_
  rw [hbooks.pending, hpending]
  exact Nat.one_pos

/-- An accept that fails for lack of descriptors leaves a retry armed. -/
theorem acceptorListener_awake_retry : ∃ s,
    run AcceptorListener.step (.create 1 ⟨"127.0.0.1:0", true, false⟩ ⟨{}, rfl⟩)
        [.core (.asyncStart (.user 0)), .run {}, .accepted { error := .noDescriptors } {}] =
        some s ∧
      s.core.state = .running ∧ s.acceptor.accepts = 0 ∧
      (0 < s.acceptor.accepts ∨ s.retryTimer.HasLive ∨ 1024 ≤ s.sessions.length) := by
  have h : run AcceptorListener.step (.create 1 ⟨"127.0.0.1:0", true, false⟩ ⟨{}, rfl⟩)
      [.core (.asyncStart (.user 0)), .run {}, .accepted { error := .noDescriptors } {}] = some _ :=
      rfl
  exact ⟨_, h, rfl, rfl, acceptorListener_awake ⟨_, h⟩ rfl⟩

end Serveza
