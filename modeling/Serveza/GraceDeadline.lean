import Serveza.GraceOwned
import Serveza.Shutdown

/-!
# The grace deadline acts on its own generation

The handler of the shutdown timer looks at the outcome of its wait only. A wait that expires
just before the last accept or the last session of its generation drains survives the
cancellation in `finish`, and its handler then acts on a stopped listener or on a later
generation. Unless that happens, the deadline acts on the generation whose stop armed it.
-/

namespace Serveza

open Foundation

namespace Listener

/-- The step takes away the last thing a stopping listener waits for: it completes an accept
when no session is held, or reports the only session when no accept is outstanding. -/
def drainsLast : Listener → ListenerLabel → Bool
  | .acceptor s, .acceptor (.accepted _ _) => s.sessions.isEmpty
  | .acceptor s, .acceptor (.run _) =>
    match s.core.strand with
    | .sessionFinished report :: _ => !s.acceptPending && (s.sessions.erase report.info.id).isEmpty
    | _ => false
  | .socket s, .socket (.run _) =>
    match s.core.strand with
    | .sessionFinished _ :: _ => true
    | _ => false
  | _, _ => false

/-- No generation drains while its deadline has expired with the handler outstanding. -/
def InTime (x : Listener) (l : ListenerLabel) : Prop :=
  ¬ (x.core.state = .stopping ∧ x.core.shutdownTimer.HasExpired ∧ x.drainsLast l = true)

instance (x : Listener) (l : ListenerLabel) : Decidable (x.InTime l) :=
  inferInstanceAs (Decidable (¬ _))

/-- The label of the handler of a wait on the shutdown timer. -/
def graceHandler : Listener → ℕ → ListenerLabel
  | .acceptor _, k => .acceptor (.graceHandler k)
  | .socket _, k => .socket (.graceHandler k)

/-- The handlers of the shutdown timer that may run next do nothing, or act during the stop
that armed their wait and leave the sessions of other generations alone. -/
def OwnDeadline (x : Listener) : Prop :=
  ∀ k w timer y, x.core.shutdownTimer.take k = some (w, timer) →
    x.step (x.graceHandler k) = some y →
    y.core = { x.core with shutdownTimer := timer } ∨
    x.core.state = .stopping ∧ w.tag.generation = x.core.generation ∧
      ∀ key z, x.core.session? key = some z → z.generation ≠ w.tag.generation →
      y.core.session? key = some z

end Listener

namespace AcceptorListener

variable {s t : AcceptorListener} {answers : AcceptorAnswers}

/-- Draining ends a generation only if nothing is left. -/
theorem maybeFinish_stopped (hs : s.core.state = .stopping)
    (h : s.maybeFinish.core.state = .stopped) :
    s.acceptPending = false ∧ s.sessions = [] := by
  unfold maybeFinish at h
  split at h
  · rename_i hdrained
    exact hdrained.2
  · simp [hs] at h

/-- A message other than a report leaves a stopping listener stopping. -/
theorem handle_stopping (s : AcceptorListener) (answers : AcceptorAnswers)
    (hs : s.core.state = .stopping) {message : Message}
    (hmessage : ∀ report, message ≠ .sessionFinished report) :
    (s.handle answers message).core.state = .stopping := by
  cases message with
  | start handler cancelled =>
    cases cancelled with
    | true => exact hs
    | false =>
      rcases s.startOnStrand_cases answers handler with ⟨hrunning, -⟩ | ⟨-, heq⟩ | ⟨hidle, -⟩
      · simp [hs] at hrunning
      · exact (congrArg (fun u : AcceptorListener => u.core.state) heq).trans hs
      · simp [hs] at hidle
  | wait w => exact (registerWait_waitsOnly s.core w).state.trans hs
  | cancelWait id => exact (cancelWait_waitsOnly s.core id).state.trans hs
  | stop =>
    rcases s.beginStop_cases answers .success .requested with
      ⟨hidle, -⟩ | ⟨haccepting, -⟩ | ⟨-, heq⟩
    · simp [hs] at hidle
    · simp [Accepting, hs] at haccepting
    · exact (congrArg (fun u : AcceptorListener => u.core.state) heq).trans hs
  | sessionFinished report => exact absurd rfl (hmessage report)
  | complete completion => exact hs

/-- A report ends a generation only if it is that of the last session and no accept is left. -/
theorem sessionFinished_stopped (hs : s.core.state = .stopping) {report : SessionReport}
    (h : (s.sessionFinished answers report).core.state = .stopped) :
    s.acceptPending = false ∧ s.sessions.erase report.info.id = [] := by
  obtain ⟨u, hu, heq⟩ := s.sessionFinished_eq answers report
  have hstate : u.core.state = .stopping := by
    rw [hu]
    exact ((s.removeSession_quiet report.info.id).trans (quiet_sessionStopped _ _ _)).state.trans hs
  have hsessions : u.sessions = s.sessions.erase report.info.id := by
    rw [hu]
    change (s.removeSession report.info.id).sessions = _
    unfold removeSession
    split
    · rfl
    · exact (List.erase_of_not_mem ‹_›).symm
  have hpending : u.acceptPending = s.acceptPending := by
    rw [hu]
    change (s.removeSession report.info.id).acceptPending = _
    unfold removeSession
    split <;> rfl
  rw [heq, if_neg (by simp [hstate])] at h
  rw [← hsessions, ← hpending]
  exact maybeFinish_stopped hstate h

/-- A stopping accepting listener stops only by draining the last accept or session. -/
theorem drainsLast {l : AcceptorLabel} (hrest : Rest s) (hstep : s.step l = some t)
    (hs : s.core.state = .stopping) (ht : t.core.state = .stopped) :
    (Listener.acceptor s).drainsLast (.acceptor l) = true := by
  have hleft (timer : Timer Arming)
      (h : { s with retryTimer := timer }.maybeFinish.core.state = .stopped) : False := by
    obtain ⟨hnone, hempty⟩ := maybeFinish_stopped (s := { s with retryTimer := timer }) hs h
    rcases hrest.drains hs with hpending | hsessions
    · exact absurd (hnone.symm.trans hpending) (by decide)
    · exact hsessions hempty
  have hstays (h : t.core.state = s.core.state) : False := by
    rw [h, hs] at ht
    contradiction
  cases s.step_cases hstep with
  | core hcall => exact (hstays hcall.frame.1).elim
  | @run answers message rest hstrand =>
    by_cases hmessage : ∃ report, message = .sessionFinished report
    · obtain ⟨report, rfl⟩ := hmessage
      obtain ⟨hnone, hempty⟩ :=
        sessionFinished_stopped (s := s.mapCore fun c => { c with strand := rest }) hs ht
      have hnone : s.acceptPending = false := hnone
      have hempty : s.sessions.erase report.info.id = [] := hempty
      simp [Listener.drainsLast, hstrand, hnone, hempty]
    · have hstopping := handle_stopping (s.mapCore fun c => { c with strand := rest }) answers hs
        fun report heq => hmessage ⟨report, heq⟩
      exact (hstays (hstopping.trans hs.symm)).elim
  | @accepted result answers haccepts =>
    rcases accepted_cases { s with
      acceptor := ⟨s.acceptor.isOpen, s.acceptor.accepts - 1⟩ } answers result with
      ⟨-, heq⟩ | ⟨hrunning, -⟩
    · rw [heq] at ht
      have hempty : s.sessions = [] := (maybeFinish_stopped
        (s := { s with acceptor := ⟨s.acceptor.isOpen,
          s.acceptor.accepts - 1⟩, acceptPending := false }) hs ht).2
      simp [Listener.drainsLast, hempty]
    · exact absurd (hs.symm.trans hrunning) (by decide)
  | retryExpires hexpire => exact (hstays rfl).elim
  | retryAborted htake hw => exact (hleft _ ht).elim
  | @retryDue k answers w timer htake hw =>
    rcases acceptNext_cases { s with retryTimer := timer } answers .runtimeFailure with
      ⟨-, heq⟩ | ⟨⟨haccepting, -⟩, -⟩
    · rw [heq] at ht
      exact (hleft timer ht).elim
    · simp [Accepting, hs] at haccepting
  | graceAborted htake hw => exact (hstays rfl).elim
  | graceDue htake hw => exact (hstays rfl).elim

end AcceptorListener

namespace SocketListener

/-- A message other than a report leaves a stopping listener stopping. -/
theorem handle_stopping (s : SocketListener) (answers : SocketAnswers)
    (hs : s.core.state = .stopping) {message : Message}
    (hmessage : ∀ report, message ≠ .sessionFinished report) :
    (s.handle answers message).core.state = .stopping := by
  cases message with
  | start handler cancelled =>
    cases cancelled with
    | true => exact hs
    | false =>
      rcases s.startOnStrand_cases answers handler with ⟨hrunning, -⟩ | ⟨-, heq⟩ | ⟨hidle, -⟩
      · simp [hs] at hrunning
      · exact (congrArg (fun u : SocketListener => u.core.state) heq).trans hs
      · simp [hs] at hidle
  | wait w => exact (registerWait_waitsOnly s.core w).state.trans hs
  | cancelWait id => exact (cancelWait_waitsOnly s.core id).state.trans hs
  | stop =>
    have hsame : s.stopOnStrand = s := by simp [stopOnStrand, hs]
    exact (congrArg (fun u : SocketListener => u.core.state) hsame).trans hs
  | sessionFinished report => exact absurd rfl (hmessage report)
  | complete completion => exact hs

/-- The handler of the shutdown timer leaves the lifecycle alone. -/
theorem graceExpired_state (s : SocketListener) (ec : ErrorCode) :
    (s.graceExpired ec).core.state = s.core.state := by
  unfold graceExpired
  split <;> rfl

/-- A stopping bound-socket listener stops only by the report of its session. -/
theorem drainsLast {s t : SocketListener} {l : SocketLabel} (hstep : s.step l = some t)
    (hs : s.core.state = .stopping) (ht : t.core.state = .stopped) :
    (Listener.socket s).drainsLast (.socket l) = true := by
  have hstays (h : t.core.state = s.core.state) : False := by
    rw [h, hs] at ht
    contradiction
  cases l with
  | core l =>
    obtain ⟨c, hc, rfl⟩ := Option.map_eq_some_iff.mp hstep
    exact (hstays (call_cases hc).frame.1).elim
  | run answers =>
    cases hstrand : s.core.strand with
    | nil => simp [SocketListener.step, hstrand] at hstep
    | cons message rest =>
      obtain rfl : _ = t := by simpa [SocketListener.step, hstrand] using hstep
      by_cases hmessage : ∃ report, message = .sessionFinished report
      · obtain ⟨report, rfl⟩ := hmessage
        simp [Listener.drainsLast, hstrand]
      · have hstopping := handle_stopping (s.mapCore fun c => { c with strand := rest }) answers hs
          fun report heq => hmessage ⟨report, heq⟩
        exact (hstays (hstopping.trans hs.symm)).elim
  | graceHandler k =>
    obtain ⟨⟨w, timer⟩, htake, rfl⟩ := Option.map_eq_some_iff.mp hstep
    exact (hstays (graceExpired_state _ _)).elim

end SocketListener

namespace Listener

variable {x y : Listener} {l : ListenerLabel}

/-- A stopping listener stops only by draining what is left. -/
theorem Kept.drainsLast (h : x.Kept) (hstep : x.step l = some y) (hs : x.core.state = .stopping)
    (hy : y.core.state = .stopped) : x.drainsLast l = true := by
  cases x with
  | acceptor s =>
    cases l with
    | socket l => contradiction
    | acceptor l =>
      obtain ⟨t, ht, rfl⟩ := Option.map_eq_some_iff.mp hstep
      obtain ⟨-, -, hrest, -⟩ := h
      exact AcceptorListener.drainsLast hrest ht hs hy
  | socket s =>
    cases l with
    | acceptor l => contradiction
    | socket l =>
      obtain ⟨t, ht, rfl⟩ := Option.map_eq_some_iff.mp hstep
      exact SocketListener.drainsLast ht hs hy

/-- What a listener keeps whose generations never drain while their deadline is due. -/
structure Timely (x : Listener) : Prop where
  kept : x.Kept
  owned : GraceOwned x.core
  announced : Announced x.core

/-- A forced shutdown belongs to the stop in progress. -/
theorem force_stopping (howned : GraceOwned x.core) (hstep : x.step l = some y) {arming : Arming}
    (hkind : x.kind l = .force arming) :
    x.core.state = .stopping ∧ arming.generation = x.core.generation := by
  have hcore := step_core hstep
  rw [hkind] at hcore
  generalize y.core = b at hcore
  cases hcore with
  | force htake hw keys =>
    exact howned _ (List.mem_of_getElem? (Timer.take_cases htake).1) (by simp [TimerWait.Live, hw])

/-- A new listener is timely. -/
theorem Timely.create (id : ℕ) (config : ListenerConfig) : (Listener.create id config).Timely := by
  obtain ⟨endpoint, hcore⟩ := create_core id config
  refine ⟨.create id config, ?_, ?_⟩
  · rw [hcore]
    exact nofun
  · rw [hcore]
    exact ⟨by simp, by simp, .nil⟩

/-- A step in time keeps the listener timely. -/
theorem Timely.step (h : x.Timely) (htime : x.InTime l) (hstep : x.step l = some y) : y.Timely := by
  have hcore := step_core hstep
  have hlast : x.core.shutdownTimer.HasExpired → y.core.state ≠ .stopped :=
    fun hexpired hstopped => by
    have hs : x.core.state = .stopping := h.owned.stopping hexpired.hasLive
    exact htime ⟨hs, hexpired, h.kept.drainsLast hstep hs hstopped⟩
  have hforce : ∀ arming, x.kind l = .force arming → x.core.state = .stopping := fun arming hkind =>
    (force_stopping h.owned hstep hkind).1
  exact ⟨h.kept.step hstep, GraceOwned.step h.owned hcore hlast,
    Announced.step h.announced hcore hforce⟩

/-- The sessions a kept listener holds belong to its generation. -/
theorem Kept.held (h : x.Kept) : Held x.core x.held := by
  cases x with
  | acceptor s =>
    obtain ⟨-, -, -, htended⟩ := h
    exact htended.held
  | socket s => exact SocketTended.held h

/-- The handler of a wait on the shutdown timer does nothing, or forces the sessions held. -/
theorem graceHandler_cases {k : ℕ} {w : TimerWait Arming} {timer : Timer Arming}
    (htake : x.core.shutdownTimer.take k = some (w, timer))
    (hstep : x.step (x.graceHandler k) = some y) :
    y.core = { x.core with shutdownTimer := timer } ∨
      w.status = .expired ∧
      y.core = { x.core with shutdownTimer := timer }.forceShutdown x.held := by
  cases x with
  | acceptor s =>
    obtain ⟨t, ht, rfl⟩ := Option.map_eq_some_iff.mp hstep
    have htake : s.core.shutdownTimer.take k = some (w, timer) := htake
    cases s.step_cases ht with
    | graceAborted h hw =>
      obtain ⟨rfl, rfl⟩ := Prod.mk.inj (Option.some.inj (htake.symm.trans h))
      exact Or.inl rfl
    | graceDue h hw =>
      obtain ⟨rfl, rfl⟩ := Prod.mk.inj (Option.some.inj (htake.symm.trans h))
      exact Or.inr ⟨hw, rfl⟩
  | socket s =>
    obtain ⟨t, ht, rfl⟩ := Option.map_eq_some_iff.mp hstep
    obtain ⟨⟨w', timer'⟩, h, rfl⟩ := Option.map_eq_some_iff.mp ht
    have htake : s.core.shutdownTimer.take k = some (w, timer) := htake
    obtain ⟨rfl, rfl⟩ := Prod.mk.inj (Option.some.inj (htake.symm.trans h))
    obtain ⟨tag, status⟩ := w
    cases status with
    | pending => exact absurd rfl (Timer.take_cases htake).2.1
    | expired => exact Or.inr ⟨rfl, rfl⟩
    | aborted => exact Or.inl rfl

/-- The deadline of a timely listener acts on its own generation. -/
theorem Timely.ownDeadline (h : x.Timely) : x.OwnDeadline := by
  intro k w timer y htake hstep
  refine (graceHandler_cases htake hstep).imp_right fun ⟨hexpired, hcore⟩ => ?_
  obtain ⟨hs, hgeneration⟩ :=
    h.owned w (List.mem_of_getElem? (Timer.take_cases htake).1) (by simp [TimerWait.Live, hexpired])
  refine ⟨hs, hgeneration, fun key z hz hother => ?_⟩
  have hid : z.info.id = key := by simpa using List.find?_some hz
  have hnot : z.info.id ∉ x.held := fun hmem => by
    obtain ⟨z', hz', hz'generation, -⟩ := h.kept.held _ hmem
    rw [hid, hz] at hz'
    obtain rfl := Option.some.inj hz'
    exact hother (hz'generation.trans hgeneration.symm)
  rw [hcore, ListenerCore.forceShutdown, session?_postTo]
  change (x.core.session? key).map _ = some z
  rw [hz, Option.map_some, if_neg hnot]

end Listener

/-- The grace deadline acts on its own generation. In every run in which no generation drains
while its deadline has expired with the handler outstanding, the handler of the shutdown
timer does nothing but during the stop that armed its wait and touches no session of another
generation, and no forced shutdown is announced after the end of its generation. -/
theorem graceDeadline_ownGeneration {id : ℕ} {config : ListenerConfig} {ls : List ListenerLabel}
    {x : Listener} (hrun : run Listener.step (.create id config) ls = some x)
    (htime : Along Listener.step Listener.InTime (.create id config) ls) :
    x.OwnDeadline ∧ x.core.events.Pairwise fun e f =>
      e.Stopped → f.type = .shutdownForced → e.status.generation < f.status.generation := by
  have htimely :=
    run_invariant_along Listener.Timely (fun _ _ _ hx htime hstep => hx.step htime hstep)
    (.create id config) htime hrun
  exact ⟨htimely.ownDeadline, htimely.announced.ordered⟩

/-- A session outlives its grace period, and the deadline closes it. -/
theorem graceDeadline_ownGeneration_due : ∃ x y,
    run Listener.step (Listener.create 1 defaultSocket)
      (stopWithSession ++ [.socket (.core (.graceExpires 0))]) = some x ∧
      x.step (x.graceHandler 0) = some y ∧ y.core.lastError = .timedOut ∧ x.OwnDeadline := by
  have h : run Listener.step (Listener.create 1 defaultSocket)
    (stopWithSession ++ [.socket (.core (.graceExpires 0))]) = some _ := rfl
  exact ⟨_, _, h, rfl, rfl, (graceDeadline_ownGeneration h (by decide)).1⟩

/-- A session ends after its deadline has expired and before the handler has run; the
listener stops and is started again. -/
def drainedAtDeadline : List ListenerLabel :=
  stopWithSession ++ [.socket (.core (.graceExpires 0)), .socket (.core (.session 1 .run)),
    .socket (.core (.session 1 (.complete .success))), .socket (.run {}),
    .socket (.core (.asyncStart (.user 1))), .socket (.run {})]

/-- The same for an accepting listener with one connection. -/
def acceptedAtDeadline : List ListenerLabel :=
  [.acceptor (.core (.asyncStart (.user 0))), .acceptor (.run {}), .acceptor (.run {}),
    .acceptor (.accepted {} {}),
    .acceptor (.core .stopRead), .acceptor (.core .stopPost), .acceptor (.run {}),
    .acceptor (.accepted { error := .operationAborted } {}), .acceptor (.core (.graceExpires 0)),
    .acceptor (.core (.session 1 .run)), .acceptor (.core (.session 1 (.complete .success))),
    .acceptor (.run {}),
    .acceptor (.core (.asyncStart (.user 1))), .acceptor (.run {}), .acceptor (.run {}),
    .acceptor (.accepted {} {})]

/-- With both kinds of listener the deadline of a generation can act on the next one. -/
theorem graceDeadline_stale :
    (¬ ∀ s, Listener.Reached (.acceptor s) → (Listener.acceptor s).OwnDeadline) ∧
      ¬ ∀ s, Listener.Reached (.socket s) → (Listener.socket s).OwnDeadline := by
  constructor
  · intro hclaim
    rcases hclaim _ ⟨1, defaultAcceptor, acceptedAtDeadline, rfl⟩ 0 _ _ _ rfl rfl with h | ⟨hs, -⟩
    · exact absurd (congrArg ListenerCore.lastError h) (by decide)
    · exact absurd hs (by decide)
  · intro hclaim
    rcases hclaim _ ⟨1, defaultSocket, drainedAtDeadline, rfl⟩ 0 _ _ _ rfl rfl with h | ⟨hs, -⟩
    · exact absurd (congrArg ListenerCore.lastError h) (by decide)
    · exact absurd hs (by decide)

end Serveza
