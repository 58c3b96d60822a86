import Serveza.BoundSession
import Serveza.StartVerdict

/-!
# The verdict of starting a bound-socket listener

The start of a bound-socket listener also makes its session, and reports an exception out of
the session factory as the error code it maps to. A system error keeps the code it carries,
whatever that is: one whose code reports no failure makes the start of a listener that has
been rolled back complete with success. This is the only way in which the verdict fails.
-/

namespace Serveza

open Foundation ListenerCore

namespace SocketAnswers

/-- The error of the first part of the startup sequence that fails: a call up to `bind`, or the
session factory. -/
def failure (answers : SocketAnswers) (endpoint : Endpoint) : Option ErrorCode :=
  (answers.codes endpoint ++ (answers.factory.map fun e => exceptionToError (some e)).toList).find?
    ErrorCode.failed

/-- The session factory, if it is reached, throws no system error whose code reports no failure. -/
def FactoryFails (answers : SocketAnswers) (endpoint : Endpoint) : Prop :=
  (answers.bindError endpoint).failed = false →
    ∀ code, answers.factory = some (.systemError code) → code.failed = true

variable {answers : SocketAnswers} {endpoint : Endpoint}

/-- An exception out of the factory then maps to an error that reports a failure. -/
theorem FactoryFails.failed (h : answers.FactoryFails endpoint)
    (hbind : (answers.bindError endpoint).failed = false) {e : ThrownException}
    (he : answers.factory = some e) : (exceptionToError (some e)).failed = true := by
  cases e with
  | systemError code => exact h hbind code he
  | other tag => rfl

/-- A sequence that fails up to `bind` fails with the error left there. -/
theorem failure_of_bindError (h : (answers.bindError endpoint).failed = true) :
    answers.failure endpoint = some (answers.bindError endpoint) := by
  unfold failure
  rw [List.find?_append, answers.find_codes, if_pos h]
  rfl

/-- A sequence that succeeds up to `bind` fails with the exception out of the factory, if any. -/
theorem failure_of_factory (hbind : (answers.bindError endpoint).failed = false)
    (h : answers.FactoryFails endpoint) :
    answers.failure endpoint = answers.factory.map fun e => exceptionToError (some e) := by
  unfold failure
  rw [List.find?_append, answers.find_codes, hbind]
  cases hfactory : answers.factory with
  | none => rfl
  | some e => simp [h.failed hbind hfactory]

end SocketAnswers

namespace SocketListener

/-- The listener with a given list of registered waits. -/
def awaitedBy (s : SocketListener) (waiters : List WaitOperation) : SocketListener :=
  s.mapCore fun c => { c with waiters := waiters }

/-- The verdict of a start that begins a generation, given by the error it completes with. It
succeeds exactly if the listener runs with one session; otherwise there is no session. -/
structure StartsWith (s : SocketListener) (answers : SocketAnswers) (handler : CompletionHandler)
    (ec : ErrorCode) (t : SocketListener) : Prop where
  error : ec = (answers.failure s.configuredEndpoint).getD .success
  verdict : StartVerdict s.core handler ec t.core
  succeeds : ec.failed = false ↔ t.core.state = .running ∧
    t.core.activeSessions = 1 ∧ t.session ≠ none
  fails : ec.failed = true → t.session = none ∧ t.core.activeSessions = 0

variable {s t : SocketListener} {answers : SocketAnswers}

/-- What a start of a listener at rest comes to, with the answers that decide it. -/
theorem startOnStrand_eq (hs : s.core.state = .idle ∨ s.core.state = .stopped)
    (handler : CompletionHandler) :
    s.startOnStrand answers handler =
      if (answers.bindError s.configuredEndpoint).failed then
        ((s.opened s.core.endpoint).mapCore fun c =>
            c.completeOn ⟨handler, none, answers.bindError s.configuredEndpoint,
              .startupFailed⟩).finish
          (answers.bindError s.configuredEndpoint) .startupFailure
      else
        let opened := s.opened (answers.localEndpoint.getD s.configuredEndpoint.text)
        match answers.factory with
        | some e =>
          (opened.mapCore fun c =>
            (c.sessionFactoryFailed {} (exceptionToError (some e)) (some e)).completeOn
            ⟨handler, none, exceptionToError (some e), .startupFailed⟩).finish
              (exceptionToError (some e)) .startupFailure
        | none => opened.launched.mapCore fun c =>
            (c.completeOn ⟨handler, none, .success, .started⟩).postTo
              [s.core.generation + 1] .start := by
  have hrunning : s.core.state ≠ .running := by rcases hs with hs | hs <;> simp [hs]
  have hbusy : ¬ (s.core.state ≠ .idle ∧ s.core.state ≠ .stopped) := by
    rcases hs with hs | hs <;> simp [hs]
  unfold startOnStrand
  rw [if_neg hrunning, if_neg hbusy]
  rfl

/-- A start that fails is rolled back: a generation that has begun without a session is finished. -/
theorem startsWith_of_failed {m : ListenerCore} {ec : ErrorCode} {handler : CompletionHandler}
    (hfailure : answers.failure s.configuredEndpoint = some ec) (hec : ec.failed = true)
    (hnone : s.session = none) (hcount : m.activeSessions = 0)
    (hquiet : Quiet s.core.beginGeneration m) :
    s.StartsWith answers handler ec
      ({ s with core := m.completeOn ⟨handler, none, ec, .startupFailed⟩ }.finish ec
        .startupFailure) := by
  have hstarting : m.state ≠ .stopped := by simp [hquiet.state, beginGeneration, transitionTo, emit]
  have hverdict : StartVerdict s.core handler ec
      ((m.completeOn ⟨handler, none, ec, .startupFailed⟩).finish ec .startupFailure) :=
    startVerdict_of_completeOn hstarting hquiet.generation hquiet.waiters hquiet.strand
      hquiet.delivered hec
  refine ⟨by rw [hfailure, Option.getD_some], hverdict, ?_, fun _ =>
    ⟨hnone, (finish_activeSessions _ _ _).trans hcount⟩⟩
  have hstopped :
      ({ s with core := m.completeOn ⟨handler, none, ec, .startupFailed⟩ }.finish ec
        .startupFailure).core.state =
      .stopped := (hverdict.fails hec).1
  simp [hec, hstopped]

/-- Every start of a listener at rest has its verdict. -/
theorem startOnStrand_startsWith (hs : s.core.state = .idle ∨ s.core.state = .stopped)
    (hnone : s.session = none) (hcount : s.core.activeSessions = 0)
    (hfactory : answers.FactoryFails s.configuredEndpoint) (handler : CompletionHandler) :
    ∃ ec, s.StartsWith answers handler ec (s.startOnStrand answers handler) := by
  rw [startOnStrand_eq hs]
  cases hbind : (answers.bindError s.configuredEndpoint).failed with
  | true =>
    rw [if_pos rfl]
    exact ⟨_, startsWith_of_failed (SocketAnswers.failure_of_bindError hbind) hbind hnone hcount
      (quiet_endpoint _ _)⟩
  | false =>
    have hfailure := SocketAnswers.failure_of_factory hbind hfactory
    rw [if_neg (by simp)]
    cases hthrows : answers.factory with
    | none =>
      rw [hthrows] at hfailure
      refine ⟨.success, by rw [hfailure]; rfl, ⟨rfl, fun _ => ⟨rfl, rfl, ?_⟩, nofun⟩, ?_, nofun⟩
      · exact Completes.completed_completeOn
          (s.opened (answers.localEndpoint.getD s.configuredEndpoint.text)).launched.core _
      · exact ⟨fun _ => ⟨rfl, rfl, nofun⟩, fun _ => rfl⟩
    | some e =>
      rw [hthrows] at hfailure
      refine ⟨_, startsWith_of_failed hfailure (hfactory.failed hbind hthrows) hnone ?_ ?_⟩
      · exact hcount
      · exact (quiet_endpoint _ _).trans (quiet_failure _ (by simp) (by simp) _ _ _)

/-- Without that the start is rolled back although no part of the sequence reports a failure. -/
theorem factoryFails_of_startsWith (hs : s.core.state = .idle ∨ s.core.state = .stopped)
    {handler : CompletionHandler} {ec : ErrorCode}
    (h : s.StartsWith answers handler ec (s.startOnStrand answers handler)) :
    answers.FactoryFails s.configuredEndpoint := by
  intro hbind code hthrows
  by_contra hsucceeds
  have hsucceeds : code.failed = false := by simpa using hsucceeds
  have hec : ec = .success := by
    rw [h.error, SocketAnswers.failure, List.find?_append, answers.find_codes, hbind, hthrows]
    simp [exceptionToError, hsucceeds]
  have hrunning := (h.succeeds.mp (hec ▸ rfl)).1
  rw [startOnStrand_eq hs, hbind, hthrows, if_neg (by simp)] at hrunning
  have hstopped (c : ListenerCore) (ec : ErrorCode) (reason : ListenerStopReason) :
      (c.finish ec reason).state ≠ .running := by simp [finish_state]
  exact hstopped _ _ _ hrunning

/-- A start of a listener at rest has its verdict exactly if the factory throws no system error
whose code reports no failure. -/
theorem startsWith_iff (hs : s.core.state = .idle ∨ s.core.state = .stopped)
    (hnone : s.session = none) (hcount : s.core.activeSessions = 0) (handler : CompletionHandler) :
    (∃ ec, s.StartsWith answers handler ec (s.startOnStrand answers handler)) ↔
      answers.FactoryFails s.configuredEndpoint :=
  ⟨fun ⟨_, h⟩ => factoryFails_of_startsWith hs h, fun h => startOnStrand_startsWith hs
    hnone hcount h handler⟩

/-- So has the strand step of such a start. -/
theorem step_startsWith_iff (hs : s.core.state = .idle ∨ s.core.state = .stopped)
    (hnone : s.session = none) (hcount : s.core.activeSessions = 0) {handler : CompletionHandler}
    {rest : List Message} (hstrand : s.core.strand = .start handler false :: rest)
    (hstep : s.step (.run answers) = some t) :
    (∃ ec, s.StartsWith answers handler ec t) ↔ answers.FactoryFails s.configuredEndpoint := by
  obtain rfl : (s.mapCore fun c => { c with strand := rest }).startOnStrand
    answers handler = t := by
    simpa [step, hstrand, handle] using hstep
  refine Iff.trans (exists_congr fun ec => ⟨fun h => ?_, fun h => ?_⟩)
    (startsWith_iff (s := s.mapCore fun c => { c with strand := rest }) hs hnone hcount handler)
  · exact ⟨h.error, (StartVerdict.popped_iff hstrand).mp h.verdict, h.succeeds, h.fails⟩
  · exact ⟨h.error, (StartVerdict.popped_iff hstrand).mpr h.verdict, h.succeeds, h.fails⟩

end SocketListener

/-- The strand step of a start that was not cancelled, of any idle or stopped listener with any
list of waits and for any answers of the startup sequence, completes the start exactly once. It
completes with success exactly if the listener then runs with one session. Otherwise it
completes with an error that reports a failure, the listener is stopped for a startup failure
and has no session, and every wait has been completed with that error. All this holds exactly if
the session factory, where it is reached, throws no system error whose code reports no failure. -/
theorem socketStart_verdict {id : ℕ} {endpoint : Endpoint} {options : SocketOptions}
    {r t : SocketListener} (hreach : Reachable SocketListener.step (.create id endpoint options) r)
    (hs : r.core.state = .idle ∨ r.core.state = .stopped) {handler : CompletionHandler}
    {rest : List Message} (hstrand : r.core.strand = .start handler false :: rest)
    (waiters : List WaitOperation) (answers : SocketAnswers)
    (hstep : (r.awaitedBy waiters).step (.run answers) = some t) :
    (∃ ec, (r.awaitedBy waiters).StartsWith answers handler ec t) ↔
      answers.FactoryFails r.configuredEndpoint := by
  obtain ⟨htended, hbound⟩ : SocketTended r ∧ Bound r :=
    hreach.invariant (fun s => SocketTended s ∧ Bound s)
      (fun _ _ _ h hstep => ⟨h.1.step hstep, h.2.step h.1 hstep⟩)
      ⟨.create id endpoint options, .create id endpoint options⟩
  have hnone : r.session = none := htended.released hs
  have hcount : r.core.activeSessions = 0 := by rw [hbound.counted, hnone]; rfl
  exact SocketListener.step_startsWith_iff (s := r.awaitedBy waiters) hs hnone hcount hstrand hstep

/-- The factory throws, and both the start and the wait for the listener fail. -/
theorem socketStart_verdict_factoryThrows : ∃ r t : SocketListener,
    run SocketListener.step (.create 1 ⟨"127.0.0.1:53", true, false⟩ ⟨{}, rfl⟩)
      [.core (.asyncStart (.user 0))] = some r ∧
      (r.awaitedBy [⟨1, .user 1⟩]).step (.run { factory := some (.other 0) }) = some t ∧
      ∃ ec, (r.awaitedBy [⟨1, .user 1⟩]).StartsWith { factory := some (.other 0) }
      (.user 0) ec t := by
  have hrun : run SocketListener.step (.create 1 ⟨"127.0.0.1:53", true, false⟩ ⟨{}, rfl⟩)
      [.core (.asyncStart (.user 0))] =
    some _ := rfl
  have hverdict :=
    socketStart_verdict ⟨_, hrun⟩ (Or.inl rfl) rfl [⟨1, .user 1⟩] { factory := some (.other 0) } rfl
  exact ⟨_, _, hrun, rfl, hverdict.mpr nofun⟩

/-- The factory throws a system error that carries no error: the listener is stopped for a startup
failure, but the start and the wait for the listener complete with success. -/
theorem socketStart_falseSuccess : ∃ r t : SocketListener,
    run SocketListener.step (.create 1 ⟨"127.0.0.1:53", true, false⟩ ⟨{}, rfl⟩)
      [.core (.asyncStart (.user 0))] = some r ∧
      r.core.state = .idle ∧
      (r.awaitedBy [⟨1, .user 1⟩]).step
      (.run { factory := some (.systemError .success) }) = some t ∧
      t.core.completed = [⟨.user 0, none, .success, .startupFailed⟩,
        ⟨.user 1, some 1, .success, .stopped⟩] ∧
      t.core.state = .stopped ∧ t.core.stopReason = .startupFailure ∧
        t.core.activeSessions = 0 ∧ t.session = none :=
  ⟨_, _, rfl, rfl, rfl, rfl, rfl, rfl, rfl, rfl⟩

end Serveza
