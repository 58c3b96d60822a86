import Serveza.StartVerdict

/-!
# The verdict of starting an accepting listener

An error up to `listen` finishes the generation from `start_on_strand` itself; an exception
out of the first accept finishes it from within `accept_next`, through `begin_stop` and
`maybe_finish`. Both ways leave the listener fully rolled back: stopped, with a closed
acceptor and nothing outstanding, so the next start runs the whole sequence again.
-/

namespace Serveza

open Foundation ListenerCore

namespace AcceptorAnswers

/-- The error of the first call of the startup sequence that fails. -/
def failure (answers : AcceptorAnswers) (endpoint : Endpoint) : Option ErrorCode :=
  (answers.codes endpoint ++ [answers.listening] ++
    (answers.accept.map FailingException.error).toList).find? ErrorCode.failed

/-- The error left by the startup sequence up to `listen`. -/
def listenError (answers : AcceptorAnswers) (endpoint : Endpoint) : ErrorCode :=
  if !(answers.bindError endpoint).failed then answers.listening else answers.bindError endpoint

variable {answers : AcceptorAnswers} {endpoint : Endpoint}

/-- A sequence that fails up to `listen` fails with the error left there. -/
theorem failure_of_listenError (h : (answers.listenError endpoint).failed = true) :
    answers.failure endpoint = some (answers.listenError endpoint) := by
  unfold failure
  rw [List.find?_append, List.find?_append, answers.find_codes]
  unfold listenError at h ⊢
  cases hbind : (answers.bindError endpoint).failed <;> simp_all

/-- A sequence that succeeds up to `listen` fails with the exception out of the accept, if any. -/
theorem failure_of_accept (h : (answers.listenError endpoint).failed = false) :
    answers.failure endpoint = answers.accept.map FailingException.error := by
  unfold failure
  rw [List.find?_append, List.find?_append, answers.find_codes]
  unfold listenError at h
  cases hbind : (answers.bindError endpoint).failed with
  | true => simp_all
  | false =>
    cases answers.accept with
    | none => simp_all
    | some e =>
      have hfailed : e.error.failed = true := e.failed
      simp_all

/-- A sequence that succeeds up to `listen` has opened the acceptor. -/
theorem opened_of_listenError (h : (answers.listenError endpoint).failed = false) :
    answers.opened.failed = false := by
  unfold listenError StartupAnswers.bindError at h
  by_contra hfailed
  simp_all

end AcceptorAnswers

namespace AcceptorListener

/-- The listener with a given list of registered waits. -/
def awaitedBy (s : AcceptorListener) (waiters : List WaitOperation) : AcceptorListener :=
  s.mapCore fun c => { c with waiters := waiters }

/-- The verdict of a start that begins a generation, given by the error it completes with: the
error of the first call that fails, or success. It succeeds exactly if the listener runs with an
open acceptor and one accept; otherwise the acceptor is closed and nothing is outstanding. -/
structure StartsWith (s : AcceptorListener) (answers : AcceptorAnswers)
    (handler : CompletionHandler) (ec : ErrorCode) (t : AcceptorListener) : Prop where
  closed : s.acceptor = ⟨false, 0⟩
  error : ec = (answers.failure s.configuredEndpoint).getD .success
  verdict : StartVerdict s.core handler ec t.core
  succeeds : ec.failed = false ↔ t.core.state = .running ∧ t.acceptor.isOpen = true ∧
    t.acceptor.accepts = 1
  fails : ec.failed = true → t.acceptor = ⟨false, 0⟩ ∧ t.acceptPending = false ∧ t.sessions = [] ∧
    t.core.activeSessions = 0

variable {options : AcceptorOptions} {s t : AcceptorListener} {answers : AcceptorAnswers}

/-- A listener whose new generation has begun and whose acceptor has been opened as far as
possible. -/
def begun (s : AcceptorListener) (answers : AcceptorAnswers) : AcceptorListener :=
  s.opened ⟨s.acceptor.isOpen || !answers.opened.failed, s.acceptor.accepts⟩ s.core.endpoint

/-- What a start of a listener at rest comes to, with the answers that decide it. -/
theorem startOnStrand_eq (hs : s.core.state = .idle ∨ s.core.state = .stopped)
    (handler : CompletionHandler) :
    s.startOnStrand answers handler =
      if (answers.listenError s.configuredEndpoint).failed then
        ((s.begun answers).mapCore fun c => c.completeOn
          ⟨handler, none, answers.listenError s.configuredEndpoint, .startupFailed⟩).finish
          (answers.listenError s.configuredEndpoint) .startupFailure
      else
        let begun := (s.begun answers).mapCore fun c => { c with
          endpoint := answers.localEndpoint.getD c.endpoint }
        if (begun.acceptNext answers .startupFailure).2.failed then
          (begun.acceptNext answers .startupFailure).1.mapCore fun c =>
            c.completeOn ⟨handler, none,
              (begun.acceptNext answers .startupFailure).2, .startupFailed⟩
        else
          (begun.acceptNext answers .startupFailure).1.mapCore fun c =>
            (c.transitionTo .running).completeOn ⟨handler, none, .success, .started⟩ := by
  have hrunning : s.core.state ≠ .running := by rcases hs with hs | hs <;> simp [hs]
  have hbusy : ¬ (s.core.state ≠ .idle ∧ s.core.state ≠ .stopped) := by
    rcases hs with hs | hs <;> simp [hs]
  unfold startOnStrand
  rw [if_neg hrunning, if_neg hbusy]
  rfl

/-- Finishing a generation with nothing outstanding leaves the acceptor closed and nothing
outstanding. -/
theorem finish_rolledBack (hstate : s.core.state ≠ .stopped) (haccepts : s.acceptor.accepts = 0)
    (hpending : s.acceptPending = false) (hsessions : s.sessions = [])
    (hcount : s.core.activeSessions = 0) (ec : ErrorCode) (reason : ListenerStopReason) :
    (s.finish ec reason).acceptor = ⟨false, 0⟩ ∧ (s.finish ec reason).acceptPending = false ∧
      (s.finish ec reason).sessions = [] ∧ (s.finish ec reason).core.activeSessions = 0 := by
  unfold AcceptorListener.finish
  rw [if_neg hstate]
  exact ⟨congrArg (Acceptor.mk false) haccepts, hpending, hsessions,
    (finish_activeSessions _ _ _).trans hcount⟩

section Starting

variable (hs : s.core.state = .starting) (hpending : s.acceptPending = false)
  (hsessions : s.sessions = [])

include hs hpending hsessions

/-- A starting listener with nothing outstanding that begins to stop finishes its generation. -/
theorem beginStop_of_starting (ec : ErrorCode) (reason : ListenerStopReason) :
    s.beginStop answers ec reason = (s.closeDown ec reason).finish ec reason := by
  have hempty : (s.closeDown ec reason).sessions = [] := hsessions
  have hnone : (s.closeDown ec reason).acceptPending = false := hpending
  unfold beginStop armGrace maybeFinish
  simp only [hs]
  rw [if_pos hempty, if_pos ⟨rfl, hnone, hempty⟩]
  rfl

/-- What starting the first accept of a listener comes to: an accept, or the end of the
generation. -/
theorem acceptNext_of_starting (reason : ListenerStopReason) : s.acceptNext answers reason =
    match answers.accept with
    | none => (s.startAccept, .success)
    | some e =>
      (((s.mapCore fun c => c.acceptFailed e.error (some e.exception)).closeDown e.error
        reason).finish e.error reason,
          e.error) := by
  have hroom : ¬ s.options.maxActiveSessions ≤ s.sessions.length := by
    rw [hsessions]
    exact not_le.mpr s.options.maxActiveSessions_pos
  unfold acceptNext
  rw [if_neg (by simp [hs, hpending]), if_neg hroom]
  cases answers.accept with
  | none => rfl
  | some e =>
    refine congrArg (·, e.error) ?_
    exact beginStop_of_starting (s := s.mapCore fun c => c.acceptFailed e.error (some e.exception))
      hs hpending hsessions _ _

end Starting

/-- A start that fails is rolled back. -/
theorem startsWith_of_failed {ec : ErrorCode} {handler : CompletionHandler}
    (hclosed : s.acceptor = ⟨false, 0⟩) (hfailure : answers.failure s.configuredEndpoint = some ec)
    (hec : ec.failed = true) (hverdict : StartVerdict s.core handler ec t.core)
    (hrolled : t.acceptor = ⟨false, 0⟩ ∧ t.acceptPending = false ∧ t.sessions = [] ∧
      t.core.activeSessions = 0) :
    s.StartsWith answers handler ec t := by
  refine ⟨hclosed, by rw [hfailure, Option.getD_some], hverdict, ?_, fun _ => hrolled⟩
  simp [hec, (hverdict.fails hec).1]

/-- A generation that has just begun and whose first accept cannot be started is rolled back. -/
theorem closeDown_startVerdict {a : ListenerCore} {ec : ErrorCode} {ep : Option ThrownException}
    {handler : CompletionHandler} (hgeneration : s.core.generation = a.generation + 1)
    (hwaiters : s.core.waiters = a.waiters) (hstrand : s.core.strand = a.strand)
    (hdelivered : s.core.delivered = a.delivered) (hec : ec.failed = true) :
    StartVerdict a handler ec
      ((((s.mapCore fun c => c.acceptFailed ec ep).closeDown ec .startupFailure).finish ec
      .startupFailure).core.completeOn ⟨handler, none, ec, .startupFailed⟩) := by
  rw [finish_core]
  exact startVerdict_of_finish (by decide : ListenerState.stopping ≠ .stopped) hgeneration hwaiters
    hstrand hdelivered hec

/-- Nothing is outstanding in a generation whose first accept cannot be started. -/
theorem closeDown_rolledBack {ec : ErrorCode} {ep : Option ThrownException}
    (haccepts : s.acceptor.accepts = 0) (hpending : s.acceptPending = false)
    (hsessions : s.sessions = []) (hcount : s.core.activeSessions = 0) (completion : Completion) :
    let t := (((s.mapCore fun c => c.acceptFailed ec ep).closeDown ec .startupFailure).finish ec
      .startupFailure).mapCore
      fun c => c.completeOn completion
    t.acceptor = ⟨false, 0⟩ ∧ t.acceptPending = false ∧ t.sessions = [] ∧
      t.core.activeSessions = 0 := by
  have hcore :
      ((s.mapCore fun c => c.acceptFailed ec ep).closeDown ec .startupFailure).core.activeSessions =
      0 := hcount
  exact finish_rolledBack (s := (s.mapCore fun c => c.acceptFailed ec ep).closeDown ec
    .startupFailure)
    (by decide : ListenerState.stopping ≠ .stopped) haccepts hpending hsessions
      hcore ec .startupFailure

/-- Every start of a listener at rest has its verdict. -/
theorem startOnStrand_startsWith (h : Books options s)
    (hs : s.core.state = .idle ∨ s.core.state = .stopped) (handler : CompletionHandler) :
    ∃ ec, s.StartsWith answers handler ec (s.startOnStrand answers handler) := by
  obtain ⟨hsessions, hpending, hclosed⟩ := h.released hs
  have haccepts : s.acceptor.accepts = 0 := by rw [h.pending, hpending]; rfl
  have hcount : s.core.activeSessions = 0 := by rw [h.counted, hsessions]; rfl
  have hacceptor : s.acceptor = ⟨false, 0⟩ := by rw [← hclosed, ← haccepts]
  have hstarting : ListenerState.starting ≠ .stopped := by decide
  have hstopping : ListenerState.stopping ≠ .stopped := by decide
  rw [startOnStrand_eq hs]
  cases hlisten : (answers.listenError s.configuredEndpoint).failed with
  | true =>
    rw [if_pos rfl]
    refine ⟨_, startsWith_of_failed hacceptor
      (AcceptorAnswers.failure_of_listenError hlisten) hlisten ?_ ?_⟩
    · rw [finish_core]
      exact startVerdict_of_completeOn hstarting rfl rfl rfl rfl hlisten
    · exact finish_rolledBack (s := (s.begun answers).mapCore fun c =>
        c.completeOn ⟨handler, none, answers.listenError s.configuredEndpoint, .startupFailed⟩)
        hstarting haccepts hpending hsessions hcount _ _
  | false =>
    have hfailure := AcceptorAnswers.failure_of_accept hlisten
    extract_lets begun
    have hnext : begun.acceptNext answers .startupFailure = _ :=
      acceptNext_of_starting (s := begun) rfl hpending hsessions _
    rw [if_neg (by simp)]
    cases haccept : answers.accept with
    | none =>
      have hopen : answers.opened.failed = false := AcceptorAnswers.opened_of_listenError hlisten
      rw [haccept] at hfailure hnext
      rw [hnext]
      refine ⟨.success, hacceptor, by rw [hfailure]; rfl,
        ⟨rfl, fun _ => ⟨rfl, rfl, ?_⟩, nofun⟩, ?_, nofun⟩
      · exact Completes.completed_completeOn _ _
      · refine ⟨fun _ => ⟨rfl, ?_, ?_⟩, fun _ => rfl⟩
        · change (s.acceptor.isOpen || !answers.opened.failed) = true
          simp [hopen]
        · exact congrArg (· + 1) haccepts
    | some e =>
      have hfailed : e.error.failed = true := e.failed
      rw [haccept] at hfailure hnext
      rw [hnext, if_pos hfailed]
      refine ⟨e.error, startsWith_of_failed hacceptor hfailure hfailed ?_ ?_⟩
      · exact closeDown_startVerdict (s := begun) rfl rfl rfl rfl hfailed
      · exact closeDown_rolledBack (s := begun) haccepts hpending hsessions hcount _

/-- The strand step of a start of a listener at rest has its verdict. -/
theorem step_startsWith (h : Books options s) (hs : s.core.state = .idle ∨ s.core.state = .stopped)
    {handler : CompletionHandler} {rest : List Message}
    (hstrand : s.core.strand = .start handler false :: rest)
    (hstep : s.step (.run answers) = some t) : ∃ ec, s.StartsWith answers handler ec t := by
  obtain rfl : (s.mapCore fun c => { c with strand := rest }).startOnStrand
    answers handler = t := by
    simpa [step, hstrand, handle] using hstep
  have hpopped : Books options (s.mapCore fun c => { c with strand := rest }) :=
    h.withCore _ rfl rfl
  obtain ⟨ec, hclosed, herror, hverdict, hsucceeds, hfails⟩ :=
    AcceptorListener.startOnStrand_startsWith hpopped hs handler
  exact ⟨ec, hclosed, herror, (StartVerdict.popped_iff hstrand).mpr hverdict, hsucceeds, hfails⟩

end AcceptorListener

/-- The strand step of a start that was not cancelled, of any idle or stopped listener with any
list of waits and for any answers of the startup sequence, completes the start exactly once. It
completes with success exactly if the listener then runs with an open acceptor and one accept
outstanding. Otherwise it completes with the error of the call that failed, the generation is
rolled back and every wait has been completed with that error, and every later start runs the
whole sequence again from a closed acceptor, with the same verdict. -/
theorem acceptorStart_verdict {id : ℕ} {endpoint : Endpoint} {options : AcceptorOptions}
    {r t : AcceptorListener}
    (hreach : Reachable AcceptorListener.step (.create id endpoint options) r)
    (hs : r.core.state = .idle ∨ r.core.state = .stopped) {handler : CompletionHandler}
    {rest : List Message} (hstrand : r.core.strand = .start handler false :: rest)
    (waiters : List WaitOperation) (answers : AcceptorAnswers)
    (hstep : (r.awaitedBy waiters).step (.run answers) = some t) :
    ∃ ec, (r.awaitedBy waiters).StartsWith answers handler ec t ∧
      (ec.failed = true → ∀ ls u, run AcceptorListener.step t ls = some u → u.core.state = .idle ∨
        u.core.state = .stopped →
        ∀ handler' rest' answers' v, u.core.strand = .start handler' false :: rest' →
        u.step (.run answers') = some v →
          ∃ ec', u.StartsWith answers' handler' ec' v) := by
  have hbooks : Books options r :=
    hreach.invariant (Books options) (fun _ _ _ h hstep => h.step hstep)
      (.create id endpoint options)
  have hawaited : Books options (r.awaitedBy waiters) := hbooks.withCore _ rfl rfl
  obtain ⟨ec, hstarts⟩ := AcceptorListener.step_startsWith hawaited hs hstrand hstep
  refine ⟨ec, hstarts, fun _ ls u hrun hidle handler' rest' answers' v hstrand' hstep' => ?_⟩
  have hlater : Books options u :=
    run_invariant (Books options) (fun _ _ _ h hstep => h.step hstep) (hawaited.step hstep) hrun
  exact AcceptorListener.step_startsWith hlater hidle hstrand' hstep'

/-- The address is in use; the start fails with that error, and so does the wait for the
listener. -/
theorem acceptorStart_verdict_addressInUse : ∃ r t : AcceptorListener,
    run AcceptorListener.step (.create 1 ⟨"127.0.0.1:80", true, false⟩ ⟨{}, rfl⟩)
      [.core (.asyncStart (.user 0))] = some r ∧
      (r.awaitedBy [⟨1, .user 1⟩]).step (.run { bound := ⟨.system, 98⟩ }) = some t ∧
      ∃ ec, (r.awaitedBy [⟨1, .user 1⟩]).StartsWith { bound := ⟨.system, 98⟩ } (.user 0) ec t := by
  have hrun : run AcceptorListener.step (.create 1 ⟨"127.0.0.1:80", true, false⟩ ⟨{}, rfl⟩)
      [.core (.asyncStart (.user 0))] =
    some _ := rfl
  obtain ⟨ec, hstarts, -⟩ :=
    acceptorStart_verdict ⟨_, hrun⟩ (Or.inl rfl) rfl [⟨1, .user 1⟩] { bound := ⟨.system, 98⟩ } rfl
  exact ⟨_, _, hrun, rfl, ec, hstarts⟩

end Serveza
