import Serveza.ListenerCore
import Serveza.Options

/-!
# The accepting listener

`basic_acceptor_listener`, handler by handler. A handler runs on the listener's strand and
is one step. The answers it gets from the code it calls (the acceptor, the session factory,
the timers) are its `AcceptorAnswers`. An accept and a timer wait complete at any time after
they were started, so their handlers are steps of their own next to the posted messages.
An exception out of the initiation of an accept always maps to an error code that reports a
failure.
-/

namespace Serveza

open Foundation

/-- The acceptor: whether it is open, and how many accepts are outstanding on it. -/
structure Acceptor where
  isOpen : Bool := false
  accepts : ℕ := 0
  deriving DecidableEq, Repr

/-- What the calls of one handler answer: the startup sequence, the session factory, the
initiation of an accept, and the arming of the two timers. -/
structure AcceptorAnswers extends StartupAnswers where
  factory : Option ThrownException := none
  accept : Option FailingException := none
  retryTimer : Option ThrownException := none
  graceTimer : Option ThrownException := none

/-- The result of an accept, with the printable endpoints of the new socket. -/
structure AcceptResult where
  error : ErrorCode := .success
  localEndpoint : Option String := none
  remoteEndpoint : Option String := none
  deriving DecidableEq, Repr

/-- An accepting listener. `sessions` holds the identifiers of the sessions in `m_sessions`. -/
structure AcceptorListener where
  core : ListenerCore
  options : AcceptorOptions
  configuredEndpoint : Endpoint
  acceptor : Acceptor := {}
  retryTimer : Timer Arming := {}
  nextConnectionId : ℕ := 0
  consecutiveAcceptErrors : ℕ := 0
  acceptPending : Bool := false
  sessions : List ℕ := []

namespace AcceptorListener

/-- A newly constructed listener. -/
def create (id : ℕ) (endpoint : Endpoint) (options : AcceptorOptions) : AcceptorListener :=
  { core := { id := id, endpoint := endpoint.text }
    options := options
    configuredEndpoint := endpoint }

/-- Apply a function of the shared part. -/
def mapCore (s : AcceptorListener) (f : ListenerCore → ListenerCore) : AcceptorListener :=
  { s with core := f s.core }

/-- Some strong reference to the listener exists. -/
def alive (s : AcceptorListener) : Bool :=
  s.core.referenced || 0 < s.acceptor.accepts || !s.retryTimer.waits.isEmpty

/-- End the generation: record the outcome, release the acceptor, the timers and the waits. -/
def finish (s : AcceptorListener) (ec : ErrorCode) (reason : ListenerStopReason) :
    AcceptorListener :=
  if s.core.state = .stopped then s
  else
    { s with
      core := s.core.finish ec reason
      acceptor := { s.acceptor with isOpen := false }
      retryTimer := s.retryTimer.cancel }

/-- End the generation once nothing is left to drain. -/
def maybeFinish (s : AcceptorListener) : AcceptorListener :=
  if s.core.state = .stopping ∧ s.acceptPending = false ∧ s.sessions = [] then
    s.finish s.core.terminalError s.core.stopReason
  else s

/-- Give the remaining sessions their grace period. If the timer cannot be armed they are
closed at once. -/
def armGrace (s : AcceptorListener) (answers : AcceptorAnswers) : AcceptorListener :=
  if s.sessions = [] then s
  else
    let s := s.mapCore fun c => { c with shutdownTimer := c.shutdownTimer.expiresAfter }
    match answers.graceTimer with
    | none => s.mapCore fun c =>
        { c with shutdownTimer := c.shutdownTimer.asyncWait ⟨c.generation,
          s.options.shutdownGracePeriod⟩ }
    | some _ => s.mapCore fun c => c.postTo s.sessions .forceClose

/-- Announce the stop, close the acceptor, and ask every session to stop. -/
def closeDown (s : AcceptorListener) (ec : ErrorCode) (reason : ListenerStopReason) :
    AcceptorListener :=
  let s := s.mapCore fun c => c.announceStop ec reason
  let s :=
    { s with acceptor := { s.acceptor with isOpen := false }, retryTimer := s.retryTimer.cancel }
  s.mapCore fun c => c.postTo s.sessions .requestStop

/-- Begin to stop, with an error and a reason that the end of the generation will report. -/
def beginStop (s : AcceptorListener) (answers : AcceptorAnswers) (ec : ErrorCode)
    (reason : ListenerStopReason) : AcceptorListener :=
  match s.core.state with
  | .idle => (s.mapCore fun c => c.announceStop ec reason).finish ec reason
  | .starting | .running => ((s.closeDown ec reason).armGrace answers).maybeFinish
  | .stopping | .stopped => s

/-- The listener accepts connections. -/
def Accepting (s : AcceptorListener) : Prop := s.core.state = .starting ∨ s.core.state = .running

/-- An accept has been started. -/
def startAccept (s : AcceptorListener) : AcceptorListener :=
  { s with acceptPending := true, acceptor := ⟨s.acceptor.isOpen, s.acceptor.accepts + 1⟩ }

/-- Start the next accept if the listener accepts, none is outstanding and there is room. An
exception stops the listener and is returned as an error. -/
def acceptNext (s : AcceptorListener) (answers : AcceptorAnswers) (reason : ListenerStopReason) :
    AcceptorListener × ErrorCode :=
  if (s.core.state ≠ .starting ∧ s.core.state ≠ .running) ∨ s.acceptPending = true then
    (s.maybeFinish, .success)
  else if s.options.maxActiveSessions ≤ s.sessions.length then (s, .success)
  else
    match answers.accept with
    | none => (s.startAccept, .success)
    | some e =>
      ((s.mapCore fun c => c.acceptFailed e.error (some e.exception)).beginStop answers
        e.error reason, e.error)

/-- The strand step of a start that was not cancelled. -/
def startOnStrand (s : AcceptorListener) (answers : AcceptorAnswers) (handler : CompletionHandler) :
    AcceptorListener :=
  if s.core.state = .running then
    s.mapCore fun c => c.completeOn ⟨handler, none, .success, .joined⟩
  else if s.core.state ≠ .idle ∧ s.core.state ≠ .stopped then
    s.mapCore fun c => c.completeOn ⟨handler, none, .operationAborted, .rejected⟩
  else
    let s := s.mapCore ListenerCore.beginGeneration
    let s :=
      { s with acceptor := ⟨s.acceptor.isOpen || !answers.opened.failed, s.acceptor.accepts⟩ }
    let ec := answers.bindError s.configuredEndpoint
    let ec := if !ec.failed then answers.listening else ec
    if ec.failed then
      (s.mapCore fun c => c.completeOn ⟨handler, none, ec, .startupFailed⟩).finish ec
        .startupFailure
    else
      let s := s.mapCore fun c => { c with endpoint := answers.localEndpoint.getD c.endpoint }
      let (s, acceptEc) := s.acceptNext answers .startupFailure
      if acceptEc.failed then
        s.mapCore fun c => c.completeOn ⟨handler, none, acceptEc, .startupFailed⟩
      else
        s.mapCore fun c => (c.transitionTo .running).completeOn ⟨handler, none, .success, .started⟩

/-- React to a failed accept: stop on a fatal error or an exhausted budget, else retry later. -/
def retryAccept (s : AcceptorListener) (answers : AcceptorAnswers) (acceptEc : ErrorCode) :
    AcceptorListener :=
  let s := s.mapCore fun c => c.acceptFailed acceptEc none
  if !isTransientAcceptError acceptEc then s.beginStop answers acceptEc .runtimeFailure
  else
    let s := { s with consecutiveAcceptErrors := s.consecutiveAcceptErrors + 1 }
    if s.options.maxConsecutiveAcceptErrors ≤ s.consecutiveAcceptErrors then
      s.beginStop answers acceptEc .runtimeFailure
    else
      let s := { s with retryTimer := s.retryTimer.expiresAfter }
      match answers.retryTimer with
      | none =>
        let delay := acceptRetryDelay s.options.toListenerOptions s.consecutiveAcceptErrors
        { s with retryTimer := s.retryTimer.asyncWait ⟨s.core.generation, delay⟩ }
      | some e =>
        let ec := exceptionToError (some e)
        (s.mapCore fun c => c.recordDiagnostic ec (some e)).beginStop answers ec .runtimeFailure

/-- Number a new connection; it ends a series of accept errors. -/
def nextConnection (s : AcceptorListener) : AcceptorListener :=
  { s with consecutiveAcceptErrors := 0, nextConnectionId := s.nextConnectionId + 1 }

/-- Hold a new session and post its start. -/
def addSession (s : AcceptorListener) (info : ConnectionInfo) : AcceptorListener :=
  let session : Session := { info := info, generation := s.core.generation }
  { s with
    core := ({ s.core with
      heap := s.core.heap ++ [session]
      activeSessions := s.core.activeSessions + 1 }.emit .sessionStarted info .success none).postTo
        [info.id] .start
    sessions := s.sessions ++ [info.id] }

/-- The handler of a completed accept. -/
def accepted (s : AcceptorListener) (answers : AcceptorAnswers) (result : AcceptResult) :
    AcceptorListener :=
  let s := { s with acceptPending := false }
  if s.core.state ≠ .running then s.maybeFinish
  else if result.error.failed then s.retryAccept answers result.error
  else
    let s := s.nextConnection
    let info : ConnectionInfo :=
      ⟨s.nextConnectionId, result.localEndpoint.getD "", result.remoteEndpoint.getD ""⟩
    match answers.factory with
    | some e =>
      let ec := exceptionToError (some e)
      ((s.mapCore fun c => c.sessionFactoryFailed info ec (some e)).acceptNext
        answers .runtimeFailure).1
    | none => ((s.addSession info).acceptNext answers .runtimeFailure).1

/-- Drop a session from the sessions held, if it is one of them. -/
def removeSession (s : AcceptorListener) (key : ℕ) : AcceptorListener :=
  if key ∈ s.sessions then
    { s.mapCore fun c => { c with activeSessions := c.activeSessions - 1 } with
      sessions := s.sessions.erase key }
  else s

/-- The strand step of a session's report. -/
def sessionFinished (s : AcceptorListener) (answers : AcceptorAnswers) (report : SessionReport) :
    AcceptorListener :=
  let s := s.removeSession report.info.id
  let s := s.mapCore fun c => c.sessionStopped report.info report
  let s := if s.core.state = .running then (s.acceptNext answers .runtimeFailure).1 else s
  s.maybeFinish

/-- The strand step of a stop request. -/
def stopOnStrand (s : AcceptorListener) (answers : AcceptorAnswers) : AcceptorListener :=
  s.beginStop answers .success .requested

/-- The handler of a wait on the retry timer. -/
def retryExpired (s : AcceptorListener) (answers : AcceptorAnswers) (ec : ErrorCode) :
    AcceptorListener :=
  if ec = .operationAborted then s.maybeFinish
  else if ec.failed then s.beginStop answers ec .runtimeFailure
  else (s.acceptNext answers .runtimeFailure).1

/-- The handler of a wait on the shutdown timer. -/
def graceExpired (s : AcceptorListener) (ec : ErrorCode) : AcceptorListener :=
  if ec.failed then s else s.mapCore fun c => c.forceShutdown s.sessions

/-- Run one posted message. -/
def handle (s : AcceptorListener) (answers : AcceptorAnswers) : Message → AcceptorListener
  | .start handler cancelled =>
    if cancelled then s.mapCore fun c => c.completeOn ⟨handler, none, .operationAborted, .cancelled⟩
    else s.startOnStrand answers handler
  | .wait w => s.mapCore fun c => c.registerWait w
  | .cancelWait id => s.mapCore fun c => c.cancelWait id
  | .stop => s.stopOnStrand answers
  | .sessionFinished report => s.sessionFinished answers report
  | .complete completion => s.mapCore fun c => c.deliver completion

end AcceptorListener

/-- The steps of an accepting listener: those off its strand, and those on it, which are the
oldest posted message, a completed accept, and the handlers of the timers. -/
inductive AcceptorLabel where
  | core (l : CoreLabel)
  | run (answers : AcceptorAnswers)
  | accepted (result : AcceptResult) (answers : AcceptorAnswers)
  | retryExpires (k : ℕ)
  | retryHandler (k : ℕ) (answers : AcceptorAnswers)
  | graceHandler (k : ℕ)

/-- One step of an accepting listener. -/
def AcceptorListener.step (s : AcceptorListener) : AcceptorLabel → Option AcceptorListener
  | .core l => (s.core.call s.alive l).map fun c => { s with core := c }
  | .run answers =>
    match s.core.strand with
    | [] => none
    | message :: rest =>
      some ((s.mapCore fun c => { c with strand := rest }).handle answers message)
  | .accepted result answers =>
    if 0 < s.acceptor.accepts then
      some ({ s with acceptor := ⟨s.acceptor.isOpen, s.acceptor.accepts - 1⟩ }.accepted
        answers result)
    else none
  | .retryExpires k => (s.retryTimer.expire k).map fun timer => { s with retryTimer := timer }
  | .retryHandler k answers =>
    (s.retryTimer.take k).map fun (w, timer) =>
      { s with retryTimer := timer }.retryExpired answers (waitError w.status)
  | .graceHandler k =>
    (s.core.shutdownTimer.take k).map fun (w, timer) =>
      (s.mapCore fun c => { c with shutdownTimer := timer }).graceExpired (waitError w.status)

end Serveza
