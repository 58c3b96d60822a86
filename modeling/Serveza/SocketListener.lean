import Serveza.ListenerCore
import Serveza.Options

/-!
# The bound-socket listener

`basic_socket_listener` has one session per generation, made by `start_on_strand` on the
socket it has bound. The events about that session carry no connection metadata. The session
object is identified by the generation that made it, an identifier that only the model
reads: a report resets `m_session` whichever session it comes from. Arming the shutdown
timer is not guarded here and is taken to succeed.
-/

namespace Serveza

open Foundation

/-- What the calls of one handler answer: the startup sequence and the session factory. -/
structure SocketAnswers extends StartupAnswers where
  factory : Option ThrownException := none
  deriving DecidableEq, Repr

/-- A listener on a bound socket. -/
structure SocketListener where
  core : ListenerCore
  options : SocketOptions
  configuredEndpoint : Endpoint
  session : Option ℕ := none

namespace SocketListener

/-- A newly constructed listener. -/
def create (id : ℕ) (endpoint : Endpoint) (options : SocketOptions) : SocketListener :=
  { core := { id := id, endpoint := endpoint.text }
    options := options
    configuredEndpoint := endpoint }

/-- Apply a function of the shared part. -/
def mapCore (s : SocketListener) (f : ListenerCore → ListenerCore) : SocketListener :=
  { s with core := f s.core }

/-- Some strong reference to the listener exists. -/
def alive (s : SocketListener) : Bool := s.core.referenced

/-- End the generation: record the outcome, cancel the timer and release the waits. -/
def finish (s : SocketListener) (ec : ErrorCode) (reason : ListenerStopReason) : SocketListener :=
  s.mapCore fun c => c.finish ec reason

/-- End the generation once its session has ended. -/
def maybeFinish (s : SocketListener) : SocketListener :=
  if s.core.state = .stopping ∧
    s.session = none then s.finish s.core.terminalError s.core.stopReason else s

/-- Hold the session of the current generation. -/
def addSession (s : SocketListener) : SocketListener :=
  { s with
    core := { s.core with
      activeSessions := 1
      heap :=
        s.core.heap ++ [{ info := { id := s.core.generation }, generation := s.core.generation }] }
    session := some s.core.generation }

/-- The strand step of a start that was not cancelled. -/
def startOnStrand (s : SocketListener) (answers : SocketAnswers) (handler : CompletionHandler) :
    SocketListener :=
  if s.core.state = .running then
    s.mapCore fun c => c.completeOn ⟨handler, none, .success, .joined⟩
  else if s.core.state ≠ .idle ∧ s.core.state ≠ .stopped then
    s.mapCore fun c => c.completeOn ⟨handler, none, .operationAborted, .rejected⟩
  else
    let s := s.mapCore ListenerCore.beginGeneration
    let ec := answers.bindError s.configuredEndpoint
    if ec.failed then
      (s.mapCore fun c => c.completeOn ⟨handler, none, ec, .startupFailed⟩).finish ec
        .startupFailure
    else
      let s := s.mapCore fun c => { c with
        endpoint := answers.localEndpoint.getD s.configuredEndpoint.text }
      match answers.factory with
      | some e =>
        let ec := exceptionToError (some e)
        let s := s.mapCore fun c => c.sessionFactoryFailed {} ec (some e)
        (s.mapCore fun c => c.completeOn ⟨handler, none, ec, .startupFailed⟩).finish ec
          .startupFailure
      | none =>
        let s := s.addSession
        let s := s.mapCore fun c => (c.transitionTo .running).emit .sessionStarted {} .success none
        let s := s.mapCore fun c => c.completeOn ⟨handler, none, .success, .started⟩
        s.mapCore fun c => c.postTo s.session.toList .start

/-- The strand step of a session's report. -/
def sessionFinished (s : SocketListener) (report : SessionReport) : SocketListener :=
  let s := { s with session := none }
  let s := s.mapCore fun c => { c with activeSessions := 0 }.sessionStopped {} report
  if s.core.state = .running then
    let reason := if report.error.failed then .runtimeFailure else .completed
    (s.mapCore fun c => c.transitionTo .stopping).finish report.error reason
  else s.maybeFinish

/-- Ask the session to stop and give it its grace period. -/
def armGrace (s : SocketListener) : SocketListener :=
  if s.session = none then s
  else s.mapCore fun c =>
    { c.postTo s.session.toList .requestStop with
      shutdownTimer :=
        c.shutdownTimer.expiresAfter.asyncWait ⟨c.generation, s.options.shutdownGracePeriod⟩ }

/-- The strand step of a stop request. -/
def stopOnStrand (s : SocketListener) : SocketListener :=
  let announced := s.mapCore fun c => (c.setStopReason .requested).transitionTo .stopping
  match s.core.state with
  | .idle => announced.finish .success .requested
  | .starting | .running => announced.armGrace.maybeFinish
  | .stopping | .stopped => s

/-- The handler of a wait on the shutdown timer. -/
def graceExpired (s : SocketListener) (ec : ErrorCode) : SocketListener :=
  if ec.failed then s else s.mapCore fun c => c.forceShutdown s.session.toList

/-- Run one posted message. -/
def handle (s : SocketListener) (answers : SocketAnswers) : Message → SocketListener
  | .start handler cancelled =>
    if cancelled then s.mapCore fun c => c.completeOn ⟨handler, none, .operationAborted, .cancelled⟩
    else s.startOnStrand answers handler
  | .wait w => s.mapCore fun c => c.registerWait w
  | .cancelWait id => s.mapCore fun c => c.cancelWait id
  | .stop => s.stopOnStrand
  | .sessionFinished report => s.sessionFinished report
  | .complete completion => s.mapCore fun c => c.deliver completion

end SocketListener

/-- The steps of a bound-socket listener. -/
inductive SocketLabel where
  | core (l : CoreLabel)
  | run (answers : SocketAnswers)
  | graceHandler (k : ℕ)

/-- One step of a bound-socket listener. -/
def SocketListener.step (s : SocketListener) : SocketLabel → Option SocketListener
  | .core l => (s.core.call s.alive l).map fun c => { s with core := c }
  | .run answers =>
    match s.core.strand with
    | [] => none
    | message :: rest =>
      some ((s.mapCore fun c => { c with strand := rest }).handle answers message)
  | .graceHandler k =>
    (s.core.shutdownTimer.take k).map fun (w, timer) =>
      (s.mapCore fun c => { c with shutdownTimer := timer }).graceExpired (waitError w.status)

end Serveza
