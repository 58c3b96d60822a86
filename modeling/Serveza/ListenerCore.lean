import Serveza.Foundation.Mailbox
import Serveza.Foundation.Timer
import Serveza.Session

/-!
# The control plane both listener classes share

`basic_acceptor_listener` and `basic_socket_listener` repeat the same members and the same
code for their lifecycle state, diagnostics, events, waits and shutdown timer. That common
part is `ListenerCore`. The strand is the list of posted messages that have not run, in post
order. A call made from another thread is cut where it touches shared state: `requestStop`
reads the state and posts later, a wait is given its identifier and posted later, and a
cancellation stores its flag and posts later.

Three things exist in the model only: `delivered` and `stops` record the completions whose
handlers have been called and the terminal error of each stop, and a `Completion` names the
branch of the source that made it.
-/

namespace Serveza

open Foundation

/-- Who is called on completion: a caller's handler, or the `done` of one child of an
operation group of the server. -/
inductive CompletionHandler where
  | user (tag : ℕ)
  | child (group index : ℕ)
  deriving DecidableEq, Repr

/-- The branch of the source that completed an operation. -/
inductive Cause where
  | cancelled
  | joined
  | rejected
  | startupFailed
  | started
  | stopped
  deriving DecidableEq, Repr

/-- One call of `complete_on`; `wait` is the identifier of a wait and `none` for a start. -/
structure Completion where
  handler : CompletionHandler
  wait : Option ℕ
  error : ErrorCode
  cause : Cause
  deriving DecidableEq, Repr

/-- A wait, queued or registered. -/
structure WaitOperation where
  id : ℕ
  handler : CompletionHandler
  deriving DecidableEq, Repr

/-- What identifies an operation: its handler, and its number if it is a wait. -/
structure Operation where
  handler : CompletionHandler
  wait : Option ℕ
  deriving DecidableEq, Repr

/-- The operation a wait is. -/
def WaitOperation.operation (w : WaitOperation) : Operation := ⟨w.handler, some w.id⟩

/-- The operation a completion ends. -/
def Completion.operation (completion : Completion) : Operation :=
  ⟨completion.handler, completion.wait⟩

/-- Work posted to the strand of a listener. -/
inductive Message where
  | start (handler : CompletionHandler) (cancelled : Bool)
  | wait (operation : WaitOperation)
  | cancelWait (id : ℕ)
  | stop
  | sessionFinished (report : SessionReport)
  | complete (completion : Completion)
  deriving DecidableEq, Repr

/-- The message opens a generation when it runs. -/
def Message.isStart : Message → Bool
  | .start _ _ => true
  | _ => false

/-- The message ends a generation when it runs. -/
def Message.isStop : Message → Bool
  | .stop => true
  | _ => false

/-- Set the cancellation flag of a queued start. -/
def Message.cancelStart (handler : CompletionHandler) : Message → Message
  | .start h cancelled => .start h (cancelled || decide (h = handler))
  | m => m

/-- The wait a message initiates. -/
def Message.wait? : Message → Option WaitOperation
  | .wait w => some w
  | _ => none

/-- The operation a message begins or ends. -/
def Message.operation? : Message → Option Operation
  | .start handler _ => some ⟨handler, none⟩
  | .wait w => some w.operation
  | .complete completion => some completion.operation
  | _ => none

/-- Queued work keeps its listener alive, unless it only calls a completion handler. -/
def Message.ownsListener : Message → Bool
  | .complete _ => false
  | _ => true

/-- What arms a timer: the generation, recorded by the model only, and the delay. -/
structure Arming where
  generation : ℕ
  delay : ℤ
  deriving DecidableEq, Repr

/-- The members both listener classes have, with the calls in progress on other threads:
`initiating` waits between identifier and post, `cancelling` waits between flag and post,
and `stopping` calls of `requestStop` between check and post. -/
structure ListenerCore where
  id : ℕ
  handles : ℕ := 1
  state : ListenerState := .idle
  generation : ℕ := 0
  activeSessions : ℕ := 0
  nextWaiterId : ℕ := 0
  terminalError : ErrorCode := .success
  stopReason : ListenerStopReason := .none
  endpoint : String
  lastError : ErrorCode := .success
  lastException : Option ThrownException := none
  waiters : List WaitOperation := []
  shutdownTimer : Timer Arming := {}
  strand : List Message := []
  heap : List Session := []
  events : List ListenerEvent := []
  initiating : List WaitOperation := []
  cancelled : List ℕ := []
  cancelling : List ℕ := []
  stopping : ℕ := 0
  delivered : List Completion := []
  stops : List ErrorCode := []

namespace ListenerCore

/-- The published snapshot. -/
def status (c : ListenerCore) : ListenerStatus :=
  ⟨c.state, c.stopReason, c.id, c.generation, c.activeSessions, c.endpoint,
    c.lastError, c.lastException⟩

/-- Hand an event with the current snapshot to the observers. -/
def emit (c : ListenerCore) (type : ListenerEventType) (connection : ConnectionInfo)
    (ec : ErrorCode) (ep : Option ThrownException) : ListenerCore :=
  { c with events := c.events ++ [⟨type, c.status, connection, ec, ep⟩] }

/-- Store a state and announce it. -/
def transitionTo (c : ListenerCore) (value : ListenerState) : ListenerCore :=
  { c with state := value }.emit .stateChanged {} .success none

/-- Forget the diagnostics of the previous generation. -/
def clearDiagnostics (c : ListenerCore) : ListenerCore :=
  { c with stopReason := .none, lastError := .success, lastException := none }

/-- Remember the latest failure. -/
def recordDiagnostic (c : ListenerCore) (ec : ErrorCode) (ep : Option ThrownException) :
    ListenerCore :=
  { c with lastError := ec, lastException := ep }

/-- Note and announce a failed accept. -/
def acceptFailed (c : ListenerCore) (ec : ErrorCode) (ep : Option ThrownException) : ListenerCore :=
  (c.recordDiagnostic ec ep).emit .acceptFailed {} ec ep

/-- Note and announce a failed session factory. -/
def sessionFactoryFailed (c : ListenerCore) (info : ConnectionInfo) (ec : ErrorCode)
    (ep : Option ThrownException) : ListenerCore :=
  (c.recordDiagnostic ec ep).emit .sessionFactoryFailed info ec ep

/-- Remember why the generation stops. -/
def setStopReason (c : ListenerCore) (reason : ListenerStopReason) : ListenerCore :=
  { c with stopReason := reason }

/-- Record the outcome of a stop and announce it. -/
def announceStop (c : ListenerCore) (ec : ErrorCode) (reason : ListenerStopReason) : ListenerCore :=
  ({ c with terminalError := ec }.setStopReason reason).transitionTo .stopping

/-- Post work to the strand. -/
def post (c : ListenerCore) (message : Message) : ListenerCore :=
  { c with strand := c.strand ++ [message] }

/-- Complete an operation: its handler runs from the strand, after what is already posted. -/
def completeOn (c : ListenerCore) (completion : Completion) : ListenerCore :=
  c.post (.complete completion)

/-- Call the handler of a completed operation. -/
def deliver (c : ListenerCore) (completion : Completion) : ListenerCore :=
  { c with delivered := c.delivered ++ [completion] }

/-- Some strong reference to the listener exists: a handle, a call in progress, queued work
or a wait on the shutdown timer. -/
def referenced (c : ListenerCore) : Bool :=
  0 < c.handles || 0 < c.stopping || !c.initiating.isEmpty || c.strand.any Message.ownsListener ||
    !c.shutdownTimer.waits.isEmpty

/-- The session object with a given identifier. -/
def session? (c : ListenerCore) (key : ℕ) : Option Session := c.heap.find? fun x => x.info.id = key

/-- The session objects, with the one of a given identifier replaced. -/
def replaceSession (c : ListenerCore) (key : ℕ) (x : Session) : List Session :=
  c.heap.map fun y => if y.info.id = key then x else y

/-- Post to the strands of some sessions. -/
def postTo (c : ListenerCore) (keys : List ℕ) (message : SessionMessage) : ListenerCore :=
  { c with heap := c.heap.map fun x => if x.info.id ∈ keys then x.post message else x }

/-- Complete every registered wait with the terminal error. -/
def completeWaiters (c : ListenerCore) : ListenerCore :=
  { c with
    strand :=
      c.strand ++ c.waiters.map fun w => .complete ⟨w.handler, some w.id, c.terminalError, .stopped⟩
    waiters := [] }

/-- The part of `finish` that both classes have: record the outcome, cancel the shutdown
timer, announce the state and release the waits. -/
def finish (c : ListenerCore) (ec : ErrorCode) (reason : ListenerStopReason) : ListenerCore :=
  if c.state = .stopped then c
  else
    let lastError :=
      if ec.failed && !c.lastError.failed && c.lastException.isNone then ec else c.lastError
    ({ c with
      terminalError := ec
      stopReason := reason
      lastError := lastError
      shutdownTimer := c.shutdownTimer.cancel
      stops := c.stops ++ [ec] }.transitionTo .stopped).completeWaiters

/-- The entry of `start_on_strand`: a new generation leaves idle or stopped. -/
def beginGeneration (c : ListenerCore) : ListenerCore :=
  { c with
    generation := c.generation + 1
    terminalError := .success }.clearDiagnostics.transitionTo .starting

/-- The grace period is over: note the timeout, announce it and close some sessions. -/
def forceShutdown (c : ListenerCore) (keys : List ℕ) : ListenerCore :=
  ((c.recordDiagnostic .timedOut none).emit .shutdownForced {} .timedOut none).postTo
    keys .forceClose

/-- Note the end of a session: its failure, unless it was cancelled, and the event. -/
def sessionStopped (c : ListenerCore) (info : ConnectionInfo) (report : SessionReport) :
    ListenerCore :=
  let c :=
    if report.error ≠ .operationAborted ∧ (report.error.failed ∨ report.exception.isSome) then
      c.recordDiagnostic report.error report.exception
    else c
  c.emit .sessionStopped info report.error report.exception

/-- The strand step of a wait: cancelled, already stopped, or registered. -/
def registerWait (c : ListenerCore) (w : WaitOperation) : ListenerCore :=
  if w.id ∈ c.cancelled then c.completeOn ⟨w.handler, some w.id, .operationAborted, .cancelled⟩
  else if c.state = .stopped then c.completeOn ⟨w.handler, some w.id, c.terminalError, .stopped⟩
  else { c with waiters := c.waiters ++ [w] }

/-- The strand step of a cancellation: complete the wait if it is registered. -/
def cancelWait (c : ListenerCore) (id : ℕ) : ListenerCore :=
  match c.waiters.find? fun w => w.id = id with
  | none => c
  | some w =>
    { c with waiters := c.waiters.eraseP fun w => w.id = id }.completeOn
      ⟨w.handler, some w.id, .operationAborted, .cancelled⟩

/-- The waits whose cancellation slot is still connected. -/
def connectedWaits (c : ListenerCore) : List WaitOperation :=
  c.initiating ++ c.strand.filterMap Message.wait? ++ c.waiters

end ListenerCore

/-- The result a wait on a timer is completed with. -/
def waitError : WaitStatus → ErrorCode
  | .aborted => .operationAborted
  | _ => .success

/-- The configured endpoint: its text and what the startup sequence asks about it. -/
structure Endpoint where
  text : String
  isIp : Bool
  isV6 : Bool
  deriving DecidableEq, Repr

/-- What the calls of a startup sequence answer. The results of `open`, of the two
`set_option` calls, of `bind` and of `listen` are error codes; `localEndpoint` is the text of
the bound endpoint, or `none` when it cannot be had. -/
structure StartupAnswers where
  opened : ErrorCode := .success
  v6Only : ErrorCode := .success
  reuseAddress : ErrorCode := .success
  bound : ErrorCode := .success
  listening : ErrorCode := .success
  localEndpoint : Option String := none
  deriving DecidableEq, Repr

/-- The error left by the startup sequence up to `bind`; later calls are made only while no
error has occurred, and the options only for an IP endpoint. -/
def StartupAnswers.bindError (answers : StartupAnswers) (endpoint : Endpoint) : ErrorCode :=
  let ec := answers.opened
  let ec := if endpoint.isIp && !ec.failed && endpoint.isV6 then answers.v6Only else ec
  let ec := if endpoint.isIp && !ec.failed then answers.reuseAddress else ec
  if !ec.failed then answers.bound else ec

/-- The steps that do not run on the listener's strand: the pieces of its calls, the passing
of the grace deadline, and the steps of its sessions. -/
inductive CoreLabel where
  | asyncStart (handler : CompletionHandler)
  | cancelStart (handler : CompletionHandler)
  | beginWait (handler : CompletionHandler)
  | postWait (id : ℕ)
  | cancelWait (id : ℕ)
  | postCancel (id : ℕ)
  | stopRead
  | stopPost
  | graceExpires (k : ℕ)
  | session (key : ℕ) (label : SessionLabel)
  | cloneHandle
  | dropHandle
  deriving DecidableEq, Repr

namespace ListenerCore

/-- One step of a session; its report reaches the strand while the listener is alive. -/
def sessionStep (c : ListenerCore) (alive : Bool) (key : ℕ) (l : SessionLabel) :
    Option ListenerCore :=
  (c.session? key).bind fun x => (x.step l).map fun (x', report) =>
    { c with
      heap := c.replaceSession key x'
      strand := c.strand ++ if alive then report.toList.map .sessionFinished else [] }

/-- One step off the strand. A call needs a handle to the listener. -/
def call (c : ListenerCore) (alive : Bool) : CoreLabel → Option ListenerCore
  | .asyncStart handler => if 0 < c.handles then some (c.post (.start handler false)) else none
  | .cancelStart handler => some { c with strand := c.strand.map (Message.cancelStart handler) }
  | .beginWait handler =>
    if 0 < c.handles then
      some { c with
        nextWaiterId := c.nextWaiterId + 1
        initiating := c.initiating ++ [⟨c.nextWaiterId + 1, handler⟩] }
    else none
  | .postWait id =>
    (c.initiating.find? fun w => w.id = id).map fun w =>
      { c with initiating := c.initiating.eraseP fun w => w.id = id }.post (.wait w)
  | .cancelWait id =>
    if c.connectedWaits.any fun w => w.id = id then
      some { c with cancelled := c.cancelled ++ [id], cancelling := c.cancelling ++ [id] }
    else some c
  | .postCancel id =>
    if id ∈ c.cancelling then
      let c := { c with cancelling := c.cancelling.erase id }
      some (if alive then c.post (.cancelWait id) else c)
    else none
  | .stopRead =>
    if 0 < c.handles then some
      (if c.state = .stopped then c else { c with stopping := c.stopping + 1 })
    else none
  | .stopPost =>
    if 0 < c.stopping then some ({ c with stopping := c.stopping - 1 }.post .stop) else none
  | .graceExpires k => (c.shutdownTimer.expire k).map fun timer => { c with shutdownTimer := timer }
  | .session key l => c.sessionStep alive key l
  | .cloneHandle => if 0 < c.handles then some { c with handles := c.handles + 1 } else none
  | .dropHandle => if 0 < c.handles then some { c with handles := c.handles - 1 } else none

end ListenerCore

end Serveza
