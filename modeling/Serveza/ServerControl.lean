import Mathlib.Algebra.GroupWithZero.Nat
import Serveza.Status

/-!
# The lifecycle word of a server

`server_control` holds the state and the generation of a server and announces its changes. Each of
its functions is one step here: the loops around `compare_exchange` end with one successful
exchange, and the increment of the generation, the snapshot and the post of the event are merged
with it. In `server.cpp` they follow the exchange, and other threads run between them: another call
may exchange the state, count its generation or post its event first, and the snapshot may show what
it did. The accesses one by one are the subject of `ControlCalls`; here they are not covered.
-/

namespace Serveza

/-- The lifecycle state of a server. -/
inductive ServerState where
  | idle
  | starting
  | running
  | stopping
  | stopped
  deriving DecidableEq, Repr

/-- A stop has been requested or carried out. -/
def ServerState.Halted (state : ServerState) : Prop := state = .stopping ∨ state = .stopped

instance (state : ServerState) : Decidable state.Halted := inferInstanceAs (Decidable (_ ∨ _))

/-- The aggregate snapshot of a server. -/
structure ServerStatus where
  state : ServerState
  generation : ℕ
  activeSessions : ℕ
  ready : Bool
  listeners : List ListenerStatus
  deriving DecidableEq, Repr

/-- The kinds of events a server emits. -/
inductive ServerEventType where
  | starting
  | running
  | stopping
  | stopped
  deriving DecidableEq, Repr

/-- A server event as observers receive it. -/
structure ServerEvent where
  type : ServerEventType
  status : ServerStatus
  error : ErrorCode
  deriving DecidableEq, Repr

/-- The control word of a server, its generation and the events it has announced. -/
structure ServerControl where
  state : ServerState := .idle
  generation : ℕ := 0
  events : List ServerEvent := []
  deriving DecidableEq, Repr

namespace ServerControl

variable (c : ServerControl) (listeners : List ListenerStatus) (ec : ErrorCode)

/-- The aggregate snapshot over some listeners. -/
def status : ServerStatus :=
  { state := c.state
    generation := c.generation
    activeSessions := (listeners.map (·.activeSessions)).sum
    ready := !listeners.isEmpty && c.state = .running && listeners.all (·.state = .running)
    listeners := listeners }

/-- Hand an event with the current snapshot to the observers. -/
def emit (type : ServerEventType) : ServerControl :=
  { c with events := c.events ++ [⟨type, c.status listeners, ec⟩] }

/-- Enter `starting` from `idle` or `stopped`, or join a start; `false` while stopping. -/
def beginStart : Bool × ServerControl :=
  if c.state = .starting ∨ c.state = .running then (true, c)
  else if c.state = .stopping then (false, c)
  else (true, { c with state := .starting, generation := c.generation + 1 }.emit
    listeners .success .starting)

/-- The result of a start whose children have all reported. -/
def finishStart : ErrorCode × ServerControl :=
  if ec.failed then
    (ec, if c.state.Halted then c else { c with state := .stopping }.emit listeners ec .stopping)
  else if c.state = .starting
    then (.success, { c with state := .running }.emit listeners .success .running)
  else if c.state = .running then (.success, c)
  else (.operationAborted, c)

/-- Enter `stopping` unless a stop has been requested or carried out. -/
def requestStop : ServerControl :=
  if c.state.Halted then c else { c with state := .stopping }.emit listeners .success .stopping

/-- The result of a wait whose children have all reported. -/
def finishWait : ErrorCode × ServerControl :=
  (ec, if c.state = .stopped then c else { c with state := .stopped }.emit listeners ec .stopped)

/-- A stop has been requested or carried out. -/
def stopRequested : Bool := decide c.state.Halted

end ServerControl

end Serveza
