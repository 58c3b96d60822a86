import Serveza.ErrorCode

/-!
# Lifecycle states, status snapshots and events

The enumerations and records that listeners and the server publish: the lifecycle states,
the reason of the last stop, the snapshot a listener's `status` returns and the events its
observers receive.
-/

namespace Serveza

/-- The lifecycle state of a listener. -/
inductive ListenerState where
  | idle
  | starting
  | running
  | stopping
  | stopped
  deriving DecidableEq, Repr

/-- A stop has been carried out or is being carried out. -/
def ListenerState.Halted (state : ListenerState) : Prop := state = .stopping ∨ state = .stopped

instance (state : ListenerState) : Decidable state.Halted :=
  inferInstanceAs (Decidable (_ ∨ _))

/-- Why the most recent generation of a listener stopped. -/
inductive ListenerStopReason where
  | none
  | requested
  | completed
  | startupFailure
  | runtimeFailure
  deriving DecidableEq, Repr

/-- The metadata of one accepted connection. -/
structure ConnectionInfo where
  id : ℕ := 0
  localEndpoint : String := ""
  remoteEndpoint : String := ""
  deriving DecidableEq, Repr

/-- The snapshot of a listener. -/
structure ListenerStatus where
  state : ListenerState
  stopReason : ListenerStopReason
  listenerId : ℕ
  generation : ℕ
  activeSessions : ℕ
  endpoint : String
  lastError : ErrorCode
  lastException : Option ThrownException
  deriving DecidableEq, Repr

/-- The kinds of events a listener emits. -/
inductive ListenerEventType where
  | stateChanged
  | acceptFailed
  | sessionFactoryFailed
  | sessionStarted
  | sessionStopped
  | shutdownForced
  deriving DecidableEq, Repr

/-- An event as observers receive it. -/
structure ListenerEvent where
  type : ListenerEventType
  status : ListenerStatus
  connection : ConnectionInfo
  error : ErrorCode
  exception : Option ThrownException
  deriving DecidableEq, Repr

/-- The event that announces the end of a generation. -/
def ListenerEvent.Stopped (event : ListenerEvent) : Prop :=
  event.type = .stateChanged ∧ event.status.state = .stopped

end Serveza
