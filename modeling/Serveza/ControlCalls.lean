import Serveza.Foundation.Exchange
import Serveza.ServerControl

/-!
# The functions of `server_control` access by access

`server_control` is shared by the threads of a server without a lock. Its state is one atomic
word, its generation another, and an event is posted after the exchange it announces. Here every
access is a step of its own: the loads, the comparisons with their failures, the increment of the
generation, and the two loads of the snapshot an event carries.
-/

namespace Serveza

open Foundation

/-- The functions of `server_control` that read or change its state. -/
inductive ControlMethod where
  | beginStart
  | finishStart (ec : ErrorCode)
  | requestStop
  | finishWait (ec : ErrorCode)
  | stopRequested
  deriving DecidableEq, Repr

/-- What they return. -/
inductive ControlResult where
  | flag (value : Bool)
  | error (ec : ErrorCode)
  | void
  deriving DecidableEq, Repr

/-- What they do after an exchange, one access at a time: `fetch_add` on the generation, and `emit`,
which loads the state and the generation for the snapshot and posts the event. -/
inductive ControlAction where
  | addGeneration
  | loadState (type : ServerEventType) (ec : ErrorCode)
  | loadGeneration (type : ServerEventType) (ec : ErrorCode) (state : ServerState)
  | post (type : ServerEventType) (ec : ErrorCode) (state : ServerState) (generation : ℕ)
  deriving DecidableEq, Repr

namespace ControlMethod

/-- What a function does about the state it has found. -/
def decide : ControlMethod → ServerState → Decision ServerState ControlResult ControlAction
  | .beginStart, current =>
    if current = .starting ∨ current = .running then .leave (.flag true)
    else if current = .stopping then .leave (.flag false)
    else .swap .starting (.flag true) [.addGeneration, .loadState .starting .success]
  | .finishStart ec, current =>
    if ec.failed then
      if current.Halted then .leave (.error ec)
      else .swap .stopping (.error ec) [.loadState .stopping ec]
    else if current = .starting then .swap .running (.error .success) [.loadState .running .success]
    else if current = .running then .leave (.error .success)
    else .leave (.error .operationAborted)
  | .requestStop, current =>
    if current.Halted then .leave .void else .swap .stopping .void [.loadState .stopping .success]
  | .finishWait ec, current =>
    if current = .stopped then .leave (.error ec)
    else .swap .stopped (.error ec) [.loadState .stopped ec]
  | .stopRequested, current => .leave (.flag (Decidable.decide current.Halted))

/-- The first access: a start that has succeeded compares at once, a wait exchanges, the others
load. -/
def first : ControlMethod → Access ServerState
  | .finishStart ec => if ec.failed then .load else .compare .starting
  | .finishWait _ => .exchange
  | _ => .load

/-- The loops use `compare_exchange_weak`; a start that has succeeded uses
`compare_exchange_strong`. -/
def weak : ControlMethod → Bool
  | .finishStart ec => ec.failed
  | _ => true

/-- A function as a method of the state word. -/
def method (m : ControlMethod) : Method ServerState ControlResult ControlAction :=
  ⟨m.first, m.weak, m.decide⟩

/-- A function in one step, with the statuses of the listeners that its event carries. -/
def atomic (listeners : List ListenerStatus) :
    ControlMethod → ServerControl → ControlResult × ServerControl
  | .beginStart, c => (.flag (c.beginStart listeners).1, (c.beginStart listeners).2)
  | .finishStart ec, c => (.error (c.finishStart listeners ec).1, (c.finishStart listeners ec).2)
  | .requestStop, c => (.void, c.requestStop listeners)
  | .finishWait ec, c => (.error (c.finishWait listeners ec).1, (c.finishWait listeners ec).2)
  | .stopRequested, c => (.flag c.stopRequested, c)

end ControlMethod

/-- `server_control` with the calls that are in progress. -/
structure SharedControl where
  cell : Cell ControlMethod ServerState ControlResult ControlAction := { word := .idle }
  generation : ℕ := 0
  posted : List ServerEvent := []

/-- The steps of `server_control`: a call, an access to the state word, an action after an exchange
(with the statuses of the listeners, of which `emit` uses those it finds when it posts), a
return. -/
inductive SharedLabel where
  | call (m : ControlMethod)
  | access (k : ℕ) (fails : Bool)
  | act (k : ℕ) (listeners : List ListenerStatus)
  | ret (k : ℕ)

namespace SharedControl

/-- Carry out one action; the result says what is left of it. -/
def perform (s : SharedControl) (listeners : List ListenerStatus) :
    ControlAction → List ControlAction × SharedControl
  | .addGeneration => ([], { s with generation := s.generation + 1 })
  | .loadState type ec => ([.loadGeneration type ec s.cell.word], s)
  | .loadGeneration type ec state => ([.post type ec state s.generation], s)
  | .post type ec state generation =>
    ([], { s with posted := s.posted ++ [⟨type,
      ServerControl.status ⟨state, generation, []⟩ listeners, ec⟩] })

/-- The actions call `k` has left. -/
def actions (s : SharedControl) (k : ℕ) : List ControlAction :=
  ((s.cell.calls[k]?).map (·.actions)).getD []

/-- One step of `server_control`. -/
def step (s : SharedControl) : SharedLabel → Option SharedControl
  | .call m => some { s with cell := s.cell.call ControlMethod.method m }
  | .access k fails =>
    (s.cell.access ControlMethod.method k fails).map fun cell => { s with cell := cell }
  | .act k listeners =>
    match s.actions k with
    | [] => none
    | action :: rest =>
      some { (s.perform listeners action).2 with
        cell := s.cell.resume k ((s.perform listeners action).1 ++ rest) }
  | .ret k => (s.cell.ret k).map fun cell => { s with cell := cell }

end SharedControl

end Serveza
