import Serveza.Foundation.Log
import Serveza.ServerControl

/-!
# What the events of a server tell

Each change of the lifecycle word is announced by an event, and the events of a server agree with
each other if each one follows from the state that the one before it announced and counts the starts
up to it. The functions of `server_control`, one step each, only announce changes that the state
permits. Calls that overlap are not covered here: the accesses of another thread can come between
an exchange and its event.
-/

namespace Serveza

open Foundation

/-- The state that an event announces. -/
def ServerEventType.state : ServerEventType → ServerState
  | .starting => .starting
  | .running => .running
  | .stopping => .stopping
  | .stopped => .stopped

/-- A server in a given state may announce a given change. -/
def ServerState.Permits (state : ServerState) : ServerEventType → Prop
  | .starting => state = .idle ∨ state = .stopped
  | .running => state = .starting
  | .stopping => ¬ state.Halted
  | .stopped => state ≠ .stopped

namespace ServerControl

variable {c d : ServerControl} {listeners : List ListenerStatus} {type : ServerEventType}
  {ec : ErrorCode}

/-- The word with a change that is to be announced; a start begins a generation. -/
def changed (c : ServerControl) (type : ServerEventType) : ServerControl :=
  { c with
    state := type.state
    generation := c.generation + if type = ServerEventType.starting then 1 else 0 }

/-- The word with a change announced. -/
def announce (c : ServerControl) (listeners : List ListenerStatus) (type : ServerEventType)
    (ec : ErrorCode) : ServerControl :=
  (c.changed type).emit listeners ec type

/-- A start changes nothing, or announces that it begins. -/
theorem beginStart_announces (c : ServerControl) (listeners : List ListenerStatus) :
    (c.beginStart listeners).2 = c ∨
      (c.beginStart listeners).2 = c.announce listeners .starting .success ∧
      c.state.Permits .starting := by
  unfold beginStart
  split_ifs with hjoins hstopping
  · exact Or.inl rfl
  · exact Or.inl rfl
  · refine Or.inr ⟨rfl, ?_⟩
    cases hs : c.state <;> simp_all [ServerState.Permits]

/-- The end of a start changes nothing, announces that the server runs, or announces a stop. -/
theorem finishStart_announces (c : ServerControl) (listeners : List ListenerStatus)
    (ec : ErrorCode) :
    (c.finishStart listeners ec).2 = c ∨
      (c.finishStart listeners ec).2 = c.announce listeners .running .success ∧ ec.failed = false ∧
        c.state.Permits .running ∨
      (c.finishStart listeners ec).2 = c.announce listeners .stopping ec ∧ ec.failed = true ∧
        c.state.Permits .stopping := by
  unfold finishStart
  split_ifs with hfailed hhalted hstarting hrunning
  · exact Or.inl rfl
  · exact Or.inr (Or.inr ⟨rfl, hfailed, hhalted⟩)
  · exact Or.inr (Or.inl ⟨rfl, by simpa using hfailed, hstarting⟩)
  · exact Or.inl rfl
  · exact Or.inl rfl

/-- A request to stop changes nothing, or announces a stop. -/
theorem requestStop_announces (c : ServerControl) (listeners : List ListenerStatus) :
    c.requestStop listeners = c ∨
      c.requestStop listeners = c.announce listeners .stopping .success ∧
      c.state.Permits .stopping := by
  unfold requestStop
  split_ifs with hhalted
  · exact Or.inl rfl
  · exact Or.inr ⟨rfl, hhalted⟩

/-- The end of a wait changes nothing, or announces that the server has stopped. -/
theorem finishWait_announces (c : ServerControl) (listeners : List ListenerStatus)
    (ec : ErrorCode) :
    (c.finishWait listeners ec).2 = c ∨
      (c.finishWait listeners ec).2 = c.announce listeners .stopped ec ∧
      c.state.Permits .stopped := by
  unfold finishWait
  split_ifs with hstopped
  · exact Or.inl rfl
  · exact Or.inr ⟨rfl, hstopped⟩

end ServerControl

/-- The state that a list of events leaves a server in. -/
def stateTold (events : List ServerEvent) : ServerState :=
  (events.getLast?.map fun e => e.type.state).getD .idle

/-- The number of starts that a list of events announces. -/
def startsTold (events : List ServerEvent) : ℕ := events.countP fun e => e.type = .starting

/-- An event is permitted by the events before it, and its snapshot agrees with them: it shows
the state announced and counts the starts, and it calls the server ready exactly when it runs
and has listeners that all run. -/
structure ServerEvent.Lawful (before : List ServerEvent) (e : ServerEvent) : Prop where
  permitted : (stateTold before).Permits e.type
  state : e.status.state = e.type.state
  generation : e.status.generation = startsTold (before ++ [e])
  ready : e.status.ready = true ↔
    e.type = .running ∧ e.status.listeners ≠ [] ∧ ∀ x ∈ e.status.listeners, x.state = .running

/-- The word of a server agrees with the events it has announced. -/
structure ServerControl.Told (c : ServerControl) : Prop where
  lawful : Logged ServerEvent.Lawful c.events
  state : c.state = stateTold c.events
  generation : c.generation = startsTold c.events

/-- A permitted change keeps the word and the events in agreement. -/
theorem ServerControl.Told.announce {c : ServerControl} (h : c.Told) {type : ServerEventType}
    (hpermits : c.state.Permits type) (listeners : List ListenerStatus) (ec : ErrorCode) :
    (c.announce listeners type ec).Told := by
  have hstarts (e : ServerEvent) (he : e.type = type) :
      c.generation + (if type = .starting then 1 else 0) = startsTold (c.events ++ [e]) := by
    rw [startsTold, List.countP_append, List.countP_singleton, he, h.generation, startsTold]
    simp
  refine ⟨logged_concat.mpr ⟨h.lawful, ?_⟩, ?_, ?_⟩
  · refine ⟨h.state ▸ hpermits, rfl, hstarts _ rfl, ?_⟩
    cases type <;> simp [status, changed, ServerEventType.state]
  · simp [ServerControl.announce, changed, emit, stateTold]
  · exact hstarts _ rfl

end Serveza
