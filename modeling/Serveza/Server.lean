import Serveza.Listener
import Serveza.OperationGroup
import Serveza.ServerControl

/-!
# The server

A server has its control word, its registered listeners, its operations and the calls that
threads are in the middle of. Operations and threads are named by the steps that begin them;
the names exist in the model only. A thread that carries out a call takes one action at a
time, and between two of them anything else may happen. The completion handler of a child
runs on the strand of its listener, which runs nothing else until the handler has returned.

The registry's mutex matters only while `request_stop` holds it: a snapshot is one step, and
an `unlock` that is still to come keeps everybody else out. An exception out of the
initiation of a child is caught before anything was posted, and its error code reports a
failure. The server outlives the calls made on it, and so do the handles it has to its
listeners.
-/

namespace Serveza

open Foundation

/-- The step is made by the listener or its surroundings and not by a caller. -/
def ListenerLabel.isInternal : ListenerLabel → Bool
  | .acceptor (.core (.graceExpires _)) | .socket (.core (.graceExpires _)) => true
  | .acceptor (.core (.session _ _)) | .socket (.core (.session _ _)) => true
  | .acceptor (.core _) | .socket (.core _) => false
  | _ => true

/-- The step is a handler that runs on the listener's strand. -/
def ListenerLabel.isOnStrand : ListenerLabel → Bool
  | .acceptor (.core _) | .acceptor (.retryExpires _) | .socket (.core _) => false
  | _ => true

/-- A server with everything that is going on in it. -/
structure Server where
  control : ServerControl := {}
  listeners : List Listener := []
  groups : ℕ → Option OperationGroup := fun _ => none
  threads : List (ℕ × List Action) := []

/-- The steps of a server: calls on the server and on its listeners, the progress of a
thread, and the steps of the listeners. `threw` is the exception out of an initiation. -/
inductive ServerLabel where
  | addListener (config : ListenerConfig)
  | asyncStart (thread group : ℕ)
  | asyncWait (thread group : ℕ)
  | requestStop (thread : ℕ)
  | cancel (thread group type : ℕ)
  | listenerStart (listener tag : ℕ)
  | listenerCancelStart (listener tag : ℕ)
  | listenerWait (thread listener tag : ℕ)
  | listenerCancelWait (thread listener id : ℕ)
  | listenerStop (thread listener : ℕ)
  | proceed (thread : ℕ) (threw : Option FailingException)
  | listener (thread listener : ℕ) (label : ListenerLabel)

namespace Server

variable (s : Server)

/-- Everything the calls in progress still have to do. -/
def actions : List Action := s.threads.flatMap Prod.snd

/-- The snapshots of the first listeners. -/
def statuses (size : ℕ) : List ListenerStatus := (s.listeners.take size).map fun x => x.core.status

/-- The aggregate snapshot. -/
def status : ServerStatus := s.control.status (s.statuses s.listeners.length)

/-- Let a thread go on with some actions, or return if there are none. -/
def resume (thread : ℕ) (actions : List Action) : Server :=
  { s with threads := (if actions = [] then []
    else [(thread, actions)]) ++ s.threads.eraseP fun e => e.1 = thread }

/-- Replace one operation. -/
def setGroup (key : ℕ) (group : OperationGroup) : Server :=
  { s with groups := fun k => if k = key then some group else s.groups k }

/-- A thread is free to make a call, or to run a handler. -/
def isFree (thread : ℕ) : Bool := s.threads.all fun e => e.1 ≠ thread

/-- The next action of a thread that is in the middle of a call. -/
def next (thread : ℕ) : Option Action :=
  (s.threads.find? fun e => e.1 = thread).bind fun e => e.2.head?

/-- Register a new listener. -/
def addListener (config : ListenerConfig) : Server :=
  { s with listeners := s.listeners ++ [Listener.create (s.listeners.length + 1) config] }

/-- Replace one listener. -/
def setListener (listener : ℕ) (y : Listener) : Server :=
  { s with listeners := s.listeners.set listener y }

/-- Take one step of a listener. -/
def stepListener (listener : ℕ) (label : Listener → ListenerLabel) : Option Server :=
  (s.listeners[listener]?).bind fun x => (x.step (label x)).map fun y => s.setListener listener y

/-- Make a call on a listener, or a piece of it. -/
def onListener (listener : ℕ) (call : CoreLabel) : Option Server :=
  s.stepListener listener fun x => x.off call

/-- The connected wait of a child. -/
def childWait? (key index : ℕ) : Option WaitOperation :=
  (s.listeners[index]?).bind fun x => x.core.connectedWaits.find? fun w =>
    w.handler = .child key index

/-- One child of an operation is done. -/
def one (key : ℕ) (group : OperationGroup) (report : Report) : Server × List Action :=
  (s.setGroup key (group.one key report).1, (group.one key report).2)

/-- Carry out one action; the result says what it leaves to be done first. -/
def perform (threw : Option FailingException) : Action → Option (Server × List Action)
  | .beginStart key => (s.groups key).map fun group =>
    match s.control.beginStart (s.statuses group.size) with
    | (true, control) =>
      ({ s with control := control },
        if group.size = 0 then [.finish key .success] else group.start key ++ [.recheck key])
    | (false, control) =>
      ({ s with control := control }.setGroup key (group.reject .operationAborted), [])
  | .startChild key index => (s.groups key).bind fun group =>
    match threw with
    | some e =>
      some (s.setGroup key { group with
        initiationEcs := group.initiationEcs.set index e.error }, [])
    | none =>
      (s.onListener index (.asyncStart (.child key index))).map fun s =>
        (s, [.checkCancelled key index])
  | .waitChild key index => (s.groups key).bind fun group =>
    match threw with
    | some e =>
      some (s.setGroup key { group with
        initiationEcs := group.initiationEcs.set index e.error }, [])
    | none => (s.listeners[index]?).bind fun x =>
      (s.onListener index (.beginWait (.child key index))).map fun s =>
        (s, [.postWait index (x.core.nextWaiterId + 1), .checkCancelled key index])
  | .postWait listener id => (s.onListener listener (.postWait id)).map fun s => (s, [])
  | .checkCancelled key index => (s.groups key).map fun group =>
    (s, if group.cancelled = 0 then [] else [.emit key index])
  | .emit key index => (s.groups key).bind fun group =>
    if group.wait then
      match s.childWait? key index with
      | none => some (s, [])
      | some w => (s.onListener index (.cancelWait w.id)).map fun s => (s, [.postCancel index w.id])
    else (s.onListener index (.cancelStart (.child key index))).map fun s => (s, [])
  | .postCancel listener id => (s.onListener listener (.postCancel id)).map fun s => (s, [])
  | .reportInitiation key index => (s.groups key).map fun group =>
    let ec := (group.initiationEcs[index]?).getD .success
    if ec.failed then s.one key group ⟨index, ec, none⟩ else (s, [])
  | .recheck key => (s.groups key).map fun group =>
    (s, if s.control.stopRequested then group.requestStop else [])
  | .stopRead listener =>
    (s.listeners[listener]?).bind fun x => (s.onListener listener .stopRead).map fun s =>
      (s, if x.core.state = .stopped then [] else [.stopPost listener])
  | .stopPost listener => (s.onListener listener .stopPost).map fun s => (s, [])
  | .finish key result => (s.groups key).map fun group =>
    match (if group.wait then s.control.finishWait (s.statuses group.size) result
      else s.control.finishStart (s.statuses group.size) result) with
    | (ec, control) => ({ s with control := control }.setGroup key (group.complete ec), [])
  | .unlock => some (s, [])
  | .release _ => some (s, [])

/-- The handler of a completed operation has been called: that of a child ends on the strand
of its listener once `one` has done its work. -/
def delivered (thread listener : ℕ) (completion : Completion) : Server :=
  match completion.handler with
  | .user _ => s
  | .child key index =>
    match s.groups key with
    | none => s
    | some group =>
      match s.one key group ⟨index, completion.error, some completion.cause⟩ with
      | (s, actions) =>
        s.resume thread (if actions = [] then [] else actions ++ [.release listener])

/-- One step of a server. -/
def step : ServerLabel → Option Server
  | .addListener config =>
    if .unlock ∈ s.actions then none else some (s.addListener config)
  | .asyncStart t key =>
    if s.isFree t ∧ s.groups key = none ∧ .unlock ∉ s.actions then
      some ((s.setGroup key (.create false s.listeners.length)).resume t [.beginStart key])
    else none
  | .asyncWait t key =>
    if s.isFree t ∧ s.groups key = none ∧ .unlock ∉ s.actions then
      let group := OperationGroup.create true s.listeners.length
      some ((s.setGroup key group).resume t
        (if group.size = 0 then [.finish key .success] else group.start key))
    else none
  | .requestStop t =>
    if s.isFree t ∧ .unlock ∉ s.actions then
      some ({ s with control := s.control.requestStop (s.statuses s.listeners.length) }.resume t
        ((List.range s.listeners.length).map Action.stopRead ++ [Action.unlock]))
    else none
  | .cancel t key type =>
    if s.isFree t then
      (s.groups key).bind fun group =>
        if group.connected then
          some (if type = 0 then s
            else (s.setGroup key { group with cancelled := group.cancelled ||| type }).resume t
              ((List.range group.size).map (.emit key)))
        else none
    else none
  | .listenerStart listener tag => s.onListener listener (.asyncStart (.user tag))
  | .listenerCancelStart listener tag => s.onListener listener (.cancelStart (.user tag))
  | .listenerWait t listener tag =>
    if s.isFree t then
      (s.listeners[listener]?).bind fun x =>
        (s.onListener listener (.beginWait (.user tag))).map fun s =>
        s.resume t [.postWait listener (x.core.nextWaiterId + 1)]
    else none
  | .listenerCancelWait t listener id =>
    if s.isFree t then
      (s.listeners[listener]?).bind fun x =>
        (x.core.connectedWaits.find? fun w => w.id = id).bind fun w =>
          match w.handler with
          | .user _ =>
            (s.onListener listener (.cancelWait id)).map fun s =>
              s.resume t [.postCancel listener id]
          | .child _ _ => none
    else none
  | .listenerStop t listener =>
    if s.isFree t ∧
      listener < s.listeners.length then some (s.resume t [.stopRead listener]) else none
  | .proceed t threw =>
    (s.threads.find? fun e => e.1 = t).bind fun e =>
      match e.2 with
      | [] => none
      | action :: rest => (s.perform threw action).map fun (s, first) => s.resume t (first ++ rest)
  | .listener t listener l =>
    if s.isFree t ∧ l.isInternal ∧ (l.isOnStrand → .release listener ∉ s.actions) then
      (s.listeners[listener]?).bind fun x => (s.stepListener listener fun _ => l).map fun s =>
        match x.kind l with
        | .deliver completion => s.delivered t listener completion
        | _ => s
    else none

end Server

end Serveza
