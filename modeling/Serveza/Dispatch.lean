import Serveza.Foundation.Log
import Serveza.ServerDrain
import Serveza.ServerHandlers

/-!
# How handlers are called

Every initiating function passes its handler to `track_completion_work`, which keeps work
outstanding on the handler's executor until the handler has been called: the executor
associated with the handler or, without one, the executor of the server or the strand of the
listener. `complete_on` posts a task to that fallback executor, and the task dispatches to the
handler's executor, which calls the handler at once if the task runs inside it and queues
another task otherwise.

For a listener the posted task is the message `complete` on its strand, and the strand that delivers
a completion dispatches to the executor of its handler. The handlers of the children of an operation
have no executor of their own, so they run on the strand. A task runs to its end before the next one
of its executor, and tasks of different executors run in any order. The server and its handles exist
throughout; handlers that are dropped with the last handle of a listener are not covered.
-/

namespace Serveza

open Foundation

/-- Where tasks run: the strand of a listener, the executor of the server, or one that a user
has associated with a handler. -/
inductive Executor where
  | strand (listener : ℕ)
  | server
  | user (id : ℕ)
  deriving DecidableEq, Repr

/-- The executor that stands in for the associated one. -/
def UserHandler.fallback : UserHandler → Executor
  | .operation _ => .server
  | .listener index _ => .strand index

/-- What is known of executors: which ones are associated with handlers, and which tasks run
inside which executor, as those of a strand may run inside the executor of the server. -/
structure Executors where
  associated : UserHandler → Option Executor
  inside : Executor → Executor → Bool
  inside_self : ∀ e, inside e e = true

/-- The executor a handler is to be called on. -/
def Executors.executor (x : Executors) (handler : UserHandler) : Executor :=
  (x.associated handler).getD handler.fallback

/-- A queued task: the one that `complete_on` posts, or the call of a handler. -/
inductive QueuedTask where
  | relay (handler : UserHandler) (error : ErrorCode)
  | invoke (handler : UserHandler) (error : ErrorCode)
  deriving DecidableEq, Repr

/-- The handler that a task leads to, and the error it is called with. -/
def QueuedTask.call : QueuedTask → UserHandler × ErrorCode
  | .relay handler error | .invoke handler error => (handler, error)

/-- How many tasks it takes until the handler is called. -/
def QueuedTask.weight : QueuedTask → ℕ
  | .relay _ _ => 2
  | .invoke _ _ => 1

/-- One call of a handler, and the executor whose task made it. -/
structure Invocation where
  handler : UserHandler
  running : Executor
  error : ErrorCode
  deriving DecidableEq, Repr

/-- A server with the tasks of the executors, the handlers on whose executors work is
outstanding, and the calls that have been made. -/
structure Dispatch where
  server : Server := {}
  queue : List (Executor × QueuedTask) := []
  work : List UserHandler := []
  invoked : List Invocation := []

/-- The steps of a server, and the next task of an executor. -/
inductive DispatchLabel where
  | server (l : ServerLabel)
  | run (e : Executor)

/-- The handler that a step takes over. -/
def DispatchLabel.taken? : DispatchLabel → Option UserHandler
  | .server l => l.taken?
  | .run _ => none

namespace Dispatch

variable (x : Executors) (d : Dispatch)

/-- Queue a task. -/
def post (e : Executor) (task : QueuedTask) : Dispatch := { d with queue := d.queue ++ [(e, task)] }

/-- Call a handler, which is destroyed afterwards together with its outstanding work. -/
def invoke (running : Executor) (call : UserHandler × ErrorCode) : Dispatch :=
  { d with work := d.work.erase call.1, invoked := d.invoked ++ [⟨call.1, running, call.2⟩] }

/-- Call a handler at once if the task runs inside its executor, and queue the call otherwise. -/
def dispatch (running : Executor) (call : UserHandler × ErrorCode) : Dispatch :=
  if x.inside running (x.executor call.1) then d.invoke running call
  else d.post (x.executor call.1) (.invoke call.1 call.2)

/-- What happens to a handler that the server hands over: an operation posts to the executor
of the server, and a strand that runs the message it was posted before dispatches. -/
def handOver (call : UserHandler × ErrorCode) : Dispatch :=
  match call.1 with
  | .operation key => d.post .server (.relay (.operation key) call.2)
  | .listener index _ => d.dispatch x (.strand index) call

/-- Run a task. -/
def perform (running : Executor) : QueuedTask → Dispatch
  | .relay handler error => d.dispatch x running (handler, error)
  | .invoke handler error => d.invoke running (handler, error)

/-- Take over the handler that is passed to a call of the server. -/
def trackCompletionWork (s : Server) (taken : Option UserHandler) : Dispatch :=
  { d with server := s, work := d.work ++ taken.toList }

/-- One step: of the server, or of an executor that runs its next task. -/
def step : DispatchLabel → Option Dispatch
  | .server l => (d.server.step l).map fun s =>
    match d.server.handing? l with
    | none => d.trackCompletionWork s l.taken?
    | some call => (d.trackCompletionWork s l.taken?).handOver x call
  | .run e => (d.queue.find? fun t => t.1 = e).map fun t =>
    { d with queue := d.queue.eraseP fun t => t.1 = e }.perform x e t.2

/-- The errors of the calls of one handler. -/
def callsOf (handler : UserHandler) (calls : List (UserHandler × ErrorCode)) : List ErrorCode :=
  (calls.filter (·.1 = handler)).map (·.2)

/-- The calls that have been made. -/
def made : List (UserHandler × ErrorCode) := d.invoked.map fun v => (v.handler, v.error)

/-- The calls that are queued. -/
def queued : List (UserHandler × ErrorCode) := d.queue.map fun t => t.2.call

/-- Every handler is accounted for, one of them possibly in the hands of the current step: the
calls made and queued are those the server has asked for, work is outstanding for every
handler that has not been called, and calls are made and queued where they belong. -/
structure Accounts (hand : Option (UserHandler × ErrorCode)) : Prop where
  reached : Reachable Server.step {} d.server
  sent : ∀ h, (callsOf h (d.made ++ d.queued ++ hand.toList)).Perm (d.server.handed h)
  work : ∀ h, (callsOf h d.made).length + d.work.count h = d.server.taken h
  queue : ∀ e h ec, (e, QueuedTask.invoke h ec) ∈ d.queue → e = x.executor h
  inside : ∀ v ∈ d.invoked, x.inside v.running (x.executor v.handler) = true

variable {x d} {hand : Option (UserHandler × ErrorCode)} {call : UserHandler × ErrorCode}
  {running e : Executor}

/-- Calls of one handler are found one after the other. -/
theorem callsOf_append (handler : UserHandler) (calls more : List (UserHandler × ErrorCode)) :
    callsOf handler (calls ++ more) = callsOf handler calls ++ callsOf handler more := by
  simp [callsOf]

/-- The same calls are found in any order. -/
theorem callsOf_perm (handler : UserHandler) {calls more : List (UserHandler × ErrorCode)}
    (h : calls.Perm more) :
    (callsOf handler calls).Perm (callsOf handler more) := (h.filter _).map _

/-- The handler in hand has not been called as often as it was passed to the server. -/
theorem Accounts.work_pos (h : d.Accounts x (some call)) : 0 < d.work.count call.1 := by
  have hsent := (h.sent call.1).length_eq
  have hle := Server.handed_le h.reached call.1
  have hwork := h.work call.1
  have hself : callsOf call.1 (some call).toList = [call.2] := by simp [callsOf]
  rw [callsOf_append, callsOf_append, List.length_append, List.length_append, hself,
    List.length_singleton] at hsent
  omega

/-- The handler in hand is called. -/
theorem Accounts.invoke (h : d.Accounts x (some call))
    (hinside : x.inside running (x.executor call.1) = true) :
    (d.invoke running call).Accounts x none := by
  have hmade : (d.invoke running call).made = d.made ++ [call] := by simp [made, Dispatch.invoke]
  refine ⟨h.reached, fun c => ?_, fun c => ?_, h.queue, fun v hv => ?_⟩
  · refine (callsOf_perm c ?_).trans (h.sent c)
    rw [hmade, Option.toList_none, List.append_nil, Option.toList_some,
      List.append_assoc, List.append_assoc]
    exact List.perm_append_comm.append_left _
  · have hwork := h.work c
    have hpos := h.work_pos
    rw [hmade, callsOf_append, List.length_append]
    by_cases hc : call.1 = c
    · subst hc
      have hself : callsOf call.1 [call] = [call.2] := by simp [callsOf]
      rw [hself, List.length_singleton, Dispatch.invoke, List.count_erase_self]
      change _ = d.server.taken call.1
      omega
    · have hother : callsOf c [call] = [] := by simp [callsOf, hc]
      rw [hother, Dispatch.invoke, List.count_erase_of_ne (fun h => hc h.symm)]
      exact hwork
  · rcases List.mem_append.mp hv with hv | hv
    · exact h.inside v hv
    · rw [List.mem_singleton.mp hv]
      exact hinside

/-- The call of the handler in hand is queued. -/
theorem Accounts.post (h : d.Accounts x (some call)) (task : QueuedTask) (htask : task.call = call)
    (hhome : ∀ handler ec, task = .invoke handler ec → e = x.executor handler) :
    (d.post e task).Accounts x none := by
  refine ⟨h.reached, fun c => ?_, h.work, fun e' handler ec hmem => ?_, h.inside⟩
  · have hqueued : (d.post e task).queued = d.queued ++ [call] := by
      simp [queued, Dispatch.post, htask]
    have hsent := h.sent c
    rwa [List.append_assoc, Option.toList_some, ← hqueued, ← List.append_nil (_ ++ _)] at hsent
  · rcases List.mem_append.mp hmem with hmem | hmem
    · exact h.queue e' handler ec hmem
    · obtain ⟨rfl, rfl⟩ := Prod.mk.inj (List.mem_singleton.mp hmem)
      exact hhome handler ec rfl

/-- A handler is called, or its call is queued, as its executor asks for. -/
theorem Accounts.dispatch (h : d.Accounts x (some call)) (running : Executor) :
    (d.dispatch x running call).Accounts x none := by
  unfold Dispatch.dispatch
  split
  · exact h.invoke ‹_›
  · exact h.post _ rfl fun handler ec heq => by cases heq; rfl

/-- A task that is taken out of the queue has its handler in hand. -/
theorem Accounts.take (h : d.Accounts x none) {t : Executor × QueuedTask}
    (ht : (d.queue.find? fun t => t.1 = e) = some t) :
    { d with queue := d.queue.eraseP fun t => t.1 = e }.Accounts x (some t.2.call) := by
  refine ⟨h.reached, fun c => ?_, h.work, fun e' handler ec hmem => h.queue e' handler ec
    (List.mem_of_mem_eraseP hmem), h.inside⟩
  refine (callsOf_perm c ?_).trans (h.sent c)
  have hqueue := (perm_of_find? ht).map fun t => t.2.call
  rw [Option.toList_some, Option.toList_none, List.append_nil, List.append_assoc]
  exact (List.perm_append_comm.trans hqueue.symm).append_left _

/-- A step of the server has the handler in hand that it hands over. -/
theorem Accounts.server (h : d.Accounts x none) {l : ServerLabel} {s : Server}
    (hstep : d.server.step l = some s) :
    (d.trackCompletionWork s l.taken?).Accounts x (d.server.handing? l) := by
  have hhandles := Server.step_handles hstep
  refine ⟨h.reached.tail hstep, fun c => ?_, fun c => ?_, h.queue, h.inside⟩
  · have hsent := h.sent c
    rw [Option.toList_none, List.append_nil] at hsent
    change (callsOf c (d.made ++ d.queued ++ _)).Perm (s.handed c)
    rw [hhandles.handed c, callsOf_append]
    exact hsent.append_right _
  · have hwork := h.work c
    change (callsOf c d.made).length + (d.work ++ l.taken?.toList).count c = s.taken c
    rw [hhandles.taken c, List.count_append]
    omega

/-- A handler that the server hands over is accounted for. -/
theorem Accounts.handOver (h : d.Accounts x (some call)) : (d.handOver x call).Accounts x none := by
  obtain ⟨handler, ec⟩ := call
  cases handler with
  | operation key => exact h.post _ rfl fun _ _ heq => by cases heq
  | listener index tag => exact h.dispatch _

/-- Every step keeps every handler accounted for. -/
theorem Accounts.step (h : d.Accounts x none) {l : DispatchLabel} {d' : Dispatch}
    (hstep : d.step x l = some d') :
    d'.Accounts x none := by
  cases l with
  | server l =>
    obtain ⟨s, hs, rfl⟩ := Option.map_eq_some_iff.mp hstep
    have hserver := h.server hs
    cases hgave : d.server.handing? l with
    | none => rwa [hgave] at hserver
    | some call =>
      rw [hgave] at hserver
      exact hserver.handOver
  | run e =>
    obtain ⟨t, ht, rfl⟩ := Option.map_eq_some_iff.mp hstep
    have htaken := h.take ht
    cases htask : t.2 with
    | relay handler ec =>
      rw [htask] at htaken
      exact htaken.dispatch e
    | invoke handler ec =>
      rw [htask] at htaken
      have hkey : t.1 = e := by simpa using List.find?_some ht
      have hmem : (e, QueuedTask.invoke handler ec) ∈ d.queue := by
        rw [← hkey, ← htask]
        exact List.mem_of_find?_eq_some ht
      exact htaken.invoke (h.queue e handler ec hmem ▸ x.inside_self e)

/-- The step is a task of the given executor. -/
def Runs (d : Dispatch) (l : DispatchLabel) (e : Executor) : Prop :=
  l = .run e ∨ ∃ t index k y q, l = .server (.listener t index k) ∧
    d.server.listeners[index]? = some y ∧
    y.kind k = .deliver q ∧ e = .strand index

/-- A strand that hands over a handler delivers a completion. -/
theorem handing_listener {l : ServerLabel} {index tag : ℕ} {ec : ErrorCode}
    (h : d.server.handing? l = some (.listener index tag, ec)) :
    d.Runs (.server l) (.strand index) := by
  cases l with
  | listener t i k =>
    obtain ⟨y, hy, h⟩ := Option.bind_eq_some_iff.mp h
    obtain ⟨q, hq, h⟩ := Option.bind_eq_some_iff.mp h
    obtain ⟨tag', -, heq⟩ := Option.map_eq_some_iff.mp h
    obtain ⟨rfl, rfl⟩ := UserHandler.listener.inj (Prod.mk.inj heq).1
    refine Or.inr ⟨t, i, k, y, q, rfl, hy, ?_, rfl⟩
    cases hkind : y.kind k with
    | deliver q' =>
      rw [hkind] at hq
      rw [Option.some.inj hq]
    | _ => simp [hkind, StepKind.delivered?] at hq
  | proceed t threw =>
    obtain ⟨action, -, h⟩ := Option.bind_eq_some_iff.mp h
    cases action with
    | beginStart key =>
      obtain ⟨group, -, h⟩ := Option.bind_eq_some_iff.mp h
      obtain ⟨-, heq⟩ := Option.ite_none_left_eq_some.mp h
      simp at heq
    | finish key result =>
      obtain ⟨group, -, heq⟩ := Option.map_eq_some_iff.mp h
      simp at heq
    | _ => contradiction
  | _ => contradiction

/-- Dispatching makes a call inside the running task, or none. -/
theorem dispatch_invoked (d : Dispatch) (running : Executor) (call : UserHandler × ErrorCode) :
    ∃ new, (d.dispatch x running call).invoked = d.invoked ++ new ∧
    ∀ v ∈ new, v.running = running := by
  unfold Dispatch.dispatch
  split
  · exact ⟨[_], rfl, by simp⟩
  · exact ⟨[], (List.append_nil _).symm, by simp⟩

/-- Handlers are called by tasks of executors only. -/
theorem step_invoked {l : DispatchLabel} {d' : Dispatch} (hstep : d.step x l = some d') :
    ∃ new, d'.invoked = d.invoked ++ new ∧ ∀ v ∈ new, d.Runs l v.running := by
  cases l with
  | server l =>
    obtain ⟨s, hs, rfl⟩ := Option.map_eq_some_iff.mp hstep
    have hnone : ∃ new, d.invoked = d.invoked ++ new ∧ ∀ v ∈ new, d.Runs (.server l) v.running :=
      ⟨[], (List.append_nil _).symm, by simp⟩
    cases hgave : d.server.handing? l with
    | none => exact hnone
    | some call =>
      obtain ⟨handler, ec⟩ := call
      cases handler with
      | operation key => exact hnone
      | listener index tag =>
        obtain ⟨new, hnew, hrunning⟩ :=
          dispatch_invoked (x := x) (d.trackCompletionWork s l.taken?) (.strand index)
          (.listener index tag, ec)
        exact ⟨new, hnew, fun v hv => hrunning v hv ▸ handing_listener hgave⟩
  | run e =>
    obtain ⟨t, ht, rfl⟩ := Option.map_eq_some_iff.mp hstep
    cases htask : t.2 with
    | relay handler ec =>
      obtain ⟨new, hnew, hrunning⟩ :=
        dispatch_invoked (x := x) { d with queue := d.queue.eraseP fun t => t.1 = e } e
        (handler, ec)
      exact ⟨new, hnew, fun v hv => hrunning v hv ▸ Or.inl rfl⟩
    | invoke handler ec => exact ⟨[_], rfl, by simp [Runs]⟩

/-- Dispatching leaves the server alone. -/
@[simp] theorem dispatch_server (d : Dispatch) (running : Executor)
    (call : UserHandler × ErrorCode) :
    (d.dispatch x running call).server = d.server := by
  unfold Dispatch.dispatch
  split <;> rfl

/-- Handing over a handler leaves the server alone. -/
@[simp] theorem handOver_server (d : Dispatch) (call : UserHandler × ErrorCode) :
    (d.handOver x call).server = d.server := by
  unfold Dispatch.handOver
  split
  · rfl
  · exact dispatch_server d _ _

/-- The tasks of the executors leave the server alone. -/
@[simp] theorem perform_server (d : Dispatch) (running : Executor) (task : QueuedTask) :
    (d.perform x running task).server = d.server := by
  cases task with
  | relay handler ec => exact dispatch_server d _ _
  | invoke handler ec => rfl

/-- A step takes over the handler that its label passes. -/
theorem step_taken {l : DispatchLabel} {d' : Dispatch} (hstep : d.step x l = some d')
    (handler : UserHandler) :
    d'.server.taken handler = d.server.taken handler + l.taken?.toList.count handler := by
  cases l with
  | server l =>
    obtain ⟨s, hs, rfl⟩ := Option.map_eq_some_iff.mp hstep
    rw [DispatchLabel.taken?, ← (Server.step_handles hs).taken]
    split
    · rfl
    · rw [handOver_server]
      rfl
  | run e =>
    obtain ⟨t, ht, rfl⟩ := Option.map_eq_some_iff.mp hstep
    rw [perform_server]
    rfl

/-- A run takes over the handlers that its labels pass. -/
theorem run_taken {ls : List DispatchLabel} {d' : Dispatch} (hrun : run (step x) d ls = some d')
    (handler : UserHandler) :
    d'.server.taken handler = d.server.taken handler +
      (ls.filterMap DispatchLabel.taken?).count handler := by
  induction ls generalizing d with
  | nil =>
    obtain rfl := Option.some.inj hrun
    simp
  | cons l ls ih =>
    obtain ⟨a, ha, hrest⟩ := run_cons.mp hrun
    rw [ih hrest, step_taken ha, List.filterMap_cons]
    cases l.taken? with
    | none => simp
    | some h =>
      rw [Option.toList_some, List.count_singleton, List.count_cons]
      omega

/-- How many tasks the queued ones still take. -/
def load (d : Dispatch) : ℕ := (d.queue.map fun t => t.2.weight).sum

/-- A queued task takes two tasks at most. -/
theorem load_le (d : Dispatch) : d.load ≤ 2 * d.queue.length := by
  have hsum := List.sum_le_card_nsmul (d.queue.map fun t => t.2.weight) 2 fun n hn => by
    obtain ⟨t, -, rfl⟩ := List.mem_map.mp hn
    cases t.2 <;> simp [QueuedTask.weight]
  simpa [load, Nat.mul_comm] using hsum

/-- A task that is run takes its share of the load off. -/
theorem load_run {d' : Dispatch} (hstep : d.step x (.run e) = some d') :
    d'.load < d.load ∧ d'.server = d.server := by
  obtain ⟨t, ht, rfl⟩ := Option.map_eq_some_iff.mp hstep
  refine ⟨?_, perform_server _ _ _⟩
  have hload : d.load = t.2.weight + { d with queue := d.queue.eraseP fun t => t.1 = e }.load := by
    have hperm := ((perm_of_find? ht).map fun t => t.2.weight).sum_eq
    rwa [List.map_cons, List.sum_cons] at hperm
  rw [hload]
  cases t.2 with
  | invoke handler ec => exact Nat.lt_add_of_pos_left Nat.one_pos
  | relay handler ec =>
    rw [perform, Dispatch.dispatch]
    split
    · exact Nat.lt_add_of_pos_left Nat.two_pos
    · simp [load, Dispatch.post, QueuedTask.weight]
      omega

/-- An executor with a queued task can run. -/
theorem exists_run (h : d.queue ≠ []) : ∃ e, (d.step x (.run e)).isSome = true := by
  obtain ⟨t, ht⟩ := List.exists_mem_of_ne_nil _ h
  refine ⟨t.1, ?_⟩
  rw [step, Option.isSome_map, List.find?_isSome]
  exact ⟨t, ht, by simp⟩

/-- The executors can run all their tasks. -/
theorem exists_drained (x : Executors) (d : Dispatch) :
    ∃ ls d', (∀ l ∈ ls, ∃ e, l = DispatchLabel.run e) ∧
    run (step x) d ls = some d' ∧ ls.length ≤ 2 * d.queue.length ∧
    d'.server = d.server ∧ d'.queue = [] := by
  have hkept (a : Dispatch) (l : DispatchLabel) (b : Dispatch) (ha : a.server = d.server)
      (hl : ∃ e, l = .run e) (hstep : a.step x l = some b) : b.server = d.server := by
    obtain ⟨e, rfl⟩ := hl
    exact (load_run hstep).2.trans ha
  have hlower (a : Dispatch) (l : DispatchLabel) (b : Dispatch) (_ : a.server = d.server)
      (hl : ∃ e, l = .run e) (hstep : a.step x l = some b) : b.load < a.load := by
    obtain ⟨e, rfl⟩ := hl
    exact (load_run hstep).1
  have hprogress (a : Dispatch) (_ : a.server = d.server) (hne : ¬ a.queue = []) :
      ∃ l, (∃ e, l = .run e) ∧ (a.step x l).isSome = true := by
    obtain ⟨e, he⟩ := exists_run hne
    exact ⟨.run e, ⟨e, rfl⟩, he⟩
  obtain ⟨ls, d', hls, hrun, hdone⟩ := exists_run_done load hkept hlower hprogress rfl
  have hlength := run_length_le load hkept hlower rfl hls hrun
  have hserver : d'.server = d.server :=
    run_invariant_along (P := fun _ l => ∃ e, l = .run e) (fun a => a.server = d.server)
    hkept rfl (along_of_labels hls) hrun
  have hload := d.load_le
  exact ⟨ls, d', hls, hrun, by omega, hserver, hdone⟩

end Dispatch

/-- While the server and its handles exist, every handler that a user passes to the server or to one
of its listeners is called exactly once. In every run the calls made and the handlers with
outstanding work are together the handlers passed; the calls made and queued are those the
operations have asked for, with their errors. No initiating function calls a handler: each call is
made by a task that runs inside the executor of the handler. And the executors can make all calls
that are queued, each by two tasks at most. A listener that is dropped with its last handle may drop
the handlers of its waits. -/
theorem completions_dispatched (x : Executors) {ls : List DispatchLabel} {d : Dispatch}
    (hrun : run (Dispatch.step x) {} ls = some d) :
    (∀ h, (Dispatch.callsOf h d.made).length + d.work.count h =
      (ls.filterMap DispatchLabel.taken?).count h) ∧
    (∀ h, (Dispatch.callsOf h (d.made ++ d.queued)).Perm (d.server.handed h)) ∧
    (∀ v ∈ d.invoked, x.inside v.running (x.executor v.handler) = true ∧
      ∃ before l after u, ls = before ++ l :: after ∧ run (Dispatch.step x) {} before = some u ∧
      u.Runs l v.running) ∧
    ∃ ms d', (∀ l ∈ ms, ∃ e, l = DispatchLabel.run e) ∧ run (Dispatch.step x) d ms = some d' ∧
      ms.length ≤ 2 * d.queue.length ∧
      ∀ h, (Dispatch.callsOf h d'.made).Perm (d.server.handed h) := by
  have haccounts (a : Dispatch) {ks : List DispatchLabel}
      (ha : run (Dispatch.step x) {} ks = some a) : a.Accounts x none :=
    run_invariant (fun d => d.Accounts x none) (fun _ _ _ h hstep => h.step hstep)
      ⟨.refl _, fun h => by cases h <;> exact .rfl, fun h => by cases h <;> rfl, by simp, by simp⟩
      ha
  have hfinal := haccounts d hrun
  have hcalls (a : Dispatch) (ha : a.Accounts x none) (h : UserHandler) :
      (Dispatch.callsOf h (a.made ++ a.queued)).Perm (a.server.handed h) := by
    have hsent := ha.sent h
    rwa [Option.toList_none, List.append_nil] at hsent
  refine ⟨fun h => ?_, hcalls d hfinal, fun v hv => ⟨hfinal.inside v hv, ?_⟩, ?_⟩
  · have htaken := Dispatch.run_taken hrun h
    rw [hfinal.work h, htaken]
    cases h <;> exact Nat.zero_add _
  · exact exists_written Dispatch.invoked (fun u l v => u.Runs l v.running) rfl
      (fun _ _ _ _ hstep => Dispatch.step_invoked hstep) hrun hv
  · obtain ⟨ms, d', hms, hmore, hlength, hserver, hempty⟩ := Dispatch.exists_drained x d
    refine ⟨ms, d', hms, hmore, hlength, fun h => ?_⟩
    have hdrained := hcalls d' (haccounts d' (run_append.mpr ⟨d, hrun, hmore⟩)) h
    rwa [Dispatch.queued, hempty, List.map_nil, List.append_nil, hserver] at hdrained

/-- A user associates an executor with the handler of the first operation; only tasks of an
executor itself run inside it. -/
def ownExecutor : Executors where
  associated handler := if handler = .operation 0 then some (.user 0) else none
  inside running e := running = e
  inside_self := by simp

/-- A server with one listener is started, and the start has ended. -/
def startAnswered : List DispatchLabel := (startCalled ++ startCarriedOut).map .server

/-- The handler of that start is called once, on its own executor, after a task on the executor
of the server. -/
theorem completions_dispatched_startAnswered :
    ∃ d, run (Dispatch.step ownExecutor) {} startAnswered = some d ∧
    d.work = [.operation 0] ∧ d.queue = [(.server, .relay (.operation 0) .success)] ∧
    ∃ ms d', run (Dispatch.step ownExecutor) d ms = some d' ∧ ms.length ≤ 2 ∧
      (Dispatch.callsOf (.operation 0) d'.made).Perm [.success] := by
  have h : run (Dispatch.step ownExecutor) {} startAnswered = some _ := rfl
  obtain ⟨-, -, -, ms, d', -, hmore, hlength, hcalls⟩ := completions_dispatched ownExecutor h
  exact ⟨_, h, rfl, rfl, ms, d', hmore, hlength, hcalls _⟩

end Serveza
