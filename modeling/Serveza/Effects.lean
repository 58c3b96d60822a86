import Serveza.ListenerCore

/-!
# Effects that leave the lifecycle alone

Most of what a handler of a listener does is bookkeeping: diagnostics, events, sessions.
`Quiet` says what such a change keeps. `WaitsOnly` does the same for the bookkeeping of
operations that are completed or registered.
-/

namespace Serveza

open Foundation ListenerCore

/-- Everything that belongs to calls in progress is as before. -/
structure SameCalls (a b : ListenerCore) : Prop where
  handles : b.handles = a.handles
  nextWaiterId : b.nextWaiterId = a.nextWaiterId
  initiating : b.initiating = a.initiating
  cancelled : b.cancelled = a.cancelled
  cancelling : b.cancelling = a.cancelling
  stopping : b.stopping = a.stopping

/-- The generation and the calls in progress are as before. -/
structure SameGeneration (a b : ListenerCore) : Prop extends SameCalls a b where
  generation : b.generation = a.generation

/-- Each session object is still there, with everything that was posted to it. -/
def KeepsSessions (a b : ListenerCore) : Prop :=
  ∀ key x, a.session? key = some x → ∃ x', b.session? key = some x' ∧ x'.generation = x.generation ∧
    x'.finished = x.finished ∧ ∀ m ∈ x.strand, m ∈ x'.strand

/-- The lifecycle, the strand, the waits and the shutdown timer are as before, no session
object is lost, and the events added since announce neither a state nor a forced shutdown. -/
structure Quiet (a b : ListenerCore) : Prop extends SameGeneration a b where
  state : b.state = a.state
  strand : b.strand = a.strand
  waiters : b.waiters = a.waiters
  delivered : b.delivered = a.delivered
  stops : b.stops = a.stops
  shutdownTimer : b.shutdownTimer = a.shutdownTimer
  sessions : KeepsSessions a b
  terminalError : a.state = .stopped → b.terminalError = a.terminalError
  events : ∃ added, b.events = a.events ++ added ∧
    ∀ e ∈ added, e.type ≠ .stateChanged ∧ e.type ≠ .shutdownForced

/-- Only the queue of waits and what has been completed differ. -/
structure WaitsOnly (a b : ListenerCore) : Prop extends SameGeneration a b where
  state : b.state = a.state
  stops : b.stops = a.stops
  terminalError : b.terminalError = a.terminalError
  events : b.events = a.events
  shutdownTimer : b.shutdownTimer = a.shutdownTimer
  heap : b.heap = a.heap
  activeSessions : b.activeSessions = a.activeSessions
  strand : ∃ cs : List Completion, b.strand = a.strand ++ cs.map .complete

variable {a b c : ListenerCore}

/-- The calls in progress are compared across several steps. -/
theorem SameCalls.trans (h : SameCalls a b) (k : SameCalls b c) : SameCalls a c :=
  ⟨k.handles.trans h.handles, k.nextWaiterId.trans h.nextWaiterId, k.initiating.trans h.initiating,
    k.cancelled.trans h.cancelled, k.cancelling.trans h.cancelling, k.stopping.trans h.stopping⟩

/-- The generation is compared across several steps. -/
theorem SameGeneration.trans (h : SameGeneration a b) (k : SameGeneration b c) :
    SameGeneration a c :=
  ⟨h.toSameCalls.trans k.toSameCalls, k.generation.trans h.generation⟩

/-- Taking a message off the strand touches no call in progress. -/
theorem sameCalls_pop (a : ListenerCore) (rest : List Message) :
    SameCalls a { a with strand := rest } :=
  ⟨rfl, rfl, rfl, rfl, rfl, rfl⟩

/-- Beginning a generation touches no call in progress. -/
theorem sameCalls_beginGeneration (a : ListenerCore) : SameCalls a a.beginGeneration :=
  ⟨rfl, rfl, rfl, rfl, rfl, rfl⟩

/-- An unchanged heap keeps every session object. -/
theorem KeepsSessions.of_heap (h : b.heap = a.heap) : KeepsSessions a b := by
  intro key x hx
  refine ⟨x, ?_, rfl, rfl, fun m hm => hm⟩
  rwa [session?, h]

/-- Session objects are kept across several steps. -/
theorem KeepsSessions.trans (h : KeepsSessions a b) (k : KeepsSessions b c) :
    KeepsSessions a c := by
  intro key x hx
  obtain ⟨y, hy, hgeneration, hfinished, hstrand⟩ := h key x hx
  obtain ⟨z, hz, kgeneration, kfinished, kstrand⟩ := k key y hy
  exact ⟨z, hz, kgeneration.trans hgeneration, kfinished.trans hfinished, fun m hm =>
    kstrand m (hstrand m hm)⟩

/-- Looking up a session after posting to some of them. -/
theorem session?_postTo (a : ListenerCore) (keys : List ℕ) (message : SessionMessage) (key : ℕ) :
    (a.postTo keys message).session? key =
      (a.session? key).map fun x => if x.info.id ∈ keys then x.post message else x := by
  have hkey :
      ((fun x : Session => decide (x.info.id = key)) ∘ fun x =>
        if x.info.id ∈ keys then x.post message else x)
      = fun x => decide (x.info.id = key) := by
    funext x
    simp only [Function.comp_apply]
    split <;> rfl
  rw [session?, postTo, List.find?_map, hkey]
  rfl

/-- Posting to sessions makes no session object. -/
theorem postTo_ids (a : ListenerCore) (keys : List ℕ) (message : SessionMessage) :
    (a.postTo keys message).heap.map (·.info.id) = a.heap.map (·.info.id) := by
  rw [postTo, List.map_map]
  refine List.map_congr_left fun x _ => ?_
  simp only [Function.comp_apply]
  split <;> rfl

/-- Posting to sessions keeps every session object. -/
theorem keepsSessions_postTo (a : ListenerCore) (keys : List ℕ) (message : SessionMessage) :
    KeepsSessions a (a.postTo keys message) := by
  intro key x hx
  refine ⟨if x.info.id ∈ keys then x.post message else x, by rw [session?_postTo, hx]; rfl, ?_⟩
  split
  · exact ⟨rfl, rfl, fun m hm => List.mem_append_left _ hm⟩
  · exact ⟨rfl, rfl, fun m hm => hm⟩

/-- Adding a session object keeps the others. -/
theorem keepsSessions_append (a : ListenerCore) (x : Session) :
    KeepsSessions a { a with heap := a.heap ++ [x] } := by
  intro key y hy
  refine ⟨y, ?_, rfl, rfl, fun m hm => hm⟩
  rw [session?] at hy ⊢
  rw [List.find?_append, hy]
  rfl

/-- Completing an operation changes nothing but its bookkeeping. -/
theorem completeOn_waitsOnly (a : ListenerCore) (completion : Completion) :
    WaitsOnly a (a.completeOn completion) :=
  ⟨⟨⟨rfl, rfl, rfl, rfl, rfl, rfl⟩, rfl⟩, rfl, rfl, rfl, rfl, rfl, rfl, rfl, [completion], rfl⟩

/-- Registering a wait changes nothing but the bookkeeping of waits. -/
theorem registerWait_waitsOnly (a : ListenerCore) (w : WaitOperation) :
    WaitsOnly a (a.registerWait w) := by
  unfold ListenerCore.registerWait
  split
  · exact completeOn_waitsOnly a _
  · split
    · exact completeOn_waitsOnly a _
    · exact ⟨⟨⟨rfl, rfl, rfl, rfl, rfl, rfl⟩, rfl⟩, rfl, rfl, rfl, rfl, rfl, rfl, rfl, [], by simp⟩

/-- Cancelling a wait changes nothing but the bookkeeping of waits. -/
theorem cancelWait_waitsOnly (a : ListenerCore) (waiter : ℕ) :
    WaitsOnly a (a.cancelWait waiter) := by
  unfold ListenerCore.cancelWait
  split
  · exact ⟨⟨⟨rfl, rfl, rfl, rfl, rfl, rfl⟩, rfl⟩, rfl, rfl, rfl, rfl, rfl, rfl, rfl, [], by simp⟩
  · exact ⟨⟨⟨rfl, rfl, rfl, rfl, rfl, rfl⟩, rfl⟩, rfl, rfl, rfl, rfl, rfl, rfl, rfl, [_], rfl⟩

/-- Quiet changes compose. -/
theorem Quiet.trans (h : Quiet a b) (k : Quiet b c) : Quiet a c := by
  obtain ⟨added, hadded, hquiet⟩ := h.events
  obtain ⟨more, hmore, kquiet⟩ := k.events
  refine ⟨h.toSameGeneration.trans k.toSameGeneration, k.state.trans h.state,
    k.strand.trans h.strand,
    k.waiters.trans h.waiters, k.delivered.trans h.delivered, k.stops.trans h.stops,
    k.shutdownTimer.trans h.shutdownTimer, h.sessions.trans k.sessions,
    fun hs => (k.terminalError (h.state.trans hs)).trans (h.terminalError hs),
    added ++ more, ?_, ?_⟩
  · rw [hmore, hadded, List.append_assoc]
  · intro e he
    exact (List.mem_append.mp he).elim (hquiet e) (kquiet e)

/-- Diagnostics, the endpoint and the number of sessions may change quietly, and session
objects as long as none is lost. -/
theorem quiet_update (a : ListenerCore) (activeSessions : ℕ) (stopReason : ListenerStopReason)
    (endpoint : String) (lastError : ErrorCode) (lastException : Option ThrownException)
    (heap : List Session) (hheap : KeepsSessions a { a with heap := heap }) :
    Quiet a { a with
      activeSessions := activeSessions
      stopReason := stopReason
      endpoint := endpoint
      lastError := lastError
      lastException := lastException
      heap := heap } :=
  ⟨⟨⟨rfl, rfl, rfl, rfl, rfl, rfl⟩, rfl⟩, rfl, rfl, rfl, rfl, rfl, rfl, hheap,
    fun _ => rfl, [], by simp⟩

/-- Nothing happens quietly. -/
theorem Quiet.refl (a : ListenerCore) : Quiet a a := quiet_update a _ _ _ _ _ _ (.of_heap rfl)

/-- The number of sessions may change quietly. -/
theorem quiet_activeSessions (a : ListenerCore) (n : ℕ) : Quiet a { a with activeSessions := n } :=
  quiet_update a n _ _ _ _ _ (.of_heap rfl)

/-- The endpoint may change quietly. -/
theorem quiet_endpoint (a : ListenerCore) (endpoint : String) :
    Quiet a { a with endpoint := endpoint } :=
  quiet_update a _ _ endpoint _ _ _ (.of_heap rfl)

/-- Adding a session object is quiet. -/
theorem quiet_addSession (a : ListenerCore) (x : Session) (n : ℕ) :
    Quiet a { a with heap := a.heap ++ [x], activeSessions := n } :=
  quiet_update a n _ _ _ _ _ (keepsSessions_append a x)

/-- An event that announces neither a state nor a forced shutdown is quiet. -/
theorem quiet_emit (a : ListenerCore) {type : ListenerEventType} (hs : type ≠ .stateChanged)
    (hf : type ≠ .shutdownForced) (info : ConnectionInfo) (ec : ErrorCode)
    (ep : Option ThrownException) :
    Quiet a (a.emit type info ec ep) :=
  ⟨⟨⟨rfl, rfl, rfl, rfl, rfl, rfl⟩, rfl⟩, rfl, rfl, rfl, rfl, rfl, rfl, .of_heap rfl, fun _ => rfl,
    [⟨type, a.status, info, ec, ep⟩], rfl, by simp [hs, hf]⟩

/-- Recording a failure is quiet. -/
theorem quiet_recordDiagnostic (a : ListenerCore) (ec : ErrorCode) (ep : Option ThrownException) :
    Quiet a (a.recordDiagnostic ec ep) := quiet_update a _ _ _ ec ep _ (.of_heap rfl)

/-- Posting to sessions is quiet. -/
theorem quiet_postTo (a : ListenerCore) (keys : List ℕ) (message : SessionMessage) :
    Quiet a (a.postTo keys message) :=
    quiet_update a _ _ _ _ _ _ (keepsSessions_postTo a keys message)

/-- A failure that is recorded and announced is quiet. -/
theorem quiet_failure (a : ListenerCore) {type : ListenerEventType} (hs : type ≠ .stateChanged)
    (hf : type ≠ .shutdownForced) (info : ConnectionInfo) (ec : ErrorCode)
    (ep : Option ThrownException) :
    Quiet a ((a.recordDiagnostic ec ep).emit type info ec ep) :=
  (quiet_recordDiagnostic a ec ep).trans (quiet_emit _ hs hf info ec ep)

/-- Noting the end of a session is quiet. -/
theorem quiet_sessionStopped (a : ListenerCore) (info : ConnectionInfo) (report : SessionReport) :
    Quiet a (a.sessionStopped info report) := by
  unfold ListenerCore.sessionStopped
  extract_lets c
  have hc : Quiet a c := by
    unfold c
    split
    · exact quiet_recordDiagnostic a _ _
    · exact Quiet.refl a
  exact hc.trans (quiet_emit c (by simp) (by simp) info _ _)

/-- Preparing the outcome of a stop is quiet in a listener that has not stopped. -/
theorem quiet_outcome (a : ListenerCore) (ec : ErrorCode) (reason : ListenerStopReason)
    (h : a.state ≠ .stopped) :
    Quiet a ({ a with terminalError := ec }.setStopReason reason) :=
  ⟨⟨⟨rfl, rfl, rfl, rfl, rfl, rfl⟩, rfl⟩, rfl, rfl, rfl, rfl, rfl, rfl, .of_heap rfl,
    fun hs => absurd hs h, [], by simp [setStopReason]⟩

end Serveza
