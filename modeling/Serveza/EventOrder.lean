import Serveza.EventSpans
import Serveza.FirstCause
import Serveza.Foundation.Log
import Serveza.ServerListeners

/-!
# Observers see the events of a listener in order

The listeners of a server share the registry of observers. A handler on a listener's strand
passes its events to `notify` while it runs, so the next handler of the strand has to wait until
all of them have been passed on and `notify` has returned. Other listeners, the callbacks and
the users of handles go on meanwhile. What a handler does to its listener is one step here, and
its events are emitted one by one afterwards, in the order they were published. The events of the
server itself go through the same registry and are not covered: neither their order nor how they
are interleaved with those of the listeners.
-/

namespace Serveza

open Foundation

/-- A server with the observers of its listeners. -/
structure Observed where
  server : Server := {}
  bus : EventBus ListenerEvent := {}

/-- The steps: of the server, the next event of a listener, and of the observers. -/
inductive ObservedLabel where
  | server (l : ServerLabel)
  | emit (index thread : ℕ)
  | observers (l : ObserverLabel)

namespace Observed

variable (d : Observed)

/-- The events that a listener has published. -/
def published (index : ℕ) : List ListenerEvent :=
  ((d.server.listeners[index]?).map fun x => x.core.events).getD []

/-- The published events that have not been passed on. -/
def outbox (index : ℕ) : List ListenerEvent := (d.published index).drop (d.bus.emitted index).length

/-- A handler may run on the strand of a listener once the events of the last one have been passed
on. -/
def mayRun : ServerLabel → Bool
  | .listener _ index l => !l.isOnStrand || ((d.outbox index).isEmpty && !d.bus.busy index)
  | _ => true

/-- One step. -/
def step : ObservedLabel → Option Observed
  | .server l => if d.mayRun l then (d.server.step l).map fun s => { d with server := s } else none
  | .emit index thread => (d.outbox index).head?.bind fun event =>
      (d.bus.emit index thread event).map fun bus => { d with bus := bus }
  | .observers l => (d.bus.observe l).map fun bus => { d with bus := bus }

variable {d} {d' : Observed} {index id : ℕ}

/-- A step of the server publishes events after the ones there are. -/
theorem published_step {l : ServerLabel} {s : Server} (h : d.server.step l = some s) (index : ℕ) :
    ∃ new, { d with server := s }.published index = d.published index ++ new := by
  obtain ⟨s₁, done, added, hacts, houtcome⟩ := Server.step_cases h
  cases (hacts.effect index).outcome houtcome with
  | same h => exact ⟨[], by rw [published, published, h, List.append_nil]⟩
  | @created config hnone h =>
    obtain ⟨endpoint, hcore⟩ := Listener.create_core (index + 1) config
    exact ⟨[], by simp [published, h, hnone, hcore]⟩
  | stepped hx hy hstep horigin =>
    obtain ⟨new, hnew, -⟩ := (Listener.step_writes hstep).published
    exact ⟨new, by simp [published, hx, hy, hnew]⟩

/-- What the system keeps for one listener and one registration. -/
structure Ordered (d : Observed) (index id : ℕ) : Prop where
  sound : d.bus.Sound
  delivering : d.bus.Delivering index id
  split : ∃ before during after, d.bus.Split index id before during after
  passed : (d.bus.emitted index).map (·.1) <+: d.published index

/-- Every step keeps it. -/
theorem Ordered.step {l : ObservedLabel} (h : d.Ordered index id) (hstep : d.step l = some d') :
    d'.Ordered index id := by
  cases l with
  | server l =>
    obtain ⟨-, hstep⟩ := Option.ite_none_right_eq_some.mp hstep
    obtain ⟨s, hs, rfl⟩ := Option.map_eq_some_iff.mp hstep
    obtain ⟨new, hnew⟩ := published_step hs index
    refine ⟨h.sound, h.delivering, h.split, ?_⟩
    rw [hnew]
    exact h.passed.trans (List.prefix_append _ _)
  | emit i thread =>
    obtain ⟨event, hevent, hstep⟩ := Option.bind_eq_some_iff.mp hstep
    obtain ⟨bus, hbus, rfl⟩ := Option.map_eq_some_iff.mp hstep
    have hdelivering := h.delivering.emit h.sound hbus
    obtain ⟨-, hbus⟩ := Option.ite_none_left_eq_some.mp hbus
    obtain ⟨system, hsystem, rfl⟩ := Option.map_eq_some_iff.mp hbus
    obtain ⟨before, during, after, hsplit⟩ := h.split
    refine ⟨h.sound.step hsystem, hdelivering, ?_, ?_⟩
    · by_cases hi : i = index
      · subst hi
        exact hsplit.note h.sound event (EventBus.notify_cases hsystem).1
      · exact ⟨before, during, after,
          hsplit.registers (EventBus.note_emitted_of_ne (fun heq => hi heq.symm) event system)
          (ObserverSystem.step_registers hsystem)⟩
    · by_cases hi : i = index
      · subst hi
        change ((d.bus.note i event system).emitted i).map (·.1) <+: d.published i
        rw [EventBus.note_emitted_self, List.map_append, List.map_singleton]
        exact concat_isPrefix_of_head h.passed (by rwa [List.length_map])
      · change ((d.bus.note i event system).emitted index).map (·.1) <+: d.published index
        rw [EventBus.note_emitted_of_ne fun heq => hi heq.symm]
        exact h.passed
  | observers l =>
    obtain ⟨bus, hbus, rfl⟩ := Option.map_eq_some_iff.mp hstep
    have hdelivering := h.delivering.observe hbus
    obtain ⟨-, hbus⟩ := Option.ite_none_left_eq_some.mp hbus
    obtain ⟨system, hsystem, rfl⟩ := Option.map_eq_some_iff.mp hbus
    obtain ⟨before, during, after, hsplit⟩ := h.split
    exact ⟨h.sound.step hsystem, hdelivering,
      ⟨before, during, after, hsplit.registers rfl (ObserverSystem.step_registers hsystem)⟩,
      h.passed⟩

end Observed

/-- An observer sees the events of each listener in order, without gaps and without repetitions,
for as long as it is registered. In every run the events of a listener fall into those emitted
before a registration was made, while it was there and after it was given up, and of the second
part exactly the events have been received, in order, except that the last one may still be on
its way. The events emitted are those the listener has published, in the order of publication.
Notifications of server events, which share the registry, are left out of the runs. -/
theorem events_inOrder {ls : List ObservedLabel} {d : Observed}
    (hrun : run Observed.step {} ls = some d) (index id : ℕ) :
    ∃ before during after, d.bus.emitted index = before ++ during ++ after ∧
      (∀ p ∈ before, id ∉ p.2) ∧ (∀ p ∈ during, id ∈ p.2) ∧ (∀ p ∈ after, id ∉ p.2) ∧
      (∃ pending, during.map (·.1) = d.bus.receivedBy index id ++ pending ∧ pending.length ≤ 1 ∧
        (d.bus.busy index = false → pending = [])) ∧
      (d.bus.emitted index).map (·.1) <+: d.published index := by
  have hordered : d.Ordered index id := by
    refine run_invariant (fun d : Observed => d.Ordered index id)
      (fun _ _ _ h hstep => h.step hstep) ?_ hrun
    refine ⟨⟨.init, .init, by simp⟩, ⟨by simp, by simp, fun _ => rfl⟩,
      ⟨[], [], [], ?_⟩, List.nil_prefix⟩
    exact ⟨rfl, by simp, by simp, by simp, fun _ => ⟨rfl, rfl⟩, by simp⟩
  obtain ⟨before, during, after, hsplit⟩ := hordered.split
  have hreceived := hordered.delivering.received hordered.sound
  rw [hsplit.meantFor] at hreceived
  exact ⟨before, during, after, hsplit.emitted, hsplit.early, hsplit.present, hsplit.late,
    hreceived, hordered.passed⟩

/-- A listener is started before an observer is registered, and its second event is delivered. -/
def lateObserver : List ObservedLabel :=
  [.server (.addListener defaultSocket), .server (.listenerStart 0 0),
    .server (.listener 0 0 (.socket (.run {}))), .emit 0 0,
    .observers (.op 1 (.observe 0 (some 7))), .emit 0 0, .observers (.acquire 1),
    .observers (.invoke 1), .observers (.returns 1), .observers (.finish 1)]

/-- The observer has received the second event of the listener, and not the first one. -/
theorem events_inOrder_lateObserver : ∃ d, run Observed.step {} lateObserver = some d ∧
    (d.bus.emitted 0).length = 2 ∧ (d.bus.receivedBy 0 1).length = 1 ∧
    ∃ before during after, d.bus.emitted 0 = before ++ during ++ after ∧ (∀ p ∈ before, 1 ∉ p.2) ∧
      during.map (·.1) = d.bus.receivedBy 0 1 := by
  have h : run Observed.step {} lateObserver = some _ := rfl
  obtain ⟨before, during, after, hemitted, hearly, -, -, ⟨pending, hpending, -, hidle⟩, -⟩ :=
    events_inOrder h 0 1
  rw [hidle rfl, List.append_nil] at hpending
  exact ⟨_, h, rfl, rfl, before, during, after, hemitted, hearly, hpending⟩

end Serveza
