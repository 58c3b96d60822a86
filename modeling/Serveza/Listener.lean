import Serveza.AcceptorMoves
import Serveza.Foundation.Run
import Serveza.SocketMoves

/-!
# Listeners of either kind

The interface `listener` has two implementations. A server holds listeners of both kinds and
uses them through that interface, so the results about waits, starts and stops are stated
for a listener of either kind.
-/

namespace Serveza

open Foundation

/-- What a listener is constructed from. -/
inductive ListenerConfig where
  | acceptor (endpoint : Endpoint) (options : AcceptorOptions)
  | socket (endpoint : Endpoint) (options : SocketOptions)

/-- A bound-socket listener with the default options. -/
def defaultSocket : ListenerConfig := .socket ⟨"127.0.0.1:0", true, false⟩ ⟨{}, rfl⟩

/-- An accepting listener with the default options. -/
def defaultAcceptor : ListenerConfig := .acceptor ⟨"127.0.0.1:0", true, false⟩ ⟨{}, rfl⟩

/-- A listener of either kind. -/
inductive Listener where
  | acceptor (s : AcceptorListener)
  | socket (s : SocketListener)

/-- A step of a listener of either kind. -/
inductive ListenerLabel where
  | acceptor (l : AcceptorLabel)
  | socket (l : SocketLabel)

/-- The part of the step that does not run on the strand. -/
def ListenerLabel.off? : ListenerLabel → Option CoreLabel
  | .acceptor (.core l) => some l
  | .socket (.core l) => some l
  | _ => none

/-- The step calls `async_start`. -/
def ListenerLabel.IsStart (l : ListenerLabel) : Prop :=
  ∃ handler, l.off? = some (.asyncStart handler)

namespace Listener

/-- A newly constructed listener. -/
def create (id : ℕ) : ListenerConfig → Listener
  | .acceptor endpoint options => .acceptor (.create id endpoint options)
  | .socket endpoint options => .socket (.create id endpoint options)

/-- The part both kinds have. -/
def core : Listener → ListenerCore
  | .acceptor s => s.core
  | .socket s => s.core

/-- One step of a listener. -/
def step : Listener → ListenerLabel → Option Listener
  | .acceptor s, .acceptor l => (s.step l).map .acceptor
  | .socket s, .socket l => (s.step l).map .socket
  | _, _ => none

/-- The label of a step off the strand, for the kind of the listener. -/
def off : Listener → CoreLabel → ListenerLabel
  | .acceptor _, l => .acceptor (.core l)
  | .socket _, l => .socket (.core l)

/-- The kind of a step, as far as the shared part is concerned. -/
def kind : Listener → ListenerLabel → StepKind
  | .acceptor s, .acceptor l => s.kind l
  | .socket s, .socket l => s.kind l
  | _, _ => .handler

/-- The listener has been reached from its construction. -/
def Reached (x : Listener) : Prop := ∃ id config, Reachable step (create id config) x

/-- The shared part of a newly constructed listener holds its number and its endpoint only. -/
theorem create_core (id : ℕ) (config : ListenerConfig) :
    ∃ endpoint, (create id config).core = { id := id, endpoint := endpoint } := by
  cases config <;> exact ⟨_, rfl⟩

variable {x y : Listener} {l : ListenerLabel}

/-- Every step of a listener is a control step. -/
theorem step_core (h : x.step l = some y) : CoreStep (x.kind l) x.core y.core := by
  cases x with
  | acceptor s =>
    cases l with
    | acceptor l =>
      obtain ⟨t, ht, rfl⟩ := Option.map_eq_some_iff.mp h
      exact s.step_core ht
    | socket l => contradiction
  | socket s =>
    cases l with
    | acceptor l => contradiction
    | socket l =>
      obtain ⟨t, ht, rfl⟩ := Option.map_eq_some_iff.mp h
      exact s.step_core ht

/-- A step is a call off the strand exactly when its label is one. -/
theorem kind_eq_off (h : x.step l = some y) (call : CoreLabel) :
    x.kind l = .off call ↔ l.off? = some call := by
  have hmessage (m : Message) : m.kind ≠ .off call := by cases m <;> simp [Message.kind]
  have hgrace (w : TimerWait Arming) : graceKind w ≠ .off call := by
    unfold graceKind
    split <;> simp
  have hrun (strand : List Message) : (strand.head?.map Message.kind).getD
      .handler ≠ .off call := by
    cases strand <;> simp [hmessage]
  have htimer (r : Option (TimerWait Arming × Timer Arming)) :
      (r.map fun taken => graceKind taken.1).getD .handler ≠ .off call := by
    cases r <;> simp [hgrace]
  cases x with
  | acceptor s =>
    cases l with
    | socket l => contradiction
    | acceptor l => cases l <;> simp [kind, AcceptorListener.kind, ListenerLabel.off?, hrun, htimer]
  | socket s =>
    cases l with
    | acceptor l => contradiction
    | socket l => cases l <;> simp [kind, SocketListener.kind, ListenerLabel.off?, hrun, htimer]

/-- A call is a step off the strand. -/
@[simp] theorem kind_off (x : Listener) (call : CoreLabel) : x.kind (x.off call) = .off call := by
  cases x <;> rfl

/-- A call off the strand of a listener acts on the shared part as the call says. -/
theorem step_off {call : CoreLabel} (h : x.step (x.off call) = some y) :
    ∃ alive, (0 < x.core.handles → alive = true) ∧ CallStep alive call x.core y.core := by
  have hcore := step_core h
  rw [kind_off] at hcore
  cases hcore with
  | off alive halive hcall => exact ⟨alive, halive, hcall⟩

end Listener

end Serveza
