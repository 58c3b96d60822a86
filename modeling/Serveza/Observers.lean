import Mathlib.Data.Nat.Notation
import Mathlib.Logic.Function.Basic
import Serveza.Foundation.Run

/-!
# Observers and their subscriptions

`observer_registry` keeps the registered observers, and an `observer_subscription` is the
handle that owns one registration. Handles are moved, overwritten, reset and destroyed, also
from inside a callback. A notification copies the registered observers while it holds the
registry's mutex and then calls them one by one under a recursive mutex of its own, so calls
made by different threads wait for each other and a callback may notify again. Memory is taken
to be available and the registry to outlive its handles.

The copies are of observers only: the registration they stand for, the number of the
notification and the calls it has made are kept by the model.
-/

namespace Serveza

open Foundation

/-- One registration. -/
structure ObserverEntry where
  id : ℕ
  value : ℕ
  deriving DecidableEq, Repr

/-- The registered observers, oldest first, and the last identifier given. -/
structure ObserverRegistry where
  values : List ObserverEntry := []
  nextId : ℕ := 0
  deriving DecidableEq, Repr

namespace ObserverRegistry

/-- Register an observer. -/
def add (registry : ObserverRegistry) (value : ℕ) : ObserverRegistry × ℕ :=
  ({ values := registry.values ++ [⟨registry.nextId + 1, value⟩], nextId := registry.nextId + 1 },
    registry.nextId + 1)

/-- Remove a registration. -/
def remove (registry : ObserverRegistry) (id : ℕ) : ObserverRegistry :=
  { registry with values := registry.values.filter fun item => item.id ≠ id }

end ObserverRegistry

/-- A handle: whether it refers to the registry, and the registration it owns or zero. -/
structure ObserverSubscription where
  registry : Bool := false
  id : ℕ := 0
  deriving DecidableEq, Repr

/-- A notification in progress: the thread that makes it, the observers still to be called,
whether it holds the callback mutex, and whether a callback of it has not returned. -/
structure Notification where
  number : ℕ
  thread : ℕ
  observers : List ObserverEntry
  invoked : List ObserverEntry := []
  locked : Bool := false
  calling : Bool := false
  deriving DecidableEq, Repr

/-- The registry, the handles by their addresses, and the notifications in progress. -/
structure ObserverSystem where
  registry : ObserverRegistry := {}
  handles : ℕ → Option ObserverSubscription := fun _ => none
  calls : List Notification := []
  notifications : ℕ := 0
  completed : List (ℕ × List ObserverEntry) := []

/-- What a thread can do with handles. -/
inductive SubscriptionOp where
  | observe (handle : ℕ) (value : Option ℕ)
  | construct (handle : ℕ)
  | moveConstruct (handle other : ℕ)
  | moveAssign (handle other : ℕ)
  | reset (handle : ℕ)
  | destroy (handle : ℕ)
  deriving DecidableEq, Repr

/-- The steps of the threads that use handles and notify observers. -/
inductive ObserverLabel where
  | op (thread : ℕ) (operation : SubscriptionOp)
  | notify (thread : ℕ)
  | acquire (number : ℕ)
  | invoke (number : ℕ)
  | returns (number : ℕ)
  | throws (number : ℕ)
  | finish (number : ℕ)
  deriving DecidableEq, Repr

namespace ObserverSystem

/-- Store a handle. -/
def setHandle (s : ObserverSystem) (handle : ℕ) (value : Option ObserverSubscription) :
    ObserverSystem :=
  { s with handles := Function.update s.handles handle value }

/-- Give up the registration a handle owns. -/
def reset (s : ObserverSystem) (handle : ℕ) (value : ObserverSubscription) : ObserverSystem :=
  if value.id = 0 then s
  else
    { s with
      registry := if value.registry then s.registry.remove value.id else s.registry }.setHandle
        handle (some {})

/-- One operation on handles; an object is constructed where none is, and used where one is. -/
def apply (s : ObserverSystem) : SubscriptionOp → Option ObserverSystem
  | .observe handle value =>
    match s.handles handle, value with
    | some _, _ => none
    | none, none => some s
    | none, some value =>
      let (registry, id) := s.registry.add value
      some ({ s with registry := registry }.setHandle handle (some ⟨true, id⟩))
  | .construct handle =>
    match s.handles handle with
    | some _ => none
    | none => some (s.setHandle handle (some {}))
  | .moveConstruct handle other =>
    match s.handles handle, s.handles other with
    | none, some value => some ((s.setHandle handle (some value)).setHandle other (some {}))
    | _, _ => none
  | .moveAssign handle other =>
    match s.handles handle, s.handles other with
    | some old, some value =>
      if handle = other then some s
      else some (((s.reset handle old).setHandle handle (some value)).setHandle other (some {}))
    | _, _ => none
  | .reset handle => (s.handles handle).map fun value => s.reset handle value
  | .destroy handle =>
    (s.handles handle).map fun value => (s.reset handle value).setHandle handle none

/-- The thread runs code of its own: each notification it makes is inside a callback. -/
def free (s : ObserverSystem) (thread : ℕ) : Bool :=
  s.calls.all fun c => c.thread ≠ thread || c.calling

/-- No notification of another thread holds the callback mutex. -/
def lockable (s : ObserverSystem) (thread : ℕ) : Bool :=
  s.calls.all fun c => c.thread = thread || !c.locked

/-- The notification is the innermost of its thread. -/
def innermost (s : ObserverSystem) (call : Notification) : Bool :=
  s.calls.all fun c => c.thread ≠ call.thread || c.number ≤ call.number

/-- The notification with a given number. -/
def call? (s : ObserverSystem) (number : ℕ) : Option Notification :=
  s.calls.find? fun c => c.number = number

/-- Replace the notification with a given number. -/
def setCall (s : ObserverSystem) (number : ℕ) (call : Notification) : ObserverSystem :=
  { s with calls := s.calls.map fun c => if c.number = number then call else c }

/-- Begin a notification with a copy of the registered observers. -/
def enter (s : ObserverSystem) (thread : ℕ) : ObserverSystem :=
  { s with
    notifications := s.notifications + 1
    calls := s.calls ++ [⟨s.notifications, thread, s.registry.values, [], false, false⟩] }

/-- Return from a notification that has found no observer. -/
def skip (s : ObserverSystem) : ObserverSystem :=
  { s with notifications := s.notifications + 1, completed := s.completed ++ [(s.notifications,
    [])] }

/-- Return from a notification that has called its observers. -/
def leave (s : ObserverSystem) (number : ℕ) (invoked : List ObserverEntry) : ObserverSystem :=
  { s with
    calls := s.calls.eraseP fun c => c.number = number
    completed := s.completed ++ [(number, invoked)] }

/-- Copy the registered observers; if there are none the notification is over. -/
def notify (s : ObserverSystem) (thread : ℕ) : ObserverSystem :=
  if s.registry.values = [] then s.skip else s.enter thread

/-- One step. A callback that throws has returned as far as the notification is concerned. -/
def step (s : ObserverSystem) : ObserverLabel → Option ObserverSystem
  | .op thread operation => if s.free thread then s.apply operation else none
  | .notify thread => if s.free thread then some (s.notify thread) else none
  | .acquire number => (s.call? number).bind fun c =>
      if !c.locked && s.lockable c.thread then some (s.setCall number { c with locked := true })
      else none
  | .invoke number => (s.call? number).bind fun c =>
      match c.observers with
      | [] => none
      | value :: rest =>
        if c.locked && !c.calling then
          some (s.setCall number { c with
            observers := rest, invoked := c.invoked ++ [value], calling := true })
        else none
  | .returns number | .throws number => (s.call? number).bind fun c =>
      if c.calling && s.innermost c then some (s.setCall number { c with calling := false })
      else none
  | .finish number => (s.call? number).bind fun c =>
      if c.locked && !c.calling && c.observers.isEmpty then some (s.leave number c.invoked)
      else none

/-- What a step does: an operation on handles, a notification that finds no observer or begins,
and what a notification does with the callback mutex and its observers. -/
inductive Step (s : ObserverSystem) : ObserverLabel → ObserverSystem → Prop where
  | op {thread operation t} (h : s.apply operation = some t) : s.Step (.op thread operation) t
  | unheard {thread} (h : s.registry.values = []) : s.Step (.notify thread) s.skip
  | notify {thread} (hfree : s.free thread = true) : s.Step (.notify thread) (s.enter thread)
  | acquire {number c} (hc : s.call? number = some c) (hunlocked : c.locked = false)
    (hlockable : s.lockable c.thread = true) :
    s.Step (.acquire number) (s.setCall number { c with locked := true })
  | invoke {number c value rest} (hc : s.call? number = some c)
    (hobservers : c.observers = value :: rest)
    (hlocked : c.locked = true) (hreturned : c.calling = false) :
    s.Step (.invoke number)
      (s.setCall number { c with
        observers := rest, invoked := c.invoked ++ [value], calling := true })
  | returns {l number c} (hl : l = .returns number ∨ l = .throws number)
    (hc : s.call? number = some c) (hcalling : c.calling = true)
    (hinnermost : s.innermost c = true) : s.Step l (s.setCall number { c with calling := false })
  | finish {number c} (hc : s.call? number = some c) (hlocked : c.locked = true)
    (hreturned : c.calling = false)
    (hobservers : c.observers = []) : s.Step (.finish number) (s.leave number c.invoked)

/-- Every step has the effect of its label. -/
theorem step_cases {s t : ObserverSystem} {l : ObserverLabel} (h : s.step l = some t) :
    s.Step l t := by
  have hreturns {number : ℕ} (hl : l = .returns number ∨ l = .throws number)
      (h : ((s.call? number).bind fun c =>
      if c.calling && s.innermost c then some (s.setCall number { c with calling := false })
      else none) = some t) : s.Step l t := by
    obtain ⟨c, hc, h⟩ := Option.bind_eq_some_iff.mp h
    obtain ⟨hguard, h⟩ := Option.ite_none_right_eq_some.mp h
    obtain rfl := Option.some.inj h
    rw [Bool.and_eq_true] at hguard
    exact .returns hl hc hguard.1 hguard.2
  cases l with
  | op thread operation =>
    obtain ⟨-, h⟩ := Option.ite_none_right_eq_some.mp h
    exact .op h
  | notify thread =>
    obtain ⟨hfree, h⟩ := Option.ite_none_right_eq_some.mp h
    obtain rfl := Option.some.inj h
    unfold ObserverSystem.notify
    by_cases hempty : s.registry.values = []
    · rw [if_pos hempty]
      exact .unheard hempty
    · rw [if_neg hempty]
      exact .notify hfree
  | acquire number =>
    obtain ⟨c, hc, h⟩ := Option.bind_eq_some_iff.mp h
    obtain ⟨hguard, h⟩ := Option.ite_none_right_eq_some.mp h
    obtain rfl := Option.some.inj h
    rw [Bool.and_eq_true, Bool.not_eq_true'] at hguard
    exact .acquire hc hguard.1 hguard.2
  | invoke number =>
    obtain ⟨c, hc, h⟩ := Option.bind_eq_some_iff.mp h
    cases hobservers : c.observers with
    | nil => simp [hobservers] at h
    | cons value rest =>
      simp only [hobservers] at h
      obtain ⟨hguard, h⟩ := Option.ite_none_right_eq_some.mp h
      obtain rfl := Option.some.inj h
      rw [Bool.and_eq_true, Bool.not_eq_true'] at hguard
      exact .invoke hc hobservers hguard.1 hguard.2
  | returns number => exact hreturns (Or.inl rfl) h
  | throws number => exact hreturns (Or.inr rfl) h
  | finish number =>
    obtain ⟨c, hc, h⟩ := Option.bind_eq_some_iff.mp h
    obtain ⟨hguard, h⟩ := Option.ite_none_right_eq_some.mp h
    obtain rfl := Option.some.inj h
    rw [Bool.and_eq_true, Bool.and_eq_true, Bool.not_eq_true', List.isEmpty_iff] at hguard
    exact .finish hc hguard.1.1 hguard.1.2 hguard.2

/-- Operations on handles do not touch notifications. -/
theorem apply_calls {s t : ObserverSystem} {operation : SubscriptionOp}
    (h : s.apply operation = some t) :
    t.calls = s.calls ∧ t.notifications = s.notifications ∧ t.completed = s.completed := by
  have hreset (handle : ℕ) (value : ObserverSubscription) : (s.reset handle value).calls = s.calls ∧
      (s.reset handle value).notifications = s.notifications ∧
      (s.reset handle value).completed = s.completed := by
    unfold reset
    split <;> exact ⟨rfl, rfl, rfl⟩
  cases operation with
  | observe handle value =>
    simp only [apply] at h
    split at h
    · contradiction
    all_goals
      obtain rfl := Option.some.inj h
      exact ⟨rfl, rfl, rfl⟩
  | construct handle =>
    simp only [apply] at h
    split at h
    · contradiction
    · obtain rfl := Option.some.inj h
      exact ⟨rfl, rfl, rfl⟩
  | moveConstruct handle other =>
    simp only [apply] at h
    split at h
    · obtain rfl := Option.some.inj h
      exact ⟨rfl, rfl, rfl⟩
    · contradiction
  | moveAssign handle other =>
    simp only [apply] at h
    split at h
    · split at h
      · obtain rfl := Option.some.inj h
        exact ⟨rfl, rfl, rfl⟩
      · obtain rfl := Option.some.inj h
        exact hreset _ _
    · contradiction
  | reset handle =>
    obtain ⟨value, -, rfl⟩ := Option.map_eq_some_iff.mp h
    exact hreset _ _
  | destroy handle =>
    obtain ⟨value, -, rfl⟩ := Option.map_eq_some_iff.mp h
    exact hreset _ _

end ObserverSystem

end Serveza
