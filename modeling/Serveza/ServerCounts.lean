import Serveza.Operations
import Serveza.ServerSteps

/-!
# Where the children of an operation are

The child operations of a group are counted in two places: as actions of the thread that is
still to initiate them, and as operations of the listeners, where they stay once they have
been initiated. Each step of a server is traced through both.
-/

namespace Serveza

open Foundation

/-- The handler an operation is initiated with, if the step initiates one. -/
def StepKind.initiated? : StepKind → Option CompletionHandler
  | .off (.asyncStart h) => some h
  | .off (.beginWait h) => some h
  | _ => none

/-- A step that calls no initiating function initiates nothing. -/
theorem StepKind.initiates_of_initiated {k : StepKind} (h : k.initiated? = none)
    (nextWaiterId : ℕ) :
    k.initiates nextWaiterId = [] := by
  cases k with
  | off call => cases call <;> first | rfl | contradiction
  | _ => rfl

/-- The completion whose handler the step calls. -/
def StepKind.delivered? : StepKind → Option Completion
  | .deliver completion => some completion
  | _ => none

/-- The operations with a given handler. -/
def withHandler (handler : CompletionHandler) (operation : Operation) : Bool :=
  operation.handler = handler

/-- The completions with a given handler that have been delivered. -/
def deliveries (handler : CompletionHandler) (c : ListenerCore) : ℕ :=
  c.delivered.countP fun q => q.handler = handler

/-- A step adds the operation it initiates to those with its handler. -/
theorem CoreStep.tally_handler {k : StepKind} {a b : ListenerCore} (h : CoreStep k a b)
    (handler : CompletionHandler) :
    Serveza.tally (withHandler handler) b =
      Serveza.tally (withHandler handler) a + k.initiated?.toList.count handler := by
  rw [h.tally]
  congr 1
  cases k with
  | off call =>
    cases call <;>
      simp [StepKind.initiates, StepKind.initiated?, withHandler, List.count, List.countP_cons]
  | _ => simp [StepKind.initiates, StepKind.initiated?]

/-- Moves deliver nothing. -/
theorem moves_delivered {a b : ListenerCore} (h : Moves a b) : b.delivered = a.delivered := by
  induction h with
  | refl => rfl
  | tail _ hmove ih =>
    rw [← ih]
    cases hmove with
    | quiet hq => exact hq.delivered
    | running hs => rfl
    | stopping hs ht => rfl
    | finish ec reason hs =>
      exact (finish_eq _ ec reason (by rcases hs with hs | hs <;> simp [hs])).2.1

/-- A step delivers the completion whose handler it calls, and nothing else. -/
theorem CoreStep.delivered {k : StepKind} {a b : ListenerCore} (h : CoreStep k a b) :
    b.delivered = a.delivered ++ k.delivered?.toList := by
  cases h with
  | deliver hstrand => rfl
  | off alive halive hcall => cases hcall <;> exact (List.append_nil _).symm
  | settleStart hstrand completion hc => exact (List.append_nil _).symm
  | start hstrand hs completion hc hbefore hafter =>
    have hbegun := moves_delivered hbefore
    exact ((moves_delivered hafter).trans hbegun).trans (List.append_nil _).symm
  | @wait _ w rest hstrand =>
    have hsame : ({ a with strand := rest }.registerWait w).delivered = a.delivered := by
      unfold ListenerCore.registerWait
      split
      · rfl
      · split <;> rfl
    exact hsame.trans (List.append_nil _).symm
  | @cancelWait _ id rest hstrand =>
    have hsame : ({ a with strand := rest }.cancelWait id).delivered = a.delivered := by
      unfold ListenerCore.cancelWait
      split <;> rfl
    exact hsame.trans (List.append_nil _).symm
  | stop hstrand hm hb => exact (moves_delivered hm).trans (List.append_nil _).symm
  | report hstrand hm => exact (moves_delivered hm).trans (List.append_nil _).symm
  | asynchronous hm => exact (moves_delivered hm).trans (List.append_nil _).symm
  | graceAborted htake hw => exact (List.append_nil _).symm
  | force htake hw keys => exact (List.append_nil _).symm

/-- What has been delivered is among the operations there are. -/
theorem deliveries_le_tally (handler : CompletionHandler) (c : ListenerCore) :
    deliveries handler c ≤ tally (withHandler handler) c := Nat.le_add_left _ _

/-- An internal step off the strand is the expiry of the shutdown timer, or a step of a session. -/
theorem ListenerLabel.isInternal_off {l : ListenerLabel} {call : CoreLabel}
    (h : l.isInternal = true) (hoff : l.off? = some call) :
    (∃ k, call = .graceExpires k) ∨ ∃ key label, call = .session key label := by
  have hcore {c : CoreLabel} (hc : (ListenerLabel.acceptor (.core c)).isInternal = true) :
      (∃ k, c = .graceExpires k) ∨ ∃ key label, c = .session key label := by
    cases c with
    | graceExpires k => exact Or.inl ⟨k, rfl⟩
    | session key label => exact Or.inr ⟨key, label, rfl⟩
    | _ => contradiction
  cases l with
  | acceptor l =>
    cases l with
    | core l => exact Option.some.inj hoff ▸ hcore h
    | _ => contradiction
  | socket l =>
    cases l with
    | core l =>
      obtain rfl := Option.some.inj hoff
      refine hcore ?_
      cases l <;> first | rfl | contradiction
    | _ => contradiction

/-- An internal step of a listener initiates nothing. -/
theorem Listener.isInternal_initiated {x y : Listener} {l : ListenerLabel}
    (hstep : x.step l = some y) (h : l.isInternal = true) : (x.kind l).initiated? = none := by
  cases hkind : x.kind l with
  | off call =>
    rcases l.isInternal_off h ((Listener.kind_eq_off hstep call).mp hkind) with
      ⟨k, rfl⟩ | ⟨key, label, rfl⟩ <;> rfl
  | deliver completion => rfl
  | cancelWait id => rfl
  | force arming => rfl
  | handler => rfl

namespace Server

variable {s : Server} {listener key index : ℕ} {x y : Listener}

/-- How many operations of a description a listener has. -/
def countAt (s : Server) (listener : ℕ) (p : Operation → Bool) : ℕ :=
  ((s.listeners[listener]?).map fun x => tally p x.core).getD 0

/-- How many operations with a child's handler a listener has. -/
def tallyAt (s : Server) (listener key index : ℕ) : ℕ :=
  s.countAt listener (withHandler (.child key index))

/-- How many completions with a child's handler a listener has delivered. -/
def deliveredAt (s : Server) (listener key index : ℕ) : ℕ :=
  ((s.listeners[listener]?).map fun x => deliveries (.child key index) x.core).getD 0

/-- A listener has delivered at most what it has. -/
theorem deliveredAt_le_tallyAt (s : Server) (listener key index : ℕ) :
    s.deliveredAt listener key index ≤ s.tallyAt listener key index := by
  unfold deliveredAt tallyAt countAt
  cases s.listeners[listener]? with
  | none => exact le_rfl
  | some x => exact deliveries_le_tally _ _

/-- A step of a listener counts the operation it initiates. -/
theorem countAt_setListener {l : ListenerLabel} (hx : s.listeners[listener]? = some x)
    (hstep : x.step l = some y) (p : Operation → Bool) (other : ℕ) :
    (s.setListener listener y).countAt other p = s.countAt other p +
      if other = listener then ((x.kind l).initiates x.core.nextWaiterId).countP p else 0 := by
  have hlt : listener < s.listeners.length := (List.getElem?_eq_some_iff.mp hx).1
  unfold countAt setListener
  by_cases hother : other = listener
  · subst hother
    rw [List.getElem?_set_self hlt, hx, if_pos rfl]
    exact (Listener.step_core hstep).tally
  · rw [List.getElem?_set_ne (Ne.symm hother), if_neg hother, Nat.add_zero]

/-- A step of a listener counts the child it initiates. -/
theorem tallyAt_setListener {l : ListenerLabel} (hx : s.listeners[listener]? = some x)
    (hstep : x.step l = some y) (other key index : ℕ) :
    (s.setListener listener y).tallyAt other key index = s.tallyAt other key index +
      if other = listener then (x.kind l).initiated?.toList.count (.child key index) else 0 := by
  have htally := (Listener.step_core hstep).tally (p := withHandler (.child key index))
  rw [(Listener.step_core hstep).tally_handler] at htally
  rw [tallyAt, countAt_setListener hx hstep, Nat.add_left_cancel htally]
  rfl

/-- A step of a listener counts the completion it delivers. -/
theorem deliveredAt_setListener {l : ListenerLabel} (hx : s.listeners[listener]? = some x)
    (hstep : x.step l = some y) (other key index : ℕ) :
    (s.setListener listener y).deliveredAt other key index = s.deliveredAt other key index +
      if other = listener then (x.kind l).delivered?.toList.countP
        (fun q => q.handler = .child key index) else 0 := by
  have hlt : listener < s.listeners.length := (List.getElem?_eq_some_iff.mp hx).1
  unfold deliveredAt setListener
  by_cases hother : other = listener
  · subst hother
    rw [List.getElem?_set_self hlt, hx, if_pos rfl]
    simp only [Option.map_some, Option.getD_some, deliveries,
      (Listener.step_core hstep).delivered, List.countP_append]
  · rw [List.getElem?_set_ne (Ne.symm hother), if_neg hother, Nat.add_zero]

/-- The server after a step has the operations of its outcome. -/
theorem Outcome.countAt {s₁ s' : Server} {done added : List Action}
    (h : Outcome s s₁ done added s') :
    s'.countAt = s₁.countAt := by
  funext listener p
  rw [Server.countAt, Server.countAt, h.listeners]

/-- The server after a step has the deliveries of its outcome. -/
theorem Outcome.deliveredAt {s₁ s' : Server} {done added : List Action}
    (h : Outcome s s₁ done added s') :
    s'.deliveredAt = s₁.deliveredAt := by
  funext listener key index
  rw [Server.deliveredAt, Server.deliveredAt, h.listeners]

end Server

end Serveza
