import Serveza.Reshaping
import Serveza.Shutdown

/-!
# A listener that is lent a handle

No handler of a listener looks at the handles to it, and a step off the strand looks at them
only to see whether the listener may be called or still exists. So as long as a listener
exists, it goes on as if somebody held it, and it tends to its sessions as one that is held.
-/

namespace Serveza

open Foundation ListenerCore

/-- The same listener, held by one handle. -/
def ListenerCore.lend (c : ListenerCore) : ListenerCore := { c with handles := 1 }

/-- Lending a handle leaves all else as it is. -/
theorem lent_neutral : Bookkeeping.Neutral fun b => { b with handles := 1 } :=
  ⟨fun _ _ _ => rfl, fun _ _ => rfl⟩

namespace ListenerCore

variable (c : ListenerCore)

/-- Registering a wait does not depend on the handles. -/
theorem lend_registerWait (w : WaitOperation) :
    c.lend.registerWait w = (c.registerWait w).lend := by
  unfold registerWait
  rw [apply_ite lend, apply_ite lend]
  rfl

/-- Cancelling a wait does not depend on the handles. -/
theorem lend_cancelWait (waiter : ℕ) : c.lend.cancelWait waiter = (c.cancelWait waiter).lend := by
  have hwaiters : c.lend.waiters = c.waiters := rfl
  unfold cancelWait
  rw [hwaiters]
  cases c.waiters.find? fun w => w.id = waiter <;> rfl

variable {c} {b : ListenerCore} {l : CoreLabel}

/-- A call does what it would do with one handle, or changes the number of handles only. -/
theorem lend_call (h : c.call true l = some b) :
    b.lend = c.lend ∨ c.lend.call true l = some b.lend := by
  cases call_cases h with
  | cloneHandle | dropHandle => exact Or.inl rfl
  | asyncStart | beginWait => exact Or.inr rfl
  | cancelStart => exact Or.inr rfl
  | postWait hw => exact Or.inr (Option.map_eq_some_iff.mpr ⟨_, hw, rfl⟩)
  | @cancelWait _ waiter hconnected =>
    have hany : c.connectedWaits.any (fun w => w.id = waiter) = true := by simpa using hconnected
    exact Or.inr (if_pos hany)
  | @cancelGone _ waiter hgone =>
    have hnone : ¬c.connectedWaits.any (fun w => w.id = waiter) = true := by simpa using hgone
    exact Or.inr (if_neg hnone)
  | postCancel hmem => exact Or.inr (if_pos hmem)
  | dropCancel hmem halive => contradiction
  | stopReturns hpos hs => exact Or.inr (congrArg some (if_pos hs))
  | stopRead hpos hs => exact Or.inr (congrArg some (if_neg hs))
  | stopPost hpos => exact Or.inr (if_pos hpos)
  | graceExpires htimer => exact Or.inr (Option.map_eq_some_iff.mpr ⟨_, htimer, rfl⟩)
  | session hx hstep =>
    exact Or.inr (Option.bind_eq_some_iff.mpr ⟨_, hx, Option.map_eq_some_iff.mpr ⟨_, hstep, rfl⟩⟩)

end ListenerCore

namespace AcceptorListener

variable (s : AcceptorListener) (answers : AcceptorAnswers)

/-- The same listener, held by one handle. -/
def lend : AcceptorListener := s.mapCore ListenerCore.lend

/-- Running a posted message does not depend on the handles. -/
theorem lend_handle (message : Message) :
    s.lend.handle answers message = (s.handle answers message).lend := by
  cases message with
  | wait w => exact congrArg (fun c => { s with core := c }) (s.core.lend_registerWait w)
  | cancelWait waiter =>
    exact congrArg (fun c => { s with core := c }) (s.core.lend_cancelWait waiter)
  | complete completion => rfl
  | start | stop | sessionFinished => exact s.reshape_handle answers lent_neutral rfl

variable {s} {t : AcceptorListener} {l : AcceptorLabel}

/-- A listener that exists goes on as if somebody held it. -/
theorem lend_step (halive : s.alive = true) (hstep : s.step l = some t) :
    t.lend = s.lend ∨ s.lend.step l = some t.lend := by
  cases l with
  | core l =>
    obtain ⟨c, hc, rfl⟩ := Option.map_eq_some_iff.mp hstep
    refine (ListenerCore.lend_call (halive ▸ hc)).imp
      (congrArg fun c => { s with core := c }) fun hcall => ?_
    have hexists : s.lend.alive = true := by
      simp [alive, lend, mapCore, ListenerCore.lend, referenced]
    refine Option.map_eq_some_iff.mpr ⟨c.lend, ?_, rfl⟩
    rw [hexists]
    exact hcall
  | run answers =>
    refine Or.inr ?_
    cases hstrand : s.core.strand with
    | nil => simp [step, hstrand] at hstep
    | cons message rest =>
      obtain rfl : _ = t := by simpa [step, hstrand] using hstep
      have hlent : s.lend.core.strand = message :: rest := hstrand
      simp only [step, hlent]
      exact congrArg some
        ((s.mapCore fun c => { c with strand := rest }).lend_handle answers message)
  | accepted | retryExpires | retryHandler | graceHandler =>
    have hlent := reshape_step lent_neutral (by simp) (by simp) hstep
    exact Or.inr hlent

end AcceptorListener

namespace SocketListener

variable (s : SocketListener) (answers : SocketAnswers)

/-- The same listener, held by one handle. -/
def lend : SocketListener := s.mapCore ListenerCore.lend

/-- Running a posted message does not depend on the handles. -/
theorem lend_handle (message : Message) :
    s.lend.handle answers message = (s.handle answers message).lend := by
  cases message with
  | wait w => exact congrArg (fun c => { s with core := c }) (s.core.lend_registerWait w)
  | cancelWait waiter =>
    exact congrArg (fun c => { s with core := c }) (s.core.lend_cancelWait waiter)
  | complete completion => rfl
  | start | stop | sessionFinished => exact s.reshape_handle answers lent_neutral rfl

variable {s} {t : SocketListener} {l : SocketLabel}

/-- A listener that exists goes on as if somebody held it. -/
theorem lend_step (halive : s.alive = true) (hstep : s.step l = some t) :
    t.lend = s.lend ∨ s.lend.step l = some t.lend := by
  cases l with
  | core l =>
    obtain ⟨c, hc, rfl⟩ := Option.map_eq_some_iff.mp hstep
    refine (ListenerCore.lend_call (halive ▸ hc)).imp
      (congrArg fun c => { s with core := c }) fun hcall => ?_
    have hexists : s.lend.alive = true := by
      simp [alive, lend, mapCore, ListenerCore.lend, referenced]
    refine Option.map_eq_some_iff.mpr ⟨c.lend, ?_, rfl⟩
    rw [hexists]
    exact hcall
  | run answers =>
    refine Or.inr ?_
    cases hstrand : s.core.strand with
    | nil => simp [step, hstrand] at hstep
    | cons message rest =>
      obtain rfl : _ = t := by simpa [step, hstrand] using hstep
      have hlent : s.lend.core.strand = message :: rest := hstrand
      simp only [step, hlent]
      exact congrArg some
        ((s.mapCore fun c => { c with strand := rest }).lend_handle answers message)
  | graceHandler k =>
    have hlent := reshape_step (f := fun b => { b with handles := 1 }) (by simp) (by simp) hstep
    exact Or.inr hlent

end SocketListener

/-- The same listener, held by one handle. -/
def Listener.lend : Listener → Listener
  | .acceptor s => .acceptor s.lend
  | .socket s => .socket s.lend

/-- Some strong reference to the listener exists. -/
def Listener.alive : Listener → Bool
  | .acceptor s => s.alive
  | .socket s => s.alive

/-- A listener that exists is kept as one that somebody holds. -/
theorem Listener.Kept.lend_step {x y : Listener} {l : ListenerLabel} (h : x.lend.Kept)
    (halive : x.alive = true) (hstep : x.step l = some y) : y.lend.Kept := by
  cases x with
  | acceptor s =>
    cases l with
    | socket l => contradiction
    | acceptor l =>
      obtain ⟨t, ht, rfl⟩ := Option.map_eq_some_iff.mp hstep
      rcases AcceptorListener.lend_step halive ht with heq | hlent
      · change Listener.Kept (.acceptor t.lend)
        rw [heq]
        exact h
      · exact h.step (l := .acceptor l) (Option.map_eq_some_iff.mpr ⟨t.lend, hlent, rfl⟩)
  | socket s =>
    cases l with
    | acceptor l => contradiction
    | socket l =>
      obtain ⟨t, ht, rfl⟩ := Option.map_eq_some_iff.mp hstep
      rcases SocketListener.lend_step halive ht with heq | hlent
      · change Listener.Kept (.socket t.lend)
        rw [heq]
        exact h
      · exact h.step (l := .socket l) (Option.map_eq_some_iff.mpr ⟨t.lend, hlent, rfl⟩)

end Serveza
