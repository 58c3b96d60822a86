import Serveza.Foundation.Registry
import Serveza.Listener

/-!
# Every operation is somewhere

A start or a wait that has been initiated is between its pieces of initiation, queued on the
strand, registered as a waiter, queued for completion, or delivered. A step moves operations
between these places and neither makes nor loses one: the number of operations of any
description changes only when one is initiated.
-/

namespace Serveza

open Foundation ListenerCore

/-- How many operations of a description there are, in all the places an operation can be. -/
def tally (p : Operation → Bool) (c : ListenerCore) : ℕ :=
  c.initiating.countP (fun w => p w.operation) + (c.strand.filterMap Message.operation?).countP p +
    c.waiters.countP (fun w => p w.operation) + c.delivered.countP (fun q => p q.operation)

/-- The operations a step initiates; waits are numbered from one. -/
def StepKind.initiates (k : StepKind) (nextWaiterId : ℕ) : List Operation :=
  match k with
  | .off (.asyncStart h) => [⟨h, none⟩]
  | .off (.beginWait h) => [⟨h, some (nextWaiterId + 1)⟩]
  | _ => []

variable {a b : ListenerCore} {p : Operation → Bool} {k : StepKind}

/-- The places an operation can be do not change if none of the fields that hold them does. -/
theorem tally_congr (hinitiating : b.initiating = a.initiating) (hstrand : b.strand = a.strand)
    (hwaiters : b.waiters = a.waiters) (hdelivered : b.delivered = a.delivered) :
    tally p b = tally p a := by
  simp only [tally, hinitiating, hstrand, hwaiters, hdelivered]

/-- Running a message takes its operation off the strand. -/
theorem tally_pop {m : Message} {rest : List Message} (h : a.strand = m :: rest) :
    tally p a = tally p { a with strand := rest } + m.operation?.toList.countP p := by
  cases hm : m.operation? with
  | none => simp [tally, h, hm]
  | some operation =>
    simp [tally, h, hm, List.countP_cons]
    omega

/-- Completing an operation puts it on the strand. -/
theorem tally_completeOn (completion : Completion) :
    tally p (a.completeOn completion) = tally p a + [completion.operation].countP p := by
  simp [tally, completeOn, post, Message.operation?, List.countP_append]
  omega

/-- Registering a wait accounts for it. -/
theorem tally_registerWait (w : WaitOperation) :
    tally p (a.registerWait w) = tally p a + [w.operation].countP p := by
  unfold ListenerCore.registerWait
  split
  · exact tally_completeOn _
  · split
    · exact tally_completeOn _
    · simp [tally, List.countP_append]
      omega

/-- Cancelling a registered wait moves it to the strand. -/
theorem tally_cancelWait (waiter : ℕ) : tally p (a.cancelWait waiter) = tally p a := by
  unfold ListenerCore.cancelWait
  split
  · rfl
  · rename_i w hw
    have hcount := (perm_of_find? hw).countP_eq fun w => p w.operation
    have hsame : (⟨w.handler, some w.id, .operationAborted, .cancelled⟩ : Completion).operation =
        w.operation := rfl
    rw [tally_completeOn, hsame]
    simp only [tally, hcount, List.countP_cons, List.countP_nil]
    omega

/-- A move makes and loses no operation. -/
theorem Move.tally (h : Move a b) : tally p b = tally p a := by
  cases h with
  | quiet h => exact tally_congr h.initiating h.strand h.waiters h.delivered
  | running h => exact tally_congr rfl rfl rfl rfl
  | stopping h ht => exact tally_congr rfl rfl rfl rfl
  | finish ec reason h =>
    obtain ⟨hstrand, hdelivered, hwaiters, -⟩ :=
      finish_eq a ec reason (by rcases h with h | h <;> simp [h])
    have hcompleted :
        (a.waiters.map fun w => Message.complete ⟨w.handler, some w.id, ec, .stopped⟩).filterMap
        Message.operation? = a.waiters.map WaitOperation.operation := by
      simp [List.filterMap_map, Function.comp_def, Message.operation?, Completion.operation,
        WaitOperation.operation]
    simp only [Serveza.tally, hstrand, hdelivered, hwaiters,
      (finish_sameGeneration a ec reason).initiating,
      List.filterMap_append, hcompleted, List.countP_append, List.countP_map,
      Function.comp_def, List.countP_nil]
    omega

/-- Moves make and lose no operation. -/
theorem moves_tally (h : Moves a b) : tally p b = tally p a := by
  induction h with
  | refl => rfl
  | tail _ hmove ih => exact hmove.tally.trans ih

/-- A step off the strand initiates what its label says. -/
theorem CallStep.tally {alive : Bool} {l : CoreLabel} (h : CallStep alive l a b) :
    tally p b = tally p a + ((StepKind.off l).initiates a.nextWaiterId).countP p := by
  cases h with
  | asyncStart hpos =>
    simp [Serveza.tally, post, Message.operation?, List.countP_append, StepKind.initiates]
    omega
  | cancelStart =>
    have hmap (m : Message) (h : CompletionHandler) :
        (m.cancelStart h).operation? = m.operation? := by
      cases m <;> rfl
    simp [Serveza.tally, StepKind.initiates, List.filterMap_map, hmap]
  | beginWait hpos =>
    simp [Serveza.tally, List.countP_append, StepKind.initiates, WaitOperation.operation]
    omega
  | @postWait _ waiter w hw =>
    have hcount := (perm_of_find? hw).countP_eq fun w => p w.operation
    simp only [Serveza.tally, post, hcount, StepKind.initiates, Message.operation?,
      List.filterMap_append,
      List.countP_append, List.countP_cons, List.filterMap_cons,
      List.filterMap_nil, List.countP_nil]
    omega
  | session hx hstep =>
    have hreports (reports : List SessionReport) :
        (reports.map Message.sessionFinished).filterMap Message.operation? = [] := by
      simp [List.filterMap_map, Function.comp_def, Message.operation?]
    cases alive <;> simp [Serveza.tally, StepKind.initiates, hreports]
  | postCancel hmem halive => simp [Serveza.tally, post, Message.operation?, StepKind.initiates]
  | stopPost hpos => simp [Serveza.tally, post, Message.operation?, StepKind.initiates]
  | _ => exact tally_congr rfl rfl rfl rfl

/-- No step makes or loses an operation: what there is afterwards was there before or is
initiated by the step. -/
theorem CoreStep.tally (h : CoreStep k a b) :
    tally p b = tally p a + (k.initiates a.nextWaiterId).countP p := by
  cases h with
  | off alive halive hcall => exact hcall.tally
  | @deliver _ completion rest hstrand =>
    rw [tally_pop hstrand]
    simp [Serveza.tally, ListenerCore.deliver, List.countP_append,
      Message.operation?, StepKind.initiates]
    omega
  | @settleStart _ handler cancelled rest hstrand completion hc =>
    rw [tally_pop hstrand, tally_completeOn, Completion.operation, hc.1, hc.2.1]
    rfl
  | @start _ m _ handler rest hstrand hs completion hc hbefore hafter =>
    rw [tally_pop hstrand, moves_tally hafter, tally_completeOn, moves_tally hbefore,
      Completion.operation, hc.1, hc.2.1]
    rfl
  | @wait _ w rest hstrand =>
    rw [tally_pop hstrand, tally_registerWait]
    rfl
  | @cancelWait _ waiter rest hstrand =>
    rw [tally_pop hstrand, tally_cancelWait]
    rfl
  | stop hstrand hm hb =>
    rw [tally_pop hstrand, moves_tally hm]
    rfl
  | report hstrand hm =>
    rw [tally_pop hstrand, moves_tally hm]
    rfl
  | asynchronous hm => exact moves_tally hm
  | graceAborted htake hw => exact tally_congr rfl rfl rfl rfl
  | force htake hw keys => exact tally_congr rfl rfl rfl rfl

end Serveza
