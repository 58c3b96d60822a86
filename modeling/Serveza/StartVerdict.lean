import Serveza.AcceptorBooks
import Serveza.Completions

/-!
# The verdict of a start

A start that begins a generation completes once, with the error of the first call of the
startup sequence that fails, or with success. The state, the diagnostics and the waiters tell
the same story: the generation either runs, or is rolled back and has ended every wait with
the error of the start.
-/

namespace Serveza

open Foundation ListenerCore

/-- What the calls of a startup sequence up to `bind` answer, in order. -/
def StartupAnswers.codes (answers : StartupAnswers) (endpoint : Endpoint) : List ErrorCode :=
  [answers.opened] ++ (if endpoint.isIp && endpoint.isV6 then [answers.v6Only] else []) ++
    (if endpoint.isIp then [answers.reuseAddress] else []) ++ [answers.bound]

/-- The error the startup sequence is left with is the first one that is reported. -/
theorem StartupAnswers.find_codes (answers : StartupAnswers) (endpoint : Endpoint) :
    (answers.codes endpoint).find? ErrorCode.failed =
      if (answers.bindError endpoint).failed then some (answers.bindError endpoint) else none := by
  unfold codes bindError
  cases hopened : answers.opened.failed <;> cases endpoint.isIp <;> cases endpoint.isV6 <;>
    cases hv6 : answers.v6Only.failed <;> cases hreuse : answers.reuseAddress.failed <;>
    cases hbound : answers.bound.failed <;> simp [*]

/-- The completions of the waits of a listener that stops with an error. -/
def ListenerCore.endedBy (c : ListenerCore) (ec : ErrorCode) : List Completion :=
  c.waiters.map fun w => ⟨w.handler, some w.id, ec, .stopped⟩

/-- How the shared part of a listener is left by a start that begins a generation: the start is
completed exactly once; if it fails, the listener is stopped, and every wait is completed with
the same error. -/
structure StartVerdict (a : ListenerCore) (handler : CompletionHandler) (ec : ErrorCode)
    (b : ListenerCore) : Prop where
  generation : b.generation = a.generation + 1
  succeeds : ec.failed = false → b.state = .running ∧ b.waiters = a.waiters ∧
    b.completed = a.completed ++ [⟨handler, none, .success, .started⟩]
  fails : ec.failed = true → b.state = .stopped ∧ b.stopReason = .startupFailure ∧ b.waiters = [] ∧
    (b.lastError.failed = true ∨ b.lastException.isSome = true) ∧
    b.completed.Perm (⟨handler, none, ec, .startupFailed⟩ :: a.endedBy ec ++ a.completed)

section Finish

variable {a m : ListenerCore} {handler : CompletionHandler} {ec : ErrorCode}

/-- A generation that finishes with an error leaves a diagnostic. -/
theorem finish_diagnosed (h : a.state ≠ .stopped) (hec : ec.failed = true)
    (reason : ListenerStopReason) :
    (a.finish ec reason).lastError.failed = true ∨
    (a.finish ec reason).lastException.isSome = true := by
  have herror : (a.finish ec reason).lastError =
      if ec.failed && !a.lastError.failed && a.lastException.isNone then ec else a.lastError := by
    unfold ListenerCore.finish
    rw [if_neg h]
    rfl
  have hexception : (a.finish ec reason).lastException = a.lastException := by
    unfold ListenerCore.finish
    rw [if_neg h]
    rfl
  rw [herror, hexception]
  cases hlast : a.lastError.failed <;> cases hep : a.lastException <;> simp [hec, hlast]

/-- What is completed is what is delivered or queued for delivery. -/
theorem completed_congr (hstrand : m.strand = a.strand) (hdelivered : m.delivered = a.delivered) :
    m.completed = a.completed := by
  rw [completed, completed, hstrand, hdelivered]

/-- What finishing a generation that has just begun leaves, if its start is completed before. -/
theorem startVerdict_of_completeOn (hstate : m.state ≠ .stopped)
    (hgeneration : m.generation = a.generation + 1) (hwaiters : m.waiters = a.waiters)
    (hstrand : m.strand = a.strand) (hdelivered : m.delivered = a.delivered)
    (hec : ec.failed = true) :
    StartVerdict a handler ec
      ((m.completeOn ⟨handler, none, ec, .startupFailed⟩).finish ec .startupFailure) := by
  have hpending : (m.completeOn ⟨handler, none, ec, .startupFailed⟩).state ≠ .stopped := hstate
  refine ⟨(finish_sameGeneration _ _ _).generation.trans hgeneration,
    fun hsuccess => ?_, fun _ => ?_⟩
  · exact Bool.noConfusion (hec.symm.trans hsuccess)
  · refine ⟨finish_state _ _ _, finish_stopReason _ _ _ hpending, (finish_eq _ ec _ hpending).2.2.1,
      finish_diagnosed hpending hec _, ?_⟩
    rw [Completes.completed_finish _ _ _ hpending, Completes.completed_completeOn,
      completed_congr hstrand hdelivered, List.append_assoc]
    change (a.completed ++ ([_] ++ m.endedBy ec)).Perm _
    rw [endedBy, hwaiters]
    exact List.perm_append_comm

/-- What finishing a generation that has just begun leaves, if its start is completed after. -/
theorem startVerdict_of_finish (hstate : m.state ≠ .stopped)
    (hgeneration : m.generation = a.generation + 1) (hwaiters : m.waiters = a.waiters)
    (hstrand : m.strand = a.strand) (hdelivered : m.delivered = a.delivered)
    (hec : ec.failed = true) :
    StartVerdict a handler ec
      ((m.finish ec .startupFailure).completeOn ⟨handler, none, ec, .startupFailed⟩) := by
  refine ⟨(finish_sameGeneration m ec _).generation.trans hgeneration,
    fun hsuccess => ?_, fun _ => ?_⟩
  · exact Bool.noConfusion (hec.symm.trans hsuccess)
  · refine ⟨finish_state m ec _, finish_stopReason _ _ _ hstate, (finish_eq m ec _ hstate).2.2.1,
      finish_diagnosed hstate hec _, ?_⟩
    rw [Completes.completed_completeOn, Completes.completed_finish _ _ _ hstate,
      completed_congr hstrand hdelivered, List.append_assoc]
    change (a.completed ++ (m.endedBy ec ++ [_])).Perm _
    rw [endedBy, hwaiters]
    exact List.perm_append_comm.trans ((List.perm_append_singleton _ _).append_right _)

end Finish

/-- The verdict of a start does not depend on whether its message is still on the strand. -/
theorem StartVerdict.popped_iff {a b : ListenerCore} {handler : CompletionHandler}
    {cancelled : Bool} {rest : List Message} {ec : ErrorCode}
    (hstrand : a.strand = .start handler cancelled :: rest) :
    StartVerdict a handler ec b ↔ StartVerdict { a with strand := rest } handler ec b := by
  have hcompleted : a.completed = { a with strand := rest }.completed := by
    rw [completed, completed, hstrand]
    rfl
  refine ⟨fun h => ⟨h.generation, ?_, ?_⟩, fun h => ⟨h.generation, ?_, ?_⟩⟩
  · rw [← hcompleted]
    exact h.succeeds
  · rw [← hcompleted]
    exact h.fails
  · rw [hcompleted]
    exact h.succeeds
  · rw [hcompleted]
    exact h.fails

end Serveza
