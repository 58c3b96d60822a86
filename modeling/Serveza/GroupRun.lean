import Serveza.Foundation.Run
import Serveza.OperationGroup

/-!
# A run of an operation group

One `listener_operation_group` among children that report when they like. The thread in
`start` goes through its two loops, each child that was initiated delivers one completion at
any later time, each call of `one` and of `cancel` has a locked part, which is one step, and
goes on afterwards piece by piece, and all of this interleaves.

The children that were initiated, the emissions that reached one of them, the listeners that
were asked to stop and the calls of `m_finished` are recorded by the model.
-/

namespace Serveza

open Foundation

/-- Where the thread in `start` is: before a child is initiated, before the look at
`m_cancelled` that follows, before the emission to that child, or in the second loop. -/
inductive GroupLoop where
  | initiate (index : ℕ)
  | check (index : ℕ)
  | emit (index : ℕ)
  | report (index : ℕ)
  deriving DecidableEq, Repr

/-- A group with the calls that are in progress on it: what each call of `one` and each call of
`cancel` has still to do, and the children that have not completed. -/
structure GroupRun where
  group : OperationGroup
  loop : GroupLoop := .initiate 0
  calls : List (List Action) := []
  cancelling : List (List ℕ) := []
  pending : List ℕ := []
  initiated : List ℕ := []
  received : List ℕ := []
  emissions : ℕ := 0
  stopped : List ℕ := []
  finished : List ErrorCode := []

/-- The steps: a piece of `start` with the exception out of an initiation, a completion, a
piece of a call of `one` with the answer of `m_finished` or `none` if it throws, a call of
`cancel`, and an emission of such a call. -/
inductive GroupLabel where
  | loop (threw : Option FailingException)
  | deliver (index : ℕ) (ec : ErrorCode) (cause : Cause)
  | proceed (call : ℕ) (answer : Option ErrorCode)
  | cancel (type : ℕ)
  | emit (call : ℕ)

/-- A piece of `start`, a completion or a piece of `one`, as opposed to a cancellation. -/
def GroupLabel.isWork : GroupLabel → Bool
  | .loop _ | .deliver .. | .proceed .. => true
  | .cancel _ | .emit _ => false

namespace GroupRun

/-- A group over some listeners whose `start` is about to run. -/
def create (wait : Bool) (size : ℕ) : GroupRun := { group := .create wait size }

variable (r : GroupRun)

/-- The locked part of `one`. -/
def one (report : Report) : GroupRun :=
  match r.group.one 0 report with
  | (group, actions) => { r with group := group, calls := r.calls ++ [actions] }

/-- Emit on the signal of a child, which has no handler before the child is initiated. -/
def emit (index : ℕ) : GroupRun :=
  { r with
    received := if index ∈ r.initiated then r.received ++ [index] else r.received
    emissions := r.emissions + 1 }

/-- The error kept of the initiation of a child. -/
def initiationEc (index : ℕ) : ErrorCode := (r.group.initiationEcs[index]?).getD .success

/-- One piece of `start`. -/
def stepLoop (threw : Option FailingException) : Option GroupRun :=
  match r.loop with
  | .initiate index =>
    if index < r.group.size then
      match threw with
      | some e =>
        some { r with
          group := { r.group with initiationEcs := r.group.initiationEcs.set index e.error }
          loop := .initiate (index + 1) }
      | none =>
        some { r with
          pending := r.pending ++ [index]
          initiated := r.initiated ++ [index]
          loop := .check index }
    else some { r with loop := .report 0 }
  | .check index =>
    some { r with loop := if r.group.cancelled = 0 then .initiate (index + 1) else .emit index }
  | .emit index => some { r.emit index with loop := .initiate (index + 1) }
  | .report index =>
    if index < r.group.size then
      some { (if (r.initiationEc index).failed then r.one ⟨index, r.initiationEc index, none⟩
        else r) with
        loop := .report (index + 1) }
    else none

/-- One step. -/
def step : GroupLabel → Option GroupRun
  | .loop threw => r.stepLoop threw
  | .deliver index ec cause =>
    if index ∈ r.pending then some
      ({ r with pending := r.pending.erase index }.one ⟨index, ec, some cause⟩) else none
  | .proceed call answer =>
    match r.calls[call]? with
    | some (.stopRead listener :: rest) =>
      some { r with calls := r.calls.set call rest, stopped := r.stopped ++ [listener] }
    | some (.finish _ result :: rest) =>
      some { r with
        group := r.group.complete (answer.getD result)
        calls := r.calls.set call rest
        finished := r.finished ++ [result] }
    | _ => none
  | .cancel type =>
    some (if type = 0 then r
      else { r with
        group := { r.group with cancelled := r.group.cancelled ||| type }
        cancelling := r.cancelling ++ [List.range r.group.size] })
  | .emit call =>
    match r.cancelling[call]? with
    | some (index :: rest) => some { r.emit index with cancelling := r.cancelling.set call rest }
    | _ => none

/-- Nothing is left to happen but cancellations. -/
def Settled : Prop := ∀ l : GroupLabel, l.isWork = true → r.step l = none

/-- The steps by their effect. -/
inductive Step (r : GroupRun) : GroupLabel → GroupRun → Prop where
  | initiates {index} (hloop : r.loop = .initiate index) (hindex : index < r.group.size) :
    Step r (.loop none) { r with
    pending := r.pending ++ [index], initiated := r.initiated ++ [index], loop := .check index }
  | throws {index} {e : FailingException} (hloop : r.loop = .initiate index)
    (hindex : index < r.group.size) : Step r (.loop (some e)) { r with
      group := { r.group with initiationEcs := r.group.initiationEcs.set index e.error }
      loop := .initiate (index + 1) }
  | initiated {threw index} (hloop : r.loop = .initiate index) (hindex : ¬index < r.group.size) :
    Step r (.loop threw) { r with loop := .report 0 }
  | unnoticed {threw index} (hloop : r.loop = .check index) (hcancelled : r.group.cancelled = 0) :
    Step r (.loop threw) { r with loop := .initiate (index + 1) }
  | noticed {threw index} (hloop : r.loop = .check index) (hcancelled : r.group.cancelled ≠ 0) :
    Step r (.loop threw) { r with loop := .emit index }
  | passesOn {threw index} (hloop : r.loop = .emit index) : Step r (.loop threw) { r.emit index with
    loop := .initiate (index + 1) }
  | reportsFailure {threw index} (hloop : r.loop = .report index) (hindex : index < r.group.size)
      (hfailed : (r.initiationEc index).failed = true) :
    Step r (.loop threw) { r.one ⟨index, r.initiationEc index, none⟩ with
      loop := .report (index + 1) }
  | reportsNothing {threw index} (hloop : r.loop = .report index) (hindex : index < r.group.size)
      (hfailed : (r.initiationEc index).failed = false) :
    Step r (.loop threw) { r with loop := .report (index + 1) }
  | delivers {index ec cause} (hpending : index ∈ r.pending) :
    Step r (.deliver index ec cause)
    ({ r with pending := r.pending.erase index }.one ⟨index, ec, some cause⟩)
  | asksStop {call answer listener rest}
    (hcall : r.calls[call]? = some (.stopRead listener :: rest)) :
    Step r (.proceed call answer) { r with
      calls := r.calls.set call rest, stopped := r.stopped ++ [listener] }
  | finishes {call key result rest answer}
    (hcall : r.calls[call]? = some (.finish key result :: rest)) :
    Step r (.proceed call answer) { r with
      group := r.group.complete (answer.getD result)
      calls := r.calls.set call rest
      finished := r.finished ++ [result] }
  | cancelsNothing : Step r (.cancel 0) r
  | cancels {type : ℕ} (htype : type ≠ 0) :
    Step r (.cancel type) { r with
      group := { r.group with cancelled := r.group.cancelled ||| type }
      cancelling := r.cancelling ++ [List.range r.group.size] }
  | emits {call index rest} (hcall : r.cancelling[call]? = some (index :: rest)) :
    Step r (.emit call) { r.emit index with cancelling := r.cancelling.set call rest }

variable {r} {t : GroupRun} {l : GroupLabel}

/-- A piece of `start` is one of the steps of its loops. -/
theorem stepLoop_cases {threw : Option FailingException} (h : r.stepLoop threw = some t) :
    r.Step (.loop threw) t := by
  unfold stepLoop at h
  split at h
  · rename_i index hloop
    split at h
    · rename_i hindex
      split at h
      · cases h
        exact .throws hloop hindex
      · cases h
        exact .initiates hloop hindex
    · rename_i hindex
      cases h
      exact .initiated hloop hindex
  · rename_i index hloop
    by_cases hcancelled : r.group.cancelled = 0
    · simp only [hcancelled, if_pos, Option.some.injEq] at h
      cases h
      exact .unnoticed hloop hcancelled
    · simp only [hcancelled, if_false, Option.some.injEq] at h
      cases h
      exact .noticed hloop hcancelled
  · rename_i index hloop
    cases h
    exact .passesOn hloop
  · rename_i index hloop
    split at h
    · rename_i hindex
      cases hfailed : (r.initiationEc index).failed with
      | true =>
        simp only [hfailed, if_pos, Option.some.injEq] at h
        cases h
        exact .reportsFailure hloop hindex hfailed
      | false =>
        simp only [hfailed, Bool.false_eq_true, if_false, Option.some.injEq] at h
        cases h
        exact .reportsNothing hloop hindex hfailed
    · cases h

/-- Every step is one of the listed ones. -/
theorem step_cases (h : r.step l = some t) : r.Step l t := by
  cases l with
  | loop threw => exact stepLoop_cases h
  | deliver index ec cause =>
    simp only [step] at h
    split at h
    · cases h
      exact .delivers (by assumption)
    · cases h
  | proceed call answer =>
    simp only [step] at h
    split at h
    · cases h
      exact .asksStop (by assumption)
    · cases h
      exact .finishes (by assumption)
    · cases h
  | cancel type =>
    simp only [step, Option.some.injEq] at h
    by_cases htype : type = 0
    · simp only [htype, if_pos] at h
      subst htype h
      exact .cancelsNothing
    · simp only [htype, if_false] at h
      subst h
      exact .cancels htype
  | emit call =>
    simp only [step] at h
    split at h
    · cases h
      exact .emits (by assumption)
    · cases h

end GroupRun

end Serveza
