import Serveza.ListenerCore

/-!
# Operation groups

`listener_operation_group` runs one operation of a server as one child operation for each
listener of a snapshot. Listeners are only ever added to a server, so the snapshot is the
first `size` of them, and the child with index `i` belongs to listener `i`. What a thread
still has to do is a list of actions. `reports` and `results` exist in the model only: they
record the calls of `one` and the completions of the operation.
-/

namespace Serveza

/-- A piece of a call that a thread still has to carry out. Each one touches shared state
once. -/
inductive Action where
  /-- The call of `begin_start`, and what `do_async_start` does with its answer. -/
  | beginStart (group : ℕ)
  /-- One round of the loop of `start`: `async_start` of one child. -/
  | startChild (group index : ℕ)
  /-- One round of the loop of `start`: `async_wait` of one child. -/
  | waitChild (group index : ℕ)
  /-- The post in a listener's `async_wait`. -/
  | postWait (listener id : ℕ)
  /-- The look at `m_cancelled` after a child was initiated. -/
  | checkCancelled (group index : ℕ)
  /-- The cancellation signal of one child. -/
  | emit (group index : ℕ)
  /-- The post in the cancellation handler of a listener's wait. -/
  | postCancel (listener id : ℕ)
  /-- One round of the second loop of `start`: `one` for a child whose initiation failed. -/
  | reportInitiation (group index : ℕ)
  /-- The check of `stop_requested` after the children were started. -/
  | recheck (group : ℕ)
  /-- The look of a listener's `request_stop` at its state. -/
  | stopRead (listener : ℕ)
  /-- The post of a listener's `request_stop`. -/
  | stopPost (listener : ℕ)
  /-- The end of the operation: `m_finished` and the completion. -/
  | finish (group : ℕ) (result : ErrorCode)
  /-- The end of `server::request_stop`, which holds the registry's mutex. -/
  | unlock
  /-- The end of a handler that ran on the strand of a listener. -/
  | release (listener : ℕ)
  deriving DecidableEq, Repr

/-- One call of `one`: the child, its error, and the branch that completed it, or `none` if
its initiation failed. -/
structure Report where
  index : ℕ
  error : ErrorCode
  cause : Option Cause
  deriving DecidableEq, Repr

/-- One operation of a server over a snapshot of its listeners. -/
structure OperationGroup where
  wait : Bool
  size : ℕ
  remaining : ℕ
  initiationEcs : List ErrorCode
  firstEc : ErrorCode := .success
  cancelled : ℕ := 0
  connected : Bool
  reports : List Report := []
  results : List ErrorCode := []
  deriving DecidableEq, Repr

namespace OperationGroup

/-- A new operation; without listeners there is nothing to cancel. -/
def create (wait : Bool) (size : ℕ) : OperationGroup :=
  { wait := wait, size := size, remaining := size, initiationEcs := List.replicate size .success,
    connected := decide (0 < size) }

variable (group : OperationGroup) (key : ℕ)

/-- Ask every listener of the snapshot to stop. -/
def requestStop : List Action := (List.range group.size).map .stopRead

/-- The loops of `start`. -/
def start : List Action :=
  (List.range group.size).map (if group.wait then .waitChild key else .startChild key) ++
    (List.range group.size).map (.reportInitiation key)

/-- One child is done: the first error of a start stops every listener, and the last child
ends the operation. -/
def one (report : Report) : OperationGroup × List Action :=
  let first := report.error.failed && !group.firstEc.failed
  let firstEc := if first then report.error else group.firstEc
  let complete := decide (group.remaining = 1)
  ({ group with
      firstEc := firstEc
      remaining := group.remaining - 1
      connected := group.connected && !complete
      reports := group.reports ++ [report] },
    (if first && !group.wait then group.requestStop else []) ++
      if complete then [.finish key firstEc] else [])

/-- Complete the operation. -/
def complete (result : ErrorCode) : OperationGroup :=
  { group with results := group.results ++ [result] }

/-- Complete an operation that was not begun. -/
def reject (result : ErrorCode) : OperationGroup :=
  { group with connected := false }.complete result

variable {group key} {a : Action}

/-- The loops of an operation initiate its children and look for their failures. -/
theorem start_mem (h : a ∈ group.start key) :
    (∃ index < group.size, group.wait = false ∧ a = .startChild key index) ∨
      (∃ index < group.size, group.wait = true ∧ a = .waitChild key index) ∨
        ∃ index < group.size, a = .reportInitiation key index := by
  rcases List.mem_append.mp h with h | h
  · obtain ⟨index, hindex, rfl⟩ := List.mem_map.mp h
    cases group.wait with
    | true => exact Or.inr (Or.inl ⟨index, List.mem_range.mp hindex, rfl, rfl⟩)
    | false => exact Or.inl ⟨index, List.mem_range.mp hindex, rfl, rfl⟩
  · obtain ⟨index, hindex, rfl⟩ := List.mem_map.mp h
    exact Or.inr (Or.inr ⟨index, List.mem_range.mp hindex, rfl⟩)

/-- A report stops listeners and completes its operation. -/
theorem one_mem {report : Report} (h : a ∈ (group.one key report).2) :
    (∃ index, a = .stopRead index) ∨ ∃ result, a = .finish key result := by
  rcases List.mem_append.mp h with h | h
  · split at h
    · obtain ⟨index, -, rfl⟩ := List.mem_map.mp h
      exact Or.inl ⟨index, rfl⟩
    · simp at h
  · split at h
    · exact Or.inr ⟨_, List.mem_singleton.mp h⟩
    · simp at h

/-- The first error reported, or success. -/
def firstError (group : OperationGroup) : ErrorCode :=
  ((group.reports.map Report.error).find? ErrorCode.failed).getD .success

/-- An error that is the first one was reported. -/
theorem firstError_mem {group : OperationGroup} (h : group.firstError.failed = true) :
    ∃ report ∈ group.reports, report.error = group.firstError := by
  unfold firstError at h ⊢
  cases hfind : (group.reports.map Report.error).find? ErrorCode.failed with
  | none =>
    rw [hfind] at h
    contradiction
  | some ec => exact List.mem_map.mp (List.mem_of_find?_eq_some hfind)

/-- If an error was reported there is a first one. -/
theorem firstError_failed {group : OperationGroup}
    (h : ∃ report ∈ group.reports, report.error.failed = true) :
    group.firstError.failed = true := by
  obtain ⟨report, hmem, hfailed⟩ := h
  cases hfind : (group.reports.map Report.error).find? ErrorCode.failed with
  | none => exact absurd hfailed (List.find?_eq_none.mp hfind _ (List.mem_map_of_mem hmem))
  | some ec =>
    rw [firstError, hfind]
    exact List.find?_some hfind

/-- There is a first error exactly if one was reported. -/
theorem firstError_failed_eq (group : OperationGroup) :
    group.firstError.failed = group.reports.any (·.error.failed) := by
  rw [Bool.eq_iff_iff, List.any_eq_true]
  refine ⟨fun h => ?_, firstError_failed⟩
  obtain ⟨report, hmem, herror⟩ := firstError_mem h
  exact ⟨report, hmem, herror ▸ h⟩

/-- The first error reported is kept. -/
theorem firstError_append (group : OperationGroup) (report : Report) :
    { group with reports := group.reports ++ [report] }.firstError =
      if report.error.failed && !group.firstError.failed then report.error
      else group.firstError := by
  unfold firstError
  rw [List.map_append, List.find?_append]
  cases hfind : (group.reports.map Report.error).find? ErrorCode.failed with
  | some ec =>
    have hfailed : ec.failed = true := by simpa using List.find?_some hfind
    simp [hfailed]
  | none =>
    by_cases hfailed : report.error.failed = true
    · simp [hfailed]
    · simp [Bool.not_eq_true _ ▸ hfailed]

end OperationGroup

end Serveza
