import Serveza.ServerListeners
import Serveza.StrandWork

/-!
# The work a server has left

The calls in progress and the strands of the listeners feed each other: a call posts to a
strand, and the handler of a child that runs there may stop every listener of its operation,
which posts to their strands. Each action and each posted message is weighed by all it may
come to, so that whatever is done next there is less left.
-/

namespace Serveza

open Foundation

/-- What the handler of an operation may come to: that of a child stops every listener of the
snapshot, completes the operation and leaves the strand. -/
def burst (size : ℕ → ℕ) : CompletionHandler → ℕ
  | .user _ => 0
  | .child key _ => 3 * size key + 3

/-- What an action may come to, given the sizes of the operations. -/
def Action.work (size : ℕ → ℕ) : Action → ℕ
  | .beginStart key => size key * (6 * size key + 17) + 3 * size key + 2
  | .startChild key _ => 3 * size key + 10
  | .waitChild key _ => 3 * size key + 13
  | .postWait _ _ => 1
  | .checkCancelled _ _ => 4
  | .emit _ _ => 3
  | .postCancel _ _ => 2
  | .reportInitiation key _ => 3 * size key + 4
  | .recheck key => 3 * size key + 1
  | .stopRead _ => 3
  | .stopPost _ => 2
  | .finish _ _ => 1
  | .unlock => 1
  | .release _ => 1

/-- What several actions may come to. -/
def actionsWork (size : ℕ → ℕ) (actions : List Action) : ℕ := (actions.map (Action.work size)).sum

section Actions

variable {size : ℕ → ℕ} {group : OperationGroup} {key : ℕ}

/-- The work of two lists of actions adds up. -/
theorem actionsWork_append (actions more : List Action) :
    actionsWork size (actions ++ more) = actionsWork size actions + actionsWork size more := by
  simp [actionsWork]

/-- Stopping every listener of a snapshot costs three per listener. -/
theorem actionsWork_stopReads (n : ℕ) :
    actionsWork size ((List.range n).map .stopRead) = 3 * n := by
  simp [actionsWork, Function.comp_def, Action.work, Nat.mul_comm]

/-- What a report leaves to be done is paid for by the handler that makes it. -/
theorem actionsWork_one (hsize : size key = group.size) (report : Report) :
    actionsWork size (group.one key report).2 ≤ 3 * size key + 1 := by
  have hstops : actionsWork size
      (if report.error.failed && !group.firstEc.failed && !group.wait then group.requestStop
        else []) ≤
      3 * size key := by
    split
    · rw [OperationGroup.requestStop, actionsWork_stopReads, hsize]
    · exact Nat.zero_le _
  have hfinish (ec : ErrorCode) : actionsWork size
      (if group.remaining = 1 then [.finish key ec] else []) ≤ 1 := by
    split
    · exact le_rfl
    · exact Nat.zero_le _
  simp only [OperationGroup.one, actionsWork_append, decide_eq_true_eq]
  exact Nat.add_le_add hstops (hfinish _)

/-- What the handler of a child leaves on a strand is paid for by its completion. -/
theorem actionsWork_onStrand (hsize : size key = group.size) (listener : ℕ) (report : Report) :
    actionsWork size (Server.onStrand listener (group.one key report).2) < 3 * size key + 3 := by
  unfold Server.onStrand
  split
  · exact Nat.succ_pos _
  · have hone := actionsWork_one hsize report
    rw [actionsWork_append]
    simp only [actionsWork, List.map_singleton, List.sum_singleton, Action.work] at hone ⊢
    omega

/-- The loops of an operation cost less than beginning it. -/
theorem actionsWork_start (hsize : size key = group.size) :
    actionsWork size (group.start key) ≤ size key * (6 * size key + 17) := by
  have hchildren : actionsWork size
      ((List.range group.size).map (if group.wait then .waitChild key else .startChild key)) ≤
      size key * (3 * size key + 13) := by
    cases group.wait <;> simp [actionsWork, Function.comp_def, Action.work, hsize]
    exact Nat.mul_le_mul_left _ (by omega)
  have hreports : actionsWork size ((List.range group.size).map (.reportInitiation key)) =
      size key * (3 * size key + 4) := by
    simp [actionsWork, Function.comp_def, Action.work, hsize]
  rw [OperationGroup.start, actionsWork_append, hreports]
  refine (Nat.add_le_add_right hchildren _).trans ?_
  rw [← Nat.mul_add]
  exact Nat.mul_le_mul_left _ (by omega)

end Actions

/-- The step carries on with a call in progress or runs the oldest message of a strand. -/
def ServerLabel.drains : ServerLabel → Bool
  | .proceed _ _ => true
  | .listener _ _ l => l.isRun
  | _ => false

namespace Server

variable {s s₁ s' : Server} {l : ServerLabel} {done added : List Action} {key : ℕ}
  {group : OperationGroup}

/-- The number of listeners in the snapshot of an operation. -/
def sizes (s : Server) (key : ℕ) : ℕ := ((s.groups key).map OperationGroup.size).getD 0

/-- What the strands of the listeners may come to. -/
def strandWork (s : Server) (size : ℕ → ℕ) : ℕ :=
  (s.listeners.map fun x => x.core.work (burst size)).sum

/-- What is left to be done, weighed by all it may come to. -/
def work (s : Server) : ℕ := actionsWork s.sizes s.actions + s.strandWork s.sizes

/-- The size of an operation is that of its snapshot. -/
theorem sizes_of_group (hgroup : s.groups key = some group) : s.sizes key = group.size := by
  rw [sizes, hgroup]
  rfl

/-- Replacing an operation by one of the same size keeps the sizes. -/
theorem sizes_setGroup {group' : OperationGroup} (hgroup : s.groups key = some group)
    (hsize : group'.size = group.size) :
    (s.setGroup key group').sizes = s.sizes := by
  funext k
  by_cases hk : k = key
  · subst hk
    simp [sizes, setGroup, hgroup, hsize]
  · simp [sizes, setGroup, hk]

/-- Going on with what is in progress keeps the sizes of the operations. -/
theorem Acts.sizes (h : s.Acts l s₁ done added) (hl : l.drains = true) : s₁.sizes = s.sizes := by
  cases h with
  | proceed hnext hperforms =>
    cases hperforms with
    | rejects hgroup hcontrol => exact sizes_setGroup (s := { s with control := _ }) hgroup rfl
    | startThrows hgroup => exact sizes_setGroup hgroup rfl
    | waitThrows hgroup => exact sizes_setGroup hgroup rfl
    | reports hgroup hec hfailed => exact sizes_setGroup hgroup rfl
    | finishStart hgroup hstart hcontrol =>
      exact sizes_setGroup (s := { s with control := _ }) hgroup rfl
    | finishWait hgroup hwait hcontrol =>
      exact sizes_setGroup (s := { s with control := _ }) hgroup rfl
    | _ => rfl
  | internal hx hstep hinternal hstrand hkind => rfl
  | @delivers _ listener _ _ y _ _ _ _ hx hstep hinternal hstrand hkind hhandler hgroup =>
    exact sizes_setGroup (s := s.setListener listener y) hgroup rfl
  | _ => contradiction

/-- A call on a listener makes the work its label says, at most. -/
theorem strandWork_calls {listener : ℕ} {call : CoreLabel} {x y : Listener}
    (h : s.Calls listener call x y) (size : ℕ → ℕ) :
    (s.setListener listener y).strandWork size ≤ s.strandWork size + call.work (burst size) := by
  obtain ⟨alive, -, hcall⟩ := Listener.step_off h.step
  have hwork := hcall.work_le (burst size)
  have hsum := sum_map_set (fun x => x.core.work (burst size)) h.found y
  simp only [strandWork, setListener]
  omega

/-- Carrying out an action leaves less to be done. -/
theorem Performs.work_lt {threw : Option FailingException} {action : Action} {first : List Action}
    (h : s.Performs threw action s₁ first) :
    actionsWork s.sizes first + s₁.strandWork s.sizes < action.work s.sizes +
      s.strandWork s.sizes := by
  have hquiet (hlisteners : s₁.listeners = s.listeners)
      (hpaid : actionsWork s.sizes first < action.work s.sizes) :
      actionsWork s.sizes first + s₁.strandWork s.sizes < action.work s.sizes +
        s.strandWork s.sizes := by
    rw [strandWork, hlisteners]
    exact Nat.add_lt_add_right hpaid _
  have hcalled {listener : ℕ} {call : CoreLabel} {x y : Listener}
      (hcall : s.Calls listener call x y)
      (hs₁ : s₁ = s.setListener listener y)
        (hpaid : actionsWork s.sizes first + call.work (burst s.sizes) < action.work s.sizes) :
      actionsWork s.sizes first + s₁.strandWork s.sizes < action.work s.sizes +
        s.strandWork s.sizes := by
    have hstrand := strandWork_calls hcall s.sizes
    rw [hs₁]
    omega
  cases h with
  | begins hgroup hcontrol =>
    refine hquiet rfl ?_
    have hstart := actionsWork_start (sizes_of_group hgroup)
    split
    · simp [actionsWork, Action.work]
    · simp only [actionsWork_append] at hstart ⊢
      simp only [actionsWork, Action.work, List.map_singleton, List.sum_singleton] at hstart ⊢
      omega
  | startsChild hgroup hcall =>
    refine hcalled hcall rfl ?_
    simp only [actionsWork, Action.work, CoreLabel.work, burst,
      List.map_singleton, List.sum_singleton]
    omega
  | waitsChild hgroup hcall =>
    refine hcalled hcall rfl ?_
    simp only [actionsWork, Action.work, CoreLabel.work, burst, List.map_cons, List.map_nil,
      List.sum_cons, List.sum_nil]
    omega
  | checkCancelled hgroup => exact hquiet rfl (by split <;> simp [actionsWork, Action.work])
  | reports hgroup hec hfailed =>
    refine hquiet rfl ((actionsWork_one (sizes_of_group hgroup) _).trans_lt ?_)
    simp only [Action.work]
    omega
  | recheck hgroup =>
    refine hquiet rfl ?_
    split
    · rw [OperationGroup.requestStop, actionsWork_stopReads, ← sizes_of_group hgroup]
      exact Nat.lt_succ_self _
    · exact Nat.succ_pos _
  | postWait hcall => exact hcalled hcall rfl (by simp [actionsWork, Action.work, CoreLabel.work])
  | emitWait hgroup hwait hw hcall =>
    exact hcalled hcall rfl (by simp [actionsWork, Action.work, CoreLabel.work])
  | emitStart hgroup hstart hcall =>
    exact hcalled hcall rfl (by simp [actionsWork, Action.work, CoreLabel.work])
  | postCancel hcall => exact hcalled hcall rfl (by simp [actionsWork, Action.work, CoreLabel.work])
  | stopReturns hcall hstopped =>
    exact hcalled hcall rfl (by simp [actionsWork, Action.work, CoreLabel.work])
  | stopReads hcall hopen =>
    exact hcalled hcall rfl (by simp [actionsWork, Action.work, CoreLabel.work])
  | stopPost hcall => exact hcalled hcall rfl (by simp [actionsWork, Action.work, CoreLabel.work])
  | _ => exact hquiet rfl (by simp [actionsWork, Action.work])

/-- Running the oldest message of a strand leaves less to be done, with what its handler is worth
left over. -/
theorem strandWork_run {listener : ℕ} {x y : Listener} {k : ListenerLabel}
    (hx : s.listeners[listener]? = some x) (hstep : x.step k = some y) (hrun : k.isRun = true)
    (size : ℕ → ℕ) : ∃ message : Message, x.kind k = message.kind ∧
      (s.setListener listener y).strandWork size + message.called
      (burst size) < s.strandWork size := by
  obtain ⟨message, rest, hstrand, hkind, hhandles⟩ := Listener.run_handles hstep hrun
  have hwork := (hhandles.work_lt (burst size)).trans_eq (work_pop (burst size) hstrand).symm
  have hsum := sum_map_set (fun x => x.core.work (burst size)) hx y
  refine ⟨message, hkind, ?_⟩
  simp only [strandWork, setListener]
  omega

/-- Going on with what is in progress leaves less to be done. -/
theorem Acts.work_lt (h : s.Acts l s₁ done added) (hl : l.drains = true) :
    actionsWork s.sizes added + s₁.strandWork s.sizes < actionsWork s.sizes done +
      s.strandWork s.sizes := by
  cases h with
  | proceed hnext hperforms => simpa [actionsWork] using hperforms.work_lt
  | internal hx hstep hinternal hstrand hkind =>
    obtain ⟨message, -, hless⟩ := strandWork_run hx hstep hl s.sizes
    simpa [actionsWork] using (Nat.le_add_right _ _).trans_lt hless
  | @delivers _ listener _ x y completion key index group hx hstep hinternal hstrand
    hkind hhandler hgroup =>
    obtain ⟨message, hmessage, hless⟩ := strandWork_run hx hstep hl s.sizes
    have hcalled : message.called (burst s.sizes) = 3 * s.sizes key + 3 := by
      rw [hkind] at hmessage
      cases message with
      | complete c =>
        obtain rfl := StepKind.deliver.inj hmessage
        simp [Message.called, hhandler, burst]
      | _ => simp [Message.kind] at hmessage
    have hone := actionsWork_onStrand (sizes_of_group hgroup) listener
      ⟨index, completion.error, some completion.cause⟩
    change actionsWork s.sizes _ + (s.setListener listener y).strandWork s.sizes < 0 + _
    omega
  | _ => contradiction

/-- Every step that goes on with what is in progress leaves less to be done. -/
theorem work_lt (hstep : s.step l = some s') (hl : l.drains = true) : s'.work < s.work := by
  obtain ⟨s₁, done, added, hacts, houtcome⟩ := step_cases hstep
  have hsizes : s'.sizes = s.sizes := by
    rw [← hacts.sizes hl]
    funext key
    rw [sizes, sizes, houtcome.groups]
  have hactions : actionsWork s.sizes (s'.actions ++ done) =
      actionsWork s.sizes (s.actions ++ added) :=
    (houtcome.actions.map _).sum_eq
  have hless := hacts.work_lt hl
  rw [actionsWork_append, actionsWork_append] at hactions
  rw [work, work, hsizes, strandWork, houtcome.listeners]
  change actionsWork s.sizes s'.actions + s₁.strandWork s.sizes < _
  omega

end Server

end Serveza
