import Serveza.ServerAccounts

/-!
# The order of a thread's actions

Most results about a server look at the bag of actions that are still to be carried out. Two
facts need their order: a thread looks for failed initiations after it has initiated the
children of its operation, and it rechecks for a stop after it has started them.
-/

namespace Serveza

open Foundation

/-- What initiates a child is followed by the look for its failure, and what starts one by
the recheck. -/
structure Ordered (actions : List Action) : Prop where
  initiates : ∀ key index, Covered (Action.initiates key index)
    (fun a => a = .reportInitiation key index) actions
  starts : ∀ key index, Covered (fun a => a = .startChild key index)
    (fun a => a = .recheck key) actions

namespace Ordered

variable {actions rest : List Action} {key : ℕ}

/-- Actions that initiate nothing are in order. -/
theorem of_quiet (h : ∀ a ∈ actions, ∀ key index, a.initiates key index = false) :
    Ordered actions := by
  refine ⟨fun key index => covered_of_no_opener fun a ha => h a ha key index,
    fun key index => covered_of_no_opener fun a ha => decide_eq_false ?_⟩
  rintro rfl
  simpa [Action.initiates] using h _ ha key index

/-- Actions in order may be followed by actions in order. -/
theorem append (h : Ordered actions) (hrest : Ordered rest) : Ordered (actions ++ rest) :=
  ⟨fun key index => (h.initiates key index).append (hrest.initiates key index),
    fun key index => (h.starts key index).append (hrest.starts key index)⟩

/-- What follows actions is in order if they are. -/
theorem of_append (h : Ordered (actions ++ rest)) : Ordered rest :=
  ⟨fun key index => (h.initiates key index).of_append, fun key index =>
    (h.starts key index).of_append⟩

/-- The loops of an operation initiate a child before they look for its failure. -/
theorem start_initiates (group : OperationGroup) (key k index : ℕ) :
    Covered (Action.initiates k index) (fun a => a = .reportInitiation k index)
      (group.start key) := by
  refine covered_append (fun a ha ho => ?_) (covered_of_no_opener fun a ha => ?_)
  · obtain ⟨i, hi, rfl⟩ := List.mem_map.mp ha
    refine ⟨.reportInitiation key i, List.mem_map_of_mem hi, ?_⟩
    cases hwait : group.wait <;> simpa [hwait, Action.initiates] using ho
  · obtain ⟨i, -, rfl⟩ := List.mem_map.mp ha
    rfl

/-- The loops of a wait are in order. -/
theorem start_wait {group : OperationGroup} (hwait : group.wait = true) (key : ℕ) :
    Ordered (group.start key) := by
  refine ⟨fun k index => start_initiates group key k index, fun k index =>
    covered_of_no_opener fun a ha => ?_⟩
  rcases OperationGroup.start_mem ha with ⟨i, -, hstart, -⟩ | ⟨i, -, -, rfl⟩ | ⟨i, -, rfl⟩
  · simp [hwait] at hstart
  · rfl
  · rfl

/-- The loops of a start and the recheck behind them are in order. -/
theorem start_recheck (group : OperationGroup) (key : ℕ) :
    Ordered (group.start key ++ [.recheck key]) := by
  refine ⟨fun k index => (start_initiates group key k index).append
    (covered_of_no_opener (by simp [Action.initiates])),
    fun k index => covered_append (fun a ha ho => ?_) (covered_of_no_opener (by simp))⟩
  refine ⟨.recheck key, List.mem_singleton_self _, ?_⟩
  rcases OperationGroup.start_mem ha with ⟨i, -, -, rfl⟩ | ⟨i, -, -, rfl⟩ | ⟨i, -, rfl⟩ <;> simp_all

end Ordered

namespace Server

variable {s s₁ s' : Server} {l : ServerLabel} {done added : List Action} {key index : ℕ}

/-- Every thread's actions are in order. -/
def InOrder (s : Server) : Prop := ∀ e ∈ s.threads, Ordered e.2

/-- What a step adds is in order. -/
theorem Acts.ordered (h : s.Acts l s₁ done added) : Ordered added := by
  have hone (group : OperationGroup) (key : ℕ) (report : Report) :
      Ordered (group.one key report).2 := by
    refine .of_quiet fun a ha k index => ?_
    rcases OperationGroup.one_mem ha with ⟨i, rfl⟩ | ⟨result, rfl⟩ <;> rfl
  cases h with
  | @asyncWait _ key hnone hopen =>
    split
    · exact .of_quiet (by simp [Action.initiates])
    · exact Ordered.start_wait rfl key
  | delivers hx hstep hinternal hstrand hkind hhandler hold =>
    unfold onStrand
    split
    · exact .of_quiet (by simp)
    · exact (hone _ _ _).append (.of_quiet (by simp [Action.initiates]))
  | proceed hnext h =>
    cases h with
    | begins hold hcontrol =>
      split
      · exact .of_quiet (by simp [Action.initiates])
      · exact Ordered.start_recheck _ _
    | reports hold hec hfailed => exact hone _ _ _
    | checkCancelled hold => split <;> exact .of_quiet (by simp [Action.initiates])
    | recheck hold =>
      split <;> exact .of_quiet (by simp [Action.initiates, OperationGroup.requestStop])
    | _ => exact .of_quiet (by simp [Action.initiates])
  | requestStop hopen => exact .of_quiet (by simp [Action.initiates, or_imp, forall_and])
  | _ => exact .of_quiet (by simp [Action.initiates])

/-- A step keeps the actions of every thread in order. -/
theorem InOrder.step (h : s.InOrder) (hacts : s.Acts l s₁ done added)
    (houtcome : Outcome s s₁ done added s') :
    s'.InOrder := by
  intro e he
  rcases houtcome.threads e he with he | ⟨rest, hrest, hold⟩
  · exact h e he
  · rw [hrest]
    refine hacts.ordered.append ?_
    rcases hold with rfl | ⟨e₀, he₀, hdone⟩
    · exact .of_quiet (by simp)
    · exact (hdone ▸ h e₀ he₀).of_append

/-- As long as a child is to be initiated, its failure is to be looked for. -/
theorem InOrder.reports_pos (h : s.InOrder)
    (hpos : 0 < s.actions.countP (Action.initiates key index)) :
    0 < s.actions.count (.reportInitiation key index) := by
  obtain ⟨a, ha, hinitiates⟩ := List.countP_pos_iff.mp hpos
  obtain ⟨e, he, ha⟩ := List.mem_flatMap.mp ha
  obtain ⟨b, hb, hclose⟩ := ((h e he).initiates key index).exists_closer ha hinitiates
  rw [of_decide_eq_true hclose] at hb
  exact List.count_pos_iff.mpr (List.mem_flatMap.mpr ⟨e, he, hb⟩)

/-- As long as a child is to be started, the recheck is still to come. -/
theorem InOrder.recheck_mem (h : s.InOrder) (hmem : .startChild key index ∈ s.actions) :
    .recheck key ∈ s.actions := by
  obtain ⟨e, he, ha⟩ := List.mem_flatMap.mp hmem
  obtain ⟨b, hb, hclose⟩ := ((h e he).starts key index).exists_closer ha (decide_eq_true rfl)
  rw [of_decide_eq_true hclose] at hb
  exact List.mem_flatMap.mpr ⟨e, he, hb⟩

end Server

end Serveza
