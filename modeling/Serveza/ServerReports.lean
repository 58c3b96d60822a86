import Serveza.Completions
import Serveza.ServerStops

/-!
# What an operation is told about its children

The listeners of a server are listeners that can be reached, and what they deliver to an
operation of the server is the completion of one of its own children. So the error a child is
reported with follows from the branch that completed it.
-/

namespace Serveza

open Foundation

/-- The error of a report is the one its cause stands for; a child whose initiation failed has
no cause and some error. -/
def Report.Justified (wait : Bool) (report : Report) : Prop :=
  match report.cause, wait with
  | none, _ => report.error.failed = true
  | some .cancelled, _ => report.error = .operationAborted
  | some .rejected, false => report.error = .operationAborted
  | some .joined, false | some .started, false => report.error = .success
  | some .startupFailed, false => True
  | some .stopped, true => True
  | _, _ => False

/-- A child's wait reports a stop, a cancellation or an initiation that threw. -/
theorem Report.Justified.wait_cases {report : Report} (h : report.Justified true) :
    report.cause = some .stopped ∨
      (report.cause = some .cancelled ∧ report.error = .operationAborted) ∨
      (report.cause = none ∧ report.error.failed = true) := by
  unfold Report.Justified at h
  cases hcause : report.cause with
  | none => simpa [hcause] using h
  | some cause => cases cause <;> simp_all

/-- The report of a completion is as justified as the completion. -/
theorem Completion.Justified.report {q : Completion} (h : q.Justified) (index : ℕ) :
    (⟨index, q.error, some q.cause⟩ : Report).Justified q.wait.isSome := by
  unfold Completion.Justified at h
  cases hwait : q.wait with
  | none =>
    rw [hwait] at h
    have hends := h.2.2
    cases hcause : q.cause <;> simp_all [Report.Justified]
  | some waiter =>
    rw [hwait] at h
    rcases h with ⟨hcause, herror⟩ | hcause
    · simpa [Report.Justified, hcause] using herror
    · simp [Report.Justified, hcause]

namespace Server

variable {s s₁ s' : Server} {l : ServerLabel} {done added : List Action} {listener key index : ℕ}

/-- Each listener of a server can be reached on its own. -/
theorem listeners_reached (h : Reachable step {} s) : ∀ x ∈ s.listeners, x.Reached := by
  refine h.invariant (fun s => ∀ x ∈ s.listeners, x.Reached)
    (fun a l b ha hstep x hx => ?_) (by simp)
  obtain ⟨a₁, done, added, hacts, houtcome⟩ := step_cases hstep
  obtain ⟨i, hi⟩ := List.getElem?_of_mem hx
  cases (hacts.effect i).outcome houtcome with
  | same heq => exact ha x (List.mem_of_getElem? (heq ▸ hi))
  | created hnone heq =>
    obtain rfl := Option.some.inj (hi.symm.trans heq)
    exact ⟨_, _, .refl _⟩
  | stepped hx' hy hlstep horigin =>
    obtain rfl := Option.some.inj (hi.symm.trans hy)
    obtain ⟨id, config, hreachable⟩ := ha _ (List.mem_of_getElem? hx')
    exact ⟨id, config, hreachable.tail hlstep⟩

/-- What a listener delivers has been completed by it. -/
theorem delivered_mem {x y : Listener} {k : ListenerLabel} {completion : Completion}
    (hstep : x.step k = some y) (hkind : x.kind k = .deliver completion) :
    completion ∈ x.core.completed := by
  have hcore := Listener.step_core hstep
  rw [hkind] at hcore
  generalize y.core = b at hcore
  cases hcore with
  | deliver hstrand => simp [ListenerCore.completed, hstrand, Message.completion?]

/-- What a listener delivers to an operation is of the kind of the operation. -/
theorem Placed.delivers_kind {group : OperationGroup} (h : s.Placed)
    (hgroup : s.groups key = some group) {x y : Listener} {k : ListenerLabel}
    {completion : Completion} (hx : s.listeners[listener]? = some x) (hstep : x.step k = some y)
    (hkind : x.kind k = .deliver completion) (hhandler : completion.handler = .child key index) :
    completion.wait.isSome = group.wait := by
  by_contra hne
  have hnone := h.misplaced key listener group.wait (by simp [hgroup])
  have hcore := Listener.step_core hstep
  rw [hkind] at hcore
  have hmem : completion.operation ∈ x.core.strand.filterMap Message.operation? := by
    generalize y.core = b at hcore
    cases hcore with
    | deliver hstrand => simp [hstrand, Message.operation?]
  simp only [countAt, hx, Option.map_some, Option.getD_some, tally] at hnone
  have hzero : (x.core.strand.filterMap Message.operation?).countP
      (Operation.isMisplaced key listener group.wait) = 0 := by
    omega
  have hplaced := List.countP_eq_zero.mp hzero _ hmem
  simp [Operation.isMisplaced, Completion.operation, hhandler, hne] at hplaced

/-- A report that is made to an operation is justified. -/
theorem Made.justified {group : OperationGroup} {report : Report} (h : s.Made key report)
    (hreached : Reachable step {} s) (hgroup : s.groups key = some group) :
    report.Justified group.wait := by
  cases h with
  | initiation hgroup' hec hcause hfailed => simpa [Report.Justified, hcause] using hfailed
  | @delivery listener x y k completion hx hstep hkind hhandler herror hcause =>
    have hplaced := (sound_of_reachable hreached).placed
    rw [← hplaced.delivers_kind hgroup hx hstep hkind hhandler]
    have hreported : report = ⟨report.index, completion.error, some completion.cause⟩ := by
      rw [← herror, ← hcause]
    rw [hreported]
    exact ((listeners_reached hreached x (List.mem_of_getElem? hx)).justified completion
      (delivered_mem hstep hkind)).report report.index

/-- Every report a reachable server has made is justified. -/
theorem reports_justified (h : Reachable step {} s) :
    ∀ key group, s.groups key = some group →
    ∀ report ∈ group.reports, report.Justified group.wait := by
  refine (h.invariant (fun s => Reachable step {} s ∧
    ∀ key group, s.groups key = some group → ∀ report ∈ group.reports, report.Justified group.wait)
    (fun a l b ha hstep => ⟨ha.1.tail hstep, fun key group' hgroup' report hreport => ?_⟩)
      ⟨.refl _, by simp⟩).2
  obtain ⟨a₁, done, added, hacts, houtcome⟩ := step_cases hstep
  rw [houtcome.groups] at hgroup'
  cases hgroup : a.groups key with
  | none =>
    obtain ⟨wait, rfl⟩ := hacts.groups_new hgroup hgroup'
    simp [OperationGroup.create] at hreport
  | some group =>
    obtain ⟨group₁, hgroup₁, hgroupStep⟩ := hacts.group_step hgroup
    obtain rfl := Option.some.inj (hgroup₁.symm.trans hgroup')
    cases hgroupStep with
    | told hmade hadded hdone =>
      rcases List.mem_append.mp hreport with hold | hnew
      · exact ha.2 key group hgroup report hold
      · have hjustified := hmade.justified ha.1 hgroup
        rw [List.mem_singleton.mp hnew]
        exact hjustified
    | _ => exact ha.2 key group hgroup report hreport

end Server

end Serveza
