import Serveza.Foundation.Registry
import Serveza.GroupRun

/-!
# The reports of the children

The children of an operation group report once each, in any order and while `start` is still
running. `Attended` says which children have reported or will, and `Joined` what the reports
have brought about: the counter, the first error, the request to stop and the end of the
operation.
-/

namespace Serveza

open Foundation

/-- The listener an action asks to stop. -/
def Action.stop? : Action → Option ℕ
  | .stopRead listener => some listener
  | _ => none

/-- The error an action passes to `m_finished`. -/
def Action.result? : Action → Option ErrorCode
  | .finish _ result => some result
  | _ => none

/-- What a report has to do is to ask the listeners to stop, if it is the first error of a
start. -/
theorem one_stops (group : OperationGroup) (key : ℕ) (report : Report) :
    (group.one key report).2.filterMap Action.stop? =
      if (report.error.failed && !group.firstEc.failed) && !group.wait then List.range
        group.size else [] := by
  have hstops : group.requestStop.filterMap Action.stop? = List.range group.size := by
    simp [OperationGroup.requestStop, List.filterMap_map, Function.comp_def, Action.stop?]
  simp only [OperationGroup.one, List.filterMap_append]
  split <;> split <;> simp [hstops, Action.stop?]

/-- What a report has to do is to end the operation, if it is the last. -/
theorem one_results (group : OperationGroup) (key : ℕ) (report : Report) :
    (group.one key report).2.filterMap Action.result? =
      if group.remaining = 1 then [(group.one key report).1.firstEc] else [] := by
  have hstops : group.requestStop.filterMap Action.result? = [] := by
    simp [OperationGroup.requestStop, List.filterMap_map, Function.comp_def, Action.result?]
  simp only [OperationGroup.one, List.filterMap_append]
  by_cases hlast : group.remaining = 1
  · simp only [hlast, decide_true, if_true]
    split <;> simp [hstops, Action.result?]
  · simp only [hlast, decide_false, if_false]
    split <;> simp [hstops, Action.result?]

namespace GroupRun

/-- The listeners that calls of `one` have still to ask to stop. -/
def stopping (r : GroupRun) : List ℕ := r.calls.flatten.filterMap Action.stop?

/-- The errors that calls of `one` have still to pass to `m_finished`. -/
def ending (r : GroupRun) : List ErrorCode := r.calls.flatten.filterMap Action.result?

/-- The number of children whose initiation was tried. -/
def attempted (r : GroupRun) : ℕ :=
  match r.loop with
  | .initiate index => index
  | .check index | .emit index => index + 1
  | .report _ => r.group.size

/-- The number of children the second loop is done with. -/
def revisited (r : GroupRun) : ℕ :=
  match r.loop with
  | .report index => index
  | _ => 0

/-- The child was initiated, or its failure was reported. -/
def accounted (r : GroupRun) (index : ℕ) : Bool :=
  !(r.initiationEc index).failed || decide (index < r.revisited)

/-- The children that will report and those that have. -/
def children (r : GroupRun) : List ℕ := r.pending ++ r.group.reports.map (·.index)

/-- Which children have reported or will. -/
structure Attended (n : ℕ) (r : GroupRun) : Prop where
  size : r.group.size = n
  errors : r.group.initiationEcs.length = n
  within : r.attempted ≤ n
  untried : ∀ index, r.attempted ≤ index → (r.initiationEc index).failed = false
  once : r.children.Nodup
  known : ∀ index, index ∈ r.children ↔ index < r.attempted ∧ r.accounted index = true

/-- What the reports have brought about. -/
structure Joined (wait : Bool) (n : ℕ) (r : GroupRun) : Prop where
  kind : r.group.wait = wait
  size : r.group.size = n
  remaining : r.group.remaining + r.group.reports.length = n
  first : r.group.firstEc = r.group.firstError
  endings : (r.ending ++ r.finished).Perm
    (if r.group.reports.length = n then [r.group.firstError] else [])
  results : r.group.results.length = r.finished.length
  stops : (r.stopping ++ r.stopped).Perm
    (if r.group.firstError.failed && !wait then List.range n else [])
  actions : ∀ a ∈ r.calls.flatten, (∃ listener, a = .stopRead listener) ∨
    ∃ result, a = .finish 0 result

variable {wait : Bool} {n : ℕ} {r t : GroupRun} {report : Report} {l : GroupLabel}

/-- A call of `one` adds what it has to do to the requests in progress. -/
theorem one_stopping :
    (r.one report).stopping = r.stopping ++ (r.group.one 0 report).2.filterMap Action.stop? := by
  simp [one, stopping]

/-- A call of `one` adds what it has to do to the ends in progress. -/
theorem one_ending :
    (r.one report).ending = r.ending ++ (r.group.one 0 report).2.filterMap Action.result? := by
  simp [one, ending]

/-- A call of `one` adds the child that reports. -/
theorem one_children : (r.one report).children = r.children ++ [report.index] := by
  simp [one, children, OperationGroup.one]

/-- A call of `one` reports the first error if there was none. -/
theorem one_firstError : (r.one report).group.firstError =
    if report.error.failed && !r.group.firstError.failed then report.error
    else r.group.firstError :=
  OperationGroup.firstError_append r.group report

/-- A report of a child that has not reported yet keeps the accounts. -/
theorem Joined.one (h : Joined wait n r) (hmore : r.group.reports.length < n) :
    Joined wait n (r.one report) := by
  have hremaining := h.remaining
  have hfirst : (r.one report).group.firstEc = (r.one report).group.firstError := by
    rw [one_firstError, ← h.first]
    rfl
  have hending : (r.ending ++ r.finished) = [] := by
    have := h.endings
    rw [if_neg (by omega)] at this
    exact this.eq_nil
  obtain ⟨hending, hfinished⟩ := List.append_eq_nil_iff.mp hending
  refine ⟨h.kind, h.size, ?_, hfirst, ?_, h.results, ?_, fun a ha => ?_⟩
  · change r.group.remaining - 1 + (r.group.reports ++ [report]).length = n
    simp only [List.length_append, List.length_singleton]
    omega
  · rw [one_ending, hending, one_results]
    change ([] ++ (if r.group.remaining = 1 then [(r.one report).group.firstEc] else []) ++
      r.finished).Perm
      (if (r.group.reports ++ [report]).length = n then [(r.one report).group.firstError] else [])
    rw [hfinished, hfirst]
    simp only [List.length_append, List.length_singleton, List.nil_append, List.append_nil]
    by_cases hlast : r.group.remaining = 1
    · rw [if_pos hlast, if_pos (by omega)]
    · rw [if_neg hlast, if_neg (by omega)]
  · rw [one_stopping, one_stops, h.kind, h.size, h.first]
    change ((r.stopping ++ _) ++ r.stopped).Perm
      (if (r.one report).group.firstError.failed && !wait then List.range n else [])
    rw [one_firstError]
    have hstops := h.stops
    by_cases hnew : (report.error.failed && !r.group.firstError.failed) = true
    · obtain ⟨hfailed, hnone⟩ : report.error.failed = true ∧ r.group.firstError.failed = false := by
        simpa using hnew
      rw [hnone] at hstops
      obtain ⟨hstopping, hstopped⟩ := List.append_eq_nil_iff.mp hstops.eq_nil
      simp [hfailed, hnone, hstopping, hstopped]
    · simpa [hnew] using hstops
  · simp only [GroupRun.one, List.flatten_append, List.mem_append] at ha
    rcases ha with ha | ha
    · exact h.actions a ha
    · exact OperationGroup.one_mem (by simpa using ha)

/-- A piece of a call that is carried out moves from what is left to what is done. -/
theorem done_perm {α : Type*} {left rest done : List α} {a : α} (h : left.Perm (a :: rest)) :
    (rest ++ (done ++ [a])).Perm (left ++ done) :=
  (List.append_assoc rest done [a] ▸ List.perm_append_singleton a (rest ++ done)).trans
    (h.symm.append_right done)

/-- Every step keeps the accounts, if no child reports after all have. -/
theorem Joined.step (h : Joined wait n r) (hstep : r.Step l t)
    (hmore : t.group.reports ≠ r.group.reports → r.group.reports.length < n) : Joined wait n t := by
  cases hstep with
  | initiates | throws | initiated | unnoticed | noticed | passesOn | reportsNothing
  | cancelsNothing | cancels | emits =>
    exact ⟨h.kind, h.size, h.remaining, h.first, h.endings, h.results, h.stops, h.actions⟩
  | @reportsFailure threw index hloop hindex hfailed =>
    have h' : Joined wait n (r.one ⟨index, r.initiationEc index, none⟩) :=
      h.one (hmore (by simp [GroupRun.one, OperationGroup.one]))
    exact ⟨h'.kind, h'.size, h'.remaining, h'.first, h'.endings, h'.results, h'.stops, h'.actions⟩
  | @delivers index ec cause hpending =>
    have h' : Joined wait n { r with pending := r.pending.erase index } :=
      ⟨h.kind, h.size, h.remaining, h.first, h.endings, h.results, h.stops, h.actions⟩
    exact h'.one (hmore (by simp [GroupRun.one, OperationGroup.one]))
  | asksStop hcall =>
    have hperm := flatten_set_perm hcall
    refine ⟨h.kind, h.size, h.remaining, h.first, ?_, h.results, ?_, fun a ha => h.actions a ?_⟩
    · exact (((hperm.filterMap Action.result?).symm.append_right _)).trans h.endings
    · exact (done_perm (hperm.filterMap Action.stop?)).trans h.stops
    · exact hperm.mem_iff.mpr (List.mem_cons_of_mem _ ha)
  | finishes hcall =>
    have hperm := flatten_set_perm hcall
    refine ⟨h.kind, h.size, h.remaining, h.first, ?_, ?_, ?_, fun a ha => h.actions a ?_⟩
    · exact (done_perm (hperm.filterMap Action.result?)).trans h.endings
    · simp [OperationGroup.complete, h.results]
    · exact (((hperm.filterMap Action.stop?).symm.append_right _)).trans h.stops
    · exact hperm.mem_iff.mpr (List.mem_cons_of_mem _ ha)

/-- A child that is neither expected to report nor has reported leaves room for its report. -/
theorem Attended.reports_lt {index : ℕ} (h : Attended n r) (hindex : index < n)
    (hnew : index ∉ r.group.reports.map (·.index)) : r.group.reports.length < n := by
  have hnodup : (index :: r.group.reports.map (·.index)).Nodup :=
    List.nodup_cons.mpr ⟨hnew, (List.nodup_append.mp h.once).2.1⟩
  have hsub : index :: r.group.reports.map (·.index) ⊆ List.range n := by
    intro i hi
    rcases List.mem_cons.mp hi with rfl | hi
    · exact List.mem_range.mpr hindex
    · have := ((h.known i).mp (List.mem_append_right _ hi)).1
      exact List.mem_range.mpr (Nat.lt_of_lt_of_le this h.within)
  have hlength := (List.subperm_of_subset hnodup hsub).length_le
  simp only [List.length_cons, List.length_map, List.length_range] at hlength
  omega

/-- A report leaves its child among those that will report or have. -/
theorem Attended.reports_more (h : Attended n r) (hstep : r.Step l t)
    (hreports : t.group.reports ≠ r.group.reports) : r.group.reports.length < n := by
  cases hstep with
  | initiates | throws | initiated | unnoticed | noticed | passesOn | reportsNothing
  | cancelsNothing | cancels | emits | asksStop | finishes => exact absurd rfl hreports
  | @reportsFailure threw index hloop hindex hfailed =>
    refine h.reports_lt (h.size ▸ hindex : index < n) fun hmem => ?_
    have := ((h.known index).mp (List.mem_append_right _ hmem)).2
    simp [accounted, revisited, hloop, hfailed] at this
  | @delivers index ec cause hpending =>
    have hindex := ((h.known index).mp (List.mem_append_left _ hpending)).1
    exact h.reports_lt (Nat.lt_of_lt_of_le hindex h.within) fun hmem =>
      (List.nodup_append.mp h.once).2.2 index hpending index hmem rfl

/-- A child whose initiation succeeded is accounted for before its report and after it. -/
theorem Attended.one {index : ℕ} {ec : ErrorCode} {cause : Option Cause} (h : Attended n r)
    (hpending : index ∈ r.pending) :
    Attended n ({ r with pending := r.pending.erase index }.one ⟨index, ec, cause⟩) := by
  have hperm :
      ({ r with pending := r.pending.erase index }.one ⟨index, ec, cause⟩).children.Perm
      r.children := by
    rw [one_children, children, List.append_assoc]
    exact done_perm (List.perm_cons_erase hpending)
  exact ⟨h.size, h.errors, h.within, h.untried, hperm.nodup_iff.mpr h.once,
    fun i => hperm.mem_iff.trans (h.known i)⟩

/-- Moving on in `start` keeps the children accounted for, if none is passed over. -/
theorem Attended.advance (h : Attended n r) (hgroup : t.group = r.group)
    (hpending : t.pending = r.pending) (hattempted : t.attempted = r.attempted)
    (haccounted : ∀ index, t.accounted index = r.accounted index) :
    Attended n t := by
  have hchildren : t.children = r.children := by rw [children, children, hgroup, hpending]
  refine ⟨hgroup ▸ h.size, hgroup ▸ h.errors, hattempted ▸ h.within, fun i hi => ?_,
    hchildren ▸ h.once, fun i => ?_⟩
  · rw [initiationEc, hgroup]
    exact h.untried i (hattempted ▸ hi)
  · rw [hchildren, hattempted, haccounted]
    exact h.known i

/-- An exception is kept as a failure of its child. -/
theorem Attended.throws_failed {index : ℕ} (h : Attended n r) (hindex : index < r.group.size)
    (e : FailingException) (i : ℕ) :
    (((r.group.initiationEcs.set index e.error)[i]?).getD .success).failed =
      if i = index then true else (r.initiationEc i).failed := by
  have herrors := h.errors
  have hsize := h.size
  by_cases hi : i = index
  · subst hi
    simp [show i < r.group.initiationEcs.length by omega, FailingException.error, e.failed]
  · rw [List.getElem?_set_ne (Ne.symm hi), if_neg hi]
    rfl

/-- At first no child was tried. -/
theorem attended_create : Attended n (create wait n) := by
  refine ⟨rfl, by simp [create, OperationGroup.create], Nat.zero_le n,
    fun index _ => ?_, List.nodup_nil, ?_⟩
  · simp only [initiationEc, create, OperationGroup.create, List.getElem?_replicate]
    split <;> rfl
  · simp [children, create, OperationGroup.create, attempted]

/-- Every step keeps the children accounted for. -/
theorem Attended.step (h : Attended n r) (hstep : r.Step l t) : Attended n t := by
  cases hstep with
  | @initiates index hloop hindex =>
    have hattempted : r.attempted = index := by simp [attempted, hloop]
    have hnew : index ∉ r.children := fun hmem => absurd ((h.known index).mp hmem).1 (by omega)
    have hperm : (r.pending ++ [index] ++ r.group.reports.map (·.index)).Perm
        (index :: r.children) := by
      simp [children]
    have haccounted : r.accounted index = true := by simp [accounted, h.untried index (by omega)]
    refine ⟨h.size, h.errors, h.size ▸ hindex, fun i hi => h.untried i ?_, ?_, fun i => ?_⟩
    · exact hattempted ▸ Nat.le_of_succ_le hi
    · exact hperm.nodup_iff.mpr (List.nodup_cons.mpr ⟨hnew, h.once⟩)
    · refine hperm.mem_iff.trans ?_
      rw [List.mem_cons, h.known, hattempted]
      change _ ↔ i < index + 1 ∧ (!(r.initiationEc i).failed || decide (i < 0)) = true
      simp only [accounted, revisited, hloop] at haccounted ⊢
      grind
  | @throws index e hloop hindex =>
    have hattempted : r.attempted = index := by simp [attempted, hloop]
    have hec := h.throws_failed hindex e
    refine ⟨h.size, by simpa using h.errors, h.size ▸ hindex, fun i hi => ?_, h.once, fun i => ?_⟩
    · have hi : index + 1 ≤ i := hi
      refine (hec i).trans ?_
      rw [if_neg (by omega)]
      exact h.untried i (by omega)
    · refine (h.known i).trans ?_
      change _ ↔ i < index + 1 ∧
        (!(((r.group.initiationEcs.set index e.error)[i]?).getD .success).failed ||
          decide (i < 0)) = true
      rw [hec, hattempted]
      simp only [accounted, revisited, hloop]
      grind
  | @initiated threw index hloop hindex =>
    have hattempted : r.attempted = index := by simp [attempted, hloop]
    have hsize := h.size
    have hwithin := h.within
    refine h.advance rfl rfl ?_ fun i => ?_
    · change r.group.size = r.attempted
      omega
    · simp [accounted, revisited, hloop, initiationEc]
  | unnoticed hloop hcancelled | noticed hloop hcancelled | passesOn hloop =>
    refine h.advance rfl rfl ?_ fun i => ?_
    · simp [attempted, hloop]
    · simp [accounted, revisited, hloop, initiationEc, emit]
  | @reportsFailure threw index hloop hindex hfailed =>
    have hnew : index ∉ r.children := by
      intro hmem
      have := ((h.known index).mp hmem).2
      simp [accounted, revisited, hloop, hfailed] at this
    have hperm : (r.one ⟨index, r.initiationEc index, none⟩).children.Perm (index :: r.children) :=
      one_children ▸ List.perm_append_singleton index r.children
    have hattempted : r.attempted = r.group.size := by simp [attempted, hloop]
    refine ⟨h.size, h.errors, Nat.le_of_eq h.size, fun i hi =>
      h.untried i (Nat.le_trans (Nat.le_of_eq hattempted) hi), ?_, fun i => ?_⟩
    · exact hperm.nodup_iff.mpr (List.nodup_cons.mpr ⟨hnew, h.once⟩)
    · refine hperm.mem_iff.trans ?_
      rw [List.mem_cons, h.known, hattempted]
      change _ ↔ i < r.group.size ∧ (!(r.initiationEc i).failed || decide (i < index + 1)) = true
      simp only [accounted, revisited, hloop]
      grind
  | @reportsNothing threw index hloop hindex hfailed =>
    refine h.advance rfl rfl (by simp [attempted, hloop]) fun i => ?_
    change (!(r.initiationEc i).failed || decide (i < index + 1)) = r.accounted i
    simp only [accounted, revisited, hloop]
    grind
  | delivers hpending => exact h.one hpending
  | asksStop | finishes | cancelsNothing | cancels | emits =>
    exact ⟨h.size, h.errors, h.within, h.untried, h.once, h.known⟩

end GroupRun

end Serveza
