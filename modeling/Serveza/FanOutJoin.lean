import Mathlib.Tactic.Ring
import Serveza.GroupReports

/-!
# The fan-out join

Whatever the order of the reports, an operation over at least one listener ends once, after
all its children, with the first error among their reports, and a start that failed somewhere
asks every listener to stop once. Every step but a cancellation uses up some of a bounded
amount of work, so an operation whose children complete does end.
-/

namespace Serveza

open Foundation

namespace GroupRun

variable {wait : Bool} {n : ℕ} {r t : GroupRun} {report : Report} {l : GroupLabel}
  {ls : List GroupLabel}

/-- The work left in `start` over some listeners, where the initiation of a child counts for its
report too. -/
def loopWork (n : ℕ) : GroupLoop → ℕ
  | .initiate index => (n - index) * (n + 6) + n * (n + 3) + 1
  | .check index => (n - (index + 1)) * (n + 6) + n * (n + 3) + 3
  | .emit index => (n - (index + 1)) * (n + 6) + n * (n + 3) + 2
  | .report index => (n - index) * (n + 3)

/-- The work left: what `start` has to do, the reports that are expected and the calls of `one`. -/
def work (n : ℕ) (r : GroupRun) : ℕ :=
  loopWork n r.loop + r.pending.length * (n + 2) + r.calls.flatten.length

/-- A call of `one` asks each listener at most once to stop and ends the operation at most
once. -/
theorem one_calls (hsize : r.group.size = n) :
    (r.one report).calls.flatten.length ≤ r.calls.flatten.length + (n + 1) := by
  have hlength : (r.group.one 0 report).2.length ≤ n + 1 := by
    simp only [OperationGroup.one, OperationGroup.requestStop, List.length_append]
    split <;> split <;> simp [hsize]
  simp only [one, List.flatten_append, List.flatten_singleton, List.length_append]
  omega

/-- Carrying out a piece of a call uses up one unit. -/
theorem proceed_length {k : ℕ} {a : Action} {rest : List Action}
    (h : r.calls[k]? = some (a :: rest)) :
    (r.calls.set k rest).flatten.length + 1 = r.calls.flatten.length := by
  simpa using (flatten_set_perm h).length_eq.symm

/-- Every step but a cancellation uses up work. -/
theorem step_work (h : Attended n r) (hstep : r.Step l t) :
    t.work n + (if l.isWork then 1 else 0) ≤ r.work n := by
  have hsize := h.size
  have hsucc {index : ℕ} (hindex : index < r.group.size) (k : ℕ) :
      (n - index) * k = (n - (index + 1)) * k + k := by
    rw [show n - index = n - (index + 1) + 1 by omega, Nat.add_one_mul]
  cases hstep with
  | @initiates index hloop hindex =>
    have := hsucc hindex (n + 6)
    simp only [work, loopWork, hloop, GroupLabel.isWork, List.length_append, List.length_singleton,
      Nat.add_one_mul, if_true]
    omega
  | @throws index e hloop hindex =>
    have := hsucc hindex (n + 6)
    simp only [work, loopWork, hloop, GroupLabel.isWork, if_true]
    omega
  | @initiated threw index hloop hindex =>
    simp only [work, loopWork, hloop, GroupLabel.isWork, if_true, Nat.sub_zero]
    omega
  | unnoticed hloop | noticed hloop | passesOn hloop =>
    simp only [work, loopWork, hloop, GroupLabel.isWork, if_true, emit]
    omega
  | @reportsFailure threw index hloop hindex hfailed =>
    have := hsucc hindex (n + 3)
    have := @one_calls n r ⟨index, r.initiationEc index, none⟩ hsize
    simp only [work, loopWork, hloop, GroupLabel.isWork, if_true]
    change _ + r.pending.length * (n + 2) + _ + 1 ≤ _
    omega
  | @reportsNothing threw index hloop hindex hfailed =>
    have := hsucc hindex (n + 3)
    simp only [work, loopWork, hloop, GroupLabel.isWork, if_true]
    omega
  | @delivers index ec cause hpending =>
    have hlength : r.pending.length = (r.pending.erase index).length + 1 := by
      simpa using (List.perm_cons_erase hpending).length_eq
    have hcalls :=
      @one_calls n { r with pending := r.pending.erase index } ⟨index, ec, some cause⟩ hsize
    simp only [work, hlength, Nat.add_one_mul, GroupLabel.isWork, if_true]
    change loopWork n r.loop + (r.pending.erase index).length * (n + 2) + _ + 1 ≤ _
    change _ ≤ r.calls.flatten.length + (n + 1) at hcalls
    omega
  | asksStop hcall | finishes hcall =>
    have := proceed_length hcall
    simp only [work, GroupLabel.isWork, if_true]
    omega
  | cancelsNothing | cancels | emits => exact Nat.le_refl _

/-- At first nothing was reported, and there is something to wait for. -/
theorem joined_create (hn : 0 < n) : Joined wait n (create wait n) := by
  refine ⟨rfl, rfl, rfl, rfl, ?_, rfl, ?_, by simp [create]⟩
  · simp [create, OperationGroup.create, ending, show ¬0 = n by omega]
  · simp [create, OperationGroup.create, stopping, OperationGroup.firstError]

/-- Every run keeps the children and their reports accounted for. -/
theorem attended_joined (hn : 0 < n) (hrun : run step (create wait n) ls = some r) :
    Attended n r ∧ Joined wait n r := by
  refine run_invariant (fun r => Attended n r ∧ Joined wait n r) (fun r l t h hstep => ?_)
    ⟨attended_create, joined_create hn⟩ hrun
  have hcases := step_cases hstep
  exact ⟨h.1.step hcases, h.2.step hcases (h.1.reports_more hcases)⟩

/-- A run has as many steps that are no cancellations as it uses up work. -/
theorem run_work (h : Attended n r) (hrun : run step r ls = some t) :
    ls.countP GroupLabel.isWork + t.work n ≤ r.work n := by
  induction ls generalizing r with
  | nil =>
    obtain rfl : r = t := by simpa [run] using hrun
    simp
  | cons l ls ih =>
    obtain ⟨a, ha, hrest⟩ := run_cons.mp hrun
    have hfirst := step_work h (step_cases ha)
    have hlater := ih (h.step (step_cases ha)) hrest
    rw [List.countP_cons]
    omega

/-- When nothing is left to happen `start` has returned, every child has reported and every
call of `one` has returned. -/
theorem Joined.nothing_left (hjoined : Joined wait n r) (h : r.Settled) :
    (∃ index, r.loop = .report index ∧ r.group.size ≤ index) ∧ r.pending = [] ∧
    r.calls.flatten = [] := by
  refine ⟨?_, ?_, ?_⟩
  · have hloop := h (.loop none) rfl
    simp only [GroupRun.step, stepLoop] at hloop
    cases hat : r.loop with
    | initiate index =>
      simp only [hat] at hloop
      split at hloop <;> cases hloop
    | check index => simp [hat] at hloop
    | emit index => simp [hat] at hloop
    | report index =>
      refine ⟨index, rfl, ?_⟩
      by_contra hindex
      simp [hat, show index < r.group.size by omega] at hloop
  · rw [List.eq_nil_iff_forall_not_mem]
    intro index hpending
    have hdeliver := h (.deliver index .success .started) rfl
    simp [GroupRun.step, hpending] at hdeliver
  · by_contra hcalls
    obtain ⟨a, ha⟩ := List.exists_mem_of_ne_nil _ hcalls
    obtain ⟨call, hcall, hacall⟩ := List.mem_flatten.mp ha
    obtain ⟨k, hk⟩ := List.mem_iff_getElem?.mp hcall
    cases call with
    | nil => simp at hacall
    | cons b rest =>
      have hproceed := h (.proceed k none) rfl
      rcases hjoined.actions b (List.mem_flatten.mpr ⟨_, hcall, List.mem_cons_self⟩) with
        ⟨listener, rfl⟩ | ⟨result, rfl⟩
      · simp [GroupRun.step, hk] at hproceed
      · simp [GroupRun.step, hk] at hproceed

/-- When nothing is left to happen every child has reported once. -/
theorem Attended.all_reported (h : Attended n r) {index : ℕ} (hloop : r.loop = .report index)
    (hindex : r.group.size ≤ index) (hpending : r.pending = []) :
    (r.group.reports.map (·.index)).Perm (List.range n) := by
  have hchildren : r.children = r.group.reports.map (·.index) := by simp [children, hpending]
  refine (List.perm_ext_iff_of_nodup (hchildren ▸ h.once) List.nodup_range).mpr fun i => ?_
  have hattempted : r.attempted = n := by simp [attempted, hloop, h.size]
  have hsize := h.size
  rw [← hchildren, h.known, hattempted, List.mem_range]
  refine ⟨And.left, fun hi => ⟨hi, ?_⟩⟩
  simp [accounted, revisited, hloop, show i < index by omega]

end GroupRun

/-- The fan-out join of `n` children, after any run: the counter and the reports add up to `n`;
no child reports twice; the handler is completed as often as `m_finished` is called, at most
once, after all reports and with the first error among them; a listener is asked at most once
to stop, after an error of a start. The steps other than cancellations are bounded, and when
none is left every child has reported, the handler was completed and, after an error of a
start, every listener was asked once. -/
theorem fanOut_joins {wait : Bool} {n : ℕ} {ls : List GroupLabel} {r : GroupRun} (hn : 0 < n)
    (hrun : run GroupRun.step (GroupRun.create wait n) ls = some r) :
    r.group.remaining + r.group.reports.length = n ∧ (r.group.reports.map (·.index)).Nodup ∧
      r.group.results.length = r.finished.length ∧ r.finished.length ≤ 1 ∧
      (∀ result ∈ r.finished, r.group.reports.length = n ∧ result = r.group.firstError) ∧
      r.stopped.Nodup ∧
      (r.stopped ≠ [] → wait = false ∧ r.group.reports.any (·.error.failed) = true) ∧
      ls.countP GroupLabel.isWork ≤ n * (2 * n + 9) + 1 ∧
      (r.Settled → (r.group.reports.map (·.index)).Perm (List.range n) ∧
        r.finished = [r.group.firstError] ∧ r.group.results.length = 1 ∧
        r.stopped.Perm
          (if r.group.reports.any (·.error.failed) && !wait then List.range n else [])) := by
  obtain ⟨hattended, hjoined⟩ := GroupRun.attended_joined hn hrun
  have hendings := hjoined.endings
  have hstops := hjoined.stops
  rw [OperationGroup.firstError_failed_eq] at hstops
  refine ⟨hjoined.remaining, (List.nodup_append.mp hattended.once).2.1, hjoined.results, ?_,
    fun result hresult => ?_, ?_, fun hstopped => ?_, ?_, fun hsettled => ?_⟩
  · have hlength := hendings.length_eq
    rw [List.length_append] at hlength
    split at hlength
    · simp only [List.length_singleton] at hlength
      omega
    · simp only [List.length_nil] at hlength
      omega
  · have hmem := hendings.mem_iff.mp (List.mem_append_right _ hresult)
    split at hmem
    · exact ⟨by assumption, List.mem_singleton.mp hmem⟩
    · cases hmem
  · have hnodup : (r.stopping ++ r.stopped).Nodup := by
      refine hstops.nodup_iff.mpr ?_
      split
      · exact List.nodup_range
      · exact List.nodup_nil
    exact (List.nodup_append.mp hnodup).2.1
  · by_contra hnone
    rw [if_neg (by simpa [and_comm] using hnone)] at hstops
    exact hstopped (List.append_eq_nil_iff.mp hstops.eq_nil).2
  · have hwork := GroupRun.run_work GroupRun.attended_create hrun
    have hstart : (GroupRun.create wait n).work n = n * (2 * n + 9) + 1 := by
      simp only [GroupRun.work, GroupRun.loopWork, GroupRun.create, Nat.sub_zero,
        List.length_nil, List.flatten_nil]
      ring
    omega
  · obtain ⟨⟨index, hloop, hindex⟩, hpending, hcalls⟩ :=
      GroupRun.Joined.nothing_left hjoined hsettled
    have hreported := hattended.all_reported hloop hindex hpending
    have hlength : r.group.reports.length = n := by simpa using hreported.length_eq
    rw [GroupRun.ending, hcalls, if_pos hlength] at hendings
    rw [GroupRun.stopping, hcalls] at hstops
    have hfinished : r.finished = [r.group.firstError] := by simpa using hendings
    exact ⟨hreported, hfinished, by simp [hjoined.results, hfinished], hstops⟩

/-- A start of two listeners: the first reports an error while `start` is still running, and
the second cannot be initiated. -/
def twoFailures : List GroupLabel :=
  [.loop none, .deliver 0 .operationAborted .cancelled, .proceed 0 none, .loop none,
    .loop (some .uncoded), .loop none, .loop none, .loop none, .proceed 0 none, .proceed 1 none]

/-- A start that failed twice ends with the first of the errors and asks both listeners to
stop. -/
theorem fanOut_joins_twoFailures :
    ∃ r, run GroupRun.step (.create false 2) twoFailures = some r ∧ r.stopped = [0, 1] ∧
      r.finished = [.operationAborted] ∧ r.group.remaining + r.group.reports.length = 2 ∧
      ∀ result ∈ r.finished, r.group.reports.length = 2 ∧ result = r.group.firstError := by
  obtain ⟨r, hrun, hstopped, hfinished⟩ : ∃ r, run GroupRun.step (.create false 2)
    twoFailures = some r ∧
      r.stopped = [0, 1] ∧ r.finished = [.operationAborted] := ⟨_, rfl, rfl, rfl⟩
  obtain ⟨hremaining, -, -, -, hresult, -⟩ := fanOut_joins (by decide) hrun
  exact ⟨r, hrun, hstopped, hfinished, hremaining, hresult⟩

end Serveza
