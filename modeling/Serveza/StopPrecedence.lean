import Serveza.ServerReports
import Serveza.StartRollback

/-!
# A stop during a start

A stop that is requested between the begin and the end of a start wins: the start is
completed with `operation_aborted`. Its listeners halt as well if each last look at one of
them for a stop request sees the start in its queue. The recheck after the loop covers the
stops that come before the starts of the loop, but it cannot see a start behind `stopped`.
-/

namespace Serveza

open Foundation

/-- The child failed by itself: its initiation or its startup sequence failed. -/
def Report.failedByItself (report : Report) : Bool :=
  report.cause = none || report.cause = some .startupFailed

/-- A child of a start that did not fail by itself succeeded or was aborted. -/
theorem Report.Justified.aborted {report : Report} (h : report.Justified false)
    (hfailed : report.error.failed = true) (hown : report.failedByItself = false) :
    report.error = .operationAborted := by
  unfold Report.Justified at h
  split at h <;> simp_all [Report.failedByItself]

namespace Server

variable {s s₁ s' : Server} {l : ServerLabel} {done added : List Action} {key : ℕ}

/-- A server that is stopping or stopped stays so unless a start begins. -/
theorem Acts.halted (h : s.Acts l s₁ done added) (hbegin : ∀ k, done ≠ [.beginStart k])
    (hhalted : s.control.state.Halted) : s₁.control.state.Halted := by
  cases h with
  | requestStop hopen =>
    rw [ServerControl.requestStop, if_pos hhalted]
    exact hhalted
  | proceed hnext h =>
    cases h with
    | begins hgroup hcontrol => exact absurd rfl (hbegin _)
    | rejects hgroup hcontrol => exact absurd rfl (hbegin _)
    | @finishStart _ k result group ec control hgroup hstart hcontrol =>
      have hsame : control = s.control := by
        have hne : s.control.state ≠ .starting ∧ s.control.state ≠ .running := by
          rcases hhalted with h | h <;> simp [h]
        by_cases hfailed : result.failed = true
        · rw [ServerControl.finishStart, if_pos hfailed, if_pos hhalted] at hcontrol
          exact (Prod.mk.inj hcontrol).2.symm
        · rw [ServerControl.finishStart, if_neg hfailed, if_neg hne.1, if_neg hne.2] at hcontrol
          exact (Prod.mk.inj hcontrol).2.symm
      subst hsame
      exact hhalted
    | @finishWait _ k result group ec control hgroup hwait hcontrol =>
      obtain ⟨-, rfl⟩ := Prod.mk.inj hcontrol
      split
      · exact hhalted
      · exact Or.inr rfl
    | _ => exact hhalted
  | _ => exact hhalted

/-- The last look at a listener for a stop request sees its start, unless a recheck follows. -/
def CatchesLast (key : ℕ) (s : Server) : ServerLabel → Prop
  | .proceed t _ =>
    match s.next t with
    | some (.stopRead listener) =>
      s.overlooks listener = false ∨ .recheck key ∈ s.actions ∨ 2 ≤ s.stopsPending listener
    | _ => True
  | _ => True

/-- Whether the last look at a listener sees its start, evaluated. -/
def catchesLast (key : ℕ) (s : Server) : ServerLabel → Bool
  | .proceed t _ =>
    match s.next t with
    | some (.stopRead listener) =>
      decide (s.overlooks listener = false ∨ .recheck key ∈ s.actions ∨ 2 ≤ s.stopsPending listener)
    | _ => true
  | _ => true

/-- The evaluation is right. -/
theorem catchesLast_iff (key : ℕ) (s : Server) (l : ServerLabel) :
    catchesLast key s l = true ↔ CatchesLast key s l := by
  unfold catchesLast CatchesLast
  split
  · split <;> simp
  · simp

instance (key : ℕ) (s : Server) (l : ServerLabel) : Decidable (CatchesLast key s l) :=
  decidable_of_iff _ (catchesLast_iff key s l)

/-- A start is called on an idle or stopped server; no other start is being initiated. After
it has begun and before it is completed the server is asked to stop. Apart from the two calls
there is progress only, and in the end nothing is left to be done. No child fails by itself.
`m` is the server at the moment the stop is requested. -/
structure StopDuringStart (t key u : ℕ) (before after : List ServerLabel) (s₀ m s : Server) :
    Prop where
  reached : Reachable step {} s₀
  control : s₀.control.state = .idle ∨ s₀.control.state = .stopped
  nonempty : s₀.listeners ≠ []
  alone : ∀ a ∈ s₀.actions, a.isStart = false
  started : run step s₀ (.asyncStart t key :: before) = some m
  begun : .beginStart key ∉ m.actions
  unfinished : ∀ group, m.groups key = some group → group.results = []
  moves : ¬ m.control.state.Halted
  stopped : run step m (.requestStop u :: after) = some s
  progress : ∀ l ∈ before ++ after, l.isProgress = true
  quiescent : s.Quiescent
  healthy : ∀ group, s.groups key = some group →
    ∀ report ∈ group.reports, report.failedByItself = false

/-- The start has begun, the server is halting, and the start can only be aborted. -/
structure Halting (s : Server) (key : ℕ) : Prop extends Single s key where
  begun : .beginStart key ∉ s.actions
  halted : s.control.state.Halted
  results : ∀ group, s.groups key = some group → ∀ result ∈ group.results,
    result = .operationAborted ∨ ∃ report ∈ group.reports, report.failedByItself = true

/-- While the server is halting no start begins. -/
theorem Halting.no_begin (h : s.Halting key) (hacts : s.Acts l s₁ done added) (k : ℕ) :
    done ≠ [.beginStart k] := by
  intro hdone
  have hmem : .beginStart k ∈ s.actions := hacts.mem_done (by simp [hdone])
  obtain rfl : k = key := Option.some.inj (h.alone _ hmem rfl)
  exact h.begun hmem

/-- A start that is completed while the server is halting is aborted, unless a child failed by
itself. -/
theorem Halting.finish (h : s.Halting key) {group : OperationGroup}
    (hgroup : s.groups key = some group) (hstart : group.wait = false) {result ec : ErrorCode}
    {control : ServerControl} (hmem : .finish key result ∈ s.actions)
    (hcontrol : s.control.finishStart (s.statuses group.size) result = (ec, control)) :
    ec = .operationAborted ∨ ∃ report ∈ group.reports, report.failedByItself = true := by
  have hbegun := ((sound_of_reachable h.reached).accounted key).begun hgroup hmem rfl (by simp)
  have hresult : result = group.firstError :=
    (hbegun.finish result (List.count_pos_iff.mpr hmem)).trans hbegun.firstEc
  by_cases hfailed : result.failed = true
  · rw [ServerControl.finishStart, if_pos hfailed] at hcontrol
    obtain ⟨rfl, -⟩ := Prod.mk.inj hcontrol
    obtain ⟨report, hreport, herror⟩ := OperationGroup.firstError_mem (hresult ▸ hfailed)
    rw [← hresult] at herror
    by_cases hown : report.failedByItself = true
    · exact Or.inr ⟨report, hreport, hown⟩
    · have hjustified := reports_justified h.reached key group hgroup report hreport
      rw [hstart] at hjustified
      exact Or.inl (herror ▸ hjustified.aborted (herror ▸ hfailed) (by simpa using hown))
  · have hne : s.control.state ≠ .starting ∧ s.control.state ≠ .running := by
      rcases h.halted with hstate | hstate <;> simp [hstate]
    rw [ServerControl.finishStart, if_neg hfailed, if_neg hne.1, if_neg hne.2] at hcontrol
    exact Or.inl (Prod.mk.inj hcontrol).1.symm

/-- A step keeps the server halting. -/
theorem Halting.step (h : s.Halting key) (hl : l.isProgress = true) (hstep : s.step l = some s') :
    s'.Halting key := by
  have hsingle := h.toSingle.step hl hstep
  obtain ⟨s₁, done, added, hacts, houtcome⟩ := step_cases hstep
  obtain ⟨group, hgroup, hstart⟩ := h.start
  obtain ⟨group', hgroup', hgroupStep⟩ := hacts.group_step hgroup
  have hgroups : s'.groups key = some group' := by rw [houtcome.groups, hgroup']
  refine ⟨hsingle, fun hmem => ?_, ?_, fun other hother => ?_⟩
  · rcases houtcome.mem hmem with hmem | hmem
    · exact h.begun hmem
    · obtain ⟨t, rfl⟩ := hacts.follows _ hmem
      contradiction
  · rw [houtcome.control]
    exact hacts.halted (h.no_begin hacts) h.halted
  · obtain rfl := Option.some.inj (hgroups.symm.trans hother)
    have hold := h.results group hgroup
    cases hgroupStep with
    | rejected hdone => exact absurd hdone (h.no_begin hacts key)
    | told hmade hadded hdone =>
      intro result hresult
      exact (hold result hresult).imp_right fun ⟨report, hreport, hown⟩ =>
        ⟨report, List.mem_append_left _ hreport, hown⟩
    | finishedStart hdone hstart' hcontrol =>
      intro result hresult
      rcases List.mem_append.mp hresult with hresult | hresult
      · exact hold result hresult
      · rw [List.mem_singleton.mp hresult]
        exact h.finish hgroup hstart (hacts.mem_done (by simp [hdone])) hcontrol
    | finishedWait hdone hwait => simp [hstart] at hwait
    | _ => exact hold

/-- Each listener of the snapshot has a stop ahead of it, or the recheck is still to come. -/
def Guarded (s : Server) (key : ℕ) : Prop :=
  ∀ group, s.groups key = some group →
    ∀ index < group.size, .recheck key ∈ s.actions ∨ s.StopAhead index

/-- Once the recheck has been carried out no start of a child is to come. -/
theorem Halting.no_start (h : s.Halting key) (hrecheck : .recheck key ∉ s.actions) (listener : ℕ) :
    s.startsPending listener = false := by
  rw [Bool.eq_false_iff]
  intro hpending
  obtain ⟨k, hmem⟩ := startsPending_iff.mp hpending
  obtain rfl : k = key := Option.some.inj (h.alone _ hmem rfl)
  exact hrecheck ((sound_of_reachable h.reached).order.recheck_mem hmem)

/-- A recheck of a halting server asks every listener of the snapshot to stop. -/
theorem Halting.recheck (h : s.Halting key) {group : OperationGroup}
    (hgroup : s.groups key = some group) (hacts : s.Acts l s₁ [.recheck key] added) {index : ℕ}
    (hindex : index < group.size) : .stopRead index ∈ added := by
  cases hacts with
  | proceed hnext hperforms =>
    cases hperforms with
    | recheck hgroup' =>
      obtain rfl := Option.some.inj (hgroup.symm.trans hgroup')
      simp [ServerControl.stopRequested, h.halted, OperationGroup.requestStop, hindex]

/-- A step that catches every listener keeps the listeners of the snapshot guarded. -/
theorem Halting.guarded (h : s.Halting key) (hguarded : s.Guarded key) (hl : l.isProgress = true)
    (hcatches : CatchesLast key s l) (hacts : s.Acts l s₁ done added)
    (houtcome : Outcome s s₁ done added s') :
    s'.Guarded key := by
  intro group' hgroup' index hindex
  obtain ⟨group, hgroup, -⟩ := h.start
  obtain ⟨group₁, hgroup₁, -, hsize⟩ := hacts.groups hgroup
  obtain rfl := Option.some.inj (hgroup'.symm.trans (houtcome.groups ▸ hgroup₁))
  rw [hsize] at hindex
  by_cases hrecheck : .recheck key ∈ s.actions
  · by_cases hdone : .recheck key ∈ done
    · obtain rfl : done = [.recheck key] := by
        cases hacts with
        | proceed hnext hperforms => rw [List.mem_singleton.mp hdone]
        | _ => simp at hdone
      exact Or.inr (Or.inl (houtcome.mem_of (Or.inr (h.recheck hgroup hacts hindex)) (by simp)))
    · exact Or.inl (houtcome.mem_of (Or.inl hrecheck) hdone)
  · have hpending := h.no_start hrecheck index
    have hahead := (hguarded group hgroup index hindex).resolve_left hrecheck
    refine Or.inr (hahead.step (stopsCounted_of_reachable h.reached) hacts houtcome
      (hindex.trans_le ((sound_of_reachable h.reached).placed.sized key group hgroup))
      (by rintro tag rfl; contradiction)
      (h.no_begin hacts) (fun hdone => ?_) fun _ => Or.inl hpending)
    subst hdone
    cases hacts with
    | proceed hnext hperforms =>
      simp only [CatchesLast, hnext] at hcatches
      exact hcatches.imp_right fun hlater => hlater.resolve_left hrecheck

/-- A stop request to a server with a start that has begun makes it halt, with a stop ahead of
every listener. -/
theorem halting_requested {u : ℕ} (h : s.Single key) (hbegun : .beginStart key ∉ s.actions)
    (hunfinished : ∀ group, s.groups key = some group → group.results = [])
    (hstep : s.step (.requestStop u) = some s') : s'.Halting key ∧ s'.Guarded key := by
  have hreached := h.reached.tail hstep
  obtain ⟨s₁, done, added, hacts, houtcome⟩ := step_cases hstep
  have halone := h.alone.step (by simp) hacts houtcome
  obtain ⟨group, hgroup, hstart⟩ := h.start
  have hsize := (sound_of_reachable h.reached).placed.sized key group hgroup
  cases hacts with
  | requestStop hopen =>
    have hgroup' : s'.groups key = some group := by rw [houtcome.groups, hgroup]
    refine ⟨⟨⟨hreached, halone, group, hgroup', hstart⟩, fun hmem => ?_, ?_,
      fun other hother => ?_⟩,
      fun other hother index hindex => ?_⟩
    · rcases houtcome.mem hmem with hmem | hmem
      · exact hbegun hmem
      · simp at hmem
    · rw [houtcome.control, ServerControl.requestStop]
      split
      · assumption
      · exact Or.inl rfl
    · obtain rfl := Option.some.inj (hgroup'.symm.trans hother)
      simp [hunfinished group hgroup]
    · obtain rfl := Option.some.inj (hgroup'.symm.trans hother)
      refine Or.inr (Or.inl (houtcome.mem_of (Or.inr ?_) (by simp)))
      exact List.mem_append_left _
        (List.mem_map_of_mem (List.mem_range.mpr (hindex.trans_le hsize)))

/-- A halting server that has nothing left to be done has aborted the start. -/
theorem Halting.aborted (h : s.Halting key) (hquiescent : s.Quiescent) {group : OperationGroup}
    (hgroup : s.groups key = some group)
    (hhealthy : ∀ report ∈ group.reports, report.failedByItself = false) :
    group.results = [.operationAborted] := by
  have hsound := sound_of_reachable h.reached
  have haccounted := hsound.accounted key
  rw [Accounted, hgroup] at haccounted
  rcases haccounted with hunbegun | hrejected | hbegun
  · have hone := hunbegun.begins
    simp [ledger, hquiescent.actions_eq] at hone
  · exact hrejected.results
  · obtain ⟨group', hgroup', hstart⟩ := h.start
    obtain rfl := Option.some.inj (hgroup.symm.trans hgroup')
    obtain ⟨-, result, hresults⟩ := hsound.completed hquiescent hgroup hstart hbegun
    rcases h.results group hgroup result (by simp [hresults]) with
      haborted | ⟨report, hreport, hown⟩
    · rw [hresults, haborted]
    · simp [hhealthy report hreport] at hown

/-- A stop during a start aborts the start, and it halts every listener of the snapshot if
the last look at each of them sees its start. -/
theorem stopDuringStart_wins {t u : ℕ} {before after : List ServerLabel} {s₀ m : Server}
    (h : StopDuringStart t key u before after s₀ m s) : ∃ group, s.groups key = some group ∧
      group.results = [.operationAborted] ∧
      (Along Server.step (CatchesLast key) m (.requestStop u :: after) →
        ∀ index < group.size, ∀ x, s.listeners[index]? = some x → x.core.state.Halted) := by
  obtain ⟨s₁, hcall, hbefore⟩ := run_cons.mp h.started
  obtain ⟨m', hrequest, hafter⟩ := run_cons.mp h.stopped
  have hsingle : m.Single key :=
    (single_called h.reached h.alone hcall).1.run
      (fun l hl => h.progress l (List.mem_append_left _ hl)) hbefore
  obtain ⟨hhalting', hguarded'⟩ := halting_requested hsingle h.begun h.unfinished hrequest
  have hprogress : Along Server.step (fun _ l => l.isProgress = true) m' after :=
    along_of_labels fun l hl => h.progress l (List.mem_append_right _ hl)
  have hhalting : s.Halting key :=
    run_invariant_along (Halting · key) (fun _ _ _ ha hl hstep => ha.step hl hstep)
      hhalting' hprogress hafter
  obtain ⟨group, hgroup, -⟩ := hhalting.start
  refine ⟨group, hgroup, hhalting.aborted h.quiescent hgroup
    (h.healthy group hgroup), fun hcatches => ?_⟩
  have hguarded : s.Halting key ∧ s.Guarded key :=
    run_invariant_along (fun a => Halting a key ∧ Guarded a key) (fun a l b ha hcond hstep => by
      obtain ⟨a₁, done, added, hacts, houtcome⟩ := step_cases hstep
      exact ⟨ha.1.step hcond.1 hstep, ha.1.guarded ha.2 hcond.1 hcond.2 hacts houtcome⟩)
      ⟨hhalting', hguarded'⟩ (hprogress.and (hcatches.2 m' hrequest)) hafter
  intro index hindex x hx
  refine StopAhead.halted ((hguarded.2 group hgroup index hindex).resolve_left ?_)
    (stopsCounted_of_reachable hhalting.reached) h.quiescent hx
  rw [h.quiescent.actions_eq]
  exact List.not_mem_nil

/-- The listener has started when the stop is requested, and its start is not reported yet. -/
def stopAfterStart : List ServerLabel := proceeds 1 3 ++ [runs 2 0] ++ proceeds 2 2 ++ [runs 2 0]

/-- A stop that comes when the listener has started aborts the start and halts the listener. -/
theorem stopDuringStart_wins_running : ∃ s₀ m s group,
    StopDuringStart 0 0 1 (proceeds 0 5 ++ [runs 2 0]) stopAfterStart s₀ m s ∧
    s.groups 0 = some group ∧
      group.results = [.operationAborted] ∧
      ∀ index < group.size, ∀ x, s.listeners[index]? = some x → x.core.state.Halted := by
  have h : StopDuringStart 0 0 1 (proceeds 0 5 ++ [runs 2 0]) stopAfterStart _ _ _ :=
    ⟨⟨[.addListener defaultAcceptor], rfl⟩, by decide, by decide, by decide, rfl, by decide,
      by rintro _ ⟨⟩; rfl, by decide, rfl, by decide, ⟨rfl, by decide⟩, by rintro _ ⟨⟩; decide⟩
  obtain ⟨group, hgroup, hresults, hhalted⟩ := stopDuringStart_wins h
  exact ⟨_, _, _, group, h, hgroup, hresults, hhalted (by decide)⟩

/-- The stop runs before the loop starts the listener, and the recheck finds it `stopped`. -/
def stopBeforeStart : List ServerLabel :=
  proceeds 1 3 ++ [runs 2 0] ++ proceeds 0 5 ++ [runs 2 0, runs 2 0] ++ proceeds 2 2

/-- A stop during a start may leave a listener running. -/
theorem stopDuringStart_leaks :
    ¬ ∀ t key u before after s₀ m s, StopDuringStart t key u before after s₀ m s →
    ∀ group, s.groups key = some group → group.results = [.operationAborted] ∧
      ∀ index < group.size, ∀ x, s.listeners[index]? = some x → x.core.state.Halted := by
  intro hclaim
  have h : StopDuringStart 0 0 1 (proceeds 0 1) stopBeforeStart _ _ _ :=
    ⟨⟨[.addListener defaultAcceptor], rfl⟩, by decide, by decide, by decide, rfl, by decide,
      by rintro _ ⟨⟩; rfl, by decide, rfl, by decide, ⟨rfl, by decide⟩, by rintro _ ⟨⟩; decide⟩
  have hhalted := (hclaim 0 0 1 (proceeds 0 1) stopBeforeStart _ _ _ h _ rfl).2 0 (by decide) _ rfl
  revert hhalted
  decide

end Server

end Serveza
