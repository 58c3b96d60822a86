import Serveza.ServerWithoutSteps
import Serveza.StartRollback
import Serveza.WaitErrors

/-!
# A cancelled wait of a server

`finish_wait` moves the server to `stopped` whatever its children report, so a cancelled wait can
announce the end of a server that is running. A wait is completed properly if the server is stopped
already at that time, or if it has not been cancelled and no initiation of a child has thrown: then
it moves the server to `stopped` only because all its listeners had stopped. A wait that does not
move the server is invisible: all else is as if it had not been called. A wait of no listeners,
which is completed without a child, is not covered.
-/

namespace Serveza

open Foundation

/-- Every child has been reported, and each one was completed because its listener had stopped. -/
structure OperationGroup.EndedByStop (group : OperationGroup) : Prop where
  reported : ∀ i < group.size, ∃ report ∈ group.reports, report.index = i
  causes : ∀ report ∈ group.reports, report.cause = some .stopped

namespace Server

variable {s m t : Server} {l : ServerLabel} {ls : List ServerLabel} {key : ℕ}
  {group : OperationGroup}

/-- The wait has been completed, and its children were completed because their listeners had
stopped. -/
def StoppedBy (s : Server) (key : ℕ) : Prop :=
  ∃ group, s.groups key = some group ∧ group.wait = true ∧ 0 < group.size ∧ group.results ≠ [] ∧
    ∀ report ∈ group.reports, report.cause = some .stopped

/-- The step completes the operation, and the control word is not at `stopped` before it. -/
def Finishes (s : Server) (key : ℕ) (l : ServerLabel) : Prop :=
  ∃ u threw result, l = .proceed u threw ∧ s.next u = some (.finish key result) ∧
    s.control.state ≠ .stopped

/-- If the step completes the operation, the server is stopped already, or the operation has not
been cancelled and the initiation of no child has thrown. -/
def endsUncancelled (key : ℕ) (s : Server) : ServerLabel → Bool
  | .proceed u _ =>
    match s.next u with
    | some (.finish k _) => k ≠ key || s.control.state = .stopped ||
        (s.groups key).all fun group =>
          group.cancelled = 0 && group.initiationEcs.all fun ec => !ec.failed
    | _ => true
  | _ => true

/-- What the server would be had one of its waits not been called: some run that takes the other
steps, in the same order, leads to the same control word and snapshot and the same other operations,
and its listeners lack nothing but the waits that the operation has made. -/
def Invisible (ls : List ServerLabel) (s : Server) (key : ℕ) : Prop :=
  ∃ ls' s', run step {} ls' = some s' ∧
    (ls'.map ServerLabel.unnumbered).Sublist (ls.map ServerLabel.unnumbered) ∧
    s'.groups key = none ∧ (∀ k, k ≠ key → s'.groups k = s.groups k) ∧ s'.control = s.control ∧
    s'.status = s.status ∧
    ∀ i, s'.listeners[i]? = (s.listeners[i]?).map (Listener.without (s.gap key i))

/-- A wait that has been completed has no child remaining. -/
theorem remaining_of_results (h : Reachable step {} s) (hgroup : s.groups key = some group)
    (hwait : group.wait = true) (hsize : 0 < group.size) (hresults : group.results ≠ []) :
    group.remaining = 0 := by
  by_contra hpos
  exact hresults ((wait_begun h key group hgroup hwait hsize).unfinished
    (Nat.pos_of_ne_zero hpos)).2

/-- A wait that has been completed is told nothing more. -/
theorem StoppedBy.step (h : s.StoppedBy key) (hs : Reachable step {} s)
    (hstep : s.step l = some t) : t.StoppedBy key := by
  obtain ⟨group, hgroup, hwait, hsize, hresults, hcauses⟩ := h
  obtain ⟨s₁, done, added, hacts, houtcome⟩ := step_cases hstep
  obtain ⟨group', hgroup', hgroupStep⟩ := hacts.group_step hgroup
  rw [← houtcome.groups] at hgroup'
  refine ⟨group', hgroup', ?_⟩
  cases hgroupStep with
  | same | cancelled | threw => exact ⟨hwait, hsize, hresults, hcauses⟩
  | rejected | finishedStart | finishedWait =>
    exact ⟨hwait, hsize, List.append_ne_nil_of_left_ne_nil hresults _, hcauses⟩
  | @told report hmade hadded hdone =>
    have hzero := remaining_of_results hs hgroup hwait hsize hresults
    have hbefore := (wait_begun hs key group hgroup hwait hsize).remaining
    have hafter := (wait_begun (hs.tail hstep) key _ hgroup' hwait hsize).remaining
    simp only [OperationGroup.one, List.length_append, List.length_singleton] at hafter
    omega

/-- A wait that is completed while the server is not stopped, and that has not been cancelled, has
been told only that its listeners had stopped. -/
theorem stoppedBy_of_finishes (hs : Reachable step {} s) (hfinishes : s.Finishes key l)
    (hends : endsUncancelled key s l = true) (hgroup : s.groups key = some group)
    (hwait : group.wait = true) (hsize : 0 < group.size) (hstep : s.step l = some t) :
    t.StoppedBy key := by
  obtain ⟨u, threw, result, rfl, hnext, hopen⟩ := hfinishes
  have huncancelled : group.cancelled = 0 ∧ ∀ ec ∈ group.initiationEcs, ec.failed = false := by
    simpa [endsUncancelled, hnext, hopen, hgroup] using hends
  have hcauses := stopped_of_uncancelled hs hgroup hwait huncancelled.1 huncancelled.2
  obtain ⟨s₁, done, added, hacts, houtcome⟩ := step_cases hstep
  cases hacts with
  | proceed hnext' hperforms =>
    obtain rfl := Option.some.inj (hnext.symm.trans hnext')
    cases hperforms with
    | finishStart hgroup' hstart hcontrol =>
      obtain rfl := Option.some.inj (hgroup.symm.trans hgroup')
      simp [hwait] at hstart
    | @finishWait _ _ _ _ ec control hgroup' hwait' hcontrol =>
      obtain rfl := Option.some.inj (hgroup.symm.trans hgroup')
      refine ⟨group.complete ec, ?_, hwait, hsize, by simp [OperationGroup.complete], hcauses⟩
      rw [houtcome.groups]
      exact if_pos rfl

/-- The wait of a server that is stopped by it is one whose listeners had stopped. -/
theorem StoppedBy.ended (h : s.StoppedBy key) (hs : Reachable Server.step {} s)
    (hgroup : s.groups key = some group) :
    group.EndedByStop := by
  obtain ⟨group', hgroup', hwait, hsize, hresults, hcauses⟩ := h
  obtain rfl := Option.some.inj (hgroup.symm.trans hgroup')
  refine ⟨fun i hi => ?_, hcauses⟩
  by_contra hnone
  have hunreported : group.reported i = 0 := by
    refine List.count_eq_zero.mpr fun hmem => hnone ?_
    obtain ⟨report, hreport, hindex⟩ := List.mem_map.mp hmem
    exact ⟨report, hreport, hindex⟩
  have hpos := (wait_begun hs key group hgroup hwait hsize).remaining_pos hi hunreported
  have hzero := remaining_of_results hs hgroup hwait hsize hresults
  omega

/-- The operation at a key, if there is one, is a wait of some listeners. -/
def HoldsWait (s : Server) (key : ℕ) : Prop :=
  ∀ group, s.groups key = some group → group.wait = true ∧ 0 < group.size

/-- What the operation at a key is was fixed when it was called. -/
theorem HoldsWait.back (h : t.HoldsWait key) (hstep : s.step l = some t) : s.HoldsWait key := by
  intro group hgroup
  obtain ⟨s₁, done, added, hacts, houtcome⟩ := step_cases hstep
  obtain ⟨group', hgroup', hwait, hsize⟩ := hacts.groups hgroup
  rw [← hwait, ← hsize]
  exact h group' (houtcome.groups ▸ hgroup')

/-- An operation that is about to be completed has been called. -/
theorem group_of_finish (hs : Reachable step {} s) {u : ℕ} {result : ErrorCode}
    (hnext : s.next u = some (.finish key result)) :
    ∃ group, s.groups key = some group := by
  refine Option.ne_none_iff_exists'.mp fun hnone => ?_
  have hblank := (sound_of_reachable hs).accounted key
  rw [Accounted, hnone] at hblank
  have hmem : .finish key result ∈ s.actions := by
    obtain ⟨e, he, hhead⟩ := Option.bind_eq_some_iff.mp hnext
    exact List.mem_flatMap.mpr ⟨e, List.mem_of_find?_eq_some he, List.mem_of_head? hhead⟩
  exact absurd hblank.finishes (List.countP_pos_iff.mpr ⟨_, hmem, decide_eq_true rfl⟩).ne'

/-- In a run that ends with a wait at a key, no other operation has ever been there. -/
theorem HoldsWait.along (h : s.HoldsWait key) (hrun : run step {} ls = some s) :
    Along step (fun s l => Reachable step {} s ∧ ∃ t, s.step l = some t ∧ t.HoldsWait key) {} ls :=
  (along_of_last (fun t => t.HoldsWait key) (Reachable step {})
    (fun _ _ _ hs hstep => hs.tail hstep)
    (fun _ _ _ _ hstep ht => ht.back hstep) (.refl _) h hrun).2

/-- A wait that moves the control word to `stopped` is one whose listeners had stopped. -/
theorem ended_of_finishes (hrun : run step {} ls = some s)
    (hends : Along step (fun s l => endsUncancelled key s l = true) {} ls)
    (hgroup : s.groups key = some group) (hwait : s.HoldsWait key) :
    Along step (fun s l => s.Finishes key l → group.EndedByStop) {} ls := by
  obtain ⟨-, hlater⟩ :=
    along_of_last (fun t => t.StoppedBy key → group.EndedByStop) (Reachable step {})
    (fun _ _ _ hs hstep => hs.tail hstep)
    (fun _ _ _ hs hstep ht hstopped => ht (hstopped.step hs hstep))
    (.refl _) (fun hstopped => hstopped.ended ⟨ls, hrun⟩ hgroup) hrun
  refine ((hwait.along hrun).and (hlater.and hends)).mono fun m l hm hfinishes => ?_
  obtain ⟨⟨hreached, t', hstep', hholds⟩, ⟨-, t, hstep, hended⟩, hends⟩ := hm
  obtain ⟨u, threw, result, -, hnext, -⟩ := id hfinishes
  obtain ⟨before, hbefore⟩ := group_of_finish hreached hnext
  obtain ⟨hwait, hsize⟩ := hholds.back hstep' before hbefore
  exact hended (stoppedBy_of_finishes hreached hfinishes hends hbefore hwait hsize hstep)

/-- In a run of clean steps the first error that a wait is told is `operation_aborted`. -/
theorem aborts_of_clean (hrun : run step {} ls = some s) (hwait : s.HoldsWait key)
    (hclean : Along step (fun s _ => endsClean key s = true) {} ls) : s.Aborts key := by
  refine run_invariant_along (fun s => s.Aborts key) (fun m l t haborts hm hstep => ?_)
    ⟨by simp, by simp⟩ ((hwait.along hrun).and hclean) hrun
  obtain ⟨⟨hreached, t', hstep', hholds⟩, hclean⟩ := hm
  exact haborts.step hreached hclean (fun group hgroup => (hholds.back hstep' group hgroup).1) hstep

/-- If the first error that a wait is told is `operation_aborted`, the wait completes with it unless
all its listeners have stopped. -/
theorem aborted_of_aborts (hs : Reachable step {} s) (haborts : s.Aborts key)
    (hgroup : s.groups key = some group) (hwait : group.wait = true) (hsize : 0 < group.size)
    (hended : ¬group.EndedByStop) : ∀ result ∈ group.results, result = .operationAborted := by
  intro result hresult
  have hbegun := wait_begun hs key group hgroup hwait hsize
  have hfailed : group.firstEc.failed = true := by
    by_contra huntold
    refine hended (StoppedBy.ended ⟨group, hgroup, hwait, hsize, List.ne_nil_of_mem hresult,
      fun report hreport => ?_⟩ hs hgroup)
    have herror : report.error.failed = false := by
      by_contra herror
      exact huntold (hbegun.firstEc ▸
        OperationGroup.firstError_failed ⟨report, hreport, by simpa using herror⟩)
    have hjustified := reports_justified hs key group hgroup report hreport
    rw [hwait] at hjustified
    -- every other cause of a child wait stands for an error
    rcases hjustified.wait_cases with hcause | ⟨-, haborted⟩ | ⟨-, hthrown⟩
    · exact hcause
    · exact absurd herror (by rw [haborted]; decide)
    · simp [herror] at hthrown
  have hfirst := haborts.first group hgroup hfailed
  exact (hbegun.results hfailed result hresult).trans hfirst

/-- A wait that does not move the control word leaves all else as if it had not been called. -/
theorem invisible_of_not_finishes (hrun : run step {} ls = some s) (hwait : s.HoldsWait key)
    (hkept : Along step (fun s l => ¬s.Finishes key l) {} ls) : Invisible ls s key := by
  have hmatched (a : Server) (l : ServerLabel) (b a' : Server)
      (hrel : a.Waits key ∧ Without key a a')
      (hm : (Reachable step {} a ∧ ∃ t, a.step l = some t ∧ t.HoldsWait key) ∧ ¬a.Finishes key l)
      (hstep : a.step l = some b) :
      (b.Waits key ∧ Without key b a') ∨ ∃ l' b', a'.step l' = some b' ∧
        l'.unnumbered = l.unnumbered ∧ b.Waits key ∧ Without key b b' := by
    obtain ⟨⟨hreached, t, hstep', hholds⟩, hopen⟩ := hm
    obtain rfl := Option.some.inj (hstep.symm.trans hstep')
    have hwaits : b.Waits key := ⟨hreached.tail hstep, fun group hgroup => (hholds group hgroup).1⟩
    have hfinish (u : ℕ) (threw : Option FailingException) (result : ErrorCode)
        (hl : l = .proceed u threw) (hnext : a.next u = some (.finish key result)) :
        a.control.state = .stopped := by
      by_contra hstate
      exact hopen ⟨u, threw, result, hl, hnext, hstate⟩
    rcases hrel.2.step hrel.1 hwaits hfinish hstep with hsame | ⟨l', b', hstep', hview, hboth⟩
    · exact .inl ⟨hwaits, hsame⟩
    · exact .inr ⟨l', b', hstep', hview, hwaits, hboth⟩
  have hstart : Server.Waits {} key ∧ Without key {} {} :=
    ⟨⟨.refl _, by simp⟩, ⟨⟨rfl, fun k => by simp, fun i => rfl⟩, .nil⟩⟩
  obtain ⟨ls', s', hrun', hsub, -, hwithout⟩ :=
    run_simulated_along _ ServerLabel.unnumbered ServerLabel.unnumbered
    hmatched hstart ((hwait.along hrun).and hkept) hrun
  exact ⟨ls', s', hrun', hsub, (hwithout.agrees.groups key).trans (if_pos rfl), fun k hk =>
    hwithout.agrees.group hk,
    hwithout.agrees.control, hwithout.agrees.status, hwithout.agrees.listeners⟩

end Server

/-- A wait of some listeners that is completed when the server is stopped already, or when it has
not been cancelled and the initiation of no child has thrown, moves the control word to `stopped`
only if each child was completed because its listener had stopped. In a run of clean steps, a wait
whose children were not all completed for that reason is completed with `operation_aborted`, and a
cancelled wait is completed exactly once when nothing is left to run. If a wait does not move the
control word, the rest of the server is as if the wait had not been called. -/
theorem cancelledWait_invisible {ls : List ServerLabel} {s : Server} {key : ℕ}
    {group : OperationGroup} (hrun : run Server.step {} ls = some s)
    (hgroup : s.groups key = some group) (hwait : group.wait = true) (hsize : 0 < group.size)
    (hends : Along Server.step (fun s l => Server.endsUncancelled key s l = true) {} ls) :
    Along Server.step (fun s l => s.Finishes key l → group.EndedByStop) {} ls ∧
    ((Along Server.step (fun s _ => Server.endsClean key s = true) {} ls → ¬group.EndedByStop →
        ∀ result ∈ group.results, result = .operationAborted) ∧
      (group.cancelled ≠ 0 → s.Quiescent → ∃ result, group.results = [result])) ∧
    (¬group.EndedByStop ∨ Along Server.step (fun s l => ¬s.Finishes key l) {} ls →
      Server.Invisible ls s key) := by
  have hreached : Reachable Server.step {} s := ⟨ls, hrun⟩
  have hholds : s.HoldsWait key := fun group' hgroup' =>
    Option.some.inj (hgroup.symm.trans hgroup') ▸ ⟨hwait, hsize⟩
  have hended := Server.ended_of_finishes hrun hends hgroup hholds
  refine ⟨hended, ⟨fun hclean hopen => ?_, fun hcancelled hquiescent => ?_⟩, fun hkept => ?_⟩
  · have haborts := Server.aborts_of_clean hrun hholds hclean
    exact Server.aborted_of_aborts hreached haborts hgroup hwait hsize hopen
  · exact Server.cancelled_completed hreached hquiescent hgroup hwait hsize hcancelled
  · rcases hkept with hopen | hkept
    · have hfinishes := hended.mono fun _ _ h hfinishes => hopen (h hfinishes)
      exact Server.invisible_of_not_finishes hrun hholds hfinishes
    · exact Server.invisible_of_not_finishes hrun hholds hkept

/-- A wait of a server that is stopped, cancelled before its listener is started. -/
def cancelledWhileStopped : List ServerLabel :=
  [.asyncWait 0 1, .proceed 0 none, .addListener defaultAcceptor, .asyncWait 0 0] ++
    Server.proceeds 0 4 ++
    [Server.runs 1 0, .cancel 0 0 1] ++ Server.proceeds 0 2 ++
    [Server.runs 1 0, Server.runs 1 0] ++ Server.proceeds 1 2

/-- The wait of a stopped server is cancelled and completed with `operation_aborted`, and is
invisible. -/
theorem cancelledWait_invisible_stopped :
    ∃ s group, run Server.step {} cancelledWhileStopped = some s ∧
    s.groups 0 = some group ∧ group.cancelled ≠ 0 ∧ group.results.length = 1 ∧
      (∀ result ∈ group.results, result = .operationAborted) ∧
      Server.Invisible cancelledWhileStopped s 0 := by
  have hrun : run Server.step {} cancelledWhileStopped = some _ := rfl
  have hcancelled := @cancelledWait_invisible _ _ 0 _ hrun rfl rfl (by decide) (by decide)
  refine ⟨_, _, hrun, rfl, by decide, rfl, hcancelled.2.1.1 (by decide) fun hended => ?_,
    hcancelled.2.2 (.inl fun hended => ?_)⟩
  all_goals
    exact absurd (hended.causes ⟨0, .operationAborted, some .cancelled⟩ (by decide)) (by decide)

/-- A server is started, and its only wait is cancelled while its listener is running. -/
def cancelledWhileRunning : List ServerLabel :=
  [.addListener defaultAcceptor, .asyncStart 0 0] ++ Server.proceeds 0 5 ++
    [Server.runs 2 0, Server.runs 2 0] ++
    Server.proceeds 2 2 ++ [.asyncWait 0 1] ++ Server.proceeds 0 4 ++
    [Server.runs 2 0, .cancel 1 1 1] ++ Server.proceeds 1 2 ++ [Server.runs 2 0, Server.runs 2 0]

/-- A wait of two listeners: one cannot be started, then the wait is cancelled. -/
def cancelledAfterFailure : List ServerLabel :=
  [.addListener defaultAcceptor, .addListener defaultAcceptor, .asyncWait 0 0] ++
    Server.proceeds 0 8 ++
    [Server.runs 1 0, Server.runs 1 1, .listenerStart 0 7, Server.cannotOpen 1 0,
      Server.runs 1 0, Server.runs 1 0,
      .cancel 0 0 1] ++ Server.proceeds 0 3 ++
      [Server.runs 1 1, Server.runs 1 1] ++ Server.proceeds 1 2

/-- A wait that was cancelled stops a server whose listener is running and announces that to the
observer, and a wait of two listeners that was cancelled may be completed with the error of one of
them. -/
theorem cancelledWait_visible :
    (∃ s t group, run Server.step {} cancelledWhileRunning = some s ∧
      s.step (.proceed 2 none) = some t ∧
      s.Finishes 1 (.proceed 2 none) ∧ t.groups 1 = some group ∧
      group.wait = true ∧ group.size = 1 ∧
      group.reports = [⟨0, .operationAborted, some .cancelled⟩] ∧ s.status.ready = true ∧
      t.status.ready = false ∧
      t.control.state = .stopped ∧
      t.control.events.map (fun e => e.type) = [.starting, .running, .stopped] ∧
      t.listeners.map (fun x => x.core.state) = [.running]) ∧
    ∃ s group, run Server.step {} cancelledAfterFailure = some s ∧
    s.groups 0 = some group ∧ group.wait = true ∧
      group.cancelled ≠ 0 ∧ s.Quiescent ∧ group.results = [.ioError] := by
  refine ⟨⟨_, _, _, rfl, rfl, ⟨2, none, .operationAborted, rfl, rfl, by decide⟩, rfl, rfl, rfl,
    by decide, by decide, by decide,
    rfl, by decide, by decide⟩, ?_⟩
  exact ⟨_, _, rfl, rfl, rfl, by decide, ⟨rfl, by decide⟩, by decide⟩

end Serveza
