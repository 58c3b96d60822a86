import Serveza.ServerStops

/-!
# The rollback of a failed start

The first error of a child makes a start ask every listener of its snapshot to stop. The
requests run against the loop that starts the children and against the strands: a listener
that has been asked may still be started afterwards, and one that reads as `stopped` is not
asked at all, also while its start is queued. As long as neither happens, a failed start
leaves no listener of its snapshot running.
-/

namespace Serveza

open Foundation

/-- The step is progress of the calls and operations there are, and not a call. -/
def ServerLabel.isProgress : ServerLabel → Bool
  | .proceed _ _ | .listener _ _ _ => true
  | _ => false

/-- The action belongs to a start that is being initiated. -/
def Action.isStart : Action → Bool
  | .beginStart _ | .startChild _ _ => true
  | _ => false

namespace Server

variable {s s₁ s' : Server} {l : ServerLabel} {done added : List Action} {key : ℕ}

/-- Only one start is being initiated. -/
def Alone (s : Server) (key : ℕ) : Prop := ∀ a ∈ s.actions, a.isStart = true → a.owner? = some key

/-- Unless another one is called, only one start is being initiated. -/
theorem Alone.step (h : s.Alone key) (hl : ∀ t k, l ≠ .asyncStart t k)
    (hacts : s.Acts l s₁ done added) (houtcome : Outcome s s₁ done added s') : s'.Alone key := by
  intro a ha hstart
  rcases houtcome.mem ha with ha | ha
  · exact h a ha hstart
  · have hfollows := hacts.follows a ha
    cases a with
    | beginStart k =>
      obtain ⟨t, ht⟩ := hfollows
      exact absurd ht (hl t k)
    | startChild k index =>
      have hdone : done = [.beginStart k] := hfollows
      exact h (.beginStart k) (hacts.mem_done (by simp [hdone])) rfl
    | _ => contradiction

/-- The last call of `request_stop` on a listener comes after its start has been queued, and it
sees a listener that is not stopped or that has no unanswered start in its queue. -/
def Catches (s : Server) : ServerLabel → Prop
  | .proceed t _ =>
    match s.next t with
    | some (.stopRead listener) => s.overlooks listener = false ∨ 2 ≤ s.stopsPending listener
    | some (.stopPost listener) => s.startsPending listener = false ∨ 2 ≤ s.stopsPending listener
    | _ => True
  | _ => True

instance (s : Server) (l : ServerLabel) : Decidable (s.Catches l) := by
  unfold Catches
  split
  · split <;> infer_instance
  · infer_instance

/-- One start is called on a server whose listeners are idle or stopped, and no other start
is being initiated. From then on there is progress only, until nothing is left to be done. -/
structure StartedAlone (t key : ℕ) (ls : List ServerLabel) (s₀ s : Server) : Prop where
  reached : Reachable step {} s₀
  nonempty : s₀.listeners ≠ []
  halted : ∀ x ∈ s₀.listeners, x.core.state = .idle ∨ x.core.state = .stopped
  alone : ∀ a ∈ s₀.actions, a.isStart = false
  started : run step s₀ (.asyncStart t key :: ls) = some s
  progress : ∀ l ∈ ls, l.isProgress = true
  quiescent : s.Quiescent

/-- If a child of the start failed, no listener of the snapshot is starting or running, and
the start has been completed with the first error reported. -/
def RolledBack (s : Server) (key : ℕ) : Prop :=
  ∀ group, s.groups key = some group → (∃ report ∈ group.reports, report.error.failed = true) →
    (∀ index < group.size, ∀ x, s.listeners[index]? = some x →
      x.core.state ≠ .starting ∧ x.core.state ≠ .running) ∧
    group.results = [group.firstError]

/-- A start has been called, and no other one is being initiated. -/
structure Single (s : Server) (key : ℕ) : Prop where
  reached : Reachable Server.step {} s
  alone : s.Alone key
  start : ∃ group, s.groups key = some group ∧ group.wait = false

/-- Progress leaves a single start the only one. -/
theorem Single.step (h : s.Single key) (hl : l.isProgress = true) (hstep : s.step l = some s') :
    s'.Single key := by
  obtain ⟨s₁, done, added, hacts, houtcome⟩ := step_cases hstep
  obtain ⟨group, hgroup, hstart⟩ := h.start
  obtain ⟨group', hgroup', hwait, -⟩ := hacts.groups hgroup
  exact ⟨h.reached.tail hstep, h.alone.step (by rintro t k rfl; contradiction) hacts houtcome,
    ⟨group', by rw [houtcome.groups, hgroup'], hwait.trans hstart⟩⟩

/-- A run of progress leaves a single start the only one. -/
theorem Single.run {ls : List ServerLabel} (h : s.Single key) (hls : ∀ l ∈ ls, l.isProgress = true)
    (hrun : run Server.step s ls = some s') : s'.Single key := by
  have halong : Along Server.step (fun _ l => l.isProgress = true) s ls := along_of_labels hls
  exact run_invariant_along (Single · key) (fun _ _ _ ha hl hstep => ha.step hl hstep) h halong hrun

/-- A start that is called while no other one is being initiated is the only one. -/
theorem single_called {t : ℕ} (hreached : Reachable Server.step {} s)
    (halone : ∀ a ∈ s.actions, a.isStart = false) (hstep : s.step (.asyncStart t key) = some s') :
    s'.Single key ∧ s'.groups key = some (.create false s.listeners.length) := by
  obtain ⟨s₁, done, added, hacts, houtcome⟩ := step_cases hstep
  cases hacts with
  | asyncStart hnew hopen =>
    have hgroup : s'.groups key = some (.create false s.listeners.length) := by
      rw [houtcome.groups]
      exact if_pos rfl
    refine ⟨⟨hreached.tail hstep, fun a ha hstart => ?_, ⟨_, hgroup, rfl⟩⟩, hgroup⟩
    rcases houtcome.mem ha with ha | ha
    · simp [halone a ha] at hstart
    · rw [List.mem_singleton.mp ha]
      rfl

/-- Once a child has failed there is a stop ahead of every listener of the snapshot. -/
structure Rolling (s : Server) (key : ℕ) : Prop extends Single s key where
  ahead : ∀ group, s.groups key = some group → group.firstEc.failed = true →
    ∀ index < group.size, s.StopAhead index

/-- A begin of the start comes before all its errors. -/
theorem Rolling.no_begin (h : s.Rolling key) {group : OperationGroup}
    (hgroup : s.groups key = some group) (hfailed : group.firstEc.failed = true) (k : ℕ) :
    .beginStart k ∉ s.actions := by
  intro hmem
  obtain rfl : k = key := Option.some.inj (h.alone _ hmem rfl)
  have hfresh := (((sound_of_reachable h.reached).accounted k).unbegun hgroup hmem).fresh
  rw [show group.firstEc = .success from congrArg OperationGroup.firstEc hfresh] at hfailed
  contradiction

/-- A step that looks at a listener for a stop request catches it. -/
theorem Catches.stopRead {listener : ℕ} (h : s.Catches l) (hacts : s.Acts l s₁ done added)
    (hdone : done = [.stopRead listener]) :
    s.overlooks listener = false ∨ 2 ≤ s.stopsPending listener := by
  subst hdone
  cases hacts with
  | proceed hnext hperforms => simpa only [Catches, hnext] using h

/-- A step that posts a stop to a listener catches it. -/
theorem Catches.stopPost {listener : ℕ} (h : s.Catches l) (hacts : s.Acts l s₁ done added)
    (hdone : done = [.stopPost listener]) :
    s.startsPending listener = false ∨ 2 ≤ s.stopsPending listener := by
  subst hdone
  cases hacts with
  | proceed hnext hperforms => simpa only [Catches, hnext] using h

/-- The first error of a start asks every listener to stop. -/
theorem stopRead_mem_one {group : OperationGroup} {report : Report} (hstart : group.wait = false)
    (hfirst : group.firstEc.failed = false)
    (hfailed : (group.one key report).1.firstEc.failed = true) {index : ℕ}
    (hindex : index < group.size) : .stopRead index ∈ (group.one key report).2 := by
  have herror : report.error.failed = true := by
    by_contra hsuccess
    simp [OperationGroup.one, hsuccess, hfirst] at hfailed
  simp [OperationGroup.one, hstart, hfirst, herror, OperationGroup.requestStop, hindex]

/-- A step that catches every listener keeps a start rolling back. -/
theorem Rolling.step (h : s.Rolling key) (hl : l.isProgress = true) (hcatches : s.Catches l)
    (hstep : s.step l = some s') : s'.Rolling key := by
  refine ⟨h.toSingle.step hl hstep, fun group' hgroup' hfailed index hindex => ?_⟩
  obtain ⟨s₁, done, added, hacts, houtcome⟩ := step_cases hstep
  obtain ⟨group, hgroup, hstart⟩ := h.start
  obtain ⟨group₁, hgroup₁, hgroupStep⟩ := hacts.group_step hgroup
  obtain rfl : group₁ = group' := Option.some.inj (hgroup₁.symm.trans (houtcome.groups ▸ hgroup'))
  have hsize : group₁.size = group.size := by cases hgroupStep <;> rfl
  rw [hsize] at hindex
  have hkept (hold : group.firstEc.failed = true) : s'.StopAhead index := by
    refine (h.ahead group hgroup hold index hindex).step
      (stopsCounted_of_reachable h.reached) hacts houtcome
      (hindex.trans_le ((sound_of_reachable h.reached).placed.sized key group hgroup))
        (by rintro tag rfl; contradiction)
      (fun k hk => ?_) (hcatches.stopRead hacts) (hcatches.stopPost hacts)
    exact h.no_begin hgroup hold k (hacts.mem_done (by simp [hk]))
  cases hgroupStep with
  | told hmade hadded hdone =>
    by_cases hold : group.firstEc.failed = true
    · exact hkept hold
    · have hmem := stopRead_mem_one hstart (by simpa using hold) hfailed hindex
      refine Or.inl (houtcome.mem_of (Or.inr (hadded hmem)) fun hcarried => ?_)
      exact absurd (hdone _ hcarried) (by simp [Action.owner?])
  | _ => exact hkept hfailed

/-- An operation that has been told of a child has begun. -/
theorem Accounted.begun_of_report {group : OperationGroup} (h : s.Accounted key)
    (hgroup : s.groups key = some group) (hreports : group.reports ≠ []) :
    group.Begun (s.ledger key) := by
  rw [Accounted, hgroup] at h
  rcases h with h | h | h
  · exact absurd (congrArg OperationGroup.reports h.fresh) hreports
  · exact absurd h.reported hreports
  · exact h

/-- A start whose child fails halts every listener of its snapshot and completes with the
first error, provided that its stop requests catch every listener. -/
theorem startedAlone_rolledBack {t : ℕ} {ls : List ServerLabel} {s₀ : Server}
    (h : StartedAlone t key ls s₀ s)
    (hcatches : Along Server.step Catches s₀ (.asyncStart t key :: ls)) : s.RolledBack key := by
  obtain ⟨s', hcall, hrun⟩ := run_cons.mp h.started
  obtain ⟨hsingle, hnew⟩ := single_called h.reached h.alone hcall
  have hrolling' : s'.Rolling key := by
    refine ⟨hsingle, fun group hgroup hfailed => ?_⟩
    obtain rfl := Option.some.inj (hnew.symm.trans hgroup)
    contradiction
  have hrolling : s.Rolling key :=
    run_invariant_along (Rolling · key)
      (fun _ _ _ ha hcond hstep => ha.step hcond.1 hcond.2 hstep) hrolling'
      ((along_of_labels h.progress).and (hcatches.2 s' hcall)) hrun
  have hsound := sound_of_reachable hrolling.reached
  intro group hgroup hreport
  have hbegun :=
    (hsound.accounted key).begun_of_report hgroup (List.ne_nil_of_mem hreport.choose_spec.1)
  have hfailed : group.firstEc.failed = true :=
    hbegun.firstEc ▸ OperationGroup.firstError_failed hreport
  obtain ⟨group', hgroup', hstart⟩ := hrolling.start
  obtain rfl := Option.some.inj (hgroup.symm.trans hgroup')
  obtain ⟨-, result, hresults⟩ := hsound.completed h.quiescent hgroup hstart hbegun
  refine ⟨fun index hindex x hx => ?_, ?_⟩
  · have hhalted := (hrolling.ahead group hgroup hfailed index hindex).halted
      (stopsCounted_of_reachable hrolling.reached) h.quiescent hx
    rcases hhalted with hstate | hstate <;> simp [hstate]
  · have hresult := hbegun.results hfailed result (by simp [hresults])
    rw [hresults, hresult, hbegun.firstEc]

/-- A thread carries out its next actions. -/
def proceeds (t n : ℕ) : List ServerLabel := List.replicate n (.proceed t none)

/-- An accepting listener runs its oldest message, and everything it calls succeeds. -/
def runs (t listener : ℕ) : ServerLabel := .listener t listener (.acceptor (.run {}))

/-- An accepting listener runs its oldest message and cannot open its acceptor. -/
def cannotOpen (t listener : ℕ) : ServerLabel :=
  .listener t listener (.acceptor (.run { opened := .ioError }))

/-- Two accepting listeners are registered. -/
def twoAcceptors : List ServerLabel := [.addListener defaultAcceptor, .addListener defaultAcceptor]

/-- The second listener starts before the first one fails, and both starts are queued by then. -/
def lateFailure : List ServerLabel :=
  proceeds 0 8 ++ [runs 1 1, runs 1 1, cannotOpen 1 0, runs 1 0] ++ proceeds 1 5 ++ [runs 1 1]

/-- The start of two listeners is rolled back when one of them fails. -/
theorem startedAlone_rolledBack_late : ∃ s₀ s group, StartedAlone 0 0 lateFailure s₀ s ∧
    s.groups 0 = some group ∧ (∃ report ∈ group.reports, report.error.failed = true) ∧
    s.RolledBack 0 := by
  have h : StartedAlone 0 0 lateFailure _ _ :=
    ⟨⟨twoAcceptors, rfl⟩, by decide, by decide, by decide, rfl, by decide, rfl, by decide⟩
  exact ⟨_, _, _, h, rfl, by decide, startedAlone_rolledBack h (by decide)⟩

/-- The first listener fails and the second one runs its stop before the loop starts it. -/
def earlyFailure : List ServerLabel :=
  proceeds 0 2 ++ [cannotOpen 1 0, runs 1 0] ++ proceeds 1 4 ++ [runs 1 1] ++ proceeds 0 6 ++
    [runs 1 1, runs 1 1] ++ proceeds 1 2

/-- A start may leave a listener running although another one failed. -/
theorem startedAlone_leaks : ¬ ∀ t key ls s₀ s, StartedAlone t key ls s₀ s → s.RolledBack key := by
  intro hclaim
  have h : StartedAlone 0 0 earlyFailure _ _ :=
    ⟨⟨twoAcceptors, rfl⟩, by decide, by decide, by decide, rfl, by decide, rfl, by decide⟩
  have hrolled := (hclaim 0 0 earlyFailure _ _ h _ rfl (by decide)).1 1 (by decide) _ rfl
  revert hrolled
  decide

end Server

end Serveza
