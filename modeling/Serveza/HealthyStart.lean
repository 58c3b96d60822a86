import Serveza.StopPrecedence

/-!
# A start that nothing goes against

A start that has begun, whose children succeed and that nobody stops finds the control word
at `starting` or `running` when it ends, unless another operation has overwritten the word: a
wait that is completed sets it to `stopped`, and another start that failed sets it to
`stopping`. Otherwise the start is completed with success and leaves the server running.
-/

namespace Serveza

open Foundation

/-- The step neither requests a stop nor cancels an operation. -/
def ServerLabel.isHarmless : ServerLabel → Bool
  | .requestStop _ | .cancel _ _ _ | .listenerStop _ _ | .listenerCancelStart _ _
  | .listenerCancelWait _ _ _ => false
  | _ => true

namespace Server

variable {s s₁ s' : Server} {l : ServerLabel} {done added : List Action} {key : ℕ}

/-- No listener comes to a stop by the step. -/
def keepsListeners (s : Server) (l : ServerLabel) : Bool :=
  match s.step l with
  | none => true
  | some s' => (s.listeners.zip s'.listeners).all fun e =>
    e.2.core.state = e.1.core.state || !decide e.2.core.state.Halted

/-- A start begins in a server that is not stopping. From then on no stop is requested, no
operation is cancelled and no listener stops, and every child that is done has succeeded. -/
structure HealthyStart (t key : ℕ) (ls : List ServerLabel) (s₀ m : Server) : Prop where
  reached : Reachable step {} s₀
  control : s₀.control.state ≠ .stopping
  begins : s₀.next t = some (.beginStart key)
  started : run step s₀ (.proceed t none :: ls) = some m
  harmless : ∀ l ∈ ls, l.isHarmless = true
  listeners : Along step (fun s l => s.keepsListeners l = true) s₀ (.proceed t none :: ls)
  children : ∀ group, m.groups key = some group →
    ∀ report ∈ group.reports, report.error.failed = false

/-- If the start is about to be completed, it is completed with success and the server is
running then, and if nothing is left to be done it has been completed with success. -/
def Succeeds (m : Server) (key : ℕ) : Prop :=
  (∀ u result threw s, m.next u = some (.finish key result) → m.step (.proceed u threw) = some s →
    (∃ group, s.groups key = some group ∧ group.results = [.success]) ∧
    s.control.state = .running) ∧
  (m.Quiescent → ∃ group, m.groups key = some group ∧ group.results = [.success])

/-- The step completes no wait, and no other start with an error. -/
def KeepsControl (key : ℕ) (s : Server) : ServerLabel → Prop
  | .proceed t _ =>
    match s.next t with
    | some (.finish k result) =>
      k ≠ key → (s.groups k).all (fun group => !group.wait && !result.failed) = true
    | _ => True
  | _ => True

/-- Whether the step completes no wait, and no other start with an error, evaluated. -/
def keepsControl (key : ℕ) (s : Server) : ServerLabel → Bool
  | .proceed t _ =>
    match s.next t with
    | some (.finish k result) =>
      decide (k ≠ key → (s.groups k).all (fun group => !group.wait && !result.failed) = true)
    | _ => true
  | _ => true

/-- The evaluation is right. -/
theorem keepsControl_iff (key : ℕ) (s : Server) (l : ServerLabel) :
    keepsControl key s l = true ↔ KeepsControl key s l := by
  unfold keepsControl KeepsControl
  split
  · split <;> simp [or_iff_not_imp_left]
  · simp

instance (key : ℕ) (s : Server) (l : ServerLabel) : Decidable (KeepsControl key s l) :=
  decidable_of_iff _ (keepsControl_iff key s l)

/-- The control word says that a start is going on or was successful. -/
def Active (s : Server) : Prop := s.control.state = .starting ∨ s.control.state = .running

/-- A start that ends without error in an active server is successful. -/
theorem finishStart_active (h : s.Active) {result ec : ErrorCode} {control : ServerControl}
    {statuses : List ListenerStatus} (hresult : result.failed = false)
    (hcontrol : s.control.finishStart statuses result = (ec, control)) :
    ec = .success ∧ control.state = .running := by
  rw [ServerControl.finishStart, if_neg (by simp [hresult])] at hcontrol
  rcases h with hstate | hstate
  · rw [if_pos hstate] at hcontrol
    obtain ⟨rfl, rfl⟩ := Prod.mk.inj hcontrol
    exact ⟨rfl, rfl⟩
  · rw [if_neg (by simp [hstate]), if_pos hstate] at hcontrol
    obtain ⟨rfl, rfl⟩ := Prod.mk.inj hcontrol
    exact ⟨rfl, hstate⟩

/-- An active server is joined by a further start. -/
theorem beginStart_active (h : s.Active) (statuses : List ListenerStatus) :
    s.control.beginStart statuses = (true, s.control) := by
  rw [ServerControl.beginStart]
  exact if_pos h

/-- A start that begins in a server that is not stopping makes it active. -/
theorem active_begun (h : s.control.state ≠ .stopping) {statuses : List ListenerStatus}
    {answer : Bool} {control : ServerControl}
    (hcontrol : s.control.beginStart statuses = (answer, control)) :
    answer = true ∧ (control.state = .starting ∨ control.state = .running) := by
  by_cases hactive : s.control.state = .starting ∨ s.control.state = .running
  · rw [beginStart_active hactive] at hcontrol
    obtain ⟨rfl, rfl⟩ := Prod.mk.inj hcontrol
    exact ⟨rfl, hactive⟩
  · rw [ServerControl.beginStart, if_neg hactive, if_neg h] at hcontrol
    obtain ⟨rfl, rfl⟩ := Prod.mk.inj hcontrol
    exact ⟨rfl, Or.inl rfl⟩

/-- A harmless step that completes no wait and no failed start keeps the server active. -/
theorem Active.step (h : s.Active) (hl : l.isHarmless = true) (hcontrol : KeepsControl key s l)
    (hown : ∀ result, done = [.finish key result] → result.failed = false)
    (hstart : ∃ group, s.groups key = some group ∧ group.wait = false)
    (hacts : s.Acts l s₁ done added) : s₁.Active := by
  have hkept {k : ℕ} {result : ErrorCode} {group : OperationGroup} {t : ℕ}
      {threw : Option FailingException}
      (hl : l = .proceed t threw) (hnext : s.next t = some (.finish k result))
        (hgroup : s.groups k = some group)
      (hdone : done = [.finish k result]) : group.wait = false ∧ result.failed = false := by
    subst hl
    by_cases hk : k = key
    · subst hk
      obtain ⟨group', hgroup', hwait⟩ := hstart
      obtain rfl := Option.some.inj (hgroup.symm.trans hgroup')
      exact ⟨hwait, hown result hdone⟩
    · simp only [KeepsControl, hnext] at hcontrol
      simpa [hgroup] using hcontrol hk
  cases hacts with
  | requestStop hopen => contradiction
  | proceed hnext hperforms =>
    cases hperforms with
    | begins hgroup hbegin =>
      rw [beginStart_active h] at hbegin
      obtain ⟨-, rfl⟩ := Prod.mk.inj hbegin
      exact h
    | rejects hgroup hbegin =>
      rw [beginStart_active h] at hbegin
      exact absurd (Prod.mk.inj hbegin).1 (by simp)
    | finishStart hgroup hwait hfinish =>
      exact Or.inr (finishStart_active h (hkept rfl hnext hgroup rfl).2 hfinish).2
    | finishWait hgroup hwait hfinish => simp [(hkept rfl hnext hgroup rfl).1] at hwait
    | _ => exact h
  | _ => exact h

/-- As long as no child has failed the server is active and the start has not failed. -/
structure Thriving (s : Server) (key : ℕ) : Prop where
  reached : Reachable Server.step {} s
  begun : .beginStart key ∉ s.actions
  start : ∃ group, s.groups key = some group ∧ group.wait = false
  outcome : ∀ group, s.groups key = some group →
    (s.Active ∧ ∀ result ∈ group.results, result = .success) ∨
    ∃ report ∈ group.reports, report.error.failed = true

/-- A start of whose children none has failed ends without error. -/
theorem finish_failed (hreached : Reachable Server.step {} s) {group : OperationGroup}
    (hgroup : s.groups key = some group) {result : ErrorCode}
    (hmem : .finish key result ∈ s.actions) (hfailed : result.failed = true) :
    ∃ report ∈ group.reports, report.error.failed = true := by
  have hbegun := ((sound_of_reachable hreached).accounted key).begun hgroup hmem rfl (by simp)
  rw [hbegun.finish result (List.count_pos_iff.mpr hmem), hbegun.firstEc] at hfailed
  obtain ⟨report, hreport, herror⟩ := OperationGroup.firstError_mem hfailed
  exact ⟨report, hreport, herror ▸ hfailed⟩

/-- A harmless step keeps a start thriving. -/
theorem Thriving.step (h : s.Thriving key) (hl : l.isHarmless = true)
    (hcontrol : KeepsControl key s l) (hstep : s.step l = some s') : s'.Thriving key := by
  have hreached := h.reached.tail hstep
  obtain ⟨s₁, done, added, hacts, houtcome⟩ := step_cases hstep
  obtain ⟨group, hgroup, hstart⟩ := h.start
  obtain ⟨group', hgroup', hgroupStep⟩ := hacts.group_step hgroup
  have hgroups : s'.groups key = some group' := by rw [houtcome.groups, hgroup']
  refine ⟨hreached, fun hmem => ?_, ⟨group', hgroups, ?_⟩, fun other hother => ?_⟩
  · rcases houtcome.mem hmem with hmem | hmem
    · exact h.begun hmem
    · obtain ⟨t, rfl⟩ := hacts.follows _ hmem
      cases hacts with
      | asyncStart hnew hopen => simp [hgroup] at hnew
  · cases hgroupStep <;> exact hstart
  · obtain rfl := Option.some.inj (hgroups.symm.trans hother)
    have hreports : ∀ report ∈ group.reports, report ∈ group'.reports := by
      cases hgroupStep with
      | told hmade hadded hdone => exact fun report hreport => List.mem_append_left _ hreport
      | _ => exact fun report hreport => hreport
    by_cases hbad : ∃ report ∈ group.reports, report.error.failed = true
    · obtain ⟨report, hreport, hfailed⟩ := hbad
      exact Or.inr ⟨report, hreports report hreport, hfailed⟩
    · obtain ⟨hactive, hresults⟩ := (h.outcome group hgroup).resolve_right hbad
      have hown (result : ErrorCode) (hdone : done = [.finish key result]) :
          result.failed = false := by
        by_contra hfailed
        have hmem : .finish key result ∈ s.actions := hacts.mem_done (by simp [hdone])
        exact hbad (finish_failed h.reached hgroup hmem (by simpa using hfailed))
      have hactive' : s'.Active := by
        have hkept := hactive.step hl hcontrol hown ⟨group, hgroup, hstart⟩ hacts
        rw [Active, houtcome.control]
        exact hkept
      refine Or.inl ⟨hactive', ?_⟩
      cases hgroupStep with
      | rejected hdone => exact absurd (hacts.mem_done (by simp [hdone])) h.begun
      | finishedStart hdone hwait hfinish =>
        intro result hresult
        rcases List.mem_append.mp hresult with hresult | hresult
        · exact hresults result hresult
        · rw [List.mem_singleton.mp hresult]
          exact (finishStart_active hactive (hown _ hdone) hfinish).1
      | finishedWait hdone hwait => simp [hstart] at hwait
      | _ => exact hresults

/-- A start that begins in a server that is not stopping thrives. -/
theorem thriving_begun {t : ℕ} {threw : Option FailingException}
    (hreached : Reachable Server.step {} s) (hstate : s.control.state ≠ .stopping)
    (hbegins : s.next t = some (.beginStart key)) (hstep : s.step (.proceed t threw) = some s') :
    s'.Thriving key := by
  have hreached' := hreached.tail hstep
  obtain ⟨s₁, done, added, hacts, houtcome⟩ := step_cases hstep
  have hcount := (houtcome.balance key).1
  cases hacts with
  | proceed hnext hperforms =>
    obtain rfl := Option.some.inj (hbegins.symm.trans hnext)
    have hmem : .beginStart key ∈ s.actions :=
      (Acts.proceed hnext hperforms).mem_done (List.mem_singleton_self _)
    cases hperforms with
    | @begins _ _ group control hgroup hcontrol =>
      have hunbegun := ((sound_of_reachable hreached).accounted key).unbegun hgroup hmem
      have hgroup' : s'.groups key = some group := by rw [houtcome.groups, hgroup]
      have hresults : group.results = [] := congrArg OperationGroup.results hunbegun.fresh
      refine ⟨hreached', fun hmem' => ?_,
        ⟨group, hgroup', congrArg OperationGroup.wait hunbegun.fresh⟩,
        fun other hother => ?_⟩
      · have hone := hunbegun.begins
        have hpos : 0 < (s'.ledger key).begins := List.count_pos_iff.mpr hmem'
        rw [List.count_singleton_self] at hcount
        rcases houtcome.mem hmem' with hold | hnew
        · have hadded : Action.beginStart key ∉ if group.size = 0 then [Action.finish key .success]
              else group.start key ++ [.recheck key] := fun hnew => by
            obtain ⟨u, hu⟩ := (Acts.proceed hnext (.begins hgroup hcontrol) :
              s.Acts (.proceed t threw) _ _ _).follows _ hnew
            contradiction
          rw [List.count_eq_zero.mpr hadded] at hcount
          omega
        · obtain ⟨u, hu⟩ := (Acts.proceed hnext (.begins hgroup hcontrol) :
            s.Acts (.proceed t threw) _ _ _).follows _ hnew
          contradiction
      · obtain rfl := Option.some.inj (hgroup'.symm.trans hother)
        refine Or.inl ⟨?_, by simp [hresults]⟩
        rw [Active, houtcome.control]
        exact (active_begun hstate hcontrol).2
    | rejects hgroup hcontrol => exact absurd (active_begun hstate hcontrol).1 (by simp)

/-- A thriving start without a failed child is completed with success. -/
theorem Thriving.succeeds (h : s.Thriving key)
    (hchildren : ∀ group, s.groups key = some group →
      ∀ report ∈ group.reports, report.error.failed = false) :
    s.Succeeds key := by
  obtain ⟨group, hgroup, hstart⟩ := h.start
  have hgood : ¬ ∃ report ∈ group.reports, report.error.failed = true := by
    rintro ⟨report, hreport, hfailed⟩
    simp [hchildren group hgroup report hreport] at hfailed
  obtain ⟨hactive, hresults⟩ := (h.outcome group hgroup).resolve_right hgood
  have hsound := sound_of_reachable h.reached
  refine ⟨fun u result threw s' hnext hstep => ?_, fun hquiescent => ⟨group, hgroup, ?_⟩⟩
  · obtain ⟨s₁, done, added, hacts, houtcome⟩ := step_cases hstep
    cases hacts with
    | proceed hnext' hperforms =>
      obtain rfl := Option.some.inj (hnext.symm.trans hnext')
      have hmem : .finish key result ∈ s.actions :=
        (Acts.proceed hnext' hperforms).mem_done (List.mem_singleton_self _)
      have hresult : result.failed = false := by
        by_contra hfailed
        exact hgood (finish_failed h.reached hgroup hmem (by simpa using hfailed))
      have hbegun := (hsound.accounted key).begun hgroup hmem rfl (by simp)
      have hnone : group.results = [] := by
        have hpos : 0 < (s.ledger key).finishes :=
          List.countP_pos_iff.mpr ⟨_, hmem, by simp [Action.finishes]⟩
        have hfinishes := hbegun.finishes
        exact List.eq_nil_of_length_eq_zero (by split at hfinishes <;> omega)
      cases hperforms with
      | @finishStart _ _ _ group' ec control hgroup' hwait hfinish =>
        obtain rfl := Option.some.inj (hgroup.symm.trans hgroup')
        obtain ⟨rfl, hrunning⟩ := finishStart_active hactive hresult hfinish
        refine ⟨⟨group.complete .success, by rw [houtcome.groups]; exact if_pos rfl, ?_⟩,
          by rw [houtcome.control]; exact hrunning⟩
        rw [OperationGroup.complete, hnone]
        rfl
      | finishWait hgroup' hwait hfinish =>
        obtain rfl := Option.some.inj (hgroup.symm.trans hgroup')
        simp [hstart] at hwait
  · have haccounted := hsound.accounted key
    rw [Accounted, hgroup] at haccounted
    rcases haccounted with hunbegun | hrejected | hbegun
    · have hone := hunbegun.begins
      simp [ledger, hquiescent.actions_eq] at hone
    · have haborted := hresults .operationAborted (by simp [hrejected.results])
      contradiction
    · obtain ⟨-, result, hcompleted⟩ := hsound.completed hquiescent hgroup hstart hbegun
      rw [hcompleted, hresults result (by simp [hcompleted])]

/-- A healthy start is completed with success and leaves the server running, if no wait and
no other failed start is completed after it has begun. -/
theorem healthyStart_succeeds {t : ℕ} {ls : List ServerLabel} {s₀ m : Server}
    (h : HealthyStart t key ls s₀ m)
    (hcontrol : Along Server.step (KeepsControl key) s₀ (.proceed t none :: ls)) :
    m.Succeeds key := by
  obtain ⟨s₁, hbegin, hrun⟩ := run_cons.mp h.started
  have hthriving : m.Thriving key :=
    run_invariant_along (Thriving · key) (fun _ _ _ ha hcond hstep => ha.step hcond.1 hcond.2 hstep)
      (thriving_begun h.reached h.control h.begins hbegin)
      ((along_of_labels h.harmless).and (hcontrol.2 s₁ hbegin)) hrun
  exact hthriving.succeeds h.children

/-- The rest of a start of one listener that runs to the completion of its child. -/
def undisturbed : List ServerLabel := proceeds 0 4 ++ [runs 2 0, runs 2 0]

/-- A start that runs alone is successful. -/
theorem healthyStart_succeeds_alone : ∃ s₀ m, HealthyStart 0 0 undisturbed s₀ m ∧ m.Succeeds 0 := by
  have h : HealthyStart 0 0 undisturbed _ _ :=
    ⟨⟨[.addListener defaultAcceptor, .asyncStart 0 0], rfl⟩, by decide, by decide, rfl,
      by decide, by decide,
      by rintro _ ⟨⟩; decide⟩
  exact ⟨_, _, h, healthyStart_succeeds h (by decide)⟩

/-- A stopped server with a wait that its listener has yet to answer, and a start about to begin. -/
def pendingWait : List ServerLabel :=
  [.addListener defaultAcceptor, .requestStop 1] ++ proceeds 1 3 ++
    [runs 2 0, .asyncWait 0 0] ++ proceeds 0 4 ++
    [runs 2 0, runs 2 0] ++ proceeds 2 2 ++ [.asyncWait 0 1] ++ proceeds 0 4 ++ [.asyncStart 1 2]

/-- The wait is completed after the start has begun, and before its child is started. -/
def waitOvertaken : List ServerLabel :=
  [runs 2 0, runs 2 0] ++ proceeds 2 2 ++ proceeds 1 4 ++ [runs 2 0, runs 2 0]

/-- A start whose children all succeed may be completed with an error. -/
theorem healthyStart_aborted : ¬ ∀ t key ls s₀ m, HealthyStart t key ls s₀ m → m.Succeeds key := by
  intro hclaim
  have h : HealthyStart 1 2 waitOvertaken _ _ :=
    ⟨⟨pendingWait, rfl⟩, by decide, by decide, rfl, by decide, by decide, by rintro _ ⟨⟩; decide⟩
  obtain ⟨⟨group, hgroup, hresults⟩, -⟩ :=
    (hclaim 1 2 waitOvertaken _ _ h).1 2 .success none _ (by decide) rfl
  cases hgroup
  revert hresults
  decide

end Server

end Serveza
