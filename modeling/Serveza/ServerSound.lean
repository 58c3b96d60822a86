import Serveza.ServerAccountSteps

/-!
# Sound servers

In every state a server can reach, actions and operations are where they belong, the actions
of each thread are in order, and every operation is accounted for. When nothing is left to be
done, every start has been completed once.
-/

namespace Serveza

open Foundation

namespace Server

variable {s s₁ s' : Server} {l : ServerLabel} {done added : List Action} {listener key index : ℕ}
  {group : OperationGroup}

/-- Looking for the failure of a child that was initiated keeps the accounts. -/
theorem accounted_pass (h : group.Begun (s.ledger key)) (hgroup : s.groups key = some group)
    (hec : ∀ ec, group.initiationEcs[index]? = some ec → ec.failed = false) (horder : s'.InOrder)
    (houtcome : Outcome s s [.reportInitiation key index] [] s') : s'.Accounted key := by
  obtain ⟨hbegins, hinitiates, hreports, hfinishes, hfinish⟩ := houtcome.balance key
  obtain ⟨htally, hdelivered⟩ := houtcome.ledger_children rfl key
  have hfailures : group.failures index = 0 := by
    unfold OperationGroup.failures
    cases hfind : group.initiationEcs[index]? with
    | none => rfl
    | some ec => simp [hec ec hfind]
  have hsame (i : ℕ) : (s'.ledger key).initiates i = (s.ledger key).initiates i := hinitiates i
  refine .of_begun (by rw [houtcome.groups, hgroup])
    (h.pass hfailures ?_ (funext hsame) (fun i => ?_) (fun i => ?_) ?_
    (funext fun r => ?_) htally hdelivered)
  · simpa using hbegins
  · have hle := h.initiates i
    have hone := h.reports i
    rw [← hsame] at hle ⊢
    rcases Nat.eq_zero_or_pos ((s'.ledger key).initiates i) with hzero | hpos
    · omega
    · have hpos' : 0 < (s'.ledger key).reports i := horder.reports_pos hpos
      omega
  · have hcount := hreports i
    rw [List.count_singleton, List.count_nil] at hcount
    by_cases hi : i = index
    · simpa [hi] using hcount
    · simpa [hi, Ne.symm hi] using hcount
  · exact hfinishes
  · simpa using hfinish r

/-- Completing an operation keeps the accounts. -/
theorem accounted_complete {result ec : ErrorCode} {control : ServerControl}
    (h : group.Begun (s.ledger key)) (hpos : 0 < (s.ledger key).finish result)
    (hec : result.failed = true → ec = result)
    (houtcome : Outcome s ({ s with control := control }.setGroup key (group.complete ec))
      [.finish key result] [] s') :
    s'.Accounted key := by
  obtain ⟨hbegins, hinitiates, hreports, hfinishes, hfinish⟩ := houtcome.balance key
  obtain ⟨htally, hdelivered⟩ := houtcome.ledger_children rfl key
  refine .of_begun (by rw [houtcome.groups]; exact if_pos rfl)
    (h.complete hpos hec ?_ (funext fun i => hinitiates i)
    (funext fun i => ?_) ?_ (fun r => ?_) htally hdelivered)
  · simpa using hbegins
  · simpa using hreports i
  · simpa [Action.finishes] using hfinishes
  · have hcount := hfinish r
    rw [List.count_nil] at hcount
    omega

/-- Rejecting an operation keeps the accounts. -/
theorem accounted_reject {control : ServerControl} (h : group.Unbegun (s.ledger key))
    (houtcome :
      Outcome s ({ s with control := control }.setGroup key (group.reject .operationAborted))
        [.beginStart key] [] s') :
    s'.Accounted key := by
  obtain ⟨hbegins, hinitiates, hreports, hfinishes, -⟩ := houtcome.balance key
  obtain ⟨htally, -⟩ := houtcome.ledger_children rfl key
  have hresults : group.results = [] := congrArg OperationGroup.results h.fresh
  have hreported : group.reports = [] := congrArg OperationGroup.reports h.fresh
  have hgroup : s'.groups key = some (group.reject .operationAborted) := by
    rw [houtcome.groups]
    exact if_pos rfl
  rw [Accounted, hgroup]
  refine Or.inr (Or.inl ⟨by simp [OperationGroup.reject, OperationGroup.complete, hresults],
    hreported, ?_,
    fun i => (hinitiates i).trans (h.initiates i), fun i => ?_, hfinishes.trans h.finishes,
    fun i => by rw [htally]; exact h.tally i⟩)
  · have hone := h.begins
    rw [List.count_nil, List.count_singleton_self] at hbegins
    omega
  · have hcount := hreports i
    have hzero := h.reports i
    rw [List.count_nil] at hcount
    omega

/-- A start that is called is accounted for. -/
theorem accounted_called {n : ℕ} (h : s.Accounted key) (hnone : s.groups key = none)
    (houtcome : Outcome s (s.setGroup key (.create false n)) [] [.beginStart key] s') :
    s'.Accounted key := by
  rw [Accounted, hnone] at h
  obtain ⟨hbegins, hinitiates, hreports, hfinishes, -⟩ := houtcome.balance key
  obtain ⟨htally, -⟩ := houtcome.ledger_children rfl key
  have hgroup : s'.groups key = some (.create false n) := by
    rw [houtcome.groups]
    exact if_pos rfl
  rw [Accounted, hgroup]
  refine Or.inl ⟨rfl, ?_, fun i => (hinitiates i).trans (h.initiates i), fun i => ?_,
    hfinishes.trans h.finishes,
    fun i => by rw [htally]; exact h.tally i⟩
  · have hzero := h.begins
    rw [List.count_nil, List.count_singleton_self] at hbegins
    omega
  · have hcount := hreports i
    have hzero := h.reports i
    rw [List.count_nil, List.count_eq_zero.mpr (by simp)] at hcount
    omega

/-- Cancelling an operation keeps its accounts. -/
theorem accounted_cancel {n : ℕ} (h : s.Accounted key) (hgroup : s.groups key = some group)
    (houtcome : Outcome s (s.setGroup key { group with cancelled := n }) []
      ((List.range group.size).map (Action.emit key)) s') :
    s'.Accounted key := by
  have hledger : s'.ledger key = s.ledger key :=
    houtcome.ledger_eq (by simp) (by simp [Action.owner?]) (fun _ => rfl) fun _ => rfl
  have hgroup' : s'.groups key = some { group with cancelled := n } := by
    rw [houtcome.groups]
    exact if_pos rfl
  rw [Accounted, hgroup] at h
  rw [Accounted, hgroup', hledger]
  exact h.imp (fun h => ⟨h.fresh, h.begins, h.initiates, h.reports, h.finishes, h.tally⟩)
    (Or.imp (fun h => ⟨h.results, h.reported, h.blank⟩) fun h =>
      ⟨h.begins, h.length, h.child, h.initiates, h.reports,
      h.reported, h.delivered, h.remaining, h.firstEc, h.finishes, h.finish, h.results⟩)

/-- The action belongs to an operation or to none. -/
def Within (key : ℕ) (a : Action) : Prop := a.owner? = none ∨ a.owner? = some key

/-- An action within another operation is not within this one. -/
theorem Within.ne {a : Action} {key' : ℕ} (h : Within key' a) (hne : key' ≠ key) :
    a.owner? ≠ some key := by
  rcases h with h | h
  · simp [h]
  · simpa [h] using hne

/-- The loops of an operation are within it. -/
theorem launches_within (group : OperationGroup) (key : ℕ) {tail : List Action}
    (htail : ∀ a ∈ tail, a.owner? = none) :
    ∀ a ∈ launches group key tail, Within key a := by
  intro a ha
  unfold launches at ha
  split at ha
  · rw [List.mem_singleton.mp ha]
    exact Or.inr rfl
  · rcases List.mem_append.mp ha with ha | ha
    · rcases OperationGroup.start_mem ha with ⟨i, -, -, rfl⟩ | ⟨i, -, -, rfl⟩ | ⟨i, -, rfl⟩ <;>
        exact Or.inr rfl
    · exact Or.inl (htail a ha)

/-- What a report leaves is within its operation. -/
theorem one_within (group : OperationGroup) (key : ℕ) (report : Report) :
    ∀ a ∈ (group.one key report).2, Within key a := by
  intro a ha
  rcases OperationGroup.one_mem ha with ⟨i, rfl⟩ | ⟨result, rfl⟩
  · exact Or.inl rfl
  · exact Or.inr rfl

/-- What a report leaves on a strand is within its operation. -/
theorem onStrand_within {actions : List Action} (h : ∀ a ∈ actions, Within key a) :
    ∀ a ∈ onStrand listener actions, Within key a := by
  intro a ha
  unfold onStrand at ha
  split at ha
  · simp at ha
  · rcases List.mem_append.mp ha with ha | ha
    · exact h a ha
    · rw [List.mem_singleton.mp ha]
      exact Or.inl rfl

/-- Everything holds that is needed to follow the operations of a server. -/
structure Sound (s : Server) : Prop where
  placed : s.Placed
  order : s.InOrder
  accounted : ∀ key, s.Accounted key

/-- An action keeps every operation accounted for. -/
theorem Sound.performs {t : ℕ} {threw : Option FailingException} {action : Action}
    {first : List Action} (h : s.Sound) (hnext : s.next t = some action)
    (hperforms : s.Performs threw action s₁ first) (houtcome : Outcome s s₁ [action] first s')
    (horder : s'.InOrder) (key : ℕ) : s'.Accounted key := by
  have hacts : s.Acts (.proceed t threw) s₁ [action] first := .proceed hnext hperforms
  have hmem : action ∈ s.actions := hacts.mem_done (List.mem_singleton_self _)
  have hother (k : ℕ) (hk : k ≠ key) (howner : action.owner? = some k)
      (hfirst : ∀ a ∈ first, Within k a)
      (hgroups : s₁.groups key = s.groups key) : s'.Accounted key :=
    (h.accounted key).frame houtcome hacts.effect hgroups
      (fun a ha => by simpa [List.mem_singleton.mp ha, howner] using hk)
      (fun a ha => (hfirst a ha).ne hk) (fun t listener k x y completion index hl => by cases hl)
  have hquiet (howner : action.owner? = none) (hfirst : ∀ a ∈ first, a.owner? = none)
      (hgroups : s₁.groups key = s.groups key) : s'.Accounted key :=
    (h.accounted key).frame houtcome hacts.effect hgroups
      (fun a ha => by simp [List.mem_singleton.mp ha, howner]) (fun a ha => by simp [hfirst a ha])
      (fun t listener k x y completion index hl => by cases hl)
  cases hperforms with
  | @begins _ k group control hgroup hcontrol =>
    have htail : ∀ a ∈ [Action.recheck k], a.owner? = none := by simp [Action.owner?]
    by_cases hk : k = key
    · subst hk
      have hunbegun := (h.accounted k).unbegun hgroup hmem
      exact accounted_launch [.recheck k] houtcome hgroup rfl hunbegun.fresh htail hunbegun.tally
        hunbegun.initiates hunbegun.reports hunbegun.finishes
        (by simpa using hunbegun.begins) (by simp)
    · exact hother k hk rfl (launches_within group k htail) rfl
  | @rejects _ k group control hgroup hcontrol =>
    by_cases hk : k = key
    · subst hk
      exact accounted_reject ((h.accounted k).unbegun hgroup hmem) houtcome
    · exact hother k hk rfl (by simp) (if_neg (Ne.symm hk))
  | @startThrows e k index group hgroup =>
    by_cases hk : k = key
    · subst hk
      exact accounted_fail ((h.accounted k).begun hgroup hmem rfl (by simp)) e.failed
        (Or.inl rfl) houtcome
    · exact hother k hk rfl (by simp) (if_neg (Ne.symm hk))
  | @startsChild k index group x y hgroup hcall =>
    by_cases hk : k = key
    · subst hk
      exact accounted_child ((h.accounted k).begun hgroup hmem rfl (by simp)) hgroup
        (Or.inl rfl) hcall rfl (by simp [Action.owner?]) houtcome
    · exact hother k hk rfl (by simp [Within, Action.owner?]) rfl
  | @waitThrows e k index group hgroup =>
    by_cases hk : k = key
    · subst hk
      exact accounted_fail ((h.accounted k).begun hgroup hmem rfl (by simp)) e.failed
        (Or.inr rfl) houtcome
    · exact hother k hk rfl (by simp) (if_neg (Ne.symm hk))
  | @waitsChild k index group x y hgroup hcall =>
    by_cases hk : k = key
    · subst hk
      exact accounted_child ((h.accounted k).begun hgroup hmem rfl (by simp)) hgroup
        (Or.inr rfl) hcall rfl (by simp [Action.owner?]) houtcome
    · exact hother k hk rfl (by simp [Within, Action.owner?]) rfl
  | @reports _ k index group ec hgroup hec hfailed =>
    by_cases hk : k = key
    · subst hk
      exact accounted_report ((h.accounted k).begun hgroup hmem rfl (by simp))
        (List.count_pos_iff.mpr hmem) hec hfailed houtcome
    · exact hother k hk rfl (one_within _ _ _) (if_neg (Ne.symm hk))
  | @initiated _ k index group hgroup hec =>
    by_cases hk : k = key
    · subst hk
      exact accounted_pass ((h.accounted k).begun hgroup hmem rfl (by simp))
        hgroup hec horder houtcome
    · exact hother k hk rfl (by simp) rfl
  | @finishStart _ k result group ec control hgroup hstart hcontrol =>
    by_cases hk : k = key
    · subst hk
      refine accounted_complete ((h.accounted k).begun hgroup hmem rfl (by simp))
        (List.count_pos_iff.mpr hmem) (fun hfailed => ?_) houtcome
      simp only [ServerControl.finishStart, hfailed, if_true] at hcontrol
      exact (Prod.mk.inj hcontrol).1.symm
    · exact hother k hk rfl (by simp) (if_neg (Ne.symm hk))
  | @finishWait _ k result group ec control hgroup hwait hcontrol =>
    by_cases hk : k = key
    · subst hk
      exact accounted_complete ((h.accounted k).begun hgroup hmem rfl (by simp))
        (List.count_pos_iff.mpr hmem) (fun _ => (Prod.mk.inj hcontrol).1.symm) houtcome
    · exact hother k hk rfl (by simp) (if_neg (Ne.symm hk))
  | checkCancelled hgroup => exact hquiet rfl (by split <;> simp [Action.owner?]) rfl
  | recheck hgroup =>
    exact hquiet rfl (by split <;> simp [Action.owner?, OperationGroup.requestStop]) rfl
  | _ => exact hquiet rfl (by simp [Action.owner?]) rfl

/-- A step keeps every operation accounted for. -/
theorem Sound.acts (h : s.Sound) (hacts : s.Acts l s₁ done added)
    (houtcome : Outcome s s₁ done added s') (horder : s'.InOrder) (key : ℕ) : s'.Accounted key := by
  have heffect := hacts.effect
  have hframe (hgroups : s₁.groups key = s.groups key) (hdone : done = [])
      (hadded : ∀ a ∈ added, a.owner? ≠ some key)
      (hl : ∀ t listener k, l ≠ .listener t listener k) : s'.Accounted key :=
    (h.accounted key).frame houtcome heffect hgroups (by simp [hdone]) hadded
      fun t listener k x y completion index hlabel => absurd hlabel (hl t listener k)
  cases hacts with
  | @asyncStart t k hnone hopen =>
    by_cases hk : k = key
    · subst hk
      exact accounted_called (h.accounted k) hnone houtcome
    · exact hframe (if_neg (Ne.symm hk)) rfl (by simpa [Action.owner?] using hk) (by simp)
  | @asyncWait t k hnone hopen =>
    have hlaunches : (if s.listeners.length = 0 then [Action.finish k .success]
        else (OperationGroup.create true s.listeners.length).start k) =
        launches (OperationGroup.create true s.listeners.length) k [] := by
      rw [launches, List.append_nil]
      rfl
    rw [hlaunches] at houtcome hframe
    by_cases hk : k = key
    · subst hk
      have hblank := h.accounted k
      rw [Accounted, hnone] at hblank
      exact accounted_launch [] houtcome (if_pos rfl) rfl rfl (by simp) hblank.tally
        hblank.initiates hblank.reports hblank.finishes (by simpa using hblank.begins) (by simp)
    · exact hframe (if_neg (Ne.symm hk)) rfl
        (fun a ha => (launches_within _ k (by simp) a ha).ne hk) (by simp)
  | @cancel t k type group hgroup hconnected htype =>
    by_cases hk : k = key
    · subst hk
      exact accounted_cancel (h.accounted k) hgroup houtcome
    · exact hframe (if_neg (Ne.symm hk)) rfl (by simp [Action.owner?]) (by simp)
  | proceed hnext hperforms => exact h.performs hnext hperforms houtcome horder key
  | @internal t listener k x y hx hstep hinternal hstrand hkind =>
    refine (h.accounted key).frame houtcome heffect rfl (by simp) (by simp)
      fun t' listener' k' x' y' completion index hlabel hx' hstep' hkind' hhandler => ?_
    obtain ⟨rfl, rfl, rfl⟩ := ServerLabel.listener.inj hlabel
    obtain rfl := Option.some.inj (hx.symm.trans hx')
    have hnone := hkind completion key index hkind' hhandler
    have hlt := deliveredAt_lt (s := s) hx hstep' hkind' hhandler
    have hblank := h.accounted key
    rw [Accounted, hnone] at hblank
    have hzero : s.tallyAt listener key index = 0 := by
      by_cases hne : listener = index
      · subst hne
        exact hblank.tally listener
      · exact h.placed.tallyAt_ne hne
    omega
  | @delivers t listener k x y completion key' index group hx hstep hinternal hstrand
    hkind hhandler hgroup =>
    by_cases hk : key' = key
    · subst hk
      exact accounted_deliver (h.accounted key') h.placed hx hstep hkind hhandler hgroup houtcome
    · refine (h.accounted key).frame houtcome heffect (if_neg (Ne.symm hk)) (by simp)
        (fun a ha => (onStrand_within (one_within _ _ _) a ha).ne hk) ?_
      intro t' listener' k' x' y' completion' index' hlabel hx' hstep' hkind' hhandler'
      obtain ⟨rfl, rfl, rfl⟩ := ServerLabel.listener.inj hlabel
      obtain rfl := Option.some.inj (hx.symm.trans hx')
      obtain rfl := StepKind.deliver.inj (hkind.symm.trans hkind')
      rw [hhandler] at hhandler'
      exact hk (CompletionHandler.child.inj hhandler').1
  | requestStop hopen =>
    refine hframe rfl rfl (fun a ha => ?_) (by simp)
    rcases List.mem_append.mp ha with ha | ha
    · obtain ⟨i, -, rfl⟩ := List.mem_map.mp ha
      simp [Action.owner?]
    · simp [List.mem_singleton.mp ha, Action.owner?]
  | _ => exact hframe rfl rfl (by simp [Action.owner?]) (by simp)

/-- A step keeps a server sound. -/
theorem Sound.step (h : s.Sound) (hacts : s.Acts l s₁ done added)
    (houtcome : Outcome s s₁ done added s') :
    s'.Sound :=
  have horder := h.order.step hacts houtcome
  ⟨h.placed.step hacts houtcome, horder, h.acts hacts houtcome horder⟩

/-- A new server is sound. -/
theorem sound_new : ({} : Server).Sound :=
  ⟨⟨by simp [actions], fun _ _ _ _ => rfl, by simp⟩, by simp [InOrder], fun _ =>
    ⟨rfl, fun _ => rfl, fun _ => rfl, rfl, fun _ => rfl⟩⟩

/-- Every server that can be reached is sound. -/
theorem sound_of_reachable (h : Reachable step {} s) : s.Sound :=
  h.invariant Sound (fun _ _ _ hs hstep => by
    obtain ⟨s₁, done, added, hacts, houtcome⟩ := step_cases hstep
    exact hs.step hacts houtcome) sound_new

/-- No call is in progress and the strands of the listeners have run everything. -/
def Quiescent (s : Server) : Prop := s.threads = [] ∧ ∀ x ∈ s.listeners, x.core.strand = []

/-- With no call in progress there is nothing to be done. -/
theorem Quiescent.actions_eq (h : s.Quiescent) : s.actions = [] := by
  rw [actions, h.1]
  rfl

/-- A child of a start that is on a listener with an empty strand has been delivered. -/
theorem Placed.tallyAt_start (h : s.Placed) (hgroup : s.groups key = some group)
    (hstart : group.wait = false) {x : Listener} (hx : s.listeners[index]? = some x)
    (hstrand : x.core.strand = []) :
    s.tallyAt index key index = s.deliveredAt index key index := by
  have hnone := h.misplaced key index false (by simp [hgroup, hstart])
  simp only [countAt, hx, Option.map_some, Option.getD_some, tally] at hnone
  have hkept {ws : List WaitOperation}
      (hzero : ws.countP (fun w => Operation.isMisplaced key index false w.operation) = 0) :
      ws.countP (fun w => withHandler (.child key index) w.operation) = 0 := by
    refine List.countP_eq_zero.mpr fun w hw hhandler => List.countP_eq_zero.mp hzero w hw ?_
    have hchild : w.handler = .child key index := of_decide_eq_true hhandler
    simp [Operation.isMisplaced, WaitOperation.operation, hchild]
  simp only [tallyAt, countAt, deliveredAt, hx, Option.map_some, Option.getD_some, tally,
    deliveries, hstrand, List.filterMap_nil, List.countP_nil]
  rw [hkept (by omega), hkept (by omega)]
  simp only [Nat.zero_add]
  rfl

/-- When no action is left and every child that was initiated has been delivered, every child has
been reported and the operation has been completed once. -/
theorem completed_of_delivered (hactions : s.actions = []) (hbegun : group.Begun (s.ledger key))
    (hdelivered : ∀ i < group.size, s.tallyAt i key i = s.deliveredAt i key i) :
    group.remaining = 0 ∧ ∃ result, group.results = [result] := by
  have hremaining : group.remaining = 0 := by
    refine hbegun.remaining_zero fun i hi => ?_
    have hchild := hbegun.child i
    have hreported := hbegun.reported i
    have hdelivered : (s.ledger key).tally i = (s.ledger key).delivered i := hdelivered i hi
    have hinitiates : (s.ledger key).initiates i = 0 := by simp [ledger, hactions]
    have hreports : (s.ledger key).reports i = 0 := by simp [ledger, hactions]
    rw [if_pos hi] at hchild
    rw [hreports, Nat.mul_zero] at hreported
    omega
  have hfinishes := hbegun.finishes
  rw [if_pos hremaining, show (s.ledger key).finishes = 0 by simp [ledger, hactions],
    Nat.zero_add] at hfinishes
  exact ⟨hremaining, List.length_eq_one_iff.mp hfinishes⟩

/-- When nothing is left to be done, every child of a start has been reported and the start
has been completed once. -/
theorem Sound.completed (h : s.Sound) (hquiescent : s.Quiescent)
    (hgroup : s.groups key = some group) (hstart : group.wait = false)
    (hbegun : group.Begun (s.ledger key)) :
    group.remaining = 0 ∧ ∃ result, group.results = [result] := by
  refine completed_of_delivered hquiescent.actions_eq hbegun fun i hi => ?_
  have hlt : i < s.listeners.length := hi.trans_le (h.placed.sized key group hgroup)
  exact h.placed.tallyAt_start hgroup hstart (List.getElem?_eq_getElem hlt)
    (hquiescent.2 _ (List.getElem_mem hlt))

end Server

end Serveza
