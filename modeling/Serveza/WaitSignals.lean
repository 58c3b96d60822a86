import Serveza.ServerCancels

/-!
# Where the cancellations of children come from

A child of an operation is cancelled by the signal of its operation only: users can cancel their
own waits on the listeners and no others. So a wait that was not cancelled, and none of whose
children failed to be initiated, has been told of every child that its listener had stopped.
-/

namespace Serveza

open Foundation

/-- A wait that a step initiates gets the next number. -/
theorem StepKind.initiates_wait {k : StepKind} {next n : ℕ} {handler : CompletionHandler}
    (h : ⟨handler, some n⟩ ∈ k.initiates next) : k = .off (.beginWait handler) ∧ n = next + 1 := by
  unfold initiates at h
  split at h
  · simp at h
  · obtain ⟨rfl, hn⟩ : handler = _ ∧ n = next + 1 := by simpa using h
    exact ⟨rfl, hn⟩
  · simp at h

namespace Server

variable {s s₁ t : Server} {l : ServerLabel} {done added : List Action} {key i n : ℕ}
  {x y : Listener} {group : OperationGroup}

/-- The operation has been cancelled. -/
def Cancelled (s : Server) (key : ℕ) : Prop :=
  ∃ group, s.groups key = some group ∧ group.cancelled ≠ 0

/-- An operation stays cancelled. -/
theorem Cancelled.acts (h : s.Cancelled key) (hacts : s.Acts l s₁ done added) :
    s₁.Cancelled key := by
  obtain ⟨group, hgroup, hcancelled⟩ := h
  obtain ⟨group', hgroup', hstep⟩ := hacts.group_step hgroup
  refine ⟨group', hgroup', ?_⟩
  cases hstep with
  | cancelled type htype => exact fun hzero => hcancelled (Nat.or_eq_zero_iff.mp hzero).1
  | _ => exact hcancelled

/-- A signal to a child is pending only if its operation has been cancelled. -/
theorem Acts.emits (h : s.Acts l s₁ done added) (hadded : .emit key i ∈ added) :
    s₁.Cancelled key := by
  have hstart {group : OperationGroup} {k : ℕ}
      (hmem : Action.emit key i ∈ group.start k) : False := by
    rcases OperationGroup.start_mem hmem with ⟨_, -, -, h⟩ | ⟨_, -, -, h⟩ | ⟨_, -, h⟩ <;>
      contradiction
  have hone {group : OperationGroup} {k : ℕ} {report : Report}
      (hmem : Action.emit key i ∈ (group.one k report).2) :
      False := by
    rcases OperationGroup.one_mem hmem with ⟨_, h⟩ | ⟨_, h⟩ <;> contradiction
  cases h with
  | @cancel t k type group hgroup hconnected htype =>
    obtain ⟨j, -, hj⟩ := List.mem_map.mp hadded
    obtain ⟨rfl, rfl⟩ := Action.emit.inj hj
    exact ⟨_, if_pos rfl, fun hzero => htype (Nat.or_eq_zero_iff.mp hzero).2⟩
  | asyncWait hnew hopen =>
    split at hadded
    · simp at hadded
    · exact (hstart hadded).elim
  | delivers hx hstep hinternal hstrand hkind hhandler hgroup =>
    unfold onStrand at hadded
    split at hadded
    · simp at hadded
    · rcases List.mem_append.mp hadded with hmem | hmem
      · exact (hone hmem).elim
      · simp at hmem
  | proceed hnext hperforms =>
    cases hperforms with
    | begins hgroup hcontrol =>
      split at hadded
      · simp at hadded
      · rcases List.mem_append.mp hadded with hmem | hmem
        · exact (hstart hmem).elim
        · simp at hmem
    | checkCancelled hgroup =>
      split at hadded
      · simp at hadded
      · rename_i hcancelled
        obtain ⟨rfl, rfl⟩ := Action.emit.inj (List.mem_singleton.mp hadded)
        exact ⟨_, hgroup, hcancelled⟩
    | reports hgroup hec hfailed => exact (hone hadded).elim
    | recheck hgroup =>
      split at hadded
      · simp [OperationGroup.requestStop] at hadded
      · simp at hadded
    | _ => simp at hadded
  | _ => simp at hadded

/-- The waits of one number are the same. -/
theorem eq_of_wait (honce : WaitsOnce x.core) {o o' : Operation} (ho : o ∈ x.core.operations)
    (ho' : o' ∈ x.core.operations) (hwait : o.wait = some n) (hwait' : o'.wait = some n) :
    o = o' := by
  have hcount : x.core.operations.countP (fun o => o.wait = some n) ≤ 1 := by
    rw [← tally_eq_countP, tally_wait, honce n]
    split <;> omega
  exact eq_of_countP_le_one hcount ho ho' (decide_eq_true hwait) (decide_eq_true hwait')

/-- Where the cancellations of children come from. -/
structure Signalled (s : Server) : Prop where
  emits : ∀ key i, .emit key i ∈ s.actions → s.Cancelled key
  marks : ∀ key i (x : Listener) n, s.listeners[i]? = some x →
    ⟨.child key i, some n⟩ ∈ x.core.operations → n ∈ x.core.cancelled → s.Cancelled key

/-- The waits of a listener of a reachable server are in one place each, with numbers that were
given out. -/
theorem waits_of_reachable (h : Reachable step {} s) (hx : s.listeners[i]? = some x) :
    WaitsOnce x.core ∧ Numbered x.core := by
  have hreached := listeners_reached h x (List.mem_of_getElem? hx)
  refine ⟨?_, hreached.numbered⟩
  obtain ⟨id, config, ls, hrun⟩ := hreached
  exact run_waitsOnce (create_waits id config).1 hrun

/-- A step marks a child only on behalf of its operation. -/
theorem Signalled.marked (h : s.Signalled) (hs : Reachable step {} s)
    (hacts : s.Acts l s₁ done added) (hy : s₁.listeners[i]? = some y)
    (hmem : ⟨.child key i, some n⟩ ∈ y.core.operations) (hmarked : n ∈ y.core.cancelled) :
    s.Cancelled key := by
  cases hacts.effect i with
  | same hsame => exact h.marks key i y n (hsame ▸ hy) hmem hmarked
  | @created config hnone hnew =>
    obtain rfl := Option.some.inj (hy.symm.trans hnew)
    obtain ⟨endpoint, hcore⟩ := Listener.create_core (i + 1) config
    simp [hcore] at hmarked
  | @stepped x y' k hx hy' hstep horigin =>
    obtain rfl := Option.some.inj (hy.symm.trans hy')
    obtain ⟨honce, hnumbered⟩ := waits_of_reachable hs hx
    have hcore := Listener.step_core hstep
    have hcount := hcore.tally (p := fun o => o = ⟨.child key i, some n⟩)
    rw [tally_eq_countP, tally_eq_countP] at hcount
    have hpos : 0 < y.core.operations.countP fun o => o = ⟨.child key i, some n⟩ :=
      List.countP_pos_iff.mpr ⟨_, hmem, decide_eq_true rfl⟩
    by_cases hold : ⟨.child key i, some n⟩ ∈ x.core.operations
    · rcases hcore.cancelled hmarked with hbefore | hkind
      · exact h.marks key i x n hx hold hbefore
      · cases horigin with
        | quiet hquiet hmarks =>
          rw [Listener.kind_off] at hkind
          obtain ⟨w, hw, rfl, hhandler⟩ := hmarks n (StepKind.off.inj hkind)
          have hsame :=
            congrArg Operation.handler (eq_of_wait honce (connected_mem hw) hold rfl rfl)
          rcases hhandler with ⟨tag, huser⟩ | ⟨key', hdone, hchild⟩
          · exact absurd (huser.symm.trans hsame) (by simp)
          · obtain ⟨rfl, -⟩ := CompletionHandler.child.inj (hchild.symm.trans hsame)
            exact h.emits key' i (hacts.mem_done (hdone ▸ List.mem_singleton_self _))
        | internal hl hinternal =>
          have hoff :=
            ListenerLabel.isInternal_off hinternal ((Listener.kind_eq_off hstep _).mp hkind)
          simp at hoff
        | _ => simp at hkind
    · have hnone : x.core.operations.countP (fun o => o = ⟨.child key i, some n⟩) = 0 :=
        List.countP_eq_zero.mpr fun o ho heq => hold (of_decide_eq_true heq ▸ ho)
      obtain ⟨o, ho, heq⟩ := List.countP_pos_iff.mp (by omega :
        0 < ((x.kind k).initiates x.core.nextWaiterId).countP fun o => o = ⟨.child key i, some n⟩)
      obtain rfl := of_decide_eq_true heq
      obtain ⟨hkind, rfl⟩ := StepKind.initiates_wait ho
      rcases hcore.cancelled hmarked with hbefore | hcancel
      · exact absurd (hnumbered.cancelled _ hbefore) (by omega)
      · exact absurd (hkind.symm.trans hcancel) (by simp)

/-- In every state that a server can reach, children are cancelled on behalf of their operations. -/
theorem signalled_of_reachable (h : Reachable step {} s) : s.Signalled := by
  refine (h.invariant (fun s => Reachable step {} s ∧ s.Signalled)
    (fun a l b ha hstep => ⟨ha.1.tail hstep, ?_⟩) ⟨.refl _, by simp [actions], by simp⟩).2
  obtain ⟨hreached, hsignalled⟩ := ha
  obtain ⟨a₁, done, added, hacts, houtcome⟩ := step_cases hstep
  have hback {key : ℕ} (hcancelled : a₁.Cancelled key) : b.Cancelled key := by
    obtain ⟨group, hgroup, hne⟩ := hcancelled
    exact ⟨group, houtcome.groups ▸ hgroup, hne⟩
  refine ⟨fun key i hemit => hback ?_, fun key i y n hy hmem hmarked => hback ?_⟩
  · rcases houtcome.mem hemit with hold | hadded
    · exact (hsignalled.emits key i hold).acts hacts
    · exact hacts.emits hadded
  · rw [houtcome.listeners] at hy
    exact (hsignalled.marked hreached hacts hy hmem hmarked).acts hacts

/-- What a listener has completed is among its operations. -/
theorem completed_mem {c : ListenerCore} {q : Completion} (hq : q ∈ c.completed) :
    q.operation ∈ c.operations := by
  simp only [ListenerCore.completed, List.mem_append] at hq
  simp only [ListenerCore.operations, List.mem_append]
  rcases hq with hq | hq
  · exact Or.inr (List.mem_map_of_mem hq)
  · obtain ⟨m, hm, hcompletion⟩ := List.mem_filterMap.mp hq
    refine Or.inl (Or.inl (Or.inr (List.mem_filterMap.mpr ⟨m, hm, ?_⟩)))
    cases m with
    | complete q' => exact congrArg (fun q => some q.operation) (Option.some.inj hcompletion)
    | _ => contradiction

/-- The completion that is delivered to an operation comes from the listener of the child. -/
theorem Placed.delivers_index (h : s.Placed) {x y : Listener} {k : ListenerLabel}
    {completion : Completion} {j index : ℕ} (hgroup : s.groups key = some group)
    (hx : s.listeners[j]? = some x) (hstep : x.step k = some y)
    (hkind : x.kind k = .deliver completion) (hhandler : completion.handler = .child key index) :
    index = j := by
  by_contra hne
  have hnone := h.misplaced key j group.wait (by simp [hgroup])
  simp only [countAt, hx, Option.map_some, Option.getD_some, tally_eq_countP] at hnone
  have hplaced := List.countP_eq_zero.mp hnone _ (completed_mem (delivered_mem hstep hkind))
  simp [Operation.isMisplaced, Completion.operation, hhandler, hne] at hplaced

/-- A completion with the cause of a cancellation, delivered to a wait, tells that the wait was
cancelled. -/
theorem cancelled_of_delivery (h : Reachable step {} s) (hgroup : s.groups key = some group)
    (hwait : group.wait = true) {x y : Listener} {k : ListenerLabel} {q : Completion} {j index : ℕ}
    (hx : s.listeners[j]? = some x) (hstep : x.step k = some y) (hkind : x.kind k = .deliver q)
    (hhandler : q.handler = .child key index) (hcause : q.cause = .cancelled) :
    group.cancelled ≠ 0 := by
  have hplaced := (sound_of_reachable h).placed
  obtain rfl := hplaced.delivers_index hgroup hx hstep hkind hhandler
  have hmem := delivered_mem hstep hkind
  obtain ⟨n, hn⟩ : ∃ n, q.wait = some n :=
    Option.isSome_iff_exists.mp ((hplaced.delivers_kind hgroup hx hstep hkind hhandler).trans hwait)
  have hoperation : q.operation = ⟨.child key index, some n⟩ := by
    rw [Completion.operation, hhandler, hn]
  obtain ⟨id, config, ls, hrun⟩ := listeners_reached h x (List.mem_of_getElem? hx)
  have hmarked : n ∈ x.core.cancelled := by
    rcases (run_waitOutcomes (create_waits id config).2 hrun).outcome q hmem n hn with hends | hends
    · exact hends.2.2
    · simp [hcause] at hends
  obtain ⟨group', hgroup', hne⟩ :=
    (signalled_of_reachable h).marks key index x n hx (hoperation ▸ completed_mem hmem) hmarked
  exact Option.some.inj (hgroup.symm.trans hgroup') ▸ hne

/-- What a wait has been told of its children agrees with what was done to it: it was cancelled if a
child was, and an initiation threw if a child could not be initiated. -/
structure Blames (group : OperationGroup) : Prop where
  cancelled : ∀ report ∈ group.reports, report.cause = some .cancelled → group.cancelled ≠ 0
  threw : ∀ report ∈ group.reports, report.cause = none →
    ∃ ec ∈ group.initiationEcs, ec.failed = true

/-- Every step of a reachable server keeps what a wait has been told in agreement. -/
theorem Blames.step (h : Blames group) (hs : Reachable step {} s)
    (hgroup : s.groups key = some group) (hwait : group.wait = true) {group' : OperationGroup}
    (hstep : GroupStep s key done added group group') :
    Blames group' := by
  cases hstep with
  | cancelled type htype =>
    exact ⟨fun _ _ _ hzero => htype (Nat.or_eq_zero_iff.mp hzero).2, h.threw⟩
  | threw index e =>
    refine ⟨h.cancelled, fun report hreport hcause => ?_⟩
    by_cases hindex : index < group.initiationEcs.length
    · exact ⟨e.error, List.mem_set hindex e.error, e.failed⟩
    · rw [List.set_eq_of_length_le (not_lt.mp hindex)]
      exact h.threw report hreport hcause
  | @told report hmade hadded hdone =>
    have hnew : (report.cause = some .cancelled → group.cancelled ≠ 0) ∧
        (report.cause = none → ∃ ec ∈ group.initiationEcs, ec.failed = true) := by
      cases hmade with
      | initiation hgroup' hec hnone hfailed =>
        obtain rfl := Option.some.inj (hgroup.symm.trans hgroup')
        exact ⟨fun hcause => by simp [hnone] at hcause, fun _ =>
          ⟨_, List.mem_of_getElem? hec, hfailed⟩⟩
      | delivery hx hstep hkind hhandler herror hsome =>
        refine ⟨fun hcause => ?_, fun hcause => by simp [hsome] at hcause⟩
        exact cancelled_of_delivery hs hgroup hwait hx hstep hkind hhandler
          (Option.some.inj (hsome.symm.trans hcause))
    refine ⟨fun report' hreport => ?_, fun report' hreport => ?_⟩
    · rcases List.mem_append.mp hreport with hold | hlast
      · exact h.cancelled report' hold
      · exact List.mem_singleton.mp hlast ▸ hnew.1
    · rcases List.mem_append.mp hreport with hold | hlast
      · exact h.threw report' hold
      · exact List.mem_singleton.mp hlast ▸ hnew.2
  | _ => exact ⟨h.cancelled, h.threw⟩

/-- In every state that a server can reach, what its waits have been told is in agreement. -/
theorem blames_of_reachable (h : Reachable step {} s) :
    ∀ key group, s.groups key = some group → group.wait = true → Blames group := by
  refine (h.invariant (fun s => Reachable step {} s ∧
    ∀ key group, s.groups key = some group → group.wait = true →
    Blames group) (fun a l b ha hstep => ⟨ha.1.tail hstep, fun key group' hgroup' hwait' => ?_⟩)
    ⟨.refl _, by simp⟩).2
  obtain ⟨a₁, done, added, hacts, houtcome⟩ := step_cases hstep
  rw [houtcome.groups] at hgroup'
  cases hgroup : a.groups key with
  | none =>
    obtain ⟨wait, rfl⟩ := hacts.groups_new hgroup hgroup'
    exact ⟨by simp [OperationGroup.create], by simp [OperationGroup.create]⟩
  | some group =>
    obtain ⟨group₁, hgroup₁, hgroupStep⟩ := hacts.group_step hgroup
    obtain rfl := Option.some.inj (hgroup₁.symm.trans hgroup')
    obtain ⟨group₂, hgroup₂, hsame, -⟩ := hacts.groups hgroup
    obtain rfl := Option.some.inj (hgroup₂.symm.trans hgroup')
    exact (ha.2 key group hgroup (hsame ▸ hwait')).step ha.1 hgroup (hsame ▸ hwait') hgroupStep

/-- A wait that was not cancelled and whose children were all initiated is told only that its
listeners had stopped. -/
theorem stopped_of_uncancelled (h : Reachable step {} s) (hgroup : s.groups key = some group)
    (hwait : group.wait = true) (hcancelled : group.cancelled = 0)
    (hinitiated : ∀ ec ∈ group.initiationEcs, ec.failed = false) :
    ∀ report ∈ group.reports, report.cause = some .stopped := by
  intro report hreport
  have hblames := blames_of_reachable h key group hgroup hwait
  have hjustified := reports_justified h key group hgroup report hreport
  rw [hwait] at hjustified
  rcases hjustified.wait_cases with hcause | ⟨hcause, -⟩ | ⟨hcause, -⟩
  · exact hcause
  · exact absurd hcancelled (hblames.cancelled report hreport hcause)
  · obtain ⟨ec, hmem, hfailed⟩ := hblames.threw report hreport hcause
    simp [hinitiated ec hmem] at hfailed

end Server

end Serveza
