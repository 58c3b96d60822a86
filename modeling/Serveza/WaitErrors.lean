import Serveza.WaitSignals

/-!
# The error of a cancelled wait

The first error that a wait is told becomes its result. A child that was cancelled reports
`operation_aborted`, but a child whose listener stops with an error reports that error. As long as
no listener of the snapshot has ended with an error before the first child is told to be aborted,
and no initiation has thrown, a wait that was not ended by its listeners is aborted.
-/

namespace Serveza

open Foundation

namespace Server

variable {s t : Server} {l : ServerLabel} {key i : ℕ} {x : Listener} {group : OperationGroup}

/-- No initiation of a child has thrown, and unless the operation has been told of an error, no
listener of its snapshot has ended with one. -/
def endsClean (key : ℕ) (s : Server) : Bool :=
  (s.groups key).all fun group => group.initiationEcs.all (fun ec => !ec.failed) &&
    (group.firstEc.failed || (s.listeners.take group.size).all fun x =>
      !x.core.terminalError.failed)

/-- The operation has been told of no error. -/
def Untold (s : Server) (key : ℕ) : Prop :=
  ∀ group, s.groups key = some group → group.firstEc.failed = false

/-- The first error that a wait is told is `operation_aborted`, and before that an error that is on
its way to it is the one its listener has just ended with. -/
structure Aborts (s : Server) (key : ℕ) : Prop where
  first : ∀ group, s.groups key = some group → group.firstEc.failed = true →
    group.firstEc = .operationAborted
  coming : s.Untold key → ∀ i (x : Listener), s.listeners[i]? = some x → ∀ q ∈ x.core.completed,
    q.handler = .child key i → q.cause = .stopped → q.error.failed = true →
    x.core.terminalError.failed = true

/-- An operation that has been told of an error keeps it. -/
theorem GroupStep.firstEc {done added : List Action} {group' : OperationGroup}
    (h : GroupStep s key done added group group') (hfailed : group.firstEc.failed = true) :
    group'.firstEc = group.firstEc := by
  cases h with
  | told hmade hadded hdone => simp [OperationGroup.one, hfailed]
  | _ => rfl

/-- No error of a listener is on its way to a wait before a clean step. -/
theorem Aborts.clean (h : s.Aborts key) (hsound : s.Sound) (hclean : endsClean key s = true)
    (huntold : s.Untold key) (hx : s.listeners[i]? = some x) {q : Completion}
    (hq : q ∈ x.core.completed) (hhandler : q.handler = .child key i)
    (hcause : q.cause = .stopped) : q.error.failed = false := by
  by_contra hfailed
  have hterminal := h.coming huntold i x hx q hq hhandler hcause (by simpa using hfailed)
  obtain ⟨group, hgroup, hlt⟩ := hsound.child_lt hx (completed_mem hq) hhandler
  have hmem : x ∈ s.listeners.take group.size :=
    List.mem_of_getElem? ((List.getElem?_take_of_lt hlt).trans hx)
  simp only [endsClean, hgroup, Option.all_some, huntold group hgroup, Bool.false_or,
    Bool.and_eq_true, List.all_eq_true, Bool.not_eq_true'] at hclean
  simp [hclean.2 x hmem] at hterminal

/-- The first error that a wait is told by a clean step is `operation_aborted`. -/
theorem Aborts.made (h : s.Aborts key) (hs : Reachable step {} s) (hclean : endsClean key s = true)
    (hgroup : s.groups key = some group) (hwait : group.wait = true)
    (huntold : group.firstEc.failed = false) {report : Report} (hmade : s.Made key report)
    (hfailed : report.error.failed = true) :
    report.error = .operationAborted := by
  have hjustified := hmade.justified hs hgroup
  rw [hwait] at hjustified
  cases hmade with
  | initiation hgroup' hec hcause hfailed =>
    obtain rfl := Option.some.inj (hgroup.symm.trans hgroup')
    simp only [endsClean, hgroup, Option.all_some, Bool.and_eq_true, List.all_eq_true,
      Bool.not_eq_true'] at hclean
    simp [hclean.1 _ (List.mem_of_getElem? hec)] at hfailed
  | @delivery j x y k q hx hstep hkind hhandler herror hcause =>
    rcases hjustified.wait_cases with hstopped | ⟨-, haborted⟩ | ⟨hnone, -⟩
    · have hq : q.cause = .stopped := Option.some.inj (hcause.symm.trans hstopped)
      have hsound := sound_of_reachable hs
      have hindex := hsound.placed.delivers_index hgroup hx hstep hkind hhandler
      have hnone := h.clean hsound hclean
        (fun group' hgroup' => Option.some.inj (hgroup.symm.trans hgroup') ▸ huntold) hx
        (delivered_mem hstep hkind) (hindex ▸ hhandler) hq
      simp [herror, hnone] at hfailed
    · exact haborted
    · simp [hcause] at hnone

/-- Every clean step keeps the first error of a wait `operation_aborted`. -/
theorem Aborts.step (h : s.Aborts key) (hs : Reachable Server.step {} s)
    (hclean : endsClean key s = true)
    (hwait : ∀ group, s.groups key = some group → group.wait = true) (hstep : s.step l = some t) :
    t.Aborts key := by
  obtain ⟨s₁, done, added, hacts, houtcome⟩ := step_cases hstep
  refine ⟨fun group' hgroup' hfailed' => ?_, fun huntold i y hy q hq hhandler hcause hfailed => ?_⟩
  · rw [houtcome.groups] at hgroup'
    cases hgroup : s.groups key with
    | none =>
      obtain ⟨wait, rfl⟩ := hacts.groups_new hgroup hgroup'
      simp [OperationGroup.create] at hfailed'
    | some group =>
      obtain ⟨group₁, hgroup₁, hgroupStep⟩ := hacts.group_step hgroup
      obtain rfl := Option.some.inj (hgroup₁.symm.trans hgroup')
      by_cases hfailed : group.firstEc.failed = true
      · exact (hgroupStep.firstEc hfailed).trans (h.first group hgroup hfailed)
      · cases hgroupStep with
        | @told report hmade hadded hdone =>
          have huntold : group.firstEc.failed = false := by simpa using hfailed
          have herror : report.error.failed = true := by
            by_contra hnone
            simp [OperationGroup.one, huntold, Bool.eq_false_of_not_eq_true hnone] at hfailed'
          have haborted := h.made hs hclean hgroup (hwait group hgroup) huntold hmade herror
          simpa [OperationGroup.one, herror, huntold] using haborted
        | _ => exact absurd hfailed' hfailed
  · have hbefore : s.Untold key := by
      intro group hgroup
      obtain ⟨group', hgroup', hgroupStep⟩ := hacts.group_step hgroup
      by_contra hfailed
      have hkept := hgroupStep.firstEc (by simpa using hfailed)
      simp [← hkept, huntold group' (houtcome.groups ▸ hgroup')] at hfailed
    have hold {x : Listener} (hx : s.listeners[i]? = some x)
        (hq : q ∈ x.core.completed) : False := by
      have hnone := h.clean (sound_of_reachable hs) hclean hbefore hx hq hhandler hcause
      simp [hnone] at hfailed
    cases (hacts.effect i).outcome houtcome with
    | same hsame => exact (hold (hsame ▸ hy) hq).elim
    | @created config hnone hnew =>
      obtain rfl := Option.some.inj (hy.symm.trans hnew)
      obtain ⟨endpoint, hcore⟩ := Listener.create_core (i + 1) config
      simp [hcore, ListenerCore.completed] at hq
    | @stepped x y' k hx hy' hlstep horigin =>
      obtain rfl := Option.some.inj (hy.symm.trans hy')
      obtain ⟨new, hnew, hends⟩ := (Listener.step_core hlstep).completed_eq
      rcases List.mem_append.mp (hnew ▸ hq) with hq | hq
      · exact (hold hx hq).elim
      · cases hends q hq with
        | start hnone hstart => simp [Completion.EndsStart, hcause] at hstart
        | cancelled hsome hcancelled herror => simp [hcause] at hcancelled
        | stopped hsome hstopped hstate herror => exact herror ▸ hfailed

end Server

end Serveza
