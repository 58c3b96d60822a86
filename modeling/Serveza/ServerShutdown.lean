import Serveza.ListenerStops
import Serveza.ServerDrain

/-!
# The shutdown of a server

A server whose listeners have all begun to stop, and that nobody starts again, shuts down: the
calls in progress, the strands, the sessions' own strands, the outstanding accepts and the grace
periods have a bounded number of steps left, whatever the sessions do meanwhile. When none is
left every listener is stopped and released and every operation has been answered, and the
server itself is stopped if somebody was waiting for it. Bound sockets are taken to arm their
shutdown timers without an exception; a grace period that could not be begun is not covered.
-/

namespace Serveza

open Foundation

/-- The action starts a listener, or leads to such an action. -/
def Action.starts : Action → Bool
  | .beginStart _ | .startChild _ _ => true
  | _ => false

/-- The step is due: nobody has to call for it and it will be made. -/
def ServerLabel.isDue : ServerLabel → Bool
  | .proceed _ _ => true
  | .listener _ _ l => l.isDue
  | _ => false

/-- The step is due or made by a session. -/
def ServerLabel.isUnattended : ServerLabel → Bool
  | .proceed _ _ => true
  | .listener _ _ l => l.isUnattended
  | _ => false

/-- A step that goes on with what is in progress is due. -/
theorem ServerLabel.isDue_of_drains {l : ServerLabel} (h : l.drains = true) : l.isDue = true := by
  cases l with
  | proceed t threw => rfl
  | listener t i l =>
    cases l with
    | acceptor l => cases l <;> first | rfl | contradiction
    | socket l => cases l <;> first | rfl | contradiction
  | _ => contradiction

/-- A step that is due is unattended. -/
theorem ServerLabel.isUnattended_of_isDue {l : ServerLabel} (h : l.isDue = true) :
    l.isUnattended = true := by
  cases l with
  | proceed t threw => rfl
  | listener t i l => exact Listener.isUnattended_of_isDue h
  | _ => contradiction

namespace Server

variable {s s₁ s' : Server} {l : ServerLabel} {done added : List Action} {key : ℕ}

/-- Every listener has begun to stop, and nothing in progress starts one again. -/
structure WindsDown (s : Server) : Prop where
  listeners : ∀ x ∈ s.listeners, WindingDown x.core
  starts : ∀ a ∈ s.actions, a.starts = false

instance (s : Server) : Decidable s.WindsDown :=
  decidable_of_iff (_ ∧ _) ⟨fun h => ⟨h.1, h.2⟩, fun h => ⟨h.listeners, h.starts⟩⟩

/-- Without a call no listener is added. -/
theorem Acts.length_eq (h : s.Acts l s₁ done added) (hl : l.isUnattended = true) :
    s₁.listeners.length = s.listeners.length := by
  cases h with
  | proceed hnext hperforms => cases hperforms <;> simp [setListener, setGroup]
  | internal hx hlstep hinternal hstrand hkind => simp [setListener]
  | delivers hx hlstep hinternal hstrand hkind hhandler hgroup => simp [setListener, setGroup]
  | _ => contradiction

/-- A server keeps winding down as long as nobody calls it. -/
theorem WindsDown.step (h : s.WindsDown) (hl : l.isUnattended = true) (hstep : s.step l = some s') :
    s'.WindsDown := by
  obtain ⟨s₁, done, added, hacts, houtcome⟩ := step_cases hstep
  have hdone (a : Action) (ha : a.starts = true) : done ≠ [a] := by
    intro hdone
    have hpending := h.starts a (hacts.mem_done (hdone ▸ List.mem_singleton_self a))
    simp [ha] at hpending
  have hlength : s'.listeners.length = s.listeners.length := by
    rw [houtcome.listeners, hacts.length_eq hl]
  refine ⟨fun y hy => ?_, fun a ha => ?_⟩
  · obtain ⟨i, hi⟩ := List.getElem?_of_mem hy
    cases (hacts.effect i).outcome houtcome with
    | same hsame => exact h.listeners y (List.mem_of_getElem? (hsame ▸ hi))
    | created hnone hnew =>
      have hlt := (List.getElem?_eq_some_iff.mp hnew).1
      have hge := List.getElem?_eq_none_iff.mp hnone
      omega
    | @stepped x y' k hx hy' hlstep horigin =>
      obtain rfl : y' = y := Option.some.inj (hy'.symm.trans hi)
      have hcore := Listener.step_core hlstep
      refine (h.listeners x (List.mem_of_getElem? hx)).step hcore ?_ ?_ <;> cases horigin with
      | startChild hstart => exact absurd hstart (hdone _ rfl)
      | listenerStart hcall => simp [hcall, ServerLabel.isUnattended] at hl
      | listenerWait hcall => simp
      | waitChild hwait => simp
      | stopRead hread => simp
      | stopPost hpost => simp
      | @quiet call hquiet => cases call <;> first | contradiction | simp
      | internal hcall hinternal =>
        rw [hcall] at hl
        first | exact (Listener.isUnattended_kind hlstep
          hl).1 | exact (Listener.isUnattended_kind hlstep hl).2
  · rcases houtcome.mem ha with ha | ha
    · exact h.starts a ha
    · have hfollows := hacts.follows a ha
      cases a with
      | beginStart key =>
        obtain ⟨t, rfl⟩ := hfollows
        contradiction
      | startChild key i => exact absurd hfollows (hdone _ rfl)
      | _ => rfl

/-- What the sessions, the timers and the outstanding accepts have left. -/
def spare (s : Server) : ℕ := (s.listeners.map Listener.spare).sum

/-- What a server that winds down has left. -/
def remainder (s : Server) : ℕ := s.work + s.spare

/-- What the listeners have left, given the sizes of the operations. -/
theorem strandWork_add_spare (s : Server) (size : ℕ → ℕ) :
    s.strandWork size + s.spare = (s.listeners.map (Listener.remainder (burst size))).sum := by
  rw [strandWork, spare, ← List.sum_map_add]
  rfl

/-- An action leaves the sessions, the timers and the accepts alone. -/
theorem Performs.spare_eq {threw : Option FailingException} {action : Action} {first : List Action}
    (h : s.Performs threw action s₁ first) : s₁.spare = s.spare := by
  have hcalled {listener : ℕ} {call : CoreLabel} {x y : Listener}
      (hcall : s.Calls listener call x y)
      (hbeside : call.isBeside = false) : (s.setListener listener y).spare = s.spare := by
    have hset := sum_map_set Listener.spare hcall.found y
    rw [Listener.spare_off hcall.step hbeside] at hset
    exact Nat.add_right_cancel hset
  cases h with
  | startsChild hgroup hcall => exact hcalled hcall rfl
  | waitsChild hgroup hcall => exact hcalled hcall rfl
  | postWait hcall => exact hcalled hcall rfl
  | emitWait hgroup hwait hw hcall => exact hcalled hcall rfl
  | emitStart hgroup hstart hcall => exact hcalled hcall rfl
  | postCancel hcall => exact hcalled hcall rfl
  | stopReturns hcall hstopped => exact hcalled hcall rfl
  | stopReads hcall hopen => exact hcalled hcall rfl
  | stopPost hcall => exact hcalled hcall rfl
  | _ => rfl

/-- A step of a listener leaves less, with what the handler it calls is worth left over. -/
theorem remainder_setListener {i : ℕ} {x y : Listener} {k : ListenerLabel}
    (hx : s.listeners[i]? = some x) (hending : x.Ending) (hstep : x.step k = some y)
    (hk : k.isUnattended = true) (hinternal : k.isInternal = true) (size : ℕ → ℕ) :
    (s.setListener i y).strandWork size + (s.setListener i y).spare +
    (x.kind k).called (burst size) +
      (if k.isDue then 1 else 0) ≤ s.strandWork size + s.spare := by
  have hless := hending.remainder hk hinternal hstep (burst size)
  have hset := sum_map_set (Listener.remainder (burst size)) hx y
  rw [strandWork_add_spare, strandWork_add_spare]
  simp only [setListener]
  split_ifs at hless ⊢ <;> omega

/-- Every step that is due leaves less, and a step of a session leaves no more. -/
theorem WindsDown.remainder (h : s.WindsDown) (hreached : Reachable Server.step {} s)
    (hl : l.isUnattended = true) (hstep : s.step l = some s') :
    s'.remainder + (if l.isDue then 1 else 0) ≤ s.remainder := by
  have hending {i : ℕ} {x : Listener} (hx : s.listeners[i]? = some x) : x.Ending :=
    (listeners_reached hreached x (List.mem_of_getElem? hx)).ending
      (h.listeners x (List.mem_of_getElem? hx))
  obtain ⟨s₁, done, added, hacts, houtcome⟩ := step_cases hstep
  have hactions : actionsWork s.sizes (s'.actions ++ done) =
      actionsWork s.sizes (s.actions ++ added) :=
    (houtcome.actions.map _).sum_eq
  rw [actionsWork_append, actionsWork_append] at hactions
  have hbalance (hsizes : s₁.sizes = s.sizes)
      (hpaid : actionsWork s.sizes added + (s₁.strandWork s.sizes + s₁.spare) +
      (if l.isDue then 1 else 0) ≤ actionsWork s.sizes done + (s.strandWork s.sizes + s.spare)) :
      s'.remainder + (if l.isDue then 1 else 0) ≤ s.remainder := by
    have hsame : s'.sizes = s.sizes := by
      rw [← hsizes]
      funext key
      rw [sizes, sizes, houtcome.groups]
    have hwork : s'.strandWork s.sizes = s₁.strandWork s.sizes := by
      rw [strandWork, strandWork, houtcome.listeners]
    have hspare : s'.spare = s₁.spare := by rw [spare, spare, houtcome.listeners]
    rw [Server.remainder, Server.remainder, work, work, hsame, hwork, hspare]
    split_ifs at hpaid ⊢ <;> omega
  cases hacts with
  | proceed hnext hperforms =>
    refine hbalance (Acts.sizes (.proceed hnext hperforms) rfl) ?_
    have hless := hperforms.work_lt
    have hspare := hperforms.spare_eq
    rw [hspare]
    simp only [ServerLabel.isDue, if_true, actionsWork, List.map_singleton,
      List.sum_singleton] at hless ⊢
    omega
  | @internal _ i k x y hx hlstep hinternal hstrand hkind =>
    refine hbalance rfl ?_
    have hless := remainder_setListener hx (hending hx) hlstep hl hinternal s.sizes
    change 0 + ((s.setListener i y).strandWork s.sizes + (s.setListener i y).spare) +
      (if k.isDue then 1 else 0) ≤ 0 + _
    omega
  | @delivers _ i k x y completion key index group hx hlstep hinternal hstrand
    hkind hhandler hgroup =>
    refine hbalance (sizes_setGroup (s := s.setListener i y) hgroup rfl) ?_
    have hless := remainder_setListener hx (hending hx) hlstep hl hinternal s.sizes
    have hone := actionsWork_onStrand (sizes_of_group hgroup) i
      ⟨index, completion.error, some completion.cause⟩
    rw [hkind] at hless
    simp only [StepKind.called, hhandler, burst] at hless
    change _ + ((s.setListener i y).strandWork s.sizes + (s.setListener i y).spare) +
      (if k.isDue then 1 else 0) ≤ 0 + _
    omega
  | _ => contradiction

/-- No step of the server is due. -/
def Rested (s : Server) : Prop := ∀ l, l.isDue = true → s.step l = none

/-- A server that rests has nothing left to do. -/
theorem Rested.quiescent (h : s.Rested) (hreached : Reachable step {} s) : s.Quiescent :=
  Stuck.quiescent (fun l hl => h l (ServerLabel.isDue_of_drains hl)) hreached

/-- The listeners of a server that rests are settled. -/
theorem Rested.settled (h : s.Rested) (hquiescent : s.Quiescent) :
    ∀ x ∈ s.listeners, x.Settled := by
  intro x hx k hdue hinternal
  obtain ⟨i, hi⟩ := List.getElem?_of_mem hx
  have hnone := h (.listener 0 i k) hdue
  simpa [Server.step, isFree, hquiescent.1, hquiescent.actions_eq, hinternal, hi, stepListener]
    using hnone

/-- A wait of the server has not been answered, or the server is stopped. -/
def AwaitsStop (key : ℕ) (s : Server) : Prop :=
  (∃ group, s.groups key = some group ∧ group.wait = true ∧ group.results = []) ∨
    s.control.state = .stopped

/-- The end of a wait stops the server. -/
theorem finishWait_state {c c' : ServerControl} {listeners : List ListenerStatus}
    {result ec : ErrorCode} (h : c.finishWait listeners result = (ec, c')) :
    c'.state = .stopped := by
  obtain rfl := congrArg Prod.snd h
  by_cases hs : c.state = .stopped <;> simp [ServerControl.finishWait, ServerControl.emit, hs]

/-- The end of a start leaves a stopped server stopped. -/
theorem finishStart_state {c c' : ServerControl} {listeners : List ListenerStatus}
    {result ec : ErrorCode} (hs : c.state = .stopped)
    (h : c.finishStart listeners result = (ec, c')) : c'.state = .stopped := by
  obtain rfl := congrArg Prod.snd h
  by_cases hfailed : result.failed = true <;>
    simp [ServerControl.finishStart, hfailed, hs, ServerState.Halted]

/-- A server that winds down stays stopped once a wait of it has been answered. -/
theorem AwaitsStop.step (h : s.AwaitsStop key) (hdown : s.WindsDown) (hl : l.isUnattended = true)
    (hstep : s.step l = some s') :
    s'.AwaitsStop key := by
  obtain ⟨s₁, done, added, hacts, houtcome⟩ := step_cases hstep
  have hbegins (k : ℕ) : done ≠ [.beginStart k] := by
    intro hdone
    have hpending :=
      hdown.starts _ (hacts.mem_done (hdone ▸ List.mem_singleton_self (Action.beginStart k)))
    contradiction
  rw [AwaitsStop, houtcome.groups, houtcome.control]
  rcases h with ⟨group, hgroup, hwait, hresults⟩ | hstopped
  · obtain ⟨group', hgroup', hgstep⟩ := hacts.group_step hgroup
    cases hgstep with
    | rejected hdone => exact absurd hdone (hbegins key)
    | finishedStart hdone hstart hcontrol => simp [hwait] at hstart
    | @finishedWait result hdone hkind =>
      refine Or.inr ?_
      cases hacts with
      | proceed hnext hperforms =>
        obtain rfl := List.singleton_inj.mp hdone
        cases hperforms with
        | finishStart hgroup₂ hstart hcontrol =>
          obtain rfl := Option.some.inj (hgroup.symm.trans hgroup₂)
          simp [hwait] at hstart
        | finishWait hgroup₂ hkind hcontrol => exact finishWait_state hcontrol
      | _ => contradiction
    | _ => exact Or.inl ⟨_, hgroup', hwait, hresults⟩
  · refine Or.inr ?_
    cases hacts with
    | proceed hnext hperforms =>
      cases hperforms with
      | begins hgroup hcontrol => exact absurd rfl (hbegins _)
      | rejects hgroup hcontrol => exact absurd rfl (hbegins _)
      | finishStart hgroup hstart hcontrol => exact finishStart_state hstopped hcontrol
      | finishWait hgroup hwait hcontrol => exact finishWait_state hcontrol
      | _ => exact hstopped
    | internal hx hlstep hinternal hstrand hkind => exact hstopped
    | delivers hx hlstep hinternal hstrand hkind hhandler hgroup => exact hstopped
    | _ => contradiction

/-- A server that winds down keeps what its shutdown rests on. -/
theorem WindsDown.run {t : Server} {ls : List ServerLabel} (h : s.WindsDown)
    (hls : ∀ l ∈ ls, l.isUnattended = true) (hrun : run Server.step s ls = some t) : t.WindsDown :=
  run_invariant_along (P := fun _ l => l.isUnattended = true) WindsDown
    (fun _ _ _ hs hl hstep => hs.step hl hstep) h (along_of_labels hls) hrun

/-- A server that has wound down and rests has stopped every listener. -/
theorem WindsDown.rested (h : s.WindsDown) (hreached : Reachable Server.step {} s)
    (hrested : s.Rested) :
    ∀ x ∈ s.listeners, x.Silent ∧ x.core.state = .stopped ∧ x.held = [] ∧ x.core.waiters = [] := by
  intro x hx
  have hending := (listeners_reached hreached x hx).ending (h.listeners x hx)
  exact hending.settled (hrested.settled (hrested.quiescent hreached) x hx)

/-- A server that has wound down and rests has answered every operation. -/
theorem WindsDown.answered (h : s.WindsDown) (hreached : Reachable Server.step {} s)
    (hrested : s.Rested) {group : OperationGroup} (hgroup : s.groups key = some group) :
    ∃ result, group.results = [result] := by
  rcases answered_of_quiescent hreached (hrested.quiescent hreached) hgroup with
    hone | ⟨-, -, i, x, w, -, hx, hopen, -⟩
  · exact hone
  · exact absurd (h.rested hreached hrested x (List.mem_of_getElem? hx)).2.1 hopen

end Server

/-- A server shuts down. Take a reachable server all of whose listeners are stopping or stopped, and
that nothing in progress starts again. In every run in which nobody calls it, whatever the sessions
do, the number of steps that are due is bounded. When none is left nothing is in progress, every
listener is stopped and holds neither a session nor a wait, and every operation has been answered
exactly once; the server is stopped if a wait had not been answered before. And there is a run of
due steps that gets there. The shutdown timers of bound sockets are taken to be armed. -/
theorem server_stops {s : Server} (h : Reachable Server.step {} s) (hdown : s.WindsDown) :
    (∀ ls t, (∀ l ∈ ls, ServerLabel.isUnattended l = true) → run Server.step s ls = some t →
      ls.countP (·.isDue) + t.remainder ≤ s.remainder ∧
      (t.Rested → t.Quiescent ∧
        (∀ x ∈ t.listeners, x.Silent ∧ x.core.state = .stopped ∧ x.held = [] ∧
          x.core.waiters = []) ∧
        ∀ key group, s.groups key = some group → ∃ group' result, t.groups key = some group' ∧
        group'.results = [result] ∧
          (group.wait = true → group.results = [] → t.control.state = .stopped))) ∧
    ∃ ls t, (∀ l ∈ ls, ServerLabel.isDue l = true) ∧ run Server.step s ls = some t ∧ t.Rested := by
  have hkept (a : Server) (l : ServerLabel) (b : Server)
      (ha : Reachable Server.step {} a ∧ a.WindsDown)
      (hl : l.isUnattended = true) (hstep : a.step l = some b) : Reachable Server.step
        {} b ∧ b.WindsDown :=
    ⟨ha.1.tail hstep, ha.2.step hl hstep⟩
  refine ⟨fun ls t hls hrun => ⟨?_, fun hrested => ?_⟩, ?_⟩
  · exact run_countP_le Server.remainder ServerLabel.isDue hkept
      (fun _ _ _ ha hl hstep => ha.2.remainder ha.1 hl hstep) ⟨h, hdown⟩ hls hrun
  · have hreached := Server.reachable_run h hrun
    have hlast := hdown.run hls hrun
    refine ⟨hrested.quiescent hreached, hlast.rested hreached hrested, fun key group hgroup => ?_⟩
    obtain ⟨group', hgroup', -⟩ := Server.groups_run hgroup hrun
    obtain ⟨result, hresult⟩ := hlast.answered hreached hrested hgroup'
    refine ⟨group', result, hgroup', hresult, fun hwait hnone => ?_⟩
    have hawaits : t.AwaitsStop key := (run_invariant_along (P := fun _ l => l.isUnattended = true)
      (fun a => a.WindsDown ∧ a.AwaitsStop key)
      (fun _ _ _ ha hl hstep => ⟨ha.1.step hl hstep, ha.2.step ha.1 hl hstep⟩)
      ⟨hdown, Or.inl ⟨group, hgroup, hwait, hnone⟩⟩ (along_of_labels hls) hrun).2
    rcases hawaits with ⟨other, hother, -, hopen⟩ | hstopped
    · obtain rfl := Option.some.inj (hgroup'.symm.trans hother)
      simp [hresult] at hopen
    · exact hstopped
  · refine exists_run_done (I := fun a => Reachable Server.step {} a ∧ a.WindsDown)
      (Q := fun l : ServerLabel => l.isDue = true)
      Server.remainder (fun a l b ha hl hstep =>
        hkept a l b ha (ServerLabel.isUnattended_of_isDue hl) hstep)
      (fun a l b ha hl hstep => ?_) (fun a _ hnot => ?_) ⟨h, hdown⟩
    · have hless := ha.2.remainder ha.1 (ServerLabel.isUnattended_of_isDue hl) hstep
      rw [if_pos hl] at hless
      exact hless
    · unfold Server.Rested at hnot
      push Not at hnot
      obtain ⟨l, hl, hne⟩ := hnot
      exact ⟨l, hl, Option.isSome_iff_ne_none.mpr hne⟩

/-- A server with one listener that runs a session is waited for and asked to stop, and the listener
has begun to stop. -/
def shutdownBegun : List ServerLabel :=
  startCalled ++ startCarriedOut ++ [.asyncWait 0 1] ++ List.replicate 4 (.proceed 0 none) ++
    [.listener 0 0 (.socket (.run {})), .requestStop 0] ++ List.replicate 3 (.proceed 0 none) ++
    [.listener 0 0 (.socket (.run {}))]

/-- That server comes to its end, and the wait is answered. -/
theorem server_stops_shutdownBegun :
    ∃ s ls t, run Server.step {} shutdownBegun = some s ∧ s.control.state = .stopping ∧
    (∀ l ∈ ls, ServerLabel.isDue l = true) ∧ run Server.step s ls = some t ∧
    t.control.state = .stopped ∧
      ∀ x ∈ t.listeners, x.core.state = .stopped := by
  have h : run Server.step {} shutdownBegun = some _ := rfl
  obtain ⟨hruns, ls, t, hls, hrun, hrested⟩ := server_stops ⟨shutdownBegun, h⟩ (by decide)
  obtain ⟨-, hend⟩ := hruns ls t (fun l hl => ServerLabel.isUnattended_of_isDue (hls l hl)) hrun
  obtain ⟨-, hlisteners, hoperations⟩ := hend hrested
  obtain ⟨group', result, -, -, hstopped⟩ := hoperations 1 _ rfl
  exact ⟨_, ls, t, h, rfl, hls, hrun, hstopped rfl rfl, fun x hx => (hlisteners x hx).2.1⟩

end Serveza
