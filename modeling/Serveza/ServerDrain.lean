import Serveza.ServerProgress
import Serveza.Shutdown

/-!
# A server settles

Left to itself a server comes to rest: the calls in progress and the strands of the listeners
have only so much to do, and as long as there is something to do it can be done. So the state
in which nothing is left, which says how operations end, is reached whatever happens first.
An operation has then been answered once, unless it is a wait that a listener still holds.
-/

namespace Serveza

open Foundation

namespace Server

variable {s t : Server} {key : ℕ} {group : OperationGroup}

/-- Nothing in progress can be carried on. -/
def Stuck (s : Server) : Prop := ∀ l, l.drains = true → s.step l = none

/-- A server that cannot go on has nothing left to do. -/
theorem Stuck.quiescent (h : s.Stuck) (hreached : Reachable step {} s) : s.Quiescent := by
  by_contra hopen
  obtain ⟨l, hl, hsome⟩ := (ready_of_reachable hreached).progress hopen
  simp [h l hl] at hsome

/-- A server with nothing left to do cannot go on. -/
theorem Quiescent.stuck (h : s.Quiescent) : s.Stuck := by
  intro l hl
  cases hstep : s.step l with
  | none => rfl
  | some s' =>
    exfalso
    obtain ⟨s₁, done, added, hacts, -⟩ := step_cases hstep
    cases hacts with
    | proceed hnext hperforms => simp [next, h.1] at hnext
    | internal hx hlstep hinternal hstrand hkind =>
      obtain ⟨message, rest, hhead, -⟩ := Listener.run_handles hlstep hl
      simp [h.2 _ (List.mem_of_getElem? hx)] at hhead
    | delivers hx hlstep hinternal hstrand hkind hhandler hgroup =>
      obtain ⟨message, rest, hhead, -⟩ := Listener.run_handles hlstep hl
      simp [h.2 _ (List.mem_of_getElem? hx)] at hhead
    | _ => contradiction

/-- Going on with what is in progress reaches reachable states. -/
theorem reachable_run {ls : List ServerLabel} (h : Reachable step {} s)
    (hrun : run step s ls = some t) : Reachable step {} t := by
  obtain ⟨ms, hms⟩ := h
  exact ⟨ms ++ ls, run_append.mpr ⟨s, hms, hrun⟩⟩

/-- Operations keep their kind and their snapshot along a run. -/
theorem groups_run {ls : List ServerLabel} (hgroup : s.groups key = some group)
    (hrun : run step s ls = some t) :
    ∃ group', t.groups key = some group' ∧ group'.wait = group.wait ∧ group'.size = group.size := by
  refine run_invariant (fun t => ∃ group', t.groups key = some group' ∧ group'.wait = group.wait ∧
    group'.size = group.size) (fun a l b ha hstep => ?_) ⟨group, hgroup, rfl, rfl⟩ hrun
  obtain ⟨old, hold, hwait, hsize⟩ := ha
  obtain ⟨a₁, done, added, hacts, houtcome⟩ := step_cases hstep
  obtain ⟨new, hnew, hwait', hsize'⟩ := hacts.groups hold
  exact ⟨new, by rw [houtcome.groups, hnew], hwait'.trans hwait, hsize'.trans hsize⟩

/-- An operation is answered at most once. -/
theorem Sound.results_le (h : s.Sound) (hgroup : s.groups key = some group) :
    group.results.length ≤ 1 := by
  have haccounted := h.accounted key
  rw [Accounted, hgroup] at haccounted
  rcases haccounted with hunbegun | hrejected | hbegun
  · have hnone : group.results = [] := congrArg OperationGroup.results hunbegun.fresh
    simp [hnone]
  · simp [hrejected.results]
  · have hfinishes := hbegun.finishes
    split at hfinishes <;> omega

/-- A child of a wait that has not been delivered when nothing is left to be done is held by its
listener. -/
theorem waiting_of_undelivered (h : Reachable step {} s) (hquiescent : s.Quiescent) {i : ℕ}
    {x : Listener} (hx : s.listeners[i]? = some x)
    (hopen : s.tallyAt i key i ≠ s.deliveredAt i key i) :
    ∃ w ∈ x.core.waiters, w.handler = .child key i := by
  have hmem := List.mem_of_getElem? hx
  have hstrand : x.core.strand = [] := hquiescent.2 x hmem
  have hinitiating : x.core.initiating = [] := by
    by_contra hne
    obtain ⟨w, hw⟩ := List.exists_mem_of_ne_nil _ hne
    have hle := (cancelsComing_of_reachable h).posts i x hx (.postWait w.id)
    rw [hquiescent.actions_eq] at hle
    have hposts : CoreLabel.postWait w.id ∈ x.core.posts :=
      List.mem_append_left _ (List.mem_map_of_mem hw)
    have hpos := List.count_pos_iff.mpr hposts
    rw [List.countP_nil] at hle
    omega
  by_contra hnone
  refine hopen ?_
  have hwaiters : x.core.waiters.countP (fun w => withHandler (.child key i) w.operation) = 0 :=
    List.countP_eq_zero.mpr fun w hw hhandler => hnone ⟨w, hw, of_decide_eq_true hhandler⟩
  simp only [tallyAt, countAt, deliveredAt, hx, Option.map_some, Option.getD_some, tally,
    deliveries, hstrand, hinitiating, hwaiters, List.filterMap_nil, List.countP_nil, Nat.zero_add]
  rfl

/-- With no action left, an operation one of whose children has not been delivered has not been
answered. -/
theorem unanswered_of_undelivered (hactions : s.actions = []) (hbegun : group.Begun (s.ledger key))
    {i : ℕ} (hi : i < group.size) (hopen : s.tallyAt i key i ≠ s.deliveredAt i key i) :
    group.results = [] := by
  have hchild := hbegun.child i
  have hreported := hbegun.reported i
  have hle := hbegun.delivered i
  have hdiffer : (s.ledger key).tally i ≠ (s.ledger key).delivered i := hopen
  rw [if_pos hi, show (s.ledger key).initiates i = 0 by simp [ledger, hactions]] at hchild
  have hunreported : group.reported i = 0 := by
    have hfailures : group.failures i = 0 := by omega
    rw [hfailures, Nat.zero_mul] at hreported
    omega
  have hfinishes := hbegun.finishes
  rw [if_neg (hbegun.remaining_pos hi hunreported).ne'] at hfinishes
  exact List.length_eq_zero_iff.mp (by omega)

/-- A listener of a server that has stopped holds no wait. -/
theorem stopped_waiters (h : Reachable step {} s) {x : Listener} (hx : x ∈ s.listeners) :
    Released x.core := by
  obtain ⟨id, config, hreachable⟩ := listeners_reached h x hx
  refine hreachable.invariant (fun x => Released x.core)
    (fun _ _ _ hr hstep => hr.step (Listener.step_core hstep)) ?_
  obtain ⟨endpoint, hcore⟩ := Listener.create_core id config
  simp [Released, hcore]

/-- When nothing is left to be done, an operation has been answered or one of its listeners holds
its wait. -/
theorem answered_of_quiescent (h : Reachable step {} s) (hquiescent : s.Quiescent)
    (hgroup : s.groups key = some group) :
    (∃ result, group.results = [result]) ∨ group.results = [] ∧ group.wait = true ∧
    ∃ i x w, i < group.size ∧
      s.listeners[i]? = some x ∧ x.core.state ≠ .stopped ∧ w ∈ x.core.waiters ∧
      w.handler = .child key i := by
  have hsound := sound_of_reachable h
  have haccounted := hsound.accounted key
  rw [Accounted, hgroup] at haccounted
  rcases haccounted with hunbegun | hrejected | hbegun
  · have hbegins : (s.ledger key).begins = 0 := by simp [ledger, hquiescent.actions_eq]
    exact absurd hunbegun.begins (by omega)
  · exact Or.inl ⟨_, hrejected.results⟩
  · by_cases hdelivered : ∀ i < group.size, s.tallyAt i key i = s.deliveredAt i key i
    · exact Or.inl (completed_of_delivered hquiescent.actions_eq hbegun hdelivered).2
    · obtain ⟨i, hi, hopen⟩ : ∃ i, i < group.size ∧ s.tallyAt i key i ≠ s.deliveredAt i key i := by
        by_contra hnone
        exact hdelivered fun i hi => by_contra fun hne => hnone ⟨i, hi, hne⟩
      have hlt : i < s.listeners.length := hi.trans_le (hsound.placed.sized key group hgroup)
      obtain ⟨x, hx⟩ : ∃ x, s.listeners[i]? = some x := ⟨_, List.getElem?_eq_getElem hlt⟩
      have hmem := List.mem_of_getElem? hx
      obtain ⟨w, hw, hhandler⟩ := waiting_of_undelivered h hquiescent hx hopen
      refine Or.inr ⟨?_, ?_, i, x, w, hi, hx, fun hstopped => ?_, hw, hhandler⟩
      · exact unanswered_of_undelivered hquiescent.actions_eq hbegun hi hopen
      · cases hwait : group.wait with
        | true => rfl
        | false =>
          exact absurd (hsound.placed.tallyAt_start hgroup hwait hx (hquiescent.2 x hmem)) hopen
      · simp [stopped_waiters h hmem hstopped] at hw

end Server

/-- Left to itself a server comes to rest: every run that only goes on with what is in progress
is bounded by the work there is, some of it can be carried on exactly as long as something is
left, and some such run leaves nothing. -/
theorem server_drains {s : Server} (h : Reachable Server.step {} s) :
    (∀ ls t, (∀ l ∈ ls, ServerLabel.drains l = true) → run Server.step s ls = some t →
      ls.length + t.work ≤ s.work) ∧
      (s.Stuck ↔ s.Quiescent) ∧
      ∃ ls t, (∀ l ∈ ls, ServerLabel.drains l = true) ∧
      run Server.step s ls = some t ∧ t.Quiescent := by
  have hkept (s : Server) (l : ServerLabel) (t : Server) (hs : Reachable Server.step {} s)
      (_ : l.drains = true)
      (hstep : s.step l = some t) : Reachable Server.step {} t := hs.tail hstep
  have hlower (s : Server) (l : ServerLabel) (t : Server) (_ : Reachable Server.step {} s)
      (hl : l.drains = true)
      (hstep : s.step l = some t) : t.work < s.work := Server.work_lt hstep hl
  refine ⟨fun ls t hls hrun => run_length_le Server.work hkept hlower h hls hrun,
    ⟨fun hstuck => hstuck.quiescent h, Server.Quiescent.stuck⟩, ?_⟩
  exact exists_run_done Server.work hkept hlower
    (fun s hs hopen => (Server.ready_of_reachable hs).progress hopen) h

/-- A server with one listener is started. -/
def startCalled : List ServerLabel := [.addListener defaultSocket, .asyncStart 0 0]

/-- The start is carried out and answered. -/
def startCarriedOut : List ServerLabel :=
  List.replicate 5 (.proceed 0 none) ++ List.replicate 2 (.listener 0 0 (.socket (.run {}))) ++
    List.replicate 2 (.proceed 0 none)

/-- The start that has been called is worth twenty-eight steps at most, and some run leaves nothing
of it. -/
theorem server_drains_startCalled :
    ∃ s, run Server.step {} startCalled = some s ∧ s.work = 28 ∧ ¬ s.Stuck ∧
    ∃ ls t, (∀ l ∈ ls, ServerLabel.drains l = true) ∧
    run Server.step s ls = some t ∧ t.Quiescent := by
  have h : run Server.step {} startCalled = some _ := rfl
  obtain ⟨-, hstuck, hdone⟩ := server_drains ⟨startCalled, h⟩
  exact ⟨_, h, rfl, fun hno => absurd (hstuck.mp hno).1 (List.cons_ne_nil _ _), hdone⟩

/-- Every operation of a server is answered at most once. Whatever the calls in progress and the
strands do, once they cannot go on it has been answered, unless it is a wait for a listener that
has not stopped and holds it. -/
theorem operation_answered {s : Server} (h : Reachable Server.step {} s) {key : ℕ}
    {group : OperationGroup} (hgroup : s.groups key = some group) : group.results.length ≤ 1 ∧
      ∀ ls t, run Server.step s ls = some t → t.Stuck → ∃ group', t.groups key = some group' ∧
        ((∃ result, group'.results = [result]) ∨ group'.results = [] ∧ group.wait = true ∧
          ∃ i x w, i < group.size ∧
          t.listeners[i]? = some x ∧ x.core.state ≠ .stopped ∧ w ∈ x.core.waiters ∧
          w.handler = .child key i) := by
  refine ⟨(Server.sound_of_reachable h).results_le hgroup, fun ls t hrun hstuck => ?_⟩
  obtain ⟨group', hgroup', hwait, hsize⟩ := Server.groups_run hgroup hrun
  have hreached := Server.reachable_run h hrun
  have hanswered := Server.answered_of_quiescent hreached (hstuck.quiescent hreached) hgroup'
  rw [hwait, hsize] at hanswered
  exact ⟨group', hgroup', hanswered⟩

/-- The start that has been called is answered once it has been carried out. -/
theorem operation_answered_startCalled : ∃ s t group', run Server.step {} startCalled = some s ∧
    run Server.step s startCarriedOut = some t ∧ t.groups 0 = some group' ∧
    ∃ result, group'.results = [result] := by
  obtain ⟨-, hanswered⟩ := @operation_answered _ ⟨startCalled, rfl⟩ 0 _ rfl
  obtain ⟨group', hgroup', hone | ⟨-, hwait, -⟩⟩ := hanswered startCarriedOut _ rfl
    (Server.Quiescent.stuck ⟨rfl, by decide⟩)
  · exact ⟨_, _, group', rfl, rfl, hgroup', hone⟩
  · contradiction

end Serveza
