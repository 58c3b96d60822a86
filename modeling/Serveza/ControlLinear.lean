import Serveza.ControlCalls
import Serveza.Foundation.Registry

/-!
# `server_control` takes effect in one step

However the accesses of concurrent calls interleave, the state of a server and what the calls
return are those of the functions carried out one at a time, in an order that respects which call
returned before which was made. The generation counts the starts of that order, and the events have
the types and the errors that the functions announce, as a multiset, up to the increments and the
posts that the calls still have before them. The order in which the events are posted and the
snapshots they carry are not covered: both may differ from those of the functions.
-/

namespace Serveza

open Foundation
open scoped List

/-- The event an action is part of posting. -/
def ControlAction.announcement? : ControlAction → Option (ServerEventType × ErrorCode)
  | .addGeneration => none
  | .loadState type ec | .loadGeneration type ec _ | .post type ec _ _ => some (type, ec)

/-- The action increments the generation. -/
def ControlAction.increments : ControlAction → Bool
  | .addGeneration => true
  | _ => false

/-- What an event announces. -/
def ServerEvent.announcement (e : ServerEvent) : ServerEventType × ErrorCode := (e.type, e.error)

/-- A function in one step returns what its method returns, changes the state as its method does,
and does what the actions of its method do. -/
theorem ControlMethod.atomic_spec (listeners : List ListenerStatus) (m : ControlMethod)
    (c : ServerControl) :
    (m.atomic listeners c).1 = (m.method.atomic c.state).1 ∧
    (m.atomic listeners c).2.state = (m.method.atomic c.state).2 ∧
      (m.atomic listeners c).2.generation = c.generation +
      (m.method.actions c.state).countP (·.increments) ∧
      (m.atomic listeners c).2.events.map (·.announcement) =
        c.events.map (·.announcement) ++
          (m.method.actions c.state).filterMap (·.announcement?) := by
  cases m with
  | beginStart =>
    simp only [atomic, method, Method.atomic, Method.actions, decide, ServerControl.beginStart]
    split_ifs <;> simp [ServerControl.emit, ServerEvent.announcement, ControlAction.increments,
      ControlAction.announcement?]
  | finishStart ec =>
    simp only [atomic, method, Method.atomic, Method.actions, decide, ServerControl.finishStart]
    split_ifs <;> simp [ServerControl.emit, ServerEvent.announcement, ControlAction.increments,
      ControlAction.announcement?]
  | requestStop =>
    simp only [atomic, method, Method.atomic, Method.actions, decide, ServerControl.requestStop]
    split_ifs <;> simp [ServerControl.emit, ServerEvent.announcement, ControlAction.increments,
      ControlAction.announcement?]
  | finishWait ec =>
    simp only [atomic, method, Method.atomic, Method.actions, decide, ServerControl.finishWait]
    split_ifs with h <;>
      simp [h, ServerControl.emit, ServerEvent.announcement, ControlAction.increments,
        ControlAction.announcement?]
  | stopRequested =>
    simp [atomic, method, Method.atomic, Method.actions, decide, ServerControl.stopRequested]

namespace SharedControl

variable {s t : SharedControl} {l : SharedLabel}

/-- The actions that all calls have left. -/
def remaining (s : SharedControl) : List ControlAction := s.cell.calls.flatMap (·.actions)

/-- The increments of the generation that are still to be made. -/
def increments (s : SharedControl) : ℕ := s.remaining.countP (·.increments)

/-- The events that were posted, and those that are still to be posted. -/
def announcements (s : SharedControl) : List (ServerEventType × ErrorCode) :=
  s.posted.map (·.announcement) ++ s.remaining.filterMap (·.announcement?)

/-- The functions that have taken effect, carried out one at a time. -/
def explanation (s : SharedControl) : ServerControl × List ControlResult :=
  sequential (ControlMethod.atomic []) {} (s.cell.log.map (·.method))

/-- A call that has other actions left than before changes what is left accordingly. -/
theorem remaining_set {k : ℕ}
    {call call' : SharedCall ControlMethod ServerState ControlResult ControlAction}
    (before after rest : List ControlAction) (hcall : s.cell.calls[k]? = some call)
    (hbefore : call.actions = before ++ rest) (hafter : call'.actions = after ++ rest)
    (ht : t.cell.calls = s.cell.calls.set k call') :
    (t.remaining ++ before).Perm (s.remaining ++ after) := by
  have hperm := flatMap_set_perm (·.actions) hcall call'
  rw [hbefore, hafter, ← List.append_assoc, ← List.append_assoc,
    List.perm_append_right_iff] at hperm
  rw [remaining, ht]
  exact hperm

/-- The explanation has the state and the results of the calls. -/
theorem explanation_eq (h : Linearized ControlMethod.method .idle s.cell) :
    s.explanation.1.state = s.cell.word ∧ s.explanation.2 = s.cell.log.map (·.result) := by
  have hproject := sequential_project (f := fun m : ControlMethod => m.method.atomic)
    (g := ControlMethod.atomic []) (·.state)
    (fun m c => ⟨(m.atomic_spec [] c).1, (m.atomic_spec [] c).2.1⟩) {} (s.cell.log.map (·.method))
  have hlegal := h.legal.symm.trans hproject
  exact ⟨(congrArg Prod.fst hlegal).symm, (congrArg Prod.snd hlegal).symm⟩

/-- What the concurrent calls do is explained by the functions carried out one at a time. -/
structure Explained (s : SharedControl) : Prop where
  linear : Linearized ControlMethod.method .idle s.cell
  generation : s.generation + s.increments = s.explanation.1.generation
  announcements : s.announcements.Perm (s.explanation.1.events.map (·.announcement))

/-- A step that takes effect nowhere keeps the explanation, if it only moves increments and posts
from what is left to what is done. -/
theorem Explained.unlogged (h : s.Explained)
    (hlinear : Linearized ControlMethod.method .idle t.cell) (hlog : t.cell.log = s.cell.log)
    (hgeneration : t.generation + t.increments = s.generation + s.increments)
    (hannouncements : t.announcements.Perm s.announcements) : t.Explained := by
  have hsame : t.explanation = s.explanation := by rw [explanation, hlog, explanation]
  exact ⟨hlinear, by rw [hgeneration, hsame, h.generation],
    by rw [hsame]; exact hannouncements.trans h.announcements⟩

/-- If no action is added or done, no announcement and no increment is. -/
theorem Explained.quiet (h : s.Explained) (hlinear : Linearized ControlMethod.method .idle t.cell)
    (hlog : t.cell.log = s.cell.log) (hgeneration : t.generation = s.generation)
    (hposted : t.posted = s.posted) (hremaining : t.remaining.Perm s.remaining) : t.Explained := by
  refine h.unlogged hlinear hlog ?_ ?_
  · rw [increments, increments, hgeneration, hremaining.countP_eq]
  · rw [SharedControl.announcements, SharedControl.announcements, hposted]
    exact (hremaining.filterMap _).append_left _

/-- A call that takes effect is carried out next. -/
theorem Explained.effect (h : s.Explained) {k : ℕ} {m : ControlMethod} {next : Access ServerState}
    (hcall : s.cell.calls[k]? = some ⟨m, .pending next⟩)
    (ht : t = { s with cell := s.cell.effect ControlMethod.method k m })
    (hlinear : Linearized ControlMethod.method .idle t.cell) : t.Explained := by
  obtain ⟨hstate, -⟩ := explanation_eq h.linear
  obtain ⟨-, -, hgeneration, hevents⟩ := m.atomic_spec [] s.explanation.1
  have hremaining : t.remaining.Perm (s.remaining ++ m.method.actions s.cell.word) := by
    have hperm := remaining_set (t := t) [] (m.method.actions s.cell.word) [] hcall rfl
      (List.append_nil _).symm (by rw [ht]; rfl)
    rwa [List.append_nil] at hperm
  have hnext : t.explanation.1 = (m.atomic [] s.explanation.1).2 := by
    simp only [explanation, ht, Cell.effect, List.map_append, List.map_singleton, sequential_concat]
  have hsame : t.generation = s.generation ∧ t.posted = s.posted := by simp [ht]
  rw [hstate] at hgeneration hevents
  refine ⟨hlinear, ?_, ?_⟩
  · rw [hnext, hgeneration, ← h.generation, increments, hremaining.countP_eq, List.countP_append,
      hsame.1, increments, Nat.add_assoc]
  · rw [hnext, hevents, SharedControl.announcements, hsame.2]
    refine ((hremaining.filterMap _).append_left _).trans ?_
    rw [List.filterMap_append, ← List.append_assoc]
    exact h.announcements.append_right _

/-- The action at the head of what a call has left belongs to a call that has taken effect. -/
theorem actions_cons {k : ℕ} {action : ControlAction} {rest : List ControlAction}
    (h : s.actions k = action :: rest) :
    ∃ m result, s.cell.calls[k]? = some ⟨m, .done result (action :: rest)⟩ := by
  unfold actions at h
  cases hk : s.cell.calls[k]? with
  | none => simp [hk] at h
  | some call =>
    obtain ⟨m, phase⟩ := call
    cases phase with
    | done result actions => exact ⟨m, result, by simpa [hk, SharedCall.actions] using h⟩
    | pending next => simp [hk, SharedCall.actions] at h
    | returned result => simp [hk, SharedCall.actions] at h

/-- An action makes the increment or the post it is for, or leaves it to another action. -/
theorem perform_spec (s : SharedControl) (listeners : List ListenerStatus)
    (action : ControlAction) :
    (s.perform listeners action).2.generation +
    (s.perform listeners action).1.countP (·.increments) =
        s.generation + [action].countP (·.increments) ∧
      (s.perform listeners action).2.posted.map
      (·.announcement) ++ (s.perform listeners action).1.filterMap (·.announcement?) =
        s.posted.map (·.announcement) ++ [action].filterMap (·.announcement?) := by
  cases action <;>
    simp [perform, ControlAction.increments, ControlAction.announcement?, ServerEvent.announcement]

/-- An action of a call moves an increment or a post from what is left to what is done. -/
theorem Explained.act (h : s.Explained) {k : ℕ} {listeners : List ListenerStatus}
    {action : ControlAction} {rest : List ControlAction} (hactions : s.actions k = action :: rest)
    (ht : t = { (s.perform listeners action).2 with
      cell := s.cell.resume k ((s.perform listeners action).1 ++ rest) }) :
    t.Explained := by
  obtain ⟨m, result, hcall⟩ := actions_cons hactions
  have hresume : t.cell = { s.cell with
      calls := s.cell.calls.set k ⟨m, .done result ((s.perform listeners action).1 ++ rest)⟩ } := by
    rw [ht]
    simp only [Cell.resume, hcall]
  have hlinear : Linearized ControlMethod.method .idle t.cell := by
    rw [ht]
    exact h.linear.resume k _
  have hremaining := remaining_set (t := t) [action] (s.perform listeners action).1 rest hcall rfl
    rfl (by rw [hresume])
  have hcount := hremaining.countP_eq (·.increments)
  have hposts := hremaining.filterMap (·.announcement?)
  have hsame : t.generation = (s.perform listeners action).2.generation ∧
      t.posted = (s.perform listeners action).2.posted := by
    simp [ht]
  obtain ⟨hgeneration, hposted⟩ := s.perform_spec listeners action
  rw [List.countP_append, List.countP_append] at hcount
  rw [List.filterMap_append, List.filterMap_append] at hposts
  refine h.unlogged hlinear (by rw [hresume]) ?_ ?_
  · rw [hsame.1, increments, increments]
    omega
  · rw [SharedControl.announcements, SharedControl.announcements, hsame.2]
    refine (List.perm_append_right_iff ([action].filterMap (·.announcement?))).mp ?_
    generalize (s.perform listeners action).2.posted.map (·.announcement) = posted at hposted ⊢
    generalize (s.perform listeners action).1.filterMap (·.announcement?) = more at hposted hposts
    generalize [action].filterMap (·.announcement?) = done at hposted hposts ⊢
    calc posted ++ t.remaining.filterMap (·.announcement?) ++ done
      _ = posted ++ (t.remaining.filterMap (·.announcement?) ++ done) := List.append_assoc _ _ _
      _ ~ posted ++ (s.remaining.filterMap (·.announcement?) ++ more) := hposts.append_left posted
      _ ~ posted ++ (more ++ s.remaining.filterMap (·.announcement?)) :=
        List.perm_append_comm.append_left posted
      _ = s.posted.map (·.announcement) ++ (done ++ s.remaining.filterMap (·.announcement?)) := by
        rw [← List.append_assoc, hposted, List.append_assoc]
      _ ~ s.posted.map (·.announcement) ++ (s.remaining.filterMap (·.announcement?) ++ done) :=
        List.perm_append_comm.append_left _
      _ = s.posted.map (·.announcement) ++ s.remaining.filterMap (·.announcement?) ++ done :=
        (List.append_assoc _ _ _).symm

/-- Nothing has happened at first. -/
theorem Explained.start : Explained {} := ⟨.start _, rfl, List.Perm.nil⟩

/-- Every step keeps the explanation. -/
theorem Explained.step (h : s.Explained) (hstep : s.step l = some t) : t.Explained := by
  cases l with
  | call m =>
    obtain rfl := Option.some.inj hstep
    exact h.quiet (h.linear.call m) rfl rfl rfl (by simp [remaining, Cell.call, SharedCall.actions])
  | access k fails =>
    obtain ⟨cell, haccess, rfl⟩ := Option.map_eq_some_iff.mp hstep
    have hcases := Cell.access_cases haccess
    have hlinear := h.linear.access hcases
    cases hcases with
    | effect hcall => exact h.effect hcall rfl hlinear
    | again hcall hbehind =>
      refine h.quiet hlinear rfl rfl rfl ?_
      simpa using remaining_set (s := s) [] [] [] hcall rfl rfl rfl
  | act k listeners =>
    unfold SharedControl.step at hstep
    cases hactions : s.actions k with
    | nil => simp [hactions] at hstep
    | cons action rest =>
      simp only [hactions, Option.some.injEq] at hstep
      exact h.act hactions hstep.symm
  | ret k =>
    obtain ⟨cell, hret, rfl⟩ := Option.map_eq_some_iff.mp hstep
    have hlinear := h.linear.ret hret
    unfold Cell.ret at hret
    split at hret
    · rename_i hcall
      obtain rfl := Option.some.inj hret
      refine h.quiet hlinear rfl rfl rfl ?_
      simpa using remaining_set (s := s) [] [] [] hcall rfl rfl rfl
    · contradiction

/-- A step takes no call and no effect back. -/
theorem step_grows (hstep : s.step l = some t) : s.cell.Grows t.cell := by
  cases l with
  | call m =>
    obtain rfl := Option.some.inj hstep
    exact .call m
  | access k fails =>
    obtain ⟨cell, haccess, rfl⟩ := Option.map_eq_some_iff.mp hstep
    exact .access (Cell.access_cases haccess)
  | act k listeners =>
    unfold SharedControl.step at hstep
    cases hactions : s.actions k with
    | nil => simp [hactions] at hstep
    | cons action rest =>
      simp only [hactions, Option.some.injEq] at hstep
      rw [← hstep]
      exact .resume _
  | ret k =>
    obtain ⟨cell, hret, rfl⟩ := Option.map_eq_some_iff.mp hstep
    exact .ret hret

end SharedControl

/-- The functions of `server_control` take effect in one step. After every run of concurrent calls
there is an order of the calls that have taken effect such that the functions, carried out one at a
time in that order, end in the same state, return the same results and begin as many generations,
and the events have the same types and errors as theirs, each as often as there but not necessarily
in that order or with the same snapshots, counting the increments and the posts that calls still
have before them. The order holds each call that has taken effect once, and a call that takes effect
later was not finished before. -/
theorem control_linearizable {ls : List SharedLabel} {s : SharedControl}
    (hrun : run SharedControl.step {} ls = some s) :
    ∃ c, sequential (ControlMethod.atomic []) {} (s.cell.log.map (·.method)) =
      (c, s.cell.log.map (·.result)) ∧
      s.cell.word = c.state ∧ s.generation + s.increments = c.generation ∧
      s.announcements.Perm (c.events.map (·.announcement)) ∧
      (∀ k call, s.cell.calls[k]? = some call →
        s.cell.log.filter (fun e => e.key = k) = call.entries k) ∧
      ∀ ms t, run SharedControl.step s ms = some t → ∃ later, t.cell.log = s.cell.log ++ later ∧
        ∀ e ∈ later, ∀ call, s.cell.calls[e.key]? = some call →
        ∃ next, call.phase = .pending next := by
  have hexplained : s.Explained :=
    run_invariant SharedControl.Explained (fun _ _ _ h hstep => h.step hstep) .start hrun
  obtain ⟨hstate, hresults⟩ := SharedControl.explanation_eq hexplained.linear
  refine ⟨s.explanation.1, Prod.ext rfl hresults, hstate.symm, hexplained.generation,
    hexplained.announcements, hexplained.linear.entries, fun ms t hlater => ?_⟩
  have hgrows : s.cell.Grows t.cell ∧ t.Explained :=
    run_invariant (fun u => s.cell.Grows u.cell ∧ u.Explained)
    (fun _ _ _ h hstep => ⟨h.1.trans (SharedControl.step_grows hstep), h.2.step hstep⟩)
      ⟨.refl _, hexplained⟩ hlater
  exact hexplained.linear.later hgrows.2.linear hgrows.1

/-- A start exchanges the state, and before it has counted its generation a stop, which had read the
state before, fails once and then exchanges it. -/
def overtakenStop : List SharedLabel :=
  [.call .beginStart, .call .requestStop, .access 0 false, .access 1 false, .access 0 false,
    .access 1 false, .access 1 false]

/-- In that run the calls have taken effect in the order in which they were made, and the generation
is still to be counted. -/
theorem control_linearizable_overtakenStop : ∃ (s : SharedControl) (c : ServerControl),
    run SharedControl.step {} overtakenStop = some s ∧ s.generation = 0 ∧
    s.increments = 1 ∧ s.posted = [] ∧
      s.cell.log.map (·.method) = [.beginStart, .requestStop] ∧ s.cell.word = .stopping ∧
      c.state = .stopping ∧
      c.generation = 1 ∧ s.announcements.Perm (c.events.map (·.announcement)) := by
  have h : run SharedControl.step {} overtakenStop = some _ := rfl
  obtain ⟨c, -, hstate, hgeneration, hannouncements, -⟩ := control_linearizable h
  exact ⟨_, c, h, rfl, rfl, rfl, rfl, rfl, hstate.symm, hgeneration.symm, hannouncements⟩

end Serveza
