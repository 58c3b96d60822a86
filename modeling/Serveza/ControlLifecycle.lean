import Serveza.ControlAlone
import Serveza.ControlEvents

/-!
# The lifecycle that the events of `server_control` tell

However the accesses of concurrent calls interleave, the state of a server is the last of a lawful
sequence of changes, its generation counts the starts of that sequence, and the types and errors of
the events are those of the sequence. The events need not be posted in the order of the changes, and
their snapshots may show a later state or an earlier generation: a start that has exchanged the
state may be overtaken by a stop before it counts the generation. If no call comes to the state
between the exchange of another and its post, then the events themselves are a lawful sequence.

Accesses are sequentially consistent here, and posting an event does not fail; weaker memory orders
and a post that runs out of memory are not covered.
-/

namespace Serveza

open Foundation

/-- What a call has left of announcing a change: to count the generation of a start, to load the
state and the generation, and to post the event. -/
inductive Announcing (c : ServerControl) (type : ServerEventType) (ec : ErrorCode) :
    ServerControl → List ControlAction → Prop where
  | counting (htype : type = .starting) :
    Announcing c type ec { c with state := type.state } [.addGeneration, .loadState type ec]
  | loading : Announcing c type ec (c.changed type) [.loadState type ec]
  | reading : Announcing c type ec (c.changed type) [.loadGeneration type ec type.state]
  | posting : Announcing c type ec (c.changed type)
    [.post type ec type.state (c.changed type).generation]

/-- A function that takes effect leaves the state as it is and has nothing left to do, or begins to
announce a permitted change. -/
theorem ControlMethod.announcing (m : ControlMethod) (c : ServerControl) :
    ((m.method.atomic c.state).2 = c.state ∧ m.method.actions c.state = []) ∨
      ∃ type ec, c.state.Permits type ∧
        Announcing c type ec { c with state := (m.method.atomic c.state).2 }
          (m.method.actions c.state) := by
  cases m with
  | beginStart =>
    simp only [method, Method.atomic, Method.actions, decide]
    split_ifs with hjoins hstopping
    · exact .inl ⟨rfl, rfl⟩
    · exact .inl ⟨rfl, rfl⟩
    · refine .inr ⟨.starting, .success, ?_, .counting rfl⟩
      cases hstate : c.state <;> simp_all [ServerState.Permits]
  | finishStart ec =>
    simp only [method, Method.atomic, Method.actions, decide]
    split_ifs with hfailed hhalted hstarting hrunning
    · exact .inl ⟨rfl, rfl⟩
    · exact .inr ⟨.stopping, ec, hhalted, .loading⟩
    · exact .inr ⟨.running, .success, hstarting, .loading⟩
    · exact .inl ⟨rfl, rfl⟩
    · exact .inl ⟨rfl, rfl⟩
  | requestStop =>
    simp only [method, Method.atomic, Method.actions, decide]
    split_ifs with hhalted
    · exact .inl ⟨rfl, rfl⟩
    · exact .inr ⟨.stopping, .success, hhalted, .loading⟩
  | finishWait ec =>
    simp only [method, Method.atomic, Method.actions, decide]
    split_ifs with hstopped
    · exact .inl ⟨rfl, rfl⟩
    · exact .inr ⟨.stopped, ec, hstopped, .loading⟩
  | stopRequested => exact .inl ⟨rfl, rfl⟩

/-- What is left of announcing a change announces it, if nobody disturbs it. -/
theorem Announcing.finishActions {c v : ServerControl} {type : ServerEventType} {ec : ErrorCode}
    {actions : List ControlAction} (h : Announcing c type ec v actions)
    (listeners : List ListenerStatus) :
    v.finishActions listeners actions = c.announce listeners type ec := by
  cases h with
  | counting htype =>
    subst htype
    rfl
  | loading => rfl
  | reading => rfl
  | posting => rfl

/-- A function that is carried out in one step announces at most one permitted change. -/
theorem ControlMethod.atomic_told {c : ServerControl} (h : c.Told) (listeners : List ListenerStatus)
    (m : ControlMethod) : (m.atomic listeners c).2.Told := by
  rw [m.atomic_eq listeners c]
  rcases m.announcing c with ⟨hstate, hactions⟩ | ⟨type, ec, hpermits, hannouncing⟩
  · rw [hstate, hactions]
    exact h
  · rw [hannouncing.finishActions listeners]
    exact h.announce hpermits listeners ec

/-- Functions carried out one at a time announce permitted changes. -/
theorem sequential_told (ms : List ControlMethod) :
    (sequential (ControlMethod.atomic []) {} ms).1.Told := by
  induction ms using List.reverseRecOn with
  | nil => exact ⟨logged_nil, rfl, rfl⟩
  | append_singleton ms m ih =>
    rw [sequential_concat]
    exact ControlMethod.atomic_told ih [] m

namespace SharedControl

variable {s t : SharedControl} {l : SharedLabel} {k : ℕ} {c : ServerControl}
  {type : ServerEventType} {ec : ErrorCode}

/-- No call comes to the state while another has exchanged it and has not posted its event. -/
def undisturbed (s : SharedControl) : SharedLabel → Bool
  | .access _ _ => s.remaining.isEmpty
  | _ => true

/-- Nothing is left to announce, and the events agree with the word and the generation; or one call
has a permitted change left to announce. -/
inductive Tells (s : SharedControl) : Prop where
  | told (h : s.view.Told) (hnone : ∀ j, s.actions j = []) : Tells s
  | announcing {c v : ServerControl} {type : ServerEventType} {ec : ErrorCode} (k : ℕ)
    {actions : List ControlAction} (h : c.Told) (hpermits : c.state.Permits type)
    (hview : s.view = v) (hactions : s.actions k = actions)
    (hannouncing : Announcing c type ec v actions) (hnone : ∀ j, j ≠ k → s.actions j = []) : Tells s

/-- Only the actions of a call that has changed are others than before. -/
theorem actions_set {call : SharedCall ControlMethod ServerState ControlResult ControlAction}
    (hk : k < s.cell.calls.length) (ht : t.cell.calls = s.cell.calls.set k call) (j : ℕ) :
    t.actions j = if j = k then call.actions else s.actions j := by
  split_ifs with hj
  · rw [hj, actions, ht, List.getElem?_set_self hk]
    rfl
  · rw [actions, ht, List.getElem?_set_ne (Ne.symm hj), actions]

/-- An action brings a change nearer to its announcement. -/
theorem perform_announcing {v : ServerControl} {action : ControlAction} {rest : List ControlAction}
    (h : Announcing c type ec v (action :: rest)) (hview : s.view = v)
    (listeners : List ListenerStatus) :
    ((s.perform listeners action).1 ++ rest = [] ∧
        (s.perform listeners action).2.view = c.announce listeners type ec) ∨
      Announcing c type ec (s.perform listeners action).2.view
        ((s.perform listeners action).1 ++ rest) := by
  cases h with
  | counting htype =>
    refine .inr ?_
    have hnext : (s.perform listeners .addGeneration).2.view = c.changed type := by
      change { s.view with generation := s.view.generation + 1 } = _
      rw [hview, ServerControl.changed, if_pos htype]
    rw [hnext]
    exact .loading
  | loading =>
    refine .inr ?_
    change Announcing c type ec s.view [.loadGeneration type ec s.view.state]
    rw [hview]
    exact .reading
  | reading =>
    refine .inr ?_
    change Announcing c type ec s.view [.post type ec type.state s.view.generation]
    rw [hview]
    exact .posting
  | posting =>
    refine .inl ⟨rfl, ?_⟩
    change ServerControl.mk s.view.state s.view.generation (s.view.events ++ _) = _
    rw [hview]
    rfl

/-- If nothing is left to do, no call has anything left to do. -/
theorem actions_of_remaining (h : s.remaining = []) (j : ℕ) : s.actions j = [] := by
  unfold actions
  cases hcall : s.cell.calls[j]? with
  | none => rfl
  | some call => exact List.flatMap_eq_nil_iff.mp h call (List.mem_of_getElem? hcall)

/-- A step that changes neither the view nor what is left to do keeps the events in agreement. -/
theorem Tells.same (h : s.Tells) (hview : t.view = s.view)
    (hactions : ∀ j, t.actions j = s.actions j) :
    t.Tells := by
  cases h with
  | told h hnone => exact .told (hview ▸ h) fun j => (hactions j).trans (hnone j)
  | announcing k h hpermits hold hleft hannouncing hnone =>
    exact .announcing k h hpermits (hview.trans hold) ((hactions k).trans hleft) hannouncing
      fun j hj => (hactions j).trans (hnone j hj)

/-- If a call changes that has nothing left to do before or after, what is left is the same. -/
theorem actions_same {call call' : SharedCall ControlMethod ServerState ControlResult ControlAction}
    (hcall : s.cell.calls[k]? = some call) (hbefore : call.actions = [])
    (hafter : call'.actions = []) (ht : t.cell.calls = s.cell.calls.set k call') (j : ℕ) :
    t.actions j = s.actions j := by
  rw [actions_set (List.getElem?_eq_some_iff.mp hcall).1 ht]
  split_ifs with hj
  · rw [hafter, hj, actions, hcall]
    exact hbefore.symm
  · rfl

/-- The actions of a call. -/
theorem actions_eq {call : SharedCall ControlMethod ServerState ControlResult ControlAction}
    (hcall : s.cell.calls[k]? = some call) : s.actions k = call.actions := by
  rw [actions, hcall]
  rfl

/-- While no call has anything left to do, the events agree with the word. -/
theorem Tells.of_idle (h : s.Tells) (hnone : ∀ j, s.actions j = []) : s.view.Told := by
  cases h with
  | told h hnone => exact h
  | announcing k h hpermits hold hleft hannouncing =>
    cases hannouncing <;> simp [hnone k] at hleft

/-- A change of the word, made while no call has anything left to do, is one to be announced. -/
theorem Tells.effect {m : ControlMethod} (h : s.Tells) (hlt : k < s.cell.calls.length)
    (hnone : ∀ j, s.actions j = []) :
    Tells { s with cell := s.cell.effect ControlMethod.method k m } := by
  have htold := h.of_idle hnone
  have hafter :=
    actions_set (t := { s with cell := s.cell.effect ControlMethod.method k m }) hlt rfl
  rcases m.announcing s.view with ⟨hstate, hactions⟩ | ⟨type, ec, hpermits, hannouncing⟩
  · refine .told ?_ fun j => ?_
    · change ServerControl.Told { s.view with state := (m.method.atomic s.view.state).2 }
      rwa [hstate]
    · rw [hafter]
      split_ifs
      · exact hactions
      · exact hnone j
  · exact .announcing k htold hpermits rfl ((hafter k).trans (if_pos rfl)) hannouncing
      fun j hj => (hafter j).trans ((if_neg hj).trans (hnone j))

/-- An action of a call is one of the call that announces a change. -/
theorem Tells.act {listeners : List ListenerStatus} (h : s.Tells)
    (hstep : s.step (.act k listeners) = some t) : t.Tells := by
  obtain ⟨m, result, action, rest, hdone, hview, hcalls⟩ := act_cases hstep
  have hafter := actions_set (List.getElem?_eq_some_iff.mp hdone).1 hcalls
  have hbefore : s.actions k = action :: rest := actions_eq hdone
  cases h with
  | told h hnone => simp [hnone k] at hbefore
  | announcing j h hpermits hold hleft hannouncing hnone =>
    obtain rfl : k = j := by
      by_contra hne
      simp [hnone k hne] at hbefore
    obtain rfl := hleft.symm.trans hbefore
    have hothers (j : ℕ) (hj : j ≠ k) : t.actions j = [] :=
      (hafter j).trans ((if_neg hj).trans (hnone j hj))
    rcases perform_announcing hannouncing hold listeners with ⟨hrest, hposted⟩ | hnext
    · refine .told ?_ fun j => ?_
      · rw [hview, hposted]
        exact h.announce hpermits listeners _
      · by_cases hj : j = k
        · exact (hafter j).trans ((if_pos hj).trans hrest)
        · exact hothers j hj
    · exact .announcing k h hpermits hview ((hafter k).trans (if_pos rfl)) hnext hothers

/-- Every undisturbed step keeps the events in agreement with the word. -/
theorem Tells.step (h : s.Tells) (hl : s.undisturbed l = true) (hstep : s.step l = some t) :
    t.Tells := by
  cases l with
  | call m =>
    obtain rfl := Option.some.inj hstep
    refine h.same rfl fun j => ?_
    simp only [actions, Cell.call, List.getElem?_append]
    split_ifs with hj
    · rfl
    · rw [List.getElem?_eq_none (not_lt.mp hj)]
      cases hnew : j - s.cell.calls.length <;> simp [SharedCall.actions]
  | access k fails =>
    obtain ⟨cell, haccess, rfl⟩ := Option.map_eq_some_iff.mp hstep
    cases Cell.access_cases haccess with
    | effect hpending =>
      exact h.effect (List.getElem?_eq_some_iff.mp hpending).1
        (actions_of_remaining (List.isEmpty_iff.mp hl))
    | again hpending hbehind => exact h.same rfl (actions_same hpending rfl rfl rfl)
  | act k listeners => exact h.act hstep
  | ret k =>
    obtain ⟨cell, hret, rfl⟩ := Option.map_eq_some_iff.mp hstep
    unfold Cell.ret at hret
    split at hret
    · rename_i hdone
      obtain rfl := Option.some.inj hret
      exact h.same rfl (actions_same hdone rfl rfl rfl)
    · contradiction

/-- The events that have been posted are lawful while another is still to be posted. -/
theorem Tells.lawful (h : s.Tells) : Logged ServerEvent.Lawful s.posted := by
  cases h with
  | told h hnone => exact h.lawful
  | announcing k h hpermits hold hleft hannouncing hnone =>
    have hposted : s.posted = _ := congrArg ServerControl.events hold
    rw [hposted]
    cases hannouncing <;> exact h.lawful

end SharedControl

/-- In every run of concurrent calls the state is the one that a lawful sequence of changes ends in,
namely that of the functions carried out one at a time in the order in which they took effect; the
generation is the number of starts in it, and the types and errors of the events are those of the
sequence, counting the increments and the posts that calls still have before them. If no call comes
to the state between the exchange of another and its post, the events posted are themselves lawful:
each is permitted by those before it, shows the state that it announces and the number of starts up
to it, and calls the server ready only if it runs with all its listeners; and when nothing is left
to post, they end in the state and count the generation. -/
theorem control_lifecycle {ls : List SharedLabel} {s : SharedControl}
    (hrun : run SharedControl.step {} ls = some s) :
    (s.explanation.1.Told ∧ s.cell.word = stateTold s.explanation.1.events ∧
      s.generation + s.increments = startsTold s.explanation.1.events ∧
      s.announcements.Perm (s.explanation.1.events.map (·.announcement))) ∧
    (Along SharedControl.step (fun s l => s.undisturbed l = true) {} ls →
      Logged ServerEvent.Lawful s.posted ∧
        (s.remaining = [] → s.cell.word = stateTold s.posted ∧
          s.generation = startsTold s.posted)) := by
  refine ⟨?_, fun halong => ?_⟩
  · have hexplained : s.Explained :=
      run_invariant SharedControl.Explained (fun _ _ _ h hstep => h.step hstep) .start hrun
    have htold : s.explanation.1.Told := sequential_told _
    have hstate := (SharedControl.explanation_eq hexplained.linear).1
    exact ⟨htold, hstate.symm.trans htold.state, hexplained.generation.trans htold.generation,
      hexplained.announcements⟩
  · have htells : s.Tells :=
      run_invariant_along SharedControl.Tells (fun _ _ _ h hl hstep => h.step hl hstep)
      (.told ⟨logged_nil, rfl, rfl⟩ fun _ => rfl) halong hrun
    refine ⟨htells.lawful, fun hnone => ?_⟩
    cases htells with
    | told h _ => exact ⟨h.state, h.generation⟩
    | announcing k h hpermits hold hleft hannouncing =>
      cases hannouncing <;> simp [SharedControl.actions_of_remaining hnone k] at hleft

/-- A start that a stop overtakes before it has counted its generation, with what both have left. -/
def overtakenAnnouncements : List SharedLabel :=
  overtakenStop ++ [.act 1 [], .act 1 [], .act 1 []] ++ List.replicate 4 (.act 0 [])

/-- A start, and then a stop. -/
def startThenStop : List SharedLabel :=
  .call .beginStart :: undisturbedStart ++
    [.call .requestStop, .access 1 false, .access 1 false, .act 1 [], .act 1 [], .act 1 [], .ret 1]

/-- The events of a start and a later stop are lawful. A stop that overtakes a start posts its event
first and with the generation before the start, whose event then shows the state of the stop. -/
theorem control_lifecycle_stop :
    (∃ s, run SharedControl.step {} startThenStop = some s ∧ Logged ServerEvent.Lawful s.posted ∧
      s.posted.map (fun e => (e.type, e.status.state, e.status.generation)) =
        [(.starting, .starting, 1), (.stopping, .stopping, 1)] ∧ s.cell.word = stateTold s.posted) ∧
    ∃ s, run SharedControl.step {} overtakenAnnouncements = some s ∧
      s.cell.word = stateTold s.explanation.1.events ∧
      s.posted.map (fun e => (e.type, e.status.state, e.status.generation)) =
        [(.stopping, .stopping, 0), (.starting, .stopping, 1)] := by
  have hapart : run SharedControl.step {} startThenStop = some _ := rfl
  have hovertaken : run SharedControl.step {} overtakenAnnouncements = some _ := rfl
  have htold := (control_lifecycle hapart).2 (by decide)
  exact ⟨⟨_, hapart, htold.1, rfl, (htold.2 rfl).1⟩, _, hovertaken,
    (control_lifecycle hovertaken).1.2.1, rfl⟩

end Serveza
