import Serveza.ControlLinear

/-!
# A call of `server_control` that nobody disturbs

If the other threads take no step between a call and its return, then the call does exactly what
its function does in one step: the state, the generation and the events, with the snapshots they
carry, are those of the function.
-/

namespace Serveza

open Foundation

/-- What actions come to if nobody disturbs them. -/
def ServerControl.finishActions (listeners : List ListenerStatus) :
    List ControlAction → ServerControl → ServerControl
  | [], c => c
  | .addGeneration :: rest, c =>
    finishActions listeners rest { c with generation := c.generation + 1 }
  | .loadState type ec :: rest, c => finishActions listeners rest (c.emit listeners ec type)
  | .loadGeneration type ec state :: rest, c => finishActions listeners rest
    { c with events := c.events ++ [⟨type,
      ServerControl.status ⟨state, c.generation, []⟩ listeners, ec⟩] }
  | .post type ec state generation :: rest, c => finishActions listeners rest
    { c with events := c.events ++ [⟨type,
      ServerControl.status ⟨state, generation, []⟩ listeners, ec⟩] }

/-- A function is its exchange followed by its actions. -/
theorem ControlMethod.atomic_eq (listeners : List ListenerStatus) (m : ControlMethod)
    (c : ServerControl) :
    m.atomic listeners c = ((m.method.atomic c.state).1,
      ServerControl.finishActions listeners (m.method.actions c.state) { c with
      state := (m.method.atomic c.state).2 }) := by
  cases m with
  | beginStart =>
    simp only [atomic, method, Method.atomic, Method.actions, decide, ServerControl.beginStart]
    split_ifs <;> simp [ServerControl.finishActions]
  | finishStart ec =>
    simp only [atomic, method, Method.atomic, Method.actions, decide, ServerControl.finishStart]
    split_ifs <;> simp [ServerControl.finishActions]
  | requestStop =>
    simp only [atomic, method, Method.atomic, Method.actions, decide, ServerControl.requestStop]
    split_ifs <;> simp [ServerControl.finishActions]
  | finishWait ec =>
    simp only [atomic, method, Method.atomic, Method.actions, decide, ServerControl.finishWait]
    split_ifs <;> simp [ServerControl.finishActions]
  | stopRequested =>
    simp [atomic, method, Method.atomic, Method.actions, decide, ServerControl.stopRequested,
        ServerControl.finishActions]

/-- The step is one of a given call, with given statuses of the listeners. -/
def SharedLabel.isOf (k : ℕ) (listeners : List ListenerStatus) : SharedLabel → Bool
  | .call _ => false
  | .access j _ => j = k
  | .act j statuses => j = k && statuses = listeners
  | .ret j => j = k

namespace SharedControl

variable {s t : SharedControl} {l : SharedLabel} {k : ℕ} {m : ControlMethod}
  {listeners : List ListenerStatus} {outcome : ControlResult × ServerControl}

/-- The state, the generation and the events. -/
def view (s : SharedControl) : ServerControl := ⟨s.cell.word, s.generation, s.posted⟩

/-- The result and the state that a call comes to if nobody disturbs it. -/
def outlook (s : SharedControl) (m : ControlMethod) (listeners : List ListenerStatus) :
    Phase ServerState ControlResult ControlAction → ControlResult × ServerControl
  | .pending _ => m.atomic listeners s.view
  | .done result actions => (result, ServerControl.finishActions listeners actions s.view)
  | .returned result => (result, s.view)

/-- A call is on its way to an outcome. -/
def Leads (k : ℕ) (m : ControlMethod) (listeners : List ListenerStatus)
    (outcome : ControlResult × ServerControl) (s : SharedControl) : Prop :=
  ∃ phase, s.cell.calls[k]? = some ⟨m, phase⟩ ∧ s.outlook m listeners phase = outcome

/-- An action of a call changes what its function is left with, and the view as it says. -/
theorem act_cases (hstep : s.step (.act k listeners) = some t) :
    ∃ m result action rest, s.cell.calls[k]? = some ⟨m, .done result (action :: rest)⟩ ∧
      t.view = (s.perform listeners action).2.view ∧
      t.cell.calls = s.cell.calls.set k
        ⟨m, .done result ((s.perform listeners action).1 ++ rest)⟩ := by
  unfold SharedControl.step at hstep
  cases hactions : s.actions k with
  | nil => simp [hactions] at hstep
  | cons action rest =>
    simp only [hactions, Option.some.injEq] at hstep
    obtain ⟨m, result, hcall⟩ := actions_cons hactions
    refine ⟨m, result, action, rest, hcall, ?_, ?_⟩
    · rw [← hstep]
      cases action <;> simp [view, Cell.resume, hcall, perform]
    · rw [← hstep]
      simp only [Cell.resume, hcall]

/-- An action leads on. -/
theorem finishActions_perform (s : SharedControl) (action : ControlAction)
    (rest : List ControlAction) :
    ServerControl.finishActions listeners ((s.perform listeners action).1 ++ rest)
      (s.perform listeners action).2.view =
      ServerControl.finishActions listeners (action :: rest) s.view := by
  cases action <;> rfl

/-- The call's own steps lead on. -/
theorem Leads.step (h : s.Leads k m listeners outcome) (hl : l.isOf k listeners = true)
    (hstep : s.step l = some t) :
    t.Leads k m listeners outcome := by
  obtain ⟨phase, hcall, hphase⟩ := h
  obtain ⟨hlt, -⟩ := List.getElem?_eq_some_iff.mp hcall
  cases l with
  | call m => contradiction
  | access j fails =>
    obtain rfl : j = k := by simpa [SharedLabel.isOf] using hl
    obtain ⟨cell, haccess, rfl⟩ := Option.map_eq_some_iff.mp hstep
    cases Cell.access_cases haccess with
    | @effect m' next hpending =>
      obtain ⟨rfl, rfl⟩ : m' = m ∧ .pending next = phase := by simpa [hcall, eq_comm] using hpending
      exact ⟨_, List.getElem?_set_self hlt, (m'.atomic_eq listeners s.view).symm.trans hphase⟩
    | @again m' next hpending hbehind =>
      obtain ⟨rfl, rfl⟩ : m' = m ∧ .pending next = phase := by simpa [hcall, eq_comm] using hpending
      exact ⟨_, List.getElem?_set_self hlt, hphase⟩
  | act j statuses =>
    obtain ⟨rfl, rfl⟩ : j = k ∧ statuses = listeners := by simpa [SharedLabel.isOf] using hl
    obtain ⟨m', result, action, rest, hdone, hview, hcalls⟩ := act_cases hstep
    obtain ⟨rfl, rfl⟩ : m' = m ∧ .done result (action :: rest) = phase := by
      simpa [hcall, eq_comm] using hdone
    refine ⟨.done result ((s.perform statuses action).1 ++ rest), ?_, ?_⟩
    · rw [hcalls]
      exact List.getElem?_set_self hlt
    · rw [outlook, hview, finishActions_perform]
      exact hphase
  | ret j =>
    obtain rfl : j = k := by simpa [SharedLabel.isOf] using hl
    obtain ⟨cell, hret, rfl⟩ := Option.map_eq_some_iff.mp hstep
    unfold Cell.ret at hret
    split at hret
    · rename_i m' result hdone
      obtain rfl := Option.some.inj hret
      obtain ⟨rfl, rfl⟩ : m' = m ∧ .done result [] = phase := by simpa [hcall, eq_comm] using hdone
      exact ⟨.returned result, List.getElem?_set_self hlt, hphase⟩
    · contradiction

end SharedControl

/-- A call that nobody disturbs does what its function does in one step. Whatever other calls are in
progress, if only the call's own steps are taken until it returns, then the state, the generation,
the events with their snapshots, and the result are those of the function. -/
theorem control_undisturbed (s : SharedControl) (m : ControlMethod)
    (listeners : List ListenerStatus) {ls : List SharedLabel} {t : SharedControl}
    {call : SharedCall ControlMethod ServerState ControlResult ControlAction}
    {result : ControlResult} (hrun : run SharedControl.step s (.call m :: ls) = some t)
    (hls : ∀ l ∈ ls, l.isOf s.cell.calls.length listeners = true)
    (hcall : t.cell.calls[s.cell.calls.length]? = some call)
    (hreturned : call.phase = .returned result) :
    m.atomic listeners s.view = (result, t.view) := by
  obtain ⟨u, hu, hrest⟩ := run_cons.mp hrun
  have hfirst : u.Leads s.cell.calls.length m listeners (m.atomic listeners s.view) := by
    obtain rfl := Option.some.inj hu
    exact ⟨.pending m.first, by simp [Cell.call, ControlMethod.method], rfl⟩
  obtain ⟨phase, hlast, hphase⟩ :=
    run_invariant_along (P := fun _ l => l.isOf s.cell.calls.length listeners = true)
    (SharedControl.Leads s.cell.calls.length m listeners (m.atomic listeners s.view))
    (fun _ _ _ h hl hstep => h.step hl hstep) hfirst (along_of_labels hls) hrest
  obtain rfl : call = ⟨m, phase⟩ := Option.some.inj (hcall.symm.trans hlast)
  obtain rfl : phase = .returned result := hreturned
  exact hphase.symm

/-- A start whose first exchange fails for no reason, and which nobody disturbs. -/
def undisturbedStart : List SharedLabel :=
  [.access 0 false, .access 0 true, .access 0 false, .act 0 [], .act 0 [],
    .act 0 [], .act 0 [], .ret 0]

/-- That start does what `begin_start` does in one step. -/
theorem control_undisturbed_start : ∃ t : SharedControl,
    run SharedControl.step {} (.call .beginStart :: undisturbedStart) = some t ∧ t.generation = 1 ∧
    t.posted.length = 1 ∧
      ControlMethod.beginStart.atomic [] {} = (.flag true, t.view) := by
  have h : run SharedControl.step {} (.call .beginStart :: undisturbedStart) = some _ := rfl
  exact ⟨_, h, rfl, rfl, control_undisturbed {} .beginStart [] h (by decide) rfl rfl⟩

end Serveza
