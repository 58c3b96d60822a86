import Serveza.ControlLinear

/-!
# The calls of `server_control` return

The functions of `server_control` retry their exchanges without a bound of their own. But an
exchange that fails has been overtaken by one that took effect, unless it failed for no reason.
So without new calls the accesses are bounded, whatever the order in which the threads run, and
when no call can go on any more all have returned, the generation counts the starts and every
change has been announced.
-/

namespace Serveza

open Foundation

/-- How many steps an action takes. -/
def ControlAction.work : ControlAction → ℕ
  | .addGeneration => 1
  | .loadState _ _ => 3
  | .loadGeneration _ _ _ => 2
  | .post _ _ _ _ => 1

/-- How many steps a call may take besides its accesses to the state. -/
def controlWork (call : SharedCall ControlMethod ServerState ControlResult ControlAction) : ℕ :=
  match call.phase with
  | .pending _ => 5
  | .done _ actions => (actions.map (·.work)).sum + 1
  | .returned _ => 0

/-- No function does more than four steps after its exchange. -/
theorem ControlMethod.actions_work (m : ControlMethod) (state : ServerState) :
    ((m.method.actions state).map (·.work)).sum ≤ 4 := by
  cases m with
  | stopRequested => simp [method, Method.actions, decide]
  | _ =>
    simp only [method, Method.actions, decide]
    split_ifs <;> simp [ControlAction.work]

/-- The step is a new call. -/
def SharedLabel.isCall : SharedLabel → Bool
  | .call _ => true
  | _ => false

/-- The step is not a comparison that fails for no reason. -/
def SharedLabel.advances : SharedLabel → Bool
  | .access _ fails => !fails
  | _ => true

namespace SharedControl

variable {s t : SharedControl} {l : SharedLabel}

/-- A bound on the steps the calls in progress may take. -/
def work (s : SharedControl) : ℕ := s.cell.contention + (s.cell.calls.map controlWork).sum

/-- What a call that has taken effect does next leaves it less to do. -/
theorem work_settled {k : ℕ}
    {call : SharedCall ControlMethod ServerState ControlResult ControlAction}
    (call' : SharedCall ControlMethod ServerState ControlResult ControlAction)
    (hcall : s.cell.calls[k]? = some call) (hbefore : Cell.outstanding call = 0)
    (hafter : Cell.outstanding call' = 0) (hless : controlWork call' < controlWork call)
    (ht : t.cell = { s.cell with calls := s.cell.calls.set k call' }) :
    t.work + 1 ≤ s.work := by
  have hsum := sum_map_set controlWork hcall call'
  have hsame := Cell.contention_settled hcall hbefore hafter
  simp only [work, ht, hsame]
  omega

/-- Without a new call no step leaves more to do, and one that does not fail for no reason leaves
less. -/
theorem step_work (hstep : s.step l = some t) (hl : l.isCall = false) :
    t.work + (if l.advances then 1 else 0) ≤ s.work := by
  cases l with
  | call m => contradiction
  | access k fails =>
    obtain ⟨cell, haccess, rfl⟩ := Option.map_eq_some_iff.mp hstep
    have hless := Cell.contention_access haccess
    have hsum : (cell.calls.map controlWork).sum ≤ (s.cell.calls.map controlWork).sum := by
      cases Cell.access_cases haccess with
      | @effect m next hcall =>
        have hset := sum_map_set controlWork hcall
          ⟨m, .done (m.method.atomic s.cell.word).1 (m.method.actions s.cell.word)⟩
        have hbound := m.actions_work s.cell.word
        simp only [controlWork] at hset
        simp only [Cell.effect]
        omega
      | @again m next hcall hbehind =>
        exact (Nat.add_right_cancel
          (sum_map_set controlWork hcall ⟨m, .pending (.compare s.cell.word)⟩)).le
    simp only [work, SharedLabel.advances]
    cases fails <;>
      simp only [Bool.not_true, Bool.not_false, Bool.false_eq_true, if_true, if_false]
        at hless ⊢ <;>
      omega
  | act k listeners =>
    unfold step at hstep
    cases hactions : s.actions k with
    | nil => simp [hactions] at hstep
    | cons action rest =>
      simp only [hactions, Option.some.injEq] at hstep
      obtain ⟨m, result, hcall⟩ := actions_cons hactions
      refine work_settled ⟨m, .done result ((s.perform listeners action).1 ++ rest)⟩ hcall rfl rfl
        ?_ ?_
      · cases action <;> simp [controlWork, perform, ControlAction.work]
      · rw [← hstep]
        simp only [Cell.resume, hcall]
  | ret k =>
    obtain ⟨cell, hret, rfl⟩ := Option.map_eq_some_iff.mp hstep
    unfold Cell.ret at hret
    split at hret
    · rename_i m result hcall
      obtain rfl := Option.some.inj hret
      exact work_settled ⟨m, .returned result⟩ hcall rfl rfl (by simp [controlWork]) rfl
    · contradiction

/-- No call can go on. -/
def Stuck (s : SharedControl) : Prop := ∀ l, l.isCall = false → l.advances = true → s.step l = none

/-- When no call can go on all have returned. -/
theorem Stuck.returned (h : s.Stuck) :
    ∀ call ∈ s.cell.calls, ∃ result, call.phase = .returned result := by
  intro call hmem
  obtain ⟨k, hcall⟩ := List.mem_iff_getElem?.mp hmem
  obtain ⟨m, phase⟩ := call
  cases phase with
  | pending next =>
    have hnone := h (.access k false) rfl rfl
    have hsome : (s.cell.access ControlMethod.method k false).isSome = true :=
      Cell.access_isSome hcall
    simp_all [step]
  | done result actions =>
    cases actions with
    | nil =>
      have hnone := h (.ret k) rfl rfl
      simp [step, Cell.ret, hcall] at hnone
    | cons action rest =>
      have hnone := h (.act k []) rfl rfl
      simp [step, SharedControl.actions, hcall, SharedCall.actions] at hnone
  | returned result => exact ⟨result, rfl⟩

/-- Once all calls have returned nothing is left of them to be done. -/
theorem Stuck.remaining (h : s.Stuck) : s.remaining = [] := by
  refine List.flatMap_eq_nil_iff.mpr fun call hmem => ?_
  obtain ⟨result, hphase⟩ := h.returned call hmem
  simp [SharedCall.actions, hphase]

end SharedControl

/-- The calls of `server_control` return. In every run without new calls the steps that are not
failures for no reason are bounded. When no call can go on all have returned, the generation is the
number of generations that the functions, carried out one at a time, have begun, and the events
that were posted are those they announce; and there is a run that gets there. -/
theorem control_calls_return {ls : List SharedLabel} {s : SharedControl}
    (hrun : run SharedControl.step {} ls = some s) :
    (∀ ms t, (∀ l ∈ ms, l.isCall = false) → run SharedControl.step s ms = some t →
      ms.countP (·.advances) + t.work ≤ s.work ∧
      (t.Stuck → (∀ call ∈ t.cell.calls, ∃ result, call.phase = .returned result) ∧
        t.generation = t.explanation.1.generation ∧
        (t.posted.map (·.announcement)).Perm (t.explanation.1.events.map (·.announcement)))) ∧
    ∃ ms t, (∀ l ∈ ms, l.isCall = false) ∧ run SharedControl.step s ms = some t ∧ t.Stuck := by
  have hexplained : s.Explained :=
    run_invariant SharedControl.Explained (fun _ _ _ h hstep => h.step hstep) .start hrun
  have hless (u : SharedControl) (l : SharedLabel) (v : SharedControl)
      (hl : l.isCall = false ∧ l.advances = true)
      (hstep : u.step l = some v) : v.work < u.work := by
    have hpaid := SharedControl.step_work hstep hl.1
    rwa [if_pos hl.2] at hpaid
  have hnext (u : SharedControl) (hnot : ¬ u.Stuck) :
      ∃ l : SharedLabel, (l.isCall = false ∧ l.advances = true) ∧ (u.step l).isSome = true := by
    unfold SharedControl.Stuck at hnot
    push Not at hnot
    obtain ⟨l, hcall, hadvances, hne⟩ := hnot
    exact ⟨l, ⟨hcall, hadvances⟩, Option.isSome_iff_ne_none.mpr hne⟩
  refine ⟨fun ms t hms hlater => ⟨?_, fun hstuck => ?_⟩, ?_⟩
  · exact run_countP_le (I := fun _ => True) SharedControl.work SharedLabel.advances
      (fun _ _ _ _ _ _ => trivial)
      (fun _ _ _ _ hl hstep => SharedControl.step_work hstep hl) trivial hms hlater
  · have hlast : t.Explained :=
      run_invariant SharedControl.Explained (fun _ _ _ h hstep => h.step hstep) hexplained hlater
    have hgeneration := hlast.generation
    have hannouncements := hlast.announcements
    rw [SharedControl.increments, hstuck.remaining, List.countP_nil, Nat.add_zero] at hgeneration
    rw [SharedControl.announcements, hstuck.remaining, List.filterMap_nil,
      List.append_nil] at hannouncements
    exact ⟨hstuck.returned, hgeneration, hannouncements⟩
  · obtain ⟨ms, t, hms, hlater, hstuck⟩ :=
      exists_run_done (I := fun _ => True) SharedControl.work (fun _ _ _ _ _ _ => trivial)
      (fun u l v _ => hless u l v) (fun u _ => hnext u) trivial
    exact ⟨ms, t, fun l hl => (hms l hl).1, hlater, hstuck⟩

/-- A start and the stop that it has overtaken return within nine steps. -/
theorem control_calls_return_overtakenStop : ∃ s ms t,
    run SharedControl.step {} overtakenStop = some s ∧ run SharedControl.step s ms = some t ∧
      ms.countP (·.advances) ≤ 9 ∧
      (∀ call ∈ t.cell.calls, ∃ result, call.phase = .returned result) ∧
      t.generation = t.explanation.1.generation := by
  have h : run SharedControl.step {} overtakenStop = some _ := rfl
  obtain ⟨hruns, ms, t, hms, hlater, hstuck⟩ := control_calls_return h
  obtain ⟨hbound, hend⟩ := hruns ms t hms hlater
  obtain ⟨hreturned, hgeneration, -⟩ := hend hstuck
  exact ⟨_, ms, t, h, hlater, (Nat.le_add_right _ _).trans hbound, hreturned, hgeneration⟩

end Serveza
