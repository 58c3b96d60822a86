import Serveza.ControlEvents
import Serveza.ServerShutdown
import Serveza.SessionLifetimes

/-!
# The lifecycle of a server

Every event of a server is written by a call on the server or by an operation that comes to its end,
and its snapshot counts the sessions that the listeners held at that time. The events tell the whole
life of the server: each one follows from the state the one before it announced, the generation is
the number of starts announced, and the last event announces the state the server is in.

The server takes each function of `server_control` as one step. Functions that overlap, of which one
can post its event before another that exchanged the word earlier, are not covered, and neither is
the delivery of the events to the observers.
-/

namespace Serveza

open Foundation

namespace Server

variable {s s₁ s' : Server} {l : ServerLabel} {done added : List Action}

/-- Who announces a change: a call of `request_stop`, or a start or a wait that begins or ends. -/
def Causes (s : Server) (l : ServerLabel) (ec : ErrorCode) : ServerEventType → Prop
  | .starting =>
    ec = .success ∧ ∃ t threw key, l = .proceed t threw ∧ s.next t = some (.beginStart key)
  | .running => ec = .success ∧ ∃ t threw key result group, l = .proceed t threw ∧
      s.next t = some (.finish key result) ∧ result.failed = false ∧
      s.groups key = some group ∧ group.wait = false
  | .stopping => (ec = .success ∧ ∃ t, l = .requestStop t) ∨
      ec.failed = true ∧ ∃ t threw key group, l = .proceed t threw ∧
      s.next t = some (.finish key ec) ∧
        s.groups key = some group ∧ group.wait = false
  | .stopped => ∃ t threw key group, l = .proceed t threw ∧ s.next t = some (.finish key ec) ∧
      s.groups key = some group ∧ group.wait = true

/-- A step leaves the word alone, or announces one change with a snapshot of the first listeners. -/
theorem Acts.announces (h : s.Acts l s₁ done added) (hplaced : s.Placed) :
    s₁.control = s.control ∨ ∃ size type ec, size ≤ s.listeners.length ∧
      s₁.control = s.control.announce (s.statuses size) type ec ∧ s.control.state.Permits type ∧
      s.Causes l ec type := by
  cases h with
  | requestStop hopen =>
    refine (s.control.requestStop_announces _).imp id fun h => ?_
    exact ⟨_, .stopping, .success, le_rfl, h.1, h.2, Or.inl ⟨rfl, _, rfl⟩⟩
  | proceed hnext h =>
    cases h with
    | begins hgroup hcontrol | rejects hgroup hcontrol =>
      have heq := congrArg Prod.snd hcontrol
      refine (s.control.beginStart_announces _).imp (heq.symm.trans ·) fun h => ?_
      exact ⟨_, .starting, .success, hplaced.sized _ _ hgroup, heq.symm.trans h.1, h.2, rfl,
        _, _, _, rfl, hnext⟩
    | finishStart hgroup hstart hcontrol =>
      have heq := congrArg Prod.snd hcontrol
      have hsize := hplaced.sized _ _ hgroup
      rcases s.control.finishStart_announces _
        _ with h | ⟨h, hresult, hpermits⟩ | ⟨h, hresult, hpermits⟩
      · exact Or.inl (heq.symm.trans h)
      · exact Or.inr ⟨_, .running, .success, hsize, heq.symm.trans h, hpermits, rfl, _, _, _, _, _,
          rfl, hnext, hresult, hgroup, hstart⟩
      · exact Or.inr ⟨_, .stopping, _, hsize, heq.symm.trans h, hpermits,
          Or.inr ⟨hresult, _, _, _, _, rfl, hnext, hgroup, hstart⟩⟩
    | finishWait hgroup hwait hcontrol =>
      have heq := congrArg Prod.snd hcontrol
      refine (s.control.finishWait_announces _ _).imp (heq.symm.trans ·) fun h => ?_
      exact ⟨_, .stopped, _, hplaced.sized _ _ hgroup, heq.symm.trans h.1, h.2, _, _, _, _, rfl,
        hnext, hgroup, hwait⟩
    | _ => exact Or.inl rfl
  | _ => exact Or.inl rfl

/-- How an event came to be: a step of a given server announced it with a snapshot of the
first listeners, which counts the sessions that they hold. -/
def Writes (s : Server) (l : ServerLabel) (e : ServerEvent) : Prop :=
  s.Causes l e.error e.type ∧ ∃ size ≤ s.listeners.length, e.status.listeners = s.statuses size ∧
    e.status.activeSessions = ((s.listeners.take size).map fun x => x.held.length).sum

/-- The sessions counted by the snapshots of the first listeners are the ones these hold. -/
theorem statuses_counted (h : Reachable step {} s) (size : ℕ) :
    ((s.statuses size).map (·.activeSessions)).sum =
    ((s.listeners.take size).map fun x => x.held.length).sum := by
  rw [statuses, List.map_map]
  refine congrArg List.sum (List.map_congr_left fun x hx => ?_)
  exact (listeners_reached h x (List.mem_of_mem_take hx)).minds.counted

/-- What a step adds to the events of a reachable server. -/
theorem step_writes (h : Reachable step {} s) (hstep : s.step l = some s') :
    ∃ new, s'.control.events = s.control.events ++ new ∧ ∀ e ∈ new, s.Writes l e := by
  obtain ⟨s₁, done, added, hacts, houtcome⟩ := step_cases hstep
  rw [houtcome.control]
  rcases hacts.announces (sound_of_reachable h).placed with
    hsame | ⟨size, type, ec, hsize, hcontrol, -, hcauses⟩
  · exact ⟨[], by rw [hsame, List.append_nil], by simp⟩
  · refine ⟨_, congrArg ServerControl.events hcontrol, fun e he => ?_⟩
    rw [List.mem_singleton.mp he]
    exact ⟨hcauses, size, hsize, rfl, statuses_counted h size⟩

/-- The word of a reachable server agrees with its events. -/
theorem told_of_reachable (h : Reachable step {} s) : s.control.Told := by
  refine (h.invariant (fun s => Reachable step {} s ∧ s.control.Told) (fun a k b ha hstep => ?_)
    ⟨.refl _, ⟨logged_nil, rfl, rfl⟩⟩).2
  obtain ⟨s₁, done, added, hacts, houtcome⟩ := step_cases hstep
  refine ⟨ha.1.tail hstep, houtcome.control ▸ ?_⟩
  rcases hacts.announces (sound_of_reachable ha.1).placed with
    hsame | ⟨size, type, ec, -, hcontrol, hpermits, -⟩
  · rw [hsame]
    exact ha.2
  · rw [hcontrol]
    exact ha.2.announce hpermits _ _

end Server

/-- In every run of a server whose control functions do not overlap, the events tell its life: each
is permitted by those before it and shows the state and the generation that they amount to, and a
server is called ready only if it runs with all its listeners; the word of the server is what they
announce; and each event was written by a step of the run, a stop, or the beginning or the end of an
operation, with a snapshot that counts the sessions held by the listeners in the state it was taken
in. -/
theorem server_lifecycle {ls : List ServerLabel} {s : Server}
    (hrun : run Server.step {} ls = some s) :
    Logged ServerEvent.Lawful s.control.events ∧
      s.control.state = stateTold s.control.events ∧
      s.control.generation = startsTold s.control.events ∧
      ∀ e ∈ s.control.events, ∃ before l after u, ls = before ++ l :: after ∧
      run Server.step {} before = some u ∧ u.Writes l e := by
  have htold := Server.told_of_reachable ⟨ls, hrun⟩
  refine ⟨htold.lawful, htold.state, htold.generation, fun e he => ?_⟩
  exact exists_written (fun s => s.control.events) Server.Writes rfl
    (fun _ _ _ hreached hstep => Server.step_writes hreached hstep) hrun he

end Serveza
