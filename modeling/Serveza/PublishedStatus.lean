import Serveza.Record

/-!
# The stop reason that observers see

An event carries the reason of a stop exactly when its state is that of a listener that stops
or has stopped. Every entry keeps the reason and the state together. The end of a generation
whose bound session ended by itself does not: `session_finished` announces `stopping` first
and leaves the reason to `finish`.

An exception out of the initiation of an accept is taken to carry a code that reports a failure. One
with a zero code is not covered: `accept_next` would stop the listener and return success, and
`start_on_strand` would go on to `running` with the reason of the stop.
-/

namespace Serveza

open Foundation ListenerCore

/-- The event carries no stop reason exactly in the states before a stop. -/
def ListenerEvent.Agrees (event : ListenerEvent) : Prop :=
  event.status.stopReason = .none ↔
    event.status.state = .idle ∨ event.status.state = .starting ∨ event.status.state = .running

instance (event : ListenerEvent) : Decidable event.Agrees := inferInstanceAs (Decidable (_ ↔ _))

/-- The reason agrees with the state, now and in every event. -/
structure Agreed (c : ListenerCore) : Prop where
  current : c.stopReason = .none ↔ c.state = .idle ∨ c.state = .starting ∨ c.state = .running
  events : ∀ e ∈ c.events, e.Agrees

variable {a b : ListenerCore}

/-- A new event with the current snapshot agrees if the reason agrees with the state. -/
theorem Agreed.publish {e : ListenerEvent} (h : ∀ e ∈ a.events, e.Agrees)
    (hevents : b.events = a.events ++ [e]) (hreason : e.status.stopReason = b.stopReason)
    (hstate : e.status.state = b.state)
    (hcurrent : b.stopReason = .none ↔ b.state = .idle ∨ b.state = .starting ∨ b.state = .running) :
    Agreed b := by
  refine ⟨hcurrent, fun x hx => ?_⟩
  rw [hevents] at hx
  rcases List.mem_append.mp hx with hold | hnew
  · exact h x hold
  · rw [List.mem_singleton.mp hnew, ListenerEvent.Agrees, hreason, hstate]
    exact hcurrent

/-- The end of a generation is published with its reason. -/
theorem Agreed.finish (h : ∀ e ∈ a.events, e.Agrees) (hs : a.state ≠ .stopped) (ec : ErrorCode)
    {reason : ListenerStopReason} (hreason : reason ≠ .none) : Agreed (a.finish ec reason) := by
  obtain ⟨event, hevents, hstatus, hstate⟩ := finish_published a ec reason hs
  refine .publish h hevents (hstatus.trans (finish_stopReason a ec reason hs).symm)
    (hstate.trans (finish_state a ec reason).symm) ?_
  rw [finish_state, finish_stopReason a ec reason hs]
  simp [hreason]

/-- Every entry keeps the reason and the state together. -/
theorem Agreed.entry (h : Agreed a) (hentry : Entry a b) : Agreed b := by
  cases hentry with
  | silent hsame =>
    obtain ⟨hstate, -, hreason, -, hevents⟩ := hsame
    exact ⟨by rw [hreason, hstate]; exact h.current, hevents ▸ h.events⟩
  | event htype info ec ep => exact .publish h.events rfl rfl rfl h.current
  | running hs =>
    have hnone : a.stopReason = .none := h.current.mpr (Or.inr (Or.inl hs))
    exact .publish h.events rfl rfl rfl ⟨fun _ => Or.inr (Or.inr rfl), fun _ => hnone⟩
  | stopping hs ec hreason =>
    refine .publish h.events rfl rfl rfl ⟨fun hnone => absurd hnone hreason, ?_⟩
    rintro (hstate | hstate | hstate) <;> contradiction
  | stopped hs =>
    have hreason : a.stopReason ≠ .none := fun hnone => by simpa [hs] using h.current.mp hnone
    exact .finish h.events (by simp [hs]) _ hreason
  | failed hs ec => exact .finish h.events (by simp [hs]) _ (by simp)

/-- A step that does not conclude a generation keeps the reason and the state together. -/
theorem Agreed.writes {p : Prop} (h : Agreed a) (hp : ¬ p) (hwrites : Writes p a b) : Agreed b := by
  have hentries {a b : ListenerCore} (h : Agreed a) (hentries : Entries a b) : Agreed b := by
    induction hentries with
    | refl => exact h
    | tail _ hentry ih => exact ih.entry hentry
  cases hwrites with
  | entries hlist => exact hentries h hlist
  | start hs hm hlist =>
    refine hentries ?_ hlist
    refine .publish (hm.events ▸ h.events) rfl rfl rfl ⟨fun _ => Or.inr (Or.inl rfl), fun _ => rfl⟩
  | concluded hconcludes => exact absurd hconcludes hp

/-- Every event that a listener of either kind hands to its observers carries a stop reason
exactly when it is stopping or stopped, as long as the listener does not run the report of a
bound session while it is running. The exceptions that the initiation of an accept throws all carry
a code that reports a failure. -/
theorem publishedStatus_agrees {id : ℕ} {config : ListenerConfig} {ls : List ListenerLabel}
    {x : Listener} (hrun : run Listener.step (.create id config) ls = some x)
    (hconcludes : Along Listener.step (fun x l => x.concludes l = false) (.create id config) ls) :
    ∀ e ∈ x.core.events, e.Agrees := by
  have hcreate : Agreed (Listener.create id config).core := by
    obtain ⟨endpoint, hcore⟩ := Listener.create_core id config
    rw [hcore]
    exact ⟨by simp, by simp⟩
  have hstep (x : Listener) (l : ListenerLabel) (y : Listener) (ha : Agreed x.core)
      (hc : x.concludes l = false) (hstep : x.step l = some y) : Agreed y.core :=
    ha.writes (Bool.eq_false_iff.mp hc) (Listener.step_writes hstep)
  have hagreed : Agreed x.core :=
    run_invariant_along (fun x => Agreed x.core) hstep hcreate hconcludes hrun
  exact hagreed.events

/-- An accepting listener with one session is stopped, forced and started again. -/
def stoppedAndRestarted : List ListenerLabel :=
  [.acceptor (.core (.asyncStart (.user 0))), .acceptor (.run {}), .acceptor (.accepted {} {}),
    .acceptor (.core .stopRead), .acceptor (.core .stopPost), .acceptor (.run {}),
    .acceptor (.run {}),
    .acceptor (.accepted { error := .operationAborted } {}), .acceptor (.core (.graceExpires 0)),
    .acceptor (.graceHandler 0), .acceptor (.core (.session 1 .run)),
    .acceptor (.core (.session 1 .run)),
    .acceptor (.core (.session 1 .run)), .acceptor (.run {}),
    .acceptor (.core (.asyncStart (.user 1))), .acceptor (.run {})]

/-- The events of a generation that is forced to stop and of the next one agree with their state. -/
theorem publishedStatus_agrees_restart : ∃ x,
    run Listener.step (.create 1 defaultAcceptor) stoppedAndRestarted = some x ∧
    x.core.events.length = 9 ∧
      x.core.generation = 2 ∧ ∀ e ∈ x.core.events, e.Agrees := by
  have h : run Listener.step (.create 1 defaultAcceptor) stoppedAndRestarted = some _ := rfl
  exact ⟨_, h, rfl, rfl, publishedStatus_agrees h (by decide)⟩

/-- A bound session ends by itself. -/
def sessionCompletes : List ListenerLabel :=
  [.socket (.core (.asyncStart (.user 0))), .socket (.run {}), .socket (.core (.session 1 .run)),
    .socket (.core (.session 1 (.complete .success))), .socket (.run {}), .socket (.run {})]

/-- A bound session that ends by itself makes the listener announce `stopping` without a reason. -/
theorem publishedStatus_unexplained :
    ¬ ∀ x : Listener, x.Reached → ∀ e ∈ x.core.events, e.Agrees := by
  intro hclaim
  have h : run Listener.step (.create 1 defaultSocket) sessionCompletes = some _ := rfl
  have hagrees := hclaim _ ⟨1, defaultSocket, _, h⟩
  revert hagrees
  decide

end Serveza
