import Serveza.Completions
import Serveza.Shutdown
import Serveza.StopCauses

/-!
# The first cause of a stop wins

The first cause that a generation processes decides the stop reason that is reported and the
error that every wait gets which is not cancelled. Whatever comes after it, the outcome is the
same until the next start.
-/

namespace Serveza

open Foundation ListenerCore

/-- Stopped events that were published on the way carry the reason of the state reached. -/
structure Publishes (a b : ListenerCore) : Prop where
  stays : a.state = .stopped → b.state = .stopped ∧ b.stopReason = a.stopReason
  added : ∃ new, b.events = a.events ++ new ∧
    ∀ e ∈ new, e.status.state = .stopped → b.state = .stopped ∧ e.status.stopReason = b.stopReason

namespace Publishes

variable {a b c : ListenerCore}

/-- What is published on the way is published. -/
theorem trans (h : Publishes a b) (h' : Publishes b c) : Publishes a c := by
  obtain ⟨new, hnew, hstopped⟩ := h.added
  obtain ⟨more, hmore, hstopped'⟩ := h'.added
  refine ⟨fun hs => ?_, new ++ more, by rw [hmore, hnew, List.append_assoc], fun e he hs => ?_⟩
  · obtain ⟨hb, hreason⟩ := h.stays hs
    obtain ⟨hc, hreason'⟩ := h'.stays hb
    exact ⟨hc, hreason'.trans hreason⟩
  · rcases List.mem_append.mp he with he | he
    · obtain ⟨hb, hreason⟩ := hstopped e he hs
      obtain ⟨hc, hreason'⟩ := h'.stays hb
      exact ⟨hc, hreason.trans hreason'.symm⟩
    · exact hstopped' e he hs

/-- One event is published with the snapshot after it. -/
theorem one {e : ListenerEvent}
    (hs : a.state = .stopped → b.state = .stopped ∧ b.stopReason = a.stopReason)
    (hevents : b.events = a.events ++ [e]) (hstate : e.status.state = b.state)
    (hreason : e.status.stopReason = b.stopReason) : Publishes a b := by
  refine ⟨hs, [e], hevents, fun x hx hstopped => ?_⟩
  rw [List.mem_singleton.mp hx] at hstopped ⊢
  exact ⟨hstate.symm.trans hstopped, hreason⟩

/-- The end of a generation is published with its reason. -/
theorem finish (ec : ErrorCode) (reason : ListenerStopReason) (hs : a.state ≠ .stopped) :
    Publishes a (a.finish ec reason) := by
  obtain ⟨event, hevents, hreason, hstate⟩ := finish_published a ec reason hs
  exact .one (fun h => absurd h hs) hevents (hstate.trans (finish_state a ec reason).symm)
    (hreason.trans (finish_stopReason a ec reason hs).symm)

/-- Entries publish with the reason of the state reached. -/
theorem entries (h : Entries a b) : Publishes a b := by
  induction h with
  | refl => exact ⟨fun hs => ⟨hs, rfl⟩, [], by simp, by simp⟩
  | tail _ hentry ih =>
    refine ih.trans ?_
    cases hentry with
    | silent hsame =>
      exact ⟨fun hs => ⟨hsame.state.trans hs, hsame.stopReason⟩, [],
        by rw [hsame.events, List.append_nil], by simp⟩
    | event htype info ec ep => exact .one (fun hs => ⟨hs, rfl⟩) rfl rfl rfl
    | running hs => exact .one (fun h => by simp [hs] at h) rfl rfl rfl
    | stopping hs => exact .one (fun h => by simp [h] at hs) rfl rfl rfl
    | stopped hs => exact .finish _ _ (by simp [hs])
    | failed hs ec => exact .finish _ _ (by simp [hs])

end Publishes

variable {a b c : ListenerCore}

/-- Whatever a step publishes in state `stopped` carries the reason of the state reached. -/
theorem Writes.published {p : Prop} (h : Writes p a b) : ∃ new, b.events = a.events ++ new ∧
    ∀ e ∈ new, e.status.state = .stopped → e.status.stopReason = b.stopReason := by
  cases h with
  | entries hentries =>
    obtain ⟨new, hnew, hstopped⟩ := (Publishes.entries hentries).added
    exact ⟨new, hnew, fun e he hs => (hstopped e he hs).2⟩
  | start hs hm hentries =>
    obtain ⟨new, hnew, hstopped⟩ := (Publishes.entries hentries).added
    refine ⟨_ :: new, by rw [hnew, ← hm.events]; exact List.append_assoc _ [_] _, fun e he hs => ?_⟩
    rcases List.mem_cons.mp he with rfl | he
    · contradiction
    · exact (hstopped e he hs).2
  | @concluded m hp hs hm ec reason hreason =>
    have hannounced : Publishes m (m.transitionTo .stopping) :=
      .one (fun h => by simp [hs] at h) rfl rfl rfl
    obtain ⟨new, hnew, hstopped⟩ :=
      ((Publishes.entries hm).trans (hannounced.trans (.finish ec reason nofun))).added
    exact ⟨new, hnew, fun e he hs => (hstopped e he hs).2⟩

/-- A halted listener keeps its outcome for the rest of its generation. -/
theorem Decided.writes {reason : ListenerStopReason} {ec : ErrorCode} {p : Prop}
    (h : Decided a (some (reason, ec))) (hwrites : Writes p a b)
    (hgeneration : b.generation = a.generation) : Decided b (some (reason, ec)) := by
  cases hwrites with
  | entries hentries => exact h.entries hentries
  | start hs hm hentries =>
    have hnext : b.generation = a.generation + 1 := by
      rw [entries_generation hentries, ← hm.generation]
      rfl
    omega
  | concluded hp hs hm ec hreason => exact absurd (h.entries hm).1 (not_halted_of_running hs)

/-- From one state of a run to a later one the reason and the error of a stop are reported as
they are: by the stopped events, and by the waits that end and are not cancelled. A wait stays
registered until it is completed. -/
structure ReportsStop (reason : ListenerStopReason) (ec : ErrorCode) (a b : ListenerCore) :
    Prop where
  events : ∃ new, b.events = a.events ++ new ∧ ∀ e ∈ new, e.status.state = .stopped →
    e.status.stopReason = reason
  completed : ∃ new, b.completed = a.completed ++ new ∧
    ∀ q ∈ new, q.wait ≠ none → q.cause ≠ .cancelled → q.error = ec
  waiters : ∀ w ∈ a.waiters, w ∈ b.waiters ∨ ∃ q ∈ b.completed, q.wait = some w.id

namespace ReportsStop

variable {reason : ListenerStopReason} {ec : ErrorCode}

/-- Reports go on along a run. -/
theorem trans (h : ReportsStop reason ec a b) (h' : ReportsStop reason ec b c) :
    ReportsStop reason ec a c := by
  obtain ⟨events, hevents, hreason⟩ := h.events
  obtain ⟨moreEvents, hmoreEvents, hreason'⟩ := h'.events
  obtain ⟨completed, hcompleted, herror⟩ := h.completed
  obtain ⟨moreCompleted, hmoreCompleted, herror'⟩ := h'.completed
  refine ⟨⟨events ++ moreEvents, by rw [hmoreEvents, hevents, List.append_assoc], fun e he => ?_⟩,
    ⟨completed ++ moreCompleted, by rw [hmoreCompleted, hcompleted, List.append_assoc],
      fun q hq => ?_⟩, fun w hw => ?_⟩
  · exact (List.mem_append.mp he).elim (hreason e) (hreason' e)
  · exact (List.mem_append.mp hq).elim (herror q) (herror' q)
  · rcases h.waiters w hw with hb | ⟨q, hq, hwait⟩
    · exact h'.waiters w hb
    · exact Or.inr ⟨q, hmoreCompleted ▸ List.mem_append_left _ hq, hwait⟩

/-- A step that leaves the outcome decided reports it. -/
theorem step {x y : Listener} {l : ListenerLabel} (hstep : x.step l = some y)
    (hdecided : Decided y.core (some (reason, ec))) : ReportsStop reason ec x.core y.core := by
  obtain ⟨-, hreason, herror⟩ := hdecided
  have hcore := Listener.step_core hstep
  obtain ⟨events, hevents, hstopped⟩ := (Listener.step_writes hstep).published
  obtain ⟨completed, hcompleted, hends⟩ := hcore.completed_eq
  refine ⟨⟨events, hevents, fun e he hs => (hstopped e he hs).trans hreason⟩,
    ⟨completed, hcompleted, ?_⟩, ?_⟩
  · intro q hq hwait hcause
    cases hends q hq with
    | start hnone => exact absurd hnone hwait
    | cancelled _ hcancelled => exact absurd hcancelled hcause
    | stopped _ _ _ hterminal => exact hterminal.trans herror
  · rcases hcore.completes with hcompletes | ⟨-, -, m, -, hwaiters, hcompletes⟩
    · exact hcompletes.waiters
    · rw [← hwaiters]
      exact hcompletes.waiters

/-- A run of a halted listener within its generation keeps the outcome and reports it. -/
theorem run {x y : Listener} {ls : List ListenerLabel}
    (hdecided : Decided x.core (some (reason, ec)))
    (hrun : Foundation.run Listener.step x ls = some y)
    (hgeneration : y.core.generation = x.core.generation) :
    Decided y.core (some (reason, ec)) ∧ ReportsStop reason ec x.core y.core := by
  have hmono {x y : Listener} {ls : List ListenerLabel}
      (hrun : Foundation.run Listener.step x ls = some y) : x.core.generation ≤ y.core.generation :=
    run_invariant (fun z => x.core.generation ≤ z.core.generation)
      (fun _ _ _ hle hstep => hle.trans (Listener.step_writes hstep).generation_le) le_rfl hrun
  induction ls generalizing x with
  | nil =>
    obtain rfl := Option.some.inj hrun
    exact ⟨hdecided, ⟨[], by simp, by simp⟩, ⟨[], by simp, by simp⟩, fun w hw => Or.inl hw⟩
  | cons l ls ih =>
    obtain ⟨t, hstep, hrest⟩ := run_cons.mp hrun
    have hwrites := Listener.step_writes hstep
    have hsame : t.core.generation = x.core.generation :=
      le_antisymm (hgeneration ▸ hmono hrest) hwrites.generation_le
    have hnext := hdecided.writes hwrites hsame
    obtain ⟨hlast, hreports⟩ := ih hnext hrest (hgeneration.trans hsame.symm)
    exact ⟨hlast, (ReportsStop.step hstep hnext).trans hreports⟩

end ReportsStop

/-- A wait that is registered has not been completed. -/
theorem WaitsOnce.not_completed (h : WaitsOnce a) {w : WaitOperation} (hw : w ∈ a.waiters) :
    ∀ q ∈ a.completed, q.wait ≠ some w.id := by
  intro q hq hwait
  have hregistered : 0 < a.registrations w.id := List.countP_pos_iff.mpr ⟨w, hw, by simp⟩
  have hcompleted : 0 < a.completions w.id := List.countP_pos_iff.mpr ⟨q, hq, by simp [hwait]⟩
  have honce := h w.id
  split_ifs at honce <;> omega

/-- A listener that was reached keeps each wait in one place, and holds none back when stopped. -/
theorem Listener.Reached.waits {x : Listener} (h : x.Reached) :
    WaitsOnce x.core ∧ Released x.core := by
  obtain ⟨id, config, ls, hrun⟩ := h
  refine ⟨run_waitsOnce (create_waits id config).1 hrun, ?_⟩
  refine run_invariant (fun x => Released x.core)
    (fun _ _ _ hr hstep => hr.step (Listener.step_core hstep)) ?_ hrun
  obtain ⟨endpoint, hcore⟩ := Listener.create_core id config
  simp [Released, hcore]

/-- The first cause of a stop wins. A step that processes a cause, in a listener of either kind
that is not halted or as the failed start of a new generation, decides the outcome: whatever
is processed after it in that generation, the stop reason is that of the cause, also in every
event that announces `stopped`, every wait that ends and is not cancelled ends with its error,
and once the listener has stopped no wait is left and those registered at the stop have ended.
Without a cause no step halts a listener. -/
theorem firstCause_wins {x y z : Listener} {l : ListenerLabel} {ls : List ListenerLabel}
    (h : x.Reached) (hstep : x.step l = some y) (hrun : run Listener.step y ls = some z)
    (hgeneration : z.core.generation = y.core.generation) :
    (∀ reason ec, x.cause l = some (reason, ec) →
      (¬ x.core.state.Halted ∨ y.core.generation = x.core.generation + 1) ∧
      z.core.state.Halted ∧ z.core.stopReason = reason ∧ ReportsStop reason ec x.core z.core ∧
      (z.core.state = .stopped → z.core.waiters = [] ∧ ∀ w ∈ x.core.waiters, ∃ q ∈ z.core.completed,
        q.wait = some w.id ∧ (q.cause = .cancelled ∨ q.error = ec))) ∧
    (x.cause l = none → y.core.state.Halted → x.core.state.Halted ∧
      y.core.generation = x.core.generation) := by
  have hsettles := Listener.step_settles h.unspoilt hstep
  refine ⟨fun reason ec hcause => ?_, fun hcause hhalted => ?_⟩
  · rw [hcause] at hsettles
    obtain ⟨hdecided, hfirst⟩ : Decided y.core (some (reason, ec)) ∧ _ :=
      hsettles.resolve_right (by simp)
    obtain ⟨hlast, hlater⟩ := ReportsStop.run hdecided hrun hgeneration
    have hreports := (ReportsStop.step hstep hdecided).trans hlater
    refine ⟨hfirst, hlast.1, hlast.2.1, hreports, fun hstopped => ?_⟩
    obtain ⟨id, config, before, hbefore⟩ := h
    have hreached : z.Reached :=
      ⟨id, config, before ++ l :: ls, run_append.mpr ⟨x, hbefore, run_cons.mpr ⟨y, hstep, hrun⟩⟩⟩
    have hempty := hreached.waits.2 hstopped
    refine ⟨hempty, fun w hw => ?_⟩
    obtain ⟨q, hq, hwait⟩ : ∃ q ∈ z.core.completed, q.wait = some w.id :=
      (hreports.waiters w hw).resolve_left (by simp [hempty])
    obtain ⟨new, hnew, herror⟩ := hreports.completed
    refine ⟨q, hq, hwait, ?_⟩
    rw [hnew] at hq
    rcases List.mem_append.mp hq with hold | hmem
    · exact absurd hwait ((Listener.Reached.waits ⟨id, config, before, hbefore⟩).1.not_completed hw
        q hold)
    · by_cases hcancelled : q.cause = .cancelled
      · exact Or.inl hcancelled
      · exact Or.inr (herror q hmem (by simp [hwait]) hcancelled)
  · rw [hcause] at hsettles
    rcases hsettles with ⟨hnot, -⟩ | ⟨-, hbefore, hsame⟩
    · exact absurd hhalted hnot
    · exact ⟨hbefore, hsame⟩

/-- An accepting listener runs with a wait registered and one session. -/
def waitAndSession : List ListenerLabel :=
  [.acceptor (.core (.beginWait (.user 1))), .acceptor (.core (.postWait 1)), .acceptor (.run {}),
    .acceptor (.core (.asyncStart (.user 0))), .acceptor (.run {}), .acceptor (.accepted {} {}),
    .acceptor (.run {})]

/-- A stop request and the failure of the session come after a fatal accept error. -/
def lateCauses : List ListenerLabel :=
  [.acceptor (.core .stopRead), .acceptor (.core .stopPost), .acceptor (.run {}),
    .acceptor (.core (.session 1 .run)),
    .acceptor (.core (.session 1 (.complete .noMemory))), .acceptor (.run {})]

/-- A fatal accept error decides the outcome of a generation that is asked to stop later. -/
theorem firstCause_wins_fatal : ∃ x y z,
    run Listener.step (.create 1 defaultAcceptor) waitAndSession = some x ∧
      x.cause (.acceptor (.accepted { error := .ioError } {})) = some (.runtimeFailure, .ioError) ∧
      x.step (.acceptor (.accepted { error := .ioError } {})) = some y ∧
      run Listener.step y lateCauses = some z ∧
      z.core.state = .stopped ∧ z.core.stopReason = .runtimeFailure ∧
      ∃ q ∈ z.core.completed, q.wait = some 1 ∧ (q.cause = .cancelled ∨ q.error = .ioError) := by
  have h : run Listener.step (.create 1 defaultAcceptor) waitAndSession = some _ := rfl
  have hwins := (@firstCause_wins _ _ _ (.acceptor (.accepted { error := .ioError } {})) lateCauses
    ⟨1, defaultAcceptor, _, h⟩ rfl rfl rfl).1 .runtimeFailure .ioError rfl
  obtain ⟨-, -, hreason, -, hwaits⟩ := hwins
  exact ⟨_, _, _, h, rfl, rfl, rfl, rfl, hreason, (hwaits rfl).2 ⟨1, .user 1⟩ (by decide)⟩

end Serveza
