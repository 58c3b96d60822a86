import Serveza.LastReference

/-!
# Who owns a bound-socket listener that stops

A stopping listener is owned by the wait for the grace period and by the report of its
session. When one of them was the last reference and the session does not wait to be closed
by force, the listener has stopped.
-/

namespace Serveza

open Foundation ListenerCore

namespace SocketListener

variable {s t : SocketListener} {l : SocketLabel}

/-- The step closes the session by force: the grace period is over. -/
def forces (s : SocketListener) : SocketLabel → Prop
  | .graceHandler k =>
    ((s.core.shutdownTimer.take k).any fun (w, _) => w.status = .expired) = true ∧ s.session ≠ none
  | _ => False

instance (s : SocketListener) (l : SocketLabel) : Decidable (s.forces l) := by
  unfold forces
  split <;> infer_instance

/-- A listener with a live grace period loses its last reference only to the force of it. -/
theorem forces_of_hasLive (hsession : s.session ≠ none) (hspent : (s.spend l).alive = false)
    (hlive : s.core.shutdownTimer.HasLive) (hstep : s.step l = some t) : s.forces l := by
  have hwaits := (unreferenced hspent).2.2.2.2
  obtain ⟨w, hw, -⟩ := id hlive
  have hsome : s.core.shutdownTimer.waits ≠ [] := List.ne_nil_of_mem hw
  cases l with
  | core l => cases l <;> exact absurd hwaits hsome
  | run answers => exact absurd hwaits hsome
  | graceHandler k =>
    obtain ⟨⟨w, timer⟩, htake, rfl⟩ := Option.map_eq_some_iff.mp hstep
    obtain ⟨-, -, htimer⟩ := Timer.take_cases htake
    have hexpired := Timer.last_expired htake (htimer ▸ hwaits) hlive
    exact ⟨by simp [htake, hexpired], hsession⟩

/-- A stopping listener whose last reference was the report of its session stops. -/
theorem stopped_of_report (hs : s.core.state = .stopping) (hsession : s.session ≠ none)
    (hreported : ∀ key ∈ s.session.toList, Reported s.core key) (hspent : (s.spend l).alive = false)
    (hstep : s.step l = some t) : t.core.state = .stopped := by
  have hstrand := (unreferenced hspent).2.2.2.1
  obtain ⟨key, hkey⟩ := Option.ne_none_iff_exists'.mp hsession
  obtain ⟨report, hreport, -⟩ := hreported key (by simp [hkey])
  have howned (h : ∀ m ∈ s.core.strand, m.ownsListener = false) : False :=
    Bool.noConfusion (h _ hreport)
  cases l with
  | core l => cases l <;> exact (howned hstrand).elim
  | graceHandler k => exact (howned hstrand).elim
  | run answers =>
    cases hhead : s.core.strand with
    | nil => simp [hhead] at hreport
    | cons message rest =>
      have hrest : ∀ m ∈ rest, m.ownsListener = false := by
        simpa [spend, mapCore, hhead] using hstrand
      have hlast : message = .sessionFinished report := by
        rw [hhead] at hreport
        rcases List.mem_cons.mp hreport with heq | hmem
        · exact heq.symm
        · exact Bool.noConfusion (hrest _ hmem)
      obtain rfl : (s.mapCore fun c => { c with strand := rest }).sessionFinished report = t := by
        simpa [step, hhead, hlast, handle] using hstep
      obtain ⟨c, hquiet, -, -, ⟨hrunning, -⟩ | ⟨-, heq⟩⟩ :=
        (s.mapCore fun c => { c with strand := rest }).sessionFinished_cases report
      · have hrunning : s.core.state = .running := hrunning
        simp [hs] at hrunning
      · rw [heq, maybeFinish, if_pos ⟨hquiet.state.trans hs, rfl⟩]
        exact finish_state _ _ _

/-- When a queued stop was the last reference to a listener, the listener stops. -/
theorem stopped_of_stop {answers : SocketAnswers} {rest : List Message}
    (hstrand : s.core.strand = .stop :: rest) (hstep : s.step (.run answers) = some t)
    (hdead : t.alive = false) (hs : s.core.state ≠ .stopping) :
    t.core.state = .stopped := by
  obtain rfl : (s.mapCore fun c => { c with strand := rest }).stopOnStrand = t := by
    simpa [step, hstrand, handle] using hstep
  refine (stopOnStrand_halted _).resolve_left fun hstopping => ?_
  have hactive (u : SocketListener)
      (hu : u = (s.mapCore fun c => { c with strand := rest }).mapCore fun c =>
        (c.setStopReason .requested).transitionTo .stopping)
      (hdead : u.armGrace.maybeFinish.alive = false)
        (hstopping : u.armGrace.maybeFinish.core.state = .stopping) : False := by
    by_cases hnone : u.session = none
    · rw [armGrace, if_pos hnone, maybeFinish, if_pos ⟨hu ▸ rfl, hnone⟩] at hstopping
      exact absurd (hstopping.symm.trans (finish_state _ _ _)) (by decide)
    · have harmed : u.armGrace.core.referenced = true := by
        rw [armGrace, if_neg hnone]
        simp [referenced, mapCore, Timer.asyncWait]
      exact absurd (moves_referenced (maybeFinish_moves _ .refl) harmed)
        (by simpa [alive] using hdead)
  have hpopped : (s.mapCore fun c => { c with strand := rest }).core.state = s.core.state := rfl
  unfold stopOnStrand at hdead hstopping
  rw [hpopped] at hdead hstopping
  cases hstate : s.core.state with
  | idle =>
    rw [hstate] at hstopping
    exact absurd (hstopping.symm.trans (finish_state _ _ _)) (by decide)
  | starting | running =>
    rw [hstate] at hdead hstopping
    exact hactive _ rfl hdead hstopping
  | stopping => exact hs hstate
  | stopped =>
    rw [hstate] at hstopping
    exact hs hstopping

/-- A listener that was asked to stop and loses its last reference has stopped, if its session is
not waiting to be closed by force. -/
theorem stopped_of_last (htended : SocketTended s.lend)
    (hsettling : s.core.handles = 0 → Settling s.core) (hspent : (s.spend l).alive = false)
    (hforces : ¬ s.forces l)
    (hforced : ∀ key ∈ s.session.toList, ∀ x ∈ s.core.session? key, x.finished = false →
      .forceClose ∉ x.strand)
    (hstep : s.step l = some t) (hdead : t.alive = false) (hhalted : t.core.state.Halted) :
    t.core.state = .stopped := by
  by_cases hs : s.core.state = .stopping
  · have hsession : s.session ≠ none := htended.drains hs
    rcases htended.graced hs Nat.one_pos with hlive | hclosing
    · exact absurd (forces_of_hasLive hsession hspent hlive hstep) hforces
    · have hreported := reported_of_closing htended.held Nat.one_pos hforced hclosing
      exact stopped_of_report hs hsession hreported hspent hstep
  · obtain ⟨hhandles, hcalls, -, hstrand, -⟩ := unreferenced hspent
    cases l with
    | core l =>
      obtain ⟨c, hc, rfl⟩ := Option.map_eq_some_iff.mp hstep
      have hstate := (call_cases hc).frame.1
      exact hhalted.resolve_left fun hstopping => hs (hstate.symm.trans hstopping)
    | run answers =>
      cases hhead : s.core.strand with
      | nil => simp [step, hhead] at hstep
      | cons message rest =>
        have hunowned : ∀ m ∈ rest, m.ownsListener = false := by
          simpa [spend, mapCore, hhead] using hstrand
        rcases (hsettling hhandles).last hcalls hhead hunowned with ⟨hstart, hhalted⟩ | rfl
        · refine (s.step_core hstep).stopped (hhalted.resolve_left hs) fun m more hmore => ?_
          obtain ⟨rfl, -⟩ := List.cons.inj (hhead.symm.trans hmore)
          exact hstart
        · exact stopped_of_stop hhead hstep hdead hs
    | graceHandler k =>
      obtain ⟨hstart, hhalted⟩ := (hsettling hhandles).unowned hcalls hstrand
      exact (s.step_core hstep).stopped (hhalted.resolve_left hs) hstart

/-- A listener that is gone stays gone, in the state it had. -/
theorem gone_step (h : s.alive = false) (hstep : s.step l = some t) :
    t.alive = false ∧ t.core.state = s.core.state := by
  obtain ⟨hhandles, hcalls, hinitiating, hstrand, htimer⟩ := unreferenced h
  cases l with
  | core l =>
    obtain ⟨c, hc, rfl⟩ := Option.map_eq_some_iff.mp hstep
    exact ⟨CallStep.unreferenced (h ▸ call_cases hc) h, (call_cases hc).frame.1⟩
  | run answers =>
    cases hhead : s.core.strand with
    | nil => simp [step, hhead] at hstep
    | cons message rest =>
      obtain rfl : _ = t := by simpa [step, hhead] using hstep
      have howns := hstrand message (by simp [hhead])
      cases message with
      | complete completion =>
        have hrest : ∀ m ∈ rest, m.ownsListener = false :=
          fun m hm => hstrand m (by simp [hhead, hm])
        exact ⟨referenced_eq_false.mpr ⟨hhandles, hcalls, hinitiating, hrest, htimer⟩, rfl⟩
      | start | wait | cancelWait | stop | sessionFinished => contradiction
  | graceHandler k =>
    obtain ⟨⟨w, timer⟩, htake, -⟩ := Option.map_eq_some_iff.mp hstep
    have hwait := (Timer.take_cases htake).1
    simp [htimer] at hwait

end SocketListener

end Serveza
