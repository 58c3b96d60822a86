import Serveza.LastReference

/-!
# Who owns an accepting listener that stops

A stopping listener is owned by the accept it has cancelled, by the wait for the grace period
and by the reports of its sessions. When one of them was the last reference and no session
waits to be closed by force, the listener has stopped.
-/

namespace Serveza

open Foundation ListenerCore

namespace AcceptorListener

variable {options : AcceptorOptions} {s t : AcceptorListener} {l : AcceptorLabel}

/-- The step closes the sessions by force: the grace period is over, or it cannot be granted. -/
def forces (s : AcceptorListener) : AcceptorLabel → Prop
  | .graceHandler k =>
    ((s.core.shutdownTimer.take k).any fun (w, _) => w.status = .expired) = true ∧ s.sessions ≠ []
  | .run answers =>
    s.core.strand.head? = some .stop ∧ s.Accepting ∧ s.sessions ≠ [] ∧
      answers.graceTimer.isSome = true
  | _ => False

instance (s : AcceptorListener) (l : AcceptorLabel) : Decidable (s.forces l) := by
  unfold forces Accepting
  split <;> infer_instance

/-- What does not refer to the listener any more once the step has used up its reference. -/
theorem spent (h : (s.spend l).alive = false) :
    (s.spend l).core.referenced = false ∧ (s.spend l).acceptor.accepts = 0 ∧
    (s.spend l).retryTimer.waits = [] := by
  simpa [alive, and_assoc] using h

/-- A listener with a live grace period loses its last reference only to the force of it. -/
theorem forces_of_hasLive (hbooks : Books options s) (hrest : Rest s)
    (hs : s.core.state = .stopping) (hspent : (s.spend l).alive = false)
    (hlive : s.core.shutdownTimer.HasLive) (hstep : s.step l = some t) : s.forces l := by
  obtain ⟨hcore, haccepts, -⟩ := spent hspent
  have hwaits := (unreferenced hcore).2.2.2.2
  obtain ⟨w, hw, -⟩ := id hlive
  have hsome : s.core.shutdownTimer.waits ≠ [] := List.ne_nil_of_mem hw
  cases s.step_cases hstep with
  | @core l c hcall => cases l <;> exact absurd hwaits hsome
  | run | accepted | retryExpires | retryAborted | retryDue => exact absurd hwaits hsome
  | @graceAborted k w timer htake hw | @graceDue k w timer htake hw =>
    obtain ⟨-, -, htimer⟩ := Timer.take_cases htake
    have hexpired := Timer.last_expired htake (htimer ▸ hwaits) hlive
    exact ⟨by simp [htake, hexpired], (hrest.drains hs).resolve_left
      (by simp [hbooks.not_pending haccepts])⟩

/-- A stopping listener with nothing to drain stops. -/
theorem maybeFinish_stopped_of (hs : s.core.state = .stopping) (hpending : s.acceptPending = false)
    (hsessions : s.sessions = []) :
    s.maybeFinish.core.state = .stopped := by
  rw [maybeFinish, if_pos ⟨hs, hpending, hsessions⟩, finish_core]
  exact finish_state _ _ _

/-- A stopping listener whose last reference was its accept stops, if it holds no session. -/
theorem stopped_of_accept (hbooks : Books options s) (hs : s.core.state = .stopping)
    (hpending : s.acceptPending = true) (hsessions : s.sessions = [])
    (hspent : (s.spend l).alive = false) (hstep : s.step l = some t) :
    t.core.state = .stopped := by
  obtain ⟨-, haccepts, -⟩ := spent hspent
  have hone : s.acceptor.accepts = 1 := by rw [hbooks.pending, hpending, if_pos rfl]
  have hidle (h : s.acceptor.accepts = 0) : False := by omega
  cases s.step_cases hstep with
  | @core l c hcall => cases l <;> exact (hidle haccepts).elim
  | run | retryExpires | retryAborted | retryDue | graceAborted | graceDue =>
    exact (hidle haccepts).elim
  | @accepted result answers hpos =>
    rcases accepted_cases { s with
      acceptor := ⟨s.acceptor.isOpen, s.acceptor.accepts - 1⟩ } answers result with
      ⟨-, heq⟩ | ⟨hrunning, -⟩
    · rw [heq]
      exact maybeFinish_stopped_of hs rfl hsessions
    · have hrunning : s.core.state = .running := hrunning
      simp [hs] at hrunning

/-- A stopping listener whose last reference was the report of its last session stops. -/
theorem stopped_of_report (hbooks : Books options s) (hs : s.core.state = .stopping)
    (hsessions : s.sessions ≠ []) (hreported : ∀ key ∈ s.sessions, Reported s.core key)
    (hspent : (s.spend l).alive = false) (hstep : s.step l = some t) :
    t.core.state = .stopped := by
  obtain ⟨hcore, haccepts, -⟩ := spent hspent
  have hstrand := (unreferenced hcore).2.2.2.1
  obtain ⟨key, hkey⟩ := List.exists_mem_of_ne_nil _ hsessions
  obtain ⟨report, hreport, -⟩ := hreported key hkey
  have howned (h : ∀ m ∈ s.core.strand, m.ownsListener = false) : False :=
    Bool.noConfusion (h _ hreport)
  cases s.step_cases hstep with
  | @core l c hcall => cases l <;> exact (howned hstrand).elim
  | accepted | retryExpires | retryAborted | retryDue | graceAborted | graceDue =>
    exact (howned hstrand).elim
  | @run answers message rest hhead =>
    have hrest : ∀ m ∈ rest, m.ownsListener = false := by
      simpa [spend, mapCore, hhead] using hstrand
    have hlast (key : ℕ) (hkey : key ∈ s.sessions) : ∃ report, message = .sessionFinished report ∧
        report.info.id = key := by
      obtain ⟨report, hmem, hid⟩ := hreported key hkey
      rw [hhead] at hmem
      rcases List.mem_cons.mp hmem with heq | hmem
      · exact ⟨report, heq.symm, hid⟩
      · exact Bool.noConfusion (hrest _ hmem)
    obtain ⟨report, rfl, hid⟩ := hlast key hkey
    have hheld : report.info.id ∈ s.sessions := hid ▸ hkey
    have hnone : s.sessions.erase report.info.id = [] := by
      refine List.eq_nil_iff_forall_not_mem.mpr fun other hother => ?_
      obtain ⟨hne, hmem⟩ := (hbooks.nodup.mem_erase_iff).mp hother
      obtain ⟨report', heq, hother⟩ := hlast other hmem
      obtain rfl : report = report' := by simpa using heq
      exact hne hother.symm
    have hpending := hbooks.not_pending haccepts
    obtain ⟨u, rfl, heq⟩ :=
      (s.mapCore fun c => { c with strand := rest }).sessionFinished_eq answers report
    have hremoved : (s.mapCore fun c => { c with strand := rest }).removeSession report.info.id =
        { s with
          core := { s.core with strand := rest, activeSessions := s.core.activeSessions - 1 }
          sessions := s.sessions.erase report.info.id } := if_pos hheld
    rw [hremoved] at heq
    have hstate := (quiet_sessionStopped { s.core with
      strand := rest, activeSessions := s.core.activeSessions - 1 }
      report.info report).state.trans hs
    change ((s.mapCore fun c => { c with strand := rest }).sessionFinished answers
      report).core.state = .stopped
    rw [heq, if_neg fun hrunning => by simp [mapCore, hstate] at hrunning]
    exact maybeFinish_stopped_of hstate hpending hnone

/-- The wait for the grace period refers to the listener. -/
theorem armGrace_armed {answers : AcceptorAnswers} (hsessions : s.sessions ≠ [])
    (hgrace : answers.graceTimer = none) :
    (s.armGrace answers).core.referenced = true := by
  rw [armGrace, if_neg hsessions, hgrace]
  simp [referenced, mapCore, Timer.asyncWait]

/-- Nothing but a queued stop may be the last reference to a listener that is not halted; when it
runs, the listener stops, unless the grace period cannot be granted. -/
theorem stopped_of_stop (hbooks : Books options s) {answers : AcceptorAnswers} {rest : List Message}
    (hstrand : s.core.strand = .stop :: rest) (hspent : (s.spend (.run answers)).alive = false)
    (hforces : ¬ s.forces (.run answers)) (hstep : s.step (.run answers) = some t)
    (hdead : t.alive = false) (hs : s.core.state ≠ .stopping) : t.core.state = .stopped := by
  obtain ⟨-, haccepts, -⟩ := spent hspent
  have hpending := hbooks.not_pending haccepts
  obtain rfl : (s.mapCore fun c => { c with strand := rest }).beginStop answers .success
    .requested = t := by
    simpa [step, hstrand, handle, stopOnStrand] using hstep
  rcases (s.mapCore fun c => { c with strand := rest }).beginStop_cases answers
    .success .requested with
    ⟨-, heq⟩ | ⟨haccepting, heq⟩ | ⟨hhalted, heq⟩
  · rw [heq, finish_core]
    exact finish_state _ _ _
  · rw [heq] at hdead ⊢
    by_cases hsessions : s.sessions = []
    · have hnone :
          (((s.mapCore fun c => { c with strand := rest }).closeDown .success .requested).armGrace
            answers) =
        (s.mapCore fun c => { c with strand := rest }).closeDown .success .requested :=
          if_pos hsessions
      rw [hnone]
      exact maybeFinish_stopped_of rfl hpending hsessions
    · cases hgrace : answers.graceTimer with
      | some e => exact absurd ⟨by simp [hstrand], haccepting, hsessions, by simp [hgrace]⟩ hforces
      | none =>
        have harmed := armGrace_armed
          (s := (s.mapCore fun c => { c with strand := rest }).closeDown .success .requested)
          hsessions hgrace
        exact absurd (alive_iff.mpr (Or.inl (moves_referenced (maybeFinish_moves _ .refl) harmed)))
          (by simp [hdead])
  · rw [heq]
    exact hhalted.resolve_left hs

/-- A listener that was asked to stop and loses its last reference has stopped, if no session of
it is waiting to be closed by force. -/
theorem stopped_of_last (hbooks : Books options s) (hrest : Rest s) (htended : Tended s.lend)
    (hsettling : s.core.handles = 0 → Settling s.core) (hspent : (s.spend l).alive = false)
    (hforces : ¬ s.forces l)
    (hforced : ∀ key ∈ s.sessions, ∀ x ∈ s.core.session? key, x.finished = false →
      .forceClose ∉ x.strand)
    (hstep : s.step l = some t) (hdead : t.alive = false) (hhalted : t.core.state.Halted) :
    t.core.state = .stopped := by
  by_cases hs : s.core.state = .stopping
  · rcases htended.graced hs Nat.one_pos with hlive | hclosing
    · exact absurd (forces_of_hasLive hbooks hrest hs hspent hlive hstep) hforces
    · have hreported := reported_of_closing htended.held Nat.one_pos hforced hclosing
      by_cases hsessions : s.sessions = []
      · exact stopped_of_accept hbooks hs ((hrest.drains hs).resolve_right (by simp [hsessions]))
          hsessions hspent hstep
      · exact stopped_of_report hbooks hs hsessions hreported hspent hstep
  · have hcore := (spent hspent).1
    cases l with
    | core l =>
      obtain ⟨c, hc, rfl⟩ := Option.map_eq_some_iff.mp hstep
      have hstate := (call_cases hc).frame.1
      exact hhalted.resolve_left fun hstopping => hs (hstate.symm.trans hstopping)
    | run answers =>
      obtain ⟨hhandles, hcalls, -, hstrand, -⟩ := unreferenced hcore
      cases hhead : s.core.strand with
      | nil => simp [step, hhead] at hstep
      | cons message rest =>
        have hunowned : ∀ m ∈ rest, m.ownsListener = false := by
          simpa [spend, mapCore, hhead] using hstrand
        rcases (hsettling hhandles).last hcalls hhead hunowned with ⟨hstart, hhalted⟩ | rfl
        · refine (s.step_core hstep).stopped (hhalted.resolve_left hs) fun m more hmore => ?_
          obtain ⟨rfl, -⟩ := List.cons.inj (hhead.symm.trans hmore)
          exact hstart
        · exact stopped_of_stop hbooks hhead hspent hforces hstep hdead hs
    | accepted | retryExpires | retryHandler | graceHandler =>
      obtain ⟨hhandles, hcalls, -, hstrand, -⟩ := unreferenced hcore
      obtain ⟨hstart, hhalted⟩ := (hsettling hhandles).unowned hcalls hstrand
      exact (s.step_core hstep).stopped (hhalted.resolve_left hs) hstart

/-- A listener that is gone stays gone, in the state it had. -/
theorem gone_step (h : s.alive = false) (hstep : s.step l = some t) :
    t.alive = false ∧ t.core.state = s.core.state := by
  obtain ⟨hcore, haccepts, hretries⟩ : s.core.referenced = false ∧ s.acceptor.accepts = 0 ∧
    s.retryTimer.waits = [] := by
    simpa [alive, and_assoc] using h
  obtain ⟨-, -, -, hstrand, htimer⟩ := unreferenced hcore
  cases s.step_cases hstep with
  | @core l c hcall =>
    have hgone := CallStep.unreferenced (h ▸ hcall) hcore
    exact ⟨by simp [alive, hgone, haccepts, hretries], hcall.frame.1⟩
  | @run answers message rest hhead =>
    have howns := hstrand message (by simp [hhead])
    cases message with
    | complete completion =>
      obtain ⟨hhandles, hcalls, hinitiating, -, -⟩ := unreferenced hcore
      have hgone : ({ s.core with strand := rest }.deliver completion).referenced = false :=
        referenced_eq_false.mpr ⟨hhandles, hcalls, hinitiating, fun m hm =>
          hstrand m (hhead ▸ List.mem_cons_of_mem _ hm), htimer⟩
      exact ⟨by simp [alive, handle, mapCore, hgone, haccepts, hretries], rfl⟩
    | start | wait | cancelWait | stop | sessionFinished => contradiction
  | accepted hpos => omega
  | retryExpires hexpire =>
    obtain ⟨tag, htag, -⟩ := Timer.expire_cases hexpire
    simp [hretries] at htag
  | retryAborted htake hw | retryDue htake hw =>
    have hwait := (Timer.take_cases htake).1
    simp [hretries] at hwait
  | graceAborted htake hw | graceDue htake hw =>
    have hwait := (Timer.take_cases htake).1
    simp [htimer] at hwait

end AcceptorListener

end Serveza
