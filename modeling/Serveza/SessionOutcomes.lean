import Serveza.Notes
import Serveza.Tending

/-!
# How the ends of sessions are told

A session that ends reports to its listener, and the listener tells its observers. Reports wait on
the strand in between. The outcomes that have been told, followed by those that are waiting, are
the ones that have been reported, in the order of the reports: no handler of the listener invents,
loses, repeats or reorders one.
-/

namespace Serveza

open Foundation ListenerCore

/-- What an event tells of a session that has stopped: its number and its outcome. -/
def ListenerEvent.outcome (event : ListenerEvent) : ℕ × Diagnosis :=
  (event.connection.id, event.diagnosis)

/-- The outcomes of sessions that have been told and those that are still to be told. -/
def ListenerCore.told (c : ListenerCore) (shown : SessionReport → ConnectionInfo) :
    List (ℕ × Diagnosis) :=
  (c.events.filter (·.ends)).map (·.outcome) ++ c.reports.map fun report =>
    ((shown report).id, report.diagnosis)

variable {shown : SessionReport → ConnectionInfo} {thrown : ThrownException → Prop}
  {a b : ListenerCore} {e : ListenerEvent}

/-- An event that does not end a session tells nothing. -/
theorem told_event (hevents : b.events = a.events ++ [e]) (hends : e.ends = false)
    (hreports : b.reports = a.reports) :
    b.told shown = a.told shown := by
  rw [told, told, hevents, hreports, List.filter_append]
  simp [hends]

/-- A report that is taken is told. -/
theorem told_sessionStopped {report : SessionReport} (h : Unnoted [report] a b) :
    (b.sessionStopped (shown report) report).told shown = a.told shown := by
  have hevents : ∃ e, (b.sessionStopped (shown report) report).events = a.events ++
      [e] ∧ e.ends = true ∧
      e.outcome = ((shown report).id, report.diagnosis) := by
    rw [← h.record.events, ListenerCore.sessionStopped]
    split <;> exact ⟨_, rfl, rfl, rfl⟩
  have hreports : (b.sessionStopped (shown report) report).reports = b.reports := by
    rw [ListenerCore.sessionStopped]
    split <;> rfl
  obtain ⟨e, hevents, hends, houtcome⟩ := hevents
  rw [told, told, hevents, hreports, h.reports, List.filter_append]
  simp [hends, houtcome]

/-- The end of a generation tells nothing of sessions. -/
theorem told_finish (a : ListenerCore) (ec : ErrorCode) (reason : ListenerStopReason) :
    (a.finish ec reason).told shown = a.told shown := by
  by_cases hs : a.state = .stopped
  · rw [ListenerCore.finish, if_pos hs]
  · obtain ⟨-, -, -, -, -, e, hevents, hstopped, -⟩ := finish_eq a ec reason hs
    exact told_event hevents (by simp [ListenerEvent.ends, hstopped.1])
      (Aside.finish_reports a ec reason)

/-- A note tells the report it takes, and nothing else. -/
theorem Note.told (h : Note shown thrown a b) : b.told shown = a.told shown := by
  cases h with
  | silent hsame =>
    rw [ListenerCore.told, ListenerCore.told, hsame.record.events, hsame.reports, List.nil_append]
  | sessionStarted info => exact told_event rfl rfl rfl
  | failure type htype info ec ep =>
    refine told_event rfl ?_ rfl
    cases type <;> simp_all [ListenerEventType.isFailure, ListenerEvent.ends]
  | sessionStopped htaken => exact told_sessionStopped htaken
  | running hs => exact told_event rfl rfl rfl
  | stopping hs ec reason => exact told_event rfl rfl rfl
  | unarmed hs e he ec => exact told_event rfl rfl rfl
  | stopped hs => exact told_finish a _ _
  | failed hs ec => exact told_finish a _ _
  | concluded hs ec reason => exact (told_finish _ ec reason).trans (told_event rfl rfl rfl)

/-- Notes tell the reports they take. -/
theorem Notes.told (h : Notes shown thrown a b) : b.told shown = a.told shown := by
  induction h with
  | refl => rfl
  | tail _ hnote ih => exact hnote.told.trans ih

/-- The end of a generation touches no session object. -/
theorem unreported_finish (h : Unreported a) (ec : ErrorCode) (reason : ListenerStopReason) :
    Unreported (a.finish ec reason) := by
  rw [Unreported, finish_heap]
  exact h

/-- No note is of an exception that a session reports. -/
theorem Note.unreported (h : Note shown thrown a b) (ha : Unreported a) : Unreported b := by
  cases h with
  | silent hsame => exact hsame.unreported ha
  | sessionStopped htaken =>
    rw [ListenerCore.sessionStopped]
    split <;> exact htaken.unreported ha
  | stopped hs => exact unreported_finish ha _ _
  | failed hs ec => exact unreported_finish ha _ _
  | concluded hs ec reason => exact unreported_finish (a := a.transitionTo .stopping) ha ec reason
  | _ => exact ha

/-- Nor are several notes. -/
theorem Notes.unreported (h : Notes shown thrown a b) (ha : Unreported a) : Unreported b := by
  induction h with
  | refl => exact ha
  | tail _ hnote ih => exact hnote.unreported ih

/-- What a step notes tells the reports it takes, and is not of an exception that a session
reports. -/
theorem StepNotes.told (h : StepNotes shown thrown a b) :
    b.told shown = a.told shown ∧ (Unreported a → Unreported b) := by
  cases h with
  | notes h => exact ⟨Notes.told h, Notes.unreported h⟩
  | @start m _ hm h =>
    have hsilent : m.told shown = a.told shown := Note.told (.silent hm : Note shown thrown a m)
    have hbegun : m.beginGeneration.told shown = m.told shown := told_event rfl rfl rfl
    exact ⟨(Notes.told h).trans (hbegun.trans hsilent), fun ha => Notes.unreported
      h (hm.unreported ha)⟩

/-- Several steps of a session, and the reports it makes in them. -/
def Session.steps : Session → List SessionLabel → Option (Session × List SessionReport)
  | session, [] => some (session, [])
  | session, l :: ls => (session.step l).bind fun (session, report) =>
      (session.steps ls).map fun (session, reports) => (session, report.toList ++ reports)

/-- What steps of one session do to the shared part of its listener: the session is replaced, and
its reports reach the strand if the listener exists. -/
structure Reports (alive : Bool) (key : ℕ) (x : Session) (reports : List SessionReport)
    (a b : ListenerCore) : Prop where
  session : b.session? key = some x
  others : ∀ y ∈ b.heap, y ∈ a.heap ∧ y.info.id ≠ key ∨ y = x
  reports : b.reports = a.reports ++ if alive then reports else []
  record : SameRecord a b
  diagnosis : b.status.diagnosis = a.status.diagnosis

/-- One step of a session. -/
theorem reports_step {alive : Bool} {key : ℕ} {l : SessionLabel}
    (h : a.sessionStep alive key l = some b) :
    ∃ x x' report, a.session? key = some x ∧ x.step l = some (x', report) ∧
    Reports alive key x' report.toList a b := by
  obtain ⟨x, hx, h⟩ := Option.bind_eq_some_iff.mp h
  obtain ⟨⟨x', report⟩, hstep, rfl⟩ := Option.map_eq_some_iff.mp h
  have hid : x'.info.id = key := by
    rw [(Session.step_spec hstep).1]
    simpa using List.find?_some hx
  refine ⟨x, x', report, hx, hstep, ?_, fun y hy => ?_, ?_, ⟨rfl, rfl, rfl, rfl, rfl⟩, rfl⟩
  · rw [session?_step a hx hid, if_pos rfl]
  · obtain ⟨z, hz, rfl⟩ := List.mem_map.mp hy
    split
    · exact Or.inr rfl
    · exact Or.inl ⟨hz, ‹_›⟩
  · cases alive <;> simp [reports, List.filterMap_map, Message.report?, Function.comp_def]

/-- Steps of a session follow one another. -/
theorem Reports.trans {alive : Bool} {key : ℕ} {x x' : Session} {first second : List SessionReport}
    {c : ListenerCore} (h : Reports alive key x first a b) (h' : Reports alive key x' second b c) :
    Reports alive key x' (first ++ second) a c := by
  have hid : x.info.id = key := by simpa using List.find?_some h.session
  refine ⟨h'.session, fun y hy => ?_, ?_, h.record.trans h'.record, h'.diagnosis.trans h.diagnosis⟩
  · rcases h'.others y hy with ⟨hy, hne⟩ | hy
    · rcases h.others y hy with ⟨hy, -⟩ | rfl
      · exact Or.inl ⟨hy, hne⟩
      · exact absurd hid hne
    · exact Or.inr hy
  · rw [h'.reports, h.reports]
    cases alive <;> simp

/-- The reports of a session keep a listener alive that exists, and reach no other. -/
theorem sessionStep_referenced {alive : Bool} {key : ℕ} {l : SessionLabel}
    (h : a.sessionStep alive key l = some b) :
    (a.referenced = true → b.referenced = true) ∧
    (alive = false → b.referenced = a.referenced) := by
  obtain ⟨x, -, h⟩ := Option.bind_eq_some_iff.mp h
  obtain ⟨⟨x', report⟩, -, rfl⟩ := Option.map_eq_some_iff.mp h
  constructor
  · intro hreferenced
    simp only [referenced, List.any_append, Bool.or_eq_true] at hreferenced ⊢
    tauto
  · rintro rfl
    simp [referenced]

namespace Listener

/-- The number of the connection that is shown for a session. -/
def shows : Listener → ℕ → ℕ
  | .acceptor _, key => key
  | .socket _, _ => 0

/-- The metadata that is shown carries that number. -/
theorem metadata_id (x : Listener) (report : SessionReport) :
    (x.metadata report).id = x.shows report.info.id := by
  cases x <;> rfl

/-- A step does not change what is shown. -/
theorem step_metadata {x y : Listener} {l : ListenerLabel} (h : x.step l = some y) :
    y.metadata = x.metadata := by
  cases x with
  | acceptor s =>
    cases l with
    | acceptor l =>
      obtain ⟨t, -, rfl⟩ := Option.map_eq_some_iff.mp h
      rfl
    | socket l => contradiction
  | socket s =>
    cases l with
    | acceptor l => contradiction
    | socket l =>
      obtain ⟨t, -, rfl⟩ := Option.map_eq_some_iff.mp h
      rfl

/-- A step of a session acts on the shared part of its listener, and keeps it alive or not. -/
theorem step_session {x y : Listener} {key : ℕ} {l : SessionLabel}
    (h : x.step (x.off (.session key l)) = some y) :
    x.core.sessionStep x.alive key l = some y.core ∧ y.alive = x.alive ∧ y.off = x.off ∧
    y.metadata = x.metadata := by
  cases x with
  | acceptor s =>
    obtain ⟨t, ht, rfl⟩ := Option.map_eq_some_iff.mp h
    obtain ⟨c, hc, rfl⟩ := Option.map_eq_some_iff.mp ht
    refine ⟨hc, ?_, rfl, rfl⟩
    obtain ⟨hkept, hgone⟩ := sessionStep_referenced hc
    change ({ s with core := c } : AcceptorListener).alive = s.alive
    by_cases halive : s.alive = true
    · rw [halive]
      rw [AcceptorListener.alive, Bool.or_eq_true, Bool.or_eq_true] at halive ⊢
      exact halive.imp_left (Or.imp_left hkept)
    · rw [AcceptorListener.alive, hgone (Bool.not_eq_true _ ▸ halive)]
      rfl
  | socket s =>
    obtain ⟨t, ht, rfl⟩ := Option.map_eq_some_iff.mp h
    obtain ⟨c, hc, rfl⟩ := Option.map_eq_some_iff.mp ht
    refine ⟨hc, ?_, rfl, rfl⟩
    obtain ⟨hkept, hgone⟩ := sessionStep_referenced hc
    change c.referenced = s.core.referenced
    cases hs : s.core.referenced with
    | true => exact hkept hs
    | false => exact (hgone hs).trans hs

/-- Several steps of one session act on its listener one after the other. -/
theorem run_session {x y : Listener} {key : ℕ} {l : SessionLabel} {ls : List SessionLabel}
    (h : run step x ((l :: ls).map fun l => x.off (.session key l)) = some y) :
    ∃ session session' reports, x.core.session? key = some session ∧
    session.steps (l :: ls) = some (session', reports) ∧
      Reports x.alive key session' reports x.core y.core ∧ y.alive = x.alive ∧
      y.metadata = x.metadata := by
  induction ls generalizing x l with
  | nil =>
    obtain ⟨z, hz, hy⟩ := run_cons.mp h
    obtain rfl := Option.some.inj hy
    obtain ⟨hcore, halive, -, hmetadata⟩ := step_session hz
    obtain ⟨session, session', report, hsession, hstep, hreports⟩ := reports_step hcore
    exact ⟨session, session', report.toList, hsession, by simp [Session.steps, hstep],
      hreports, halive, hmetadata⟩
  | cons l' ls ih =>
    obtain ⟨z, hz, hy⟩ := run_cons.mp h
    obtain ⟨hcore, halive, hoff, hmetadata⟩ := step_session hz
    obtain ⟨session, session', report, hsession, hstep, hreports⟩ := reports_step hcore
    rw [← hoff] at hy
    obtain ⟨between, last, reports, hbetween, hsteps, hlast, halive', hmetadata'⟩ := ih hy
    obtain rfl : session' = between := Option.some.inj (hreports.session.symm.trans hbetween)
    rw [halive] at hlast
    exact ⟨session, last, report.toList ++ reports, hsession,
      by rw [Session.steps, hstep]; simp [hsteps],
      hreports.trans hlast, halive'.trans halive, hmetadata'.trans hmetadata⟩

end Listener

end Serveza
