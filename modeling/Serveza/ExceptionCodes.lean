import Serveza.SessionAdapters

/-!
# Exceptions are published with their codes

A listener converts every exception that it catches into the error code that stands for it, and the
coroutine adapters do the same. So whenever an event or a snapshot of a listener with coroutine
sessions shows an exception, the error code next to it is the one of that exception. A callback may
report one thing and call its handler with another.
-/

namespace Serveza

open Foundation ListenerCore

/-- The exceptions that a listener has published, and those on its strand, come with their codes. -/
structure Coded (c : ListenerCore) : Prop where
  events : ∀ e ∈ c.events, e.diagnosis.Coded ∧ e.status.diagnosis.Coded
  status : c.status.diagnosis.Coded
  reports : ∀ report ∈ c.reports, report.diagnosis.Coded

namespace Coded

variable {shown : SessionReport → ConnectionInfo} {thrown : ThrownException → Prop}
  {a b : ListenerCore} {e : ListenerEvent}

/-- What is published stays coded while neither the record nor the diagnostics change. -/
theorem same (h : Coded a) (hrecord : SameRecord a b)
    (hdiagnosis : b.status.diagnosis = a.status.diagnosis)
    (hreports : ∀ report ∈ b.reports, report.diagnosis.Coded) : Coded b :=
  ⟨hrecord.events ▸ h.events, hdiagnosis ▸ h.status, hreports⟩

/-- An event is published with its code, and with a snapshot that is coded. -/
theorem publish (h : Coded a) (hevents : b.events = a.events ++ [e]) (hevent : e.diagnosis.Coded)
    (heq : e.status = b.status) (hstatus : b.status.diagnosis.Coded)
    (hreports : b.reports = a.reports) : Coded b := by
  refine ⟨fun x hx => ?_, hstatus, hreports ▸ h.reports⟩
  rcases List.mem_append.mp (hevents ▸ hx) with hx | hx
  · exact h.events x hx
  · rw [List.mem_singleton.mp hx]
    exact ⟨hevent, heq ▸ hstatus⟩

/-- The error that ends a generation comes without an exception. -/
theorem finish (h : Coded a) (ec : ErrorCode) (reason : ListenerStopReason) :
    Coded (a.finish ec reason) := by
  by_cases hs : a.state = .stopped
  · rwa [ListenerCore.finish, if_pos hs]
  · obtain ⟨e, hevents, heq, -, hnone⟩ := finish_announced a ec reason hs
    refine h.publish hevents (fun hsome => ?_) heq ?_ (Aside.finish_reports a ec reason)
    · simp [ListenerEvent.diagnosis, hnone] at hsome
    · rw [finish_diagnosis a ec reason hs]
      split
      · simp [Diagnosis.Coded]
      · exact h.status

/-- The end of a session is published as it was reported. -/
theorem sessionStopped (h : Coded a) (info : ConnectionInfo) {report : SessionReport}
    (hreport : report.diagnosis.Coded) :
    Coded (a.sessionStopped info report) := by
  unfold ListenerCore.sessionStopped
  split
  · exact h.publish rfl hreport rfl hreport rfl
  · exact h.publish rfl hreport rfl h.status rfl

/-- Every note keeps exceptions and codes together. -/
theorem note (h : Coded a) (hnote : Note shown thrown a b) : Coded b := by
  cases hnote with
  | silent hsame =>
    exact h.same hsame.record hsame.diagnosis fun _ hreport => h.reports _ (hsame.mem hreport)
  | sessionStarted info => exact h.publish rfl nofun rfl h.status rfl
  | failure type htype info ec ep hcoded => exact h.publish rfl hcoded rfl hcoded rfl
  | sessionStopped htaken =>
    refine (h.same htaken.record htaken.diagnosis fun _ hreport =>
      h.reports _ (htaken.mem hreport)).sessionStopped _ ?_
    exact h.reports _ (htaken.reports ▸ List.mem_cons_self)
  | running hs => exact h.publish rfl nofun rfl h.status rfl
  | stopping hs ec reason => exact h.publish rfl nofun rfl h.status rfl
  | unarmed hs e he ec => exact h.publish rfl nofun rfl (fun _ => rfl) rfl
  | stopped hs => exact h.finish _ _
  | failed hs ec => exact h.finish _ _
  | concluded hs ec reason =>
    have hstopping : Coded (a.transitionTo .stopping) := h.publish rfl nofun rfl h.status rfl
    exact hstopping.finish ec reason

/-- So do several. -/
theorem notes (h : Coded a) (hnotes : Notes shown thrown a b) : Coded b := by
  induction hnotes with
  | refl => exact h
  | tail _ hnote ih => exact ih.note hnote

/-- So does a step, also one that begins a generation. -/
theorem stepNotes (h : Coded a) (hnotes : StepNotes shown thrown a b) : Coded b := by
  cases hnotes with
  | notes hnotes => exact h.notes hnotes
  | @start m _ hm hnotes =>
    have hsilent : Coded m := h.note (.silent hm : Note shown thrown a m)
    have hbegun : Coded m.beginGeneration := hsilent.publish rfl nofun rfl nofun rfl
    exact hbegun.notes hnotes

end Coded

namespace AdaptedListener

variable {d d' : AdaptedListener} {key : ℕ} {l : AdaptedLabel}

/-- Nothing is published from one state to the other. -/
structure Silent (d d' : AdaptedListener) : Prop where
  record : SameRecord d.listener.core d'.listener.core
  diagnosis : d'.listener.core.status.diagnosis = d.listener.core.status.diagnosis
  adapter : d'.adapter = d.adapter

/-- Steps of a session publish nothing. -/
theorem takes_silent {ls : List SessionLabel} (h : d.takes key ls = some d') : Silent d d' := by
  obtain ⟨y, hrun, rfl⟩ := Option.map_eq_some_iff.mp h
  cases ls with
  | nil =>
    obtain rfl := Option.some.inj hrun
    exact ⟨⟨rfl, rfl, rfl, rfl, rfl⟩, rfl, rfl⟩
  | cons first rest =>
    obtain ⟨session, session', reports, -, -, hreports, -⟩ := Listener.run_session hrun
    exact ⟨hreports.record, hreports.diagnosis, rfl⟩

/-- What is published does not depend on the coroutines. -/
theorem Silent.of_listener {e : AdaptedListener} (h : Silent e d')
    (hlistener : e.listener = d.listener) (hadapter : e.adapter = d.adapter) : Silent d d' :=
  ⟨hlistener ▸ h.record, hlistener ▸ h.diagnosis, hadapter ▸ h.adapter⟩

/-- The completion handler of a session publishes nothing. -/
theorem complete_silent {ec : ErrorCode} (h : d.complete key ec = some d') : Silent d d' :=
  (takes_silent h).of_listener rfl rfl

/-- Entering `async_run` publishes nothing. -/
theorem start_silent {threw : Option ThrownException} (h : d.start key threw = some d') :
    Silent d d' := by
  cases threw with
  | none => exact (takes_silent h).of_listener rfl rfl
  | some e => exact takes_silent (Option.ite_none_right_eq_some.mp h).2

/-- Only steps of the listener publish. -/
theorem step_silent (h : d.step l = some d') (hl : ∀ label, l ≠ .listener label) : Silent d d' := by
  cases l with
  | listener l => exact absurd rfl (hl l)
  | runSession key threw =>
    simp only [step] at h
    split at h
    · exact start_silent h
    · exact takes_silent (Option.ite_none_right_eq_some.mp h).2
  | reportException key e =>
    obtain ⟨-, h⟩ := Option.ite_none_right_eq_some.mp h
    obtain rfl := Option.some.inj h
    exact ⟨⟨rfl, rfl, rfl, rfl, rfl⟩, rfl, rfl⟩
  | invoke key ec => exact complete_silent (Option.ite_none_left_eq_some.mp h).2
  | ends key ep =>
    exact (complete_silent (Option.ite_none_right_eq_some.mp h).2).of_listener rfl rfl

/-- The outcome that a step of a listener with coroutine sessions tells comes with its code. -/
theorem outcome_coded (hspawns : d.adapter.spawns = true) (h : d.step l = some d')
    {p : ℕ × Diagnosis} (hp : d.outcome? l = some p) : p.2.Coded := by
  cases l with
  | listener l => simp [outcome?] at hp
  | runSession key threw =>
    cases threw with
    | none =>
      obtain ⟨-, hp⟩ := Option.ite_none_right_eq_some.mp hp
      obtain rfl := Option.some.inj hp
      simp [Diagnosis.Coded]
    | some e =>
      obtain rfl := Option.some.inj hp
      exact fun _ => rfl
  | reportException key e => simp [outcome?] at hp
  | invoke key ec => simp [step, hspawns] at h
  | ends key ep =>
    obtain rfl := Option.some.inj hp
    exact fun _ => rfl

/-- What a listener with coroutine sessions tells and publishes comes with its codes. -/
structure Credible (start : Listener) (d : AdaptedListener) (outcomes : List (ℕ × Diagnosis)) :
    Prop where
  telling : Telling start d outcomes
  spawns : d.adapter.spawns = true
  outcomes : ∀ p ∈ outcomes, p.2.Coded
  coded : Coded d.listener.core

/-- Reports are outcomes that are still to be told. -/
theorem Telling.reports_coded {start : Listener} {outcomes : List (ℕ × Diagnosis)}
    (h : Telling start d outcomes) (houtcomes : ∀ p ∈ outcomes, p.2.Coded) :
    ∀ report ∈ d.listener.core.reports, report.diagnosis.Coded := by
  intro report hreport
  have hmem : ((d.listener.metadata report).id, report.diagnosis) ∈ d.told :=
    List.mem_append_right _ (List.mem_map.mpr ⟨report, hreport, rfl⟩)
  exact houtcomes _ (h.told ▸ hmem)

/-- The outcomes that a step of a listener with coroutine sessions tells come with their codes. -/
theorem ended_coded (hspawns : d.adapter.spawns = true) (h : d.step l = some d') :
    ∀ p ∈ d.ended l, p.2.Coded := by
  intro p hp
  obtain ⟨q, hq, rfl⟩ := List.mem_map.mp hp
  have hcoded : q.2.Coded :=
    outcome_coded hspawns h (Option.filter_eq_some_iff.mp (Option.mem_toList.mp hq)).1
  exact hcoded

/-- Every step keeps exceptions and codes together. -/
theorem Credible.step {start : Listener} {outcomes : List (ℕ × Diagnosis)}
    (h : Credible start d outcomes) (hstep : d.step l = some d') :
    Credible start d' (outcomes ++ d.ended l) := by
  have htelling := h.telling.step hstep
  have houtcomes : ∀ p ∈ outcomes ++ d.ended l, p.2.Coded := by
    intro p hp
    exact (List.mem_append.mp hp).elim (h.outcomes p) (ended_coded h.spawns hstep p)
  have hreports := htelling.reports_coded houtcomes
  by_cases hl : ∃ label, l = .listener label
  · obtain ⟨label, rfl⟩ := hl
    obtain ⟨-, hstep⟩ := Option.ite_none_left_eq_some.mp hstep
    obtain ⟨y, hy, rfl⟩ := Option.map_eq_some_iff.mp hstep
    refine ⟨htelling, h.spawns, houtcomes, ?_⟩
    rcases Listener.step_notes hy with ⟨call, -, hcall⟩ | ⟨-, hnotes⟩
    · exact h.coded.same hcall.sameRecord hcall.diagnosis hreports
    · exact h.coded.stepNotes hnotes
  · have hsilent : Silent d d' := step_silent hstep fun label hlabel => hl ⟨label, hlabel⟩
    exact ⟨htelling, hsilent.adapter ▸ h.spawns, houtcomes, h.coded.same hsilent.record
      hsilent.diagnosis hreports⟩

end AdaptedListener

/-- Coroutine sessions never let an exception be shown with the code of something else: in every
event of a listener, in the snapshot that the event carries and in the current one, an exception
comes with the error code that stands for it. -/
theorem exceptions_coded {id : ℕ} {config : ListenerConfig} {adapter : Adapter}
    {ls : List AdaptedLabel} {d : AdaptedListener} (hspawns : adapter.spawns = true)
    (hrun :
      run AdaptedListener.step { listener := .create id config, adapter := adapter } ls = some d) :
    (∀ e ∈ d.listener.core.events, e.diagnosis.Coded ∧ e.status.diagnosis.Coded) ∧
      d.listener.core.status.diagnosis.Coded := by
  have hcredible : AdaptedListener.Credible (.create id config) d
      (AdaptedListener.outcomes { listener := .create id config, adapter := adapter } ls) := by
    refine history_invariant (AdaptedListener.Credible (.create id config))
      (fun d l d' outcomes h hstep => ?_) ?_ hrun
    · exact h.step hstep
    · obtain ⟨endpoint, hcore⟩ := Listener.create_core id config
      refine ⟨.create id config adapter, hspawns, by simp, ?_⟩
      simp only [hcore]
      exact ⟨by simp, by simp [Diagnosis.Coded, ListenerStatus.diagnosis, ListenerCore.status],
        by simp [reports]⟩
  exact ⟨hcredible.coded.events, hcredible.coded.status⟩

/-- The exception that a coroutine ended with is shown with its code, also in the last snapshot. -/
theorem exceptions_coded_coroutineFails : ∃ d,
    run AdaptedListener.step { listener := .create 1 defaultSocket, adapter := .awaitable }
      coroutineFails = some d ∧
      d.listener.core.status.diagnosis.exception = some (.systemError .noMemory) ∧
      d.listener.core.status.diagnosis.error = .noMemory := by
  have h : run AdaptedListener.step { listener := .create 1 defaultSocket, adapter := .awaitable }
      coroutineFails = some _ := rfl
  exact ⟨_, h, rfl, (exceptions_coded rfl h).2 rfl⟩

end Serveza
