import Serveza.Foundation.Log
import Serveza.Notes

/-!
# The diagnostics are those of the latest failure

An observer that follows the events of a listener knows its diagnostics: those of the latest
failure of the generation, and none before the first. There are two exceptions, and both concern
listeners that stop. A retry timer that cannot be armed stops the listener without an event that
says why, and a generation that ends with an error and without a failure notes that error. Which of
several failures of one generation caused its stop is not covered: the diagnostics are overwritten
by each later failure.
-/

namespace Serveza

open Foundation ListenerCore

/-- The event announces that a generation begins. -/
def ListenerEvent.begins (event : ListenerEvent) : Bool :=
  event.type = .stateChanged && event.status.state = .starting

/-- The event announces a failure. The end of a session is one unless it was cancelled or all
went well. -/
def ListenerEvent.fails (event : ListenerEvent) : Bool :=
  event.type.isFailure || event.type = .sessionStopped && event.error ≠ .operationAborted &&
    (event.error.failed || event.exception.isSome)

/-- What follows from the events: the latest failure of the generation. -/
def diagnose (events : List ListenerEvent) : Diagnosis :=
  events.foldl (fun d e => if e.begins then {} else if e.fails then e.diagnosis else d) {}

/-- A step of a run was to arm the retry timer in a given generation, and the timer threw. -/
def Listener.RetryThrew (start : Listener) (ls : List ListenerLabel) (generation : ℕ)
    (e : ThrownException) : Prop :=
  ∃ before l after x, ls = before ++ l :: after ∧ run Listener.step start before = some x ∧
    x.core.generation = generation ∧ x.Unarmed l e

/-- A run has reached the end of a given generation, with a given terminal error. -/
def Listener.EndedWith (start : Listener) (ls : List ListenerLabel) (generation : ℕ)
    (ec : ErrorCode) : Prop :=
  ∃ before after x, ls = before ++ after ∧ run Listener.step start before = some x ∧
    x.core.state = .stopped ∧ x.core.generation = generation ∧ x.core.terminalError = ec

/-- The diagnostics of a snapshot are explained by the events up to it, given what the retry timer
threw and what ended the generations: they are those of the latest failure, those of an exception
that the retry timer threw in the generation and that stops the listener, or the terminal error of a
generation that ended without a failure. -/
inductive Explained (threw : ℕ → ThrownException → Prop) (ended : ℕ → ErrorCode → Prop)
    (events : List ListenerEvent) (status : ListenerStatus) : Prop where
  | latest (h : status.diagnosis = diagnose events) : Explained threw ended events status
  | unarmed (hstate : status.state.Halted) (hreason : status.stopReason = .runtimeFailure)
    (e : ThrownException) (he : threw status.generation e) (h : status.diagnosis = e.diagnosis) :
    Explained threw ended events status
  | ended (hstate : status.state = .stopped) (hclean : (diagnose events).Clean) (ec : ErrorCode)
    (hec : ec.failed = true) (hended : ended status.generation ec)
    (h : status.diagnosis = ⟨ec, none⟩) : Explained threw ended events status

variable {threw threw' : ℕ → ThrownException → Prop} {ended ended' : ℕ → ErrorCode → Prop}
  {shown : SessionReport → ConnectionInfo} {thrown : ThrownException → Prop}
  {a b : ListenerCore} {events : List ListenerEvent} {status : ListenerStatus} {e : ListenerEvent}

/-- The step that is to arm the retry timer belongs to the generation that it leaves. -/
theorem Listener.Unarmed.generation {x y : Listener} {l : ListenerLabel} {e : ThrownException}
    (h : x.Unarmed l e) (hstep : x.step l = some y) : y.core.generation = x.core.generation := by
  have hrunning : x.core.state = .running := by
    cases x with
    | socket s => exact h.elim
    | acceptor s =>
      cases l with
      | socket l => exact h.elim
      | acceptor l =>
        obtain ⟨result, answers, -, hs, -⟩ := h
        exact hs
  exact (Listener.step_writes hstep).generation_eq (by simp [hrunning])

/-- The notes of a generation keep its number, and once it has stopped its terminal error. -/
theorem Note.kept (h : Note shown thrown a b) :
    b.generation = a.generation ∧
    (a.state = .stopped → b.state = .stopped ∧ b.terminalError = a.terminalError) := by
  have hfinish (c : ListenerCore) (ec : ErrorCode) (reason : ListenerStopReason) :
      (c.finish ec reason).generation = c.generation :=
    (finish_sameGeneration _ _ _).generation
  cases h with
  | silent h =>
    exact ⟨h.record.generation, fun hs => ⟨h.record.state.trans hs, h.record.terminalError⟩⟩
  | sessionStarted info => exact ⟨rfl, fun hs => ⟨hs, rfl⟩⟩
  | failure type h info ec ep hcoded => exact ⟨rfl, fun hs => ⟨hs, rfl⟩⟩
  | sessionStopped h =>
    rw [ListenerCore.sessionStopped]
    split <;> exact ⟨h.record.generation, fun hs =>
      ⟨h.record.state.trans hs, h.record.terminalError⟩⟩
  | running h => exact ⟨rfl, fun hs => by simp [hs] at h⟩
  | stopping h ec reason => exact ⟨rfl, fun hs => by simp [ListenerState.Halted, hs] at h⟩
  | unarmed h e he ec => exact ⟨rfl, fun hs => by simp [hs] at h⟩
  | stopped h => exact ⟨hfinish _ _ _, fun hs => by simp [hs] at h⟩
  | failed h ec => exact ⟨hfinish _ _ _, fun hs => by simp [hs] at h⟩
  | concluded h ec reason => exact ⟨hfinish _ _ _, fun hs => by simp [hs] at h⟩

/-- So do several notes. -/
theorem Notes.kept (h : Notes shown thrown a b) :
    b.generation = a.generation ∧
    (a.state = .stopped → b.state = .stopped ∧ b.terminalError = a.terminalError) := by
  induction h with
  | refl => exact ⟨rfl, fun hs => ⟨hs, rfl⟩⟩
  | tail _ hnote ih =>
    obtain ⟨hgeneration, hstopped⟩ := hnote.kept
    refine ⟨hgeneration.trans ih.1, fun hs => ?_⟩
    obtain ⟨hstate, hterminal⟩ := hstopped (ih.2 hs).1
    exact ⟨hstate, hterminal.trans (ih.2 hs).2⟩

/-- One more event. -/
theorem diagnose_concat (events : List ListenerEvent) (e : ListenerEvent) :
    diagnose (events ++ [e]) = if e.begins then {} else if e.fails then e.diagnosis
    else diagnose events := by
  simp [diagnose]

/-- An event that is no failure changes no diagnostics. -/
theorem diagnose_concat_of_not (events : List ListenerEvent) (hbegins : e.begins = false)
    (hfails : e.fails = false) :
    diagnose (events ++ [e]) = diagnose events := by
  simp [diagnose_concat, hbegins, hfails]

/-- The diagnostics of a listener that is not stopping are those of the latest failure. -/
theorem Explained.latest_of_not_halted (h : Explained threw ended events status)
    (hs : ¬ status.state.Halted) : status.diagnosis = diagnose events := by
  cases h with
  | latest h => exact h
  | unarmed hstate => exact absurd hstate hs
  | ended hstate => exact absurd (Or.inr hstate) hs

/-- An explanation is about the state, the generation, the reason and the diagnostics. -/
theorem Explained.congr {status' : ListenerStatus} (h : Explained threw ended events status)
    (hstate : status'.state = status.state) (hgeneration : status'.generation = status.generation)
    (hreason : status'.stopReason = status.stopReason)
    (hsame : status'.diagnosis = status.diagnosis) :
    Explained threw ended events status' := by
  cases h with
  | latest h => exact .latest (hsame.trans h)
  | unarmed hhalted hruntime e he h =>
    exact .unarmed (hstate ▸ hhalted) (hreason.trans hruntime) e (hgeneration ▸ he) (hsame.trans h)
  | ended hstopped hclean ec hec hended h =>
    exact .ended (hstate.trans hstopped) hclean ec hec (hgeneration ▸ hended) (hsame.trans h)

/-- An explanation stands when more is known of the run. -/
theorem Explained.mono (h : Explained threw ended events status)
    (hthrew : ∀ g e, threw g e → threw' g e) (hended : ∀ g ec, ended g ec → ended' g ec) :
    Explained threw' ended' events status := by
  cases h with
  | latest h => exact .latest h
  | unarmed hstate hreason e he h => exact .unarmed hstate hreason e (hthrew _ _ he) h
  | ended hstate hclean ec hec hec' h => exact .ended hstate hclean ec hec (hended _ _ hec') h

/-- An event that is no failure leaves the explanation as it is. -/
theorem Explained.event (h : Explained threw ended events status) (hbegins : e.begins = false)
    (hfails : e.fails = false) : Explained threw ended (events ++ [e]) status := by
  have hsame := diagnose_concat_of_not events hbegins hfails
  cases h with
  | latest h => exact .latest (h.trans hsame.symm)
  | unarmed hstate hreason e he h => exact .unarmed hstate hreason e he h
  | ended hstate hclean ec hec hended h => exact .ended hstate (hsame ▸ hclean) ec hec hended h

/-- The snapshot of a listener and those in its events are explained. -/
structure Current (threw : ℕ → ThrownException → Prop) (ended : ℕ → ErrorCode → Prop)
    (c : ListenerCore) : Prop where
  events : Logged (fun before e => Explained threw ended (before ++ [e]) e.status) c.events
  status : Explained threw ended c.events c.status

namespace Current

/-- What is explained stays so when more is known of the run. -/
theorem mono (h : Current threw ended a) (hthrew : ∀ g e, threw g e → threw' g e)
    (hended : ∀ g ec, ended g ec → ended' g ec) : Current threw' ended' a := by
  refine ⟨fun before e after hevents => ?_, h.status.mono hthrew hended⟩
  exact (h.events before e after hevents).mono hthrew hended

/-- What is explained stays so while neither the record nor the diagnostics change. -/
theorem same (h : Current threw ended a) (hrecord : SameRecord a b)
    (hdiagnosis : b.status.diagnosis = a.status.diagnosis) : Current threw ended b := by
  refine ⟨hrecord.events ▸ h.events, hrecord.events ▸ ?_⟩
  exact h.status.congr hrecord.state hrecord.generation hrecord.stopReason hdiagnosis

/-- An event carries the snapshot that it is explained for. -/
theorem publish (h : Current threw ended a) (hevents : b.events = a.events ++ [e])
    (hstatus : e.status = b.status)
    (hexplained : Explained threw ended (a.events ++ [e]) b.status) :
    Current threw ended b := by
  refine ⟨?_, hevents ▸ hexplained⟩
  rw [hevents]
  exact logged_concat.mpr ⟨h.events, hstatus ▸ hexplained⟩

/-- The end of a generation notes its error if there was no failure. -/
theorem finish (h : Current threw ended a) (hs : a.state ≠ .stopped) (ec : ErrorCode)
    (reason : ListenerStopReason) (hended : ended a.generation ec)
    (hreason : a.status.diagnosis = diagnose a.events ∨ reason = a.stopReason) :
    Current threw ended (a.finish ec reason) := by
  have hstatus := finish_diagnosis a ec reason hs
  obtain ⟨e, hevents, heq, htype, -⟩ := finish_announced a ec reason hs
  have hstate : (a.finish ec reason).status.state = .stopped := finish_state a ec reason
  have hkept : (a.finish ec reason).status.stopReason = reason := finish_stopReason a ec reason hs
  have hgeneration : (a.finish ec reason).status.generation = a.generation :=
    (finish_sameGeneration _ _ _).generation
  have hbegins : e.begins = false := by simp [ListenerEvent.begins, heq, hstate]
  have hfails : e.fails = false := by simp [ListenerEvent.fails, ListenerEventType.isFailure, htype]
  have hsame := diagnose_concat_of_not a.events hbegins hfails
  have hlatest (hdiagnosis : a.status.diagnosis = diagnose a.events) :
      Explained threw ended (a.events ++ [e]) (a.finish ec reason).status := by
    by_cases hnoted : ec.failed && !a.lastError.failed && a.lastException.isNone
    · rw [if_pos hnoted] at hstatus
      simp only [Bool.and_eq_true, Bool.not_eq_true', Option.isNone_iff_eq_none] at hnoted
      refine .ended hstate ?_ ec hnoted.1.1 (hgeneration ▸ hended) hstatus
      rw [hsame, ← hdiagnosis]
      exact ⟨hnoted.1.2, hnoted.2⟩
    · rw [if_neg hnoted] at hstatus
      exact .latest (hstatus.trans (hdiagnosis.trans hsame.symm))
  refine h.publish hevents heq ?_
  cases h.status with
  | latest hdiagnosis => exact hlatest hdiagnosis
  | unarmed hhalted hruntime x hthrew hx =>
    rcases hreason with hdiagnosis | hreason
    · exact hlatest hdiagnosis
    · have hsome : a.lastException = some x := congrArg Diagnosis.exception hx
      refine .unarmed (Or.inr hstate) (hkept.trans (hreason.trans hruntime)) x ?_ ?_
      · rw [hgeneration]
        exact hthrew
      · rw [hstatus, if_neg (by simp [hsome]), hx]
  | ended hstopped => exact absurd hstopped hs

/-- A failure is noted as it is announced. -/
theorem failure (h : Current threw ended a) {type : ListenerEventType}
    (htype : type.isFailure = true) (info : ConnectionInfo) (ec : ErrorCode)
    (ep : Option ThrownException) :
    Current threw ended ((a.recordDiagnostic ec ep).emit type info ec ep) := by
  refine h.publish rfl rfl (.latest ?_)
  have hbegins : type ≠ .stateChanged := by
    rintro rfl
    simp [ListenerEventType.isFailure] at htype
  have hfails : ListenerEvent.fails ⟨type, (a.recordDiagnostic ec ep).status, info, ec, ep⟩ =
      true := by
    simp [ListenerEvent.fails, htype]
  rw [diagnose_concat, if_neg (by simp [ListenerEvent.begins, hbegins]), if_pos hfails]
  rfl

/-- The end of a session is noted if it is a failure. -/
theorem sessionStopped (h : Current threw ended a) (info : ConnectionInfo)
    (report : SessionReport) :
    Current threw ended (a.sessionStopped info report) := by
  unfold ListenerCore.sessionStopped
  by_cases hfails : report.error ≠ .operationAborted ∧
      (report.error.failed = true ∨ report.exception.isSome = true)
  · rw [if_pos hfails]
    refine h.publish rfl rfl (.latest ?_)
    rw [diagnose_concat, if_neg (by simp [ListenerEvent.begins]),
      if_pos (by simpa [ListenerEvent.fails, ListenerEventType.isFailure] using hfails)]
    rfl
  · rw [if_neg hfails]
    refine h.publish rfl rfl (h.status.event rfl ?_)
    simpa [ListenerEvent.fails, ListenerEventType.isFailure] using hfails

/-- A listener that is not stopping announces a state with the diagnostics it has. -/
theorem announce (h : Current threw ended a) (hs : ¬ a.state.Halted) (ec : ErrorCode)
    (reason : ListenerStopReason) (value : ListenerState) (hvalue : value ≠ .starting) :
    Current threw ended ({ a with terminalError := ec, stopReason := reason }.transitionTo value) ∧
      ({ a with terminalError := ec, stopReason := reason }.transitionTo value).status.diagnosis =
        diagnose ({ a with terminalError := ec, stopReason := reason }.transitionTo
          value).events := by
  have hdiagnosis : a.status.diagnosis =
      diagnose ({ a with terminalError := ec, stopReason := reason }.transitionTo value).events :=
    (h.status.latest_of_not_halted hs).trans (diagnose_concat_of_not a.events
      (by simp [ListenerEvent.begins, ListenerCore.status, hvalue]) rfl).symm
  exact ⟨h.publish rfl rfl (.latest hdiagnosis), hdiagnosis⟩

/-- A note is explained, given the exceptions of the retry timer and the terminal error of the
generation if the note ends it. -/
theorem note (h : Current threw ended a) (hnote : Note shown thrown a b)
    (hthrew : ∀ e, thrown e → threw a.generation e)
    (hended : b.state = .stopped → ended b.generation b.terminalError) : Current threw ended b := by
  have hends (c : ListenerCore) (ec : ErrorCode) (reason : ListenerStopReason)
      (hs : c.state ≠ .stopped) (hb : b = c.finish ec reason) : ended c.generation ec := by
    have hend := hended (by rw [hb]; exact finish_state c ec reason)
    rwa [hb, (finish_eq c ec reason hs).2.2.2.1, (finish_sameGeneration _ _ _).generation] at hend
  cases hnote with
  | silent hsame => exact h.same hsame.record hsame.diagnosis
  | sessionStarted info => exact h.publish rfl rfl (h.status.event rfl rfl)
  | failure type htype info ec ep => exact h.failure htype info ec ep
  | sessionStopped htaken => exact (h.same htaken.record htaken.diagnosis).sessionStopped _ _
  | running hs =>
    exact (h.announce (by simp [ListenerState.Halted, hs]) a.terminalError a.stopReason
      .running (by simp)).1
  | stopping hs ec reason => exact (h.announce hs ec reason .stopping (by simp)).1
  | unarmed hs e he ec => exact h.publish rfl rfl (.unarmed (Or.inl rfl) rfl e (hthrew e he) rfl)
  | stopped hs => exact h.finish (by simp [hs]) _ _ (hends a _ _ (by simp [hs]) rfl) (Or.inr rfl)
  | failed hs ec =>
    have hdiagnosis :=
      h.status.latest_of_not_halted (by simp [ListenerCore.status, ListenerState.Halted, hs])
    exact h.finish (by simp [hs]) _ _ (hends a _ _ (by simp [hs]) rfl) (Or.inl hdiagnosis)
  | concluded hs ec reason =>
    obtain ⟨hstopping, hdiagnosis⟩ :=
      h.announce (by simp [ListenerState.Halted, hs]) a.terminalError
        a.stopReason .stopping (by simp)
    have hopen : (a.transitionTo .stopping).state ≠ .stopped := by
      simp [ListenerCore.transitionTo, emit]
    exact hstopping.finish hopen ec reason (hends _ ec reason hopen rfl) (Or.inl hdiagnosis)

/-- So are several, given the terminal error of the generation if they end it. -/
theorem notes (h : Current threw ended a) (hnotes : Notes shown thrown a b)
    (hthrew : ∀ e, thrown e → threw b.generation e)
    (hended : b.state = .stopped → ended b.generation b.terminalError) : Current threw ended b := by
  induction hnotes using Relation.ReflTransGen.head_induction_on with
  | refl => exact h
  | @head c d hnote hrest ih =>
    obtain ⟨hgeneration, hstopped⟩ := Notes.kept hrest
    refine ih (h.note hnote (fun e he => ?_) fun hs => ?_)
    · rw [← hnote.kept.1, ← hgeneration]
      exact hthrew e he
    · obtain ⟨hstate, hterminal⟩ := hstopped hs
      exact hgeneration ▸ hterminal ▸ hended hstate

/-- A step of a listener is explained. -/
theorem stepNotes (h : Current threw ended a) (hnotes : StepNotes shown thrown a b)
    (hthrew : ∀ e, thrown e → threw b.generation e)
    (hended : b.state = .stopped → ended b.generation b.terminalError) : Current threw ended b := by
  cases hnotes with
  | notes hnotes => exact h.notes hnotes hthrew hended
  | @start m _ hm hnotes =>
    have hsilent : Current threw ended m := h.same hm.record hm.diagnosis
    have hbegun : Current threw ended m.beginGeneration :=
      hsilent.publish rfl rfl (.latest (by rw [diagnose_concat]; rfl))
    exact hbegun.notes hnotes hthrew hended

end Current

/-- The diagnostics of a listener that a run has reached are explained by the run. -/
theorem current_of_run {start x : Listener} {ls : List ListenerLabel}
    (hstart : Current (start.RetryThrew []) (start.EndedWith []) start.core)
    (hrun : run Listener.step start ls = some x) :
    Current (start.RetryThrew ls) (start.EndedWith ls) x.core := by
  induction ls using List.reverseRecOn generalizing x with
  | nil => exact Option.some.inj hrun ▸ hstart
  | append_singleton ls l ih =>
    obtain ⟨u, hu, hlast⟩ := run_append.mp hrun
    obtain ⟨v, hstep, hend⟩ := run_cons.mp hlast
    obtain rfl := Option.some.inj hend
    have hbefore : Current (start.RetryThrew (ls ++ [l])) (start.EndedWith (ls ++ [l])) u.core := by
      refine (ih hu).mono (fun g e hthrew => ?_) fun g ec hended => ?_
      · obtain ⟨before, k, after, y, rfl, hy⟩ := hthrew
        exact ⟨before, k, after ++ [l], y, by simp, hy⟩
      · obtain ⟨before, after, y, rfl, hy⟩ := hended
        exact ⟨before, after ++ [l], y, by simp, hy⟩
    rcases Listener.step_notes hstep with ⟨call, -, hcall⟩ | ⟨-, hnotes⟩
    · exact hbefore.same hcall.sameRecord hcall.diagnosis
    · refine hbefore.stepNotes hnotes (fun e he => ?_) fun hs => ?_
      · exact ⟨ls, l, [], u, rfl, hu, (he.generation hstep).symm, he⟩
      · exact ⟨ls ++ [l], [], v, by simp, hrun, hs, rfl, rfl⟩

/-- The diagnostics a listener publishes are always explained by its events: in its status, and in
the snapshot that each event carries, by the events up to it. They are those of the latest failure
of the generation, or the listener stops and they are those of an exception that the retry timer
threw when a step of that generation was to arm it, or the terminal error of the generation, which
has ended without a failure. As long as the listener is not stopping they are exactly those of the
latest failure of the generation, so that no failure is missed, and none is left over from an
earlier generation. -/
theorem diagnostics_current {id : ℕ} {config : ListenerConfig} {ls : List ListenerLabel}
    {x : Listener} (hrun : run Listener.step (.create id config) ls = some x) :
    Explained ((Listener.create id config).RetryThrew ls) ((Listener.create id config).EndedWith ls)
        x.core.events x.core.status ∧
      (∀ before e after, x.core.events = before ++ e :: after →
        Explained ((Listener.create id config).RetryThrew ls)
          ((Listener.create id config).EndedWith ls)
          (before ++ [e]) e.status) ∧
      (¬ x.core.state.Halted → x.core.status.diagnosis = diagnose x.core.events) := by
  have hcurrent : Current ((Listener.create id config).RetryThrew ls)
      ((Listener.create id config).EndedWith ls) x.core := by
    refine current_of_run ?_ hrun
    obtain ⟨endpoint, hcore⟩ := Listener.create_core id config
    rw [hcore]
    exact ⟨logged_nil, .latest rfl⟩
  exact ⟨hcurrent.status, hcurrent.events, hcurrent.status.latest_of_not_halted⟩

/-- The session of a bound socket fails, which ends the generation, and the listener is started
again. -/
def failedAndRestarted : List ListenerLabel :=
  [.socket (.core (.asyncStart (.user 0))), .socket (.run {}), .socket (.core (.session 1 .run)),
    .socket (.core (.session 1 (.throws (.other 7)))), .socket (.run {}), .socket (.run {}),
    .socket (.core (.asyncStart (.user 1))), .socket (.run {})]

/-- The second generation shows nothing of the exception that ended the first. -/
theorem diagnostics_current_restarted :
    ∃ x, run Listener.step (.create 1 defaultSocket) failedAndRestarted = some x ∧
    x.core.generation = 2 ∧
    (∃ e ∈ x.core.events, e.status.diagnosis = (ThrownException.other 7).diagnosis) ∧
    x.core.status.diagnosis = diagnose x.core.events ∧ diagnose x.core.events = {} := by
  have h : run Listener.step (.create 1 defaultSocket) failedAndRestarted = some _ := rfl
  exact ⟨_, h, rfl, by decide, (diagnostics_current h).2.2 (by decide), rfl⟩

end Serveza
