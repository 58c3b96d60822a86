import Serveza.AcceptorAsides
import Serveza.Lending
import Serveza.Record

/-!
# What a listener notes

The diagnostics of a listener, `last_error` and `last_exception`, are cleared when a generation
begins and overwritten by each failure. The entries of the record leave them open, and also what
becomes of the reports of sessions. The notes below say both for every handler of both classes:
almost every failure is noted together with the event that announces it, and the end of a session
is announced exactly when its report is taken off the strand, as it was reported. The exception is a
retry timer that cannot be armed. What the sessions do between their reports is not covered.
-/

namespace Serveza

open Foundation ListenerCore

/-- The diagnostics of a listener. -/
structure Diagnosis where
  error : ErrorCode := .success
  exception : Option ThrownException := none
  deriving DecidableEq, Repr

/-- The diagnostics of an exception. -/
def ThrownException.diagnosis (e : ThrownException) : Diagnosis :=
  ⟨exceptionToError (some e), some e⟩

/-- The diagnostics name no failure. -/
def Diagnosis.Clean (d : Diagnosis) : Prop := d.error.failed = false ∧ d.exception = none

/-- An exception comes with the error code that stands for it. -/
def Diagnosis.Coded (d : Diagnosis) : Prop :=
  d.exception.isSome = true → d.error = exceptionToError d.exception

/-- The diagnostics in a snapshot. -/
def ListenerStatus.diagnosis (status : ListenerStatus) : Diagnosis :=
  ⟨status.lastError, status.lastException⟩

/-- What an event says of a failure. -/
def ListenerEvent.diagnosis (event : ListenerEvent) : Diagnosis := ⟨event.error, event.exception⟩

/-- What a report says of a failure. -/
def SessionReport.diagnosis (report : SessionReport) : Diagnosis := ⟨report.error, report.exception⟩

/-- The event announces a failure of the listener, apart from those of its sessions. -/
def ListenerEventType.isFailure : ListenerEventType → Bool
  | .acceptFailed | .sessionFactoryFailed | .shutdownForced => true
  | _ => false

/-- No session object holds an exception that its session has reported. -/
def Unreported (c : ListenerCore) : Prop := ∀ x ∈ c.heap, x.exception = none

/-- Neither the record nor the diagnostics have changed, nor what the sessions have reported,
except that some reports were taken off the strand. -/
structure Unnoted (taken : List SessionReport) (a b : ListenerCore) : Prop where
  record : SameRecord a b
  diagnosis : b.status.diagnosis = a.status.diagnosis
  reports : a.reports = taken ++ b.reports
  unreported : Unreported a → Unreported b

/-- One note of a generation, given the metadata that is shown for the report of a session and the
exceptions that the retry timer throws. Only such an exception is noted without an event of its
own. -/
inductive Note (shown : SessionReport → ConnectionInfo) (thrown : ThrownException → Prop) :
    ListenerCore → ListenerCore → Prop where
  | silent {a b} (h : Unnoted [] a b) : Note shown thrown a b
  | sessionStarted {a} (info : ConnectionInfo) : Note shown thrown a
    (a.emit .sessionStarted info .success none)
  | failure {a} (type : ListenerEventType) (h : type.isFailure = true)
    (info : ConnectionInfo) (ec : ErrorCode)
    (ep : Option ThrownException) (hcoded : Diagnosis.Coded ⟨ec, ep⟩) :
    Note shown thrown a ((a.recordDiagnostic ec ep).emit type info ec ep)
  | sessionStopped {a b report} (h : Unnoted [report] a b) : Note shown thrown a
    (b.sessionStopped (shown report) report)
  | running {a} (h : a.state = .starting) : Note shown thrown a (a.transitionTo .running)
  | stopping {a} (h : ¬ a.state.Halted) (ec : ErrorCode) (reason : ListenerStopReason) :
    Note shown thrown a (a.announceStop ec reason)
  | unarmed {a} (h : a.state = .running) (e : ThrownException) (he : thrown e) (ec : ErrorCode) :
    Note shown thrown a ((a.recordDiagnostic (exceptionToError (some e)) (some e)).announceStop ec
      .runtimeFailure)
  | stopped {a} (h : a.state = .stopping) : Note shown thrown a
    (a.finish a.terminalError a.stopReason)
  | failed {a} (h : a.state = .starting) (ec : ErrorCode) : Note shown thrown a
    (a.finish ec .startupFailure)
  | concluded {a} (h : a.state = .running) (ec : ErrorCode) (reason : ListenerStopReason) :
    Note shown thrown a ((a.transitionTo .stopping).finish ec reason)

/-- Several notes in a row. -/
abbrev Notes (shown : SessionReport → ConnectionInfo) (thrown : ThrownException → Prop) :
    ListenerCore → ListenerCore → Prop :=
  Relation.ReflTransGen (Note shown thrown)

/-- What one step notes: notes of the generation, or the beginning of a new one and notes of
that. -/
inductive StepNotes (shown : SessionReport → ConnectionInfo) (thrown : ThrownException → Prop) :
    ListenerCore → ListenerCore → Prop where
  | notes {a b} (h : Notes shown thrown a b) : StepNotes shown thrown a b
  | start {a m b} (hm : Unnoted [] a m) (h : Notes shown thrown m.beginGeneration b) :
    StepNotes shown thrown a b

variable {shown : SessionReport → ConnectionInfo} {thrown : ThrownException → Prop}
  {a b c : ListenerCore}

/-- A record that is as before is compared across several changes. -/
theorem SameRecord.trans (h : SameRecord a b) (h' : SameRecord b c) : SameRecord a c :=
  ⟨h'.state.trans h.state, h'.generation.trans h.generation, h'.stopReason.trans h.stopReason,
    h'.terminalError.trans h.terminalError, h'.events.trans h.events⟩

/-- Nothing is noted if nothing changes. -/
theorem Unnoted.refl (a : ListenerCore) : Unnoted [] a a :=
  ⟨⟨rfl, rfl, rfl, rfl, rfl⟩, rfl, rfl, id⟩

/-- Changes that are not noted may follow one another. -/
theorem Unnoted.trans {taken more : List SessionReport} (h : Unnoted taken a b)
    (h' : Unnoted more b c) :
    Unnoted (taken ++ more) a c :=
  ⟨h.record.trans h'.record, h'.diagnosis.trans h.diagnosis,
    by rw [h.reports, h'.reports, List.append_assoc],
    h'.unreported ∘ h.unreported⟩

/-- The reports that are left were on the strand before. -/
theorem Unnoted.mem {taken : List SessionReport} (h : Unnoted taken a b) {report : SessionReport}
    (hreport : report ∈ b.reports) :
    report ∈ a.reports := by
  rw [h.reports]
  exact List.mem_append_right _ hreport

/-- A change that is not noted may come first. -/
theorem StepNotes.after (h : StepNotes shown thrown b c) (hb : Unnoted [] a b) :
    StepNotes shown thrown a c := by
  cases h with
  | notes h => exact .notes (.head (.silent hb) h)
  | start hm h => exact .start (hb.trans hm) h

/-- Posting to sessions is not noted. -/
theorem unnoted_postTo (a : ListenerCore) (keys : List ℕ) (message : SessionMessage) :
    Unnoted [] a (a.postTo keys message) := by
  refine ⟨⟨rfl, rfl, rfl, rfl, rfl⟩, rfl, rfl, fun h x hx => ?_⟩
  obtain ⟨y, hy, rfl⟩ := List.mem_map.mp hx
  split
  · exact h y hy
  · exact h y hy

/-- A new session object is not noted. -/
theorem unnoted_append (a : ListenerCore) (info : ConnectionInfo) (generation activeSessions : ℕ) :
    Unnoted [] a { a with
    heap := a.heap ++ [{ info := info, generation := generation }]
    activeSessions := activeSessions } := by
  refine ⟨⟨rfl, rfl, rfl, rfl, rfl⟩, rfl, rfl, fun h x hx => ?_⟩
  rcases List.mem_append.mp hx with hx | hx
  · exact h x hx
  · rw [List.mem_singleton.mp hx]

/-- A change that is not noted. -/
theorem Notes.silent (h : Unnoted [] a b) : Notes shown thrown a b := .single (.silent h)

/-- Notes go on with one more. -/
theorem Notes.note (h : Notes shown thrown a b) (hc : Note shown thrown b c) :
    Notes shown thrown a c :=
  h.tail hc

/-- Notes go on with a change that is not noted. -/
theorem Notes.same (h : Notes shown thrown a b) (hc : Unnoted [] b c) : Notes shown thrown a c :=
  h.note (.silent hc)

/-- Completing an operation is not noted. -/
theorem unnoted_completeOn (a : ListenerCore) (completion : Completion) :
    Unnoted [] a (a.completeOn completion) :=
  ⟨sameRecord_completeOn a completion, rfl,
    (waitsOnly_reports (completeOn_waitsOnly a completion)).symm, id⟩

/-- A forced shutdown is noted. -/
theorem Notes.forceShutdown (h : Notes shown thrown a b) (keys : List ℕ) :
    Notes shown thrown a (b.forceShutdown keys) :=
  (h.note (.failure .shutdownForced rfl {} .timedOut none nofun)).same
    (unnoted_postTo _ keys .forceClose)

/-- A step off the strand leaves the diagnostics alone. -/
theorem CallStep.diagnosis {alive : Bool} {l : CoreLabel} (h : CallStep alive l a b) :
    b.status.diagnosis = a.status.diagnosis := by
  cases h <;> rfl

/-- Taking a message off the strand is not noted. -/
theorem unnoted_pop {message : Message} {rest : List Message} (h : a.strand = message :: rest) :
    Unnoted message.report?.toList a { a with strand := rest } := by
  refine ⟨⟨rfl, rfl, rfl, rfl, rfl⟩, rfl, ?_, id⟩
  rw [reports, h, List.filterMap_cons]
  cases message.report? <;> rfl

/-- Registering a wait is not noted. -/
theorem unnoted_registerWait (a : ListenerCore) (w : WaitOperation) :
    Unnoted [] a (a.registerWait w) := by
  refine ⟨sameRecord_registerWait a w, ?_,
    (waitsOnly_reports (registerWait_waitsOnly a w)).symm, ?_⟩
  all_goals
    unfold ListenerCore.registerWait
    split
    · first | rfl | exact id
    · split <;> first | rfl | exact id

/-- Cancelling a wait is not noted. -/
theorem unnoted_cancelWait (a : ListenerCore) (waiter : ℕ) :
    Unnoted [] a (a.cancelWait waiter) := by
  refine ⟨sameRecord_cancelWait a waiter, ?_,
    (waitsOnly_reports (cancelWait_waitsOnly a waiter)).symm, ?_⟩
  all_goals
    unfold ListenerCore.cancelWait
    split <;> first | rfl | exact id

/-- The end of a generation notes its error if no failure was noted before. -/
theorem finish_diagnosis (a : ListenerCore) (ec : ErrorCode) (reason : ListenerStopReason)
    (hs : a.state ≠ .stopped) :
    (a.finish ec reason).status.diagnosis =
      if ec.failed && !a.lastError.failed && a.lastException.isNone then ⟨ec, none⟩
      else a.status.diagnosis := by
  rw [ListenerCore.finish, if_neg hs]
  change Diagnosis.mk (if ec.failed && !a.lastError.failed && a.lastException.isNone then ec
    else a.lastError) a.lastException = _
  split
  · rename_i hnoted
    simp only [Bool.and_eq_true, Option.isNone_iff_eq_none] at hnoted
    rw [hnoted.2]
  · rfl

/-- The end of a generation is announced with the snapshot it leaves, and without an exception. -/
theorem finish_announced (a : ListenerCore) (ec : ErrorCode) (reason : ListenerStopReason)
    (hs : a.state ≠ .stopped) :
    ∃ e, (a.finish ec reason).events = a.events ++ [e] ∧ e.status = (a.finish ec reason).status ∧
      e.type = .stateChanged ∧ e.exception = none := by
  rw [ListenerCore.finish, if_neg hs]
  exact ⟨_, rfl, rfl, rfl, rfl⟩

/-- An exception and its code. -/
theorem FailingException.coded (e : FailingException) :
    Diagnosis.Coded ⟨e.error, some e.exception⟩ :=
  fun _ => rfl

namespace AcceptorListener

variable (s : AcceptorListener) (answers : AcceptorAnswers)

/-- Draining notes the end of the generation or nothing. -/
theorem maybeFinish_notes (h : Notes shown thrown a s.core) :
    Notes shown thrown a s.maybeFinish.core := by
  unfold maybeFinish
  split
  · rename_i hdrained
    rw [finish_core]
    exact h.note (.stopped hdrained.1)
  · exact h

/-- Giving the sessions their grace period is not noted. -/
theorem armGrace_unnoted : Unnoted [] s.core (s.armGrace answers).core := by
  have htimer (timer : Timer Arming) : Unnoted [] s.core { s.core with shutdownTimer := timer } :=
    ⟨⟨rfl, rfl, rfl, rfl, rfl⟩, rfl, rfl, id⟩
  unfold armGrace
  split
  · exact htimer s.core.shutdownTimer
  · cases answers.graceTimer with
    | none => exact htimer _
    | some e => exact (htimer _).trans (unnoted_postTo _ s.sessions .forceClose)

/-- Closing down and giving the sessions their grace period notes the announcement. -/
theorem closeDown_armGrace_unnoted (ec : ErrorCode) (reason : ListenerStopReason) :
    Unnoted [] (s.core.announceStop ec reason) ((s.closeDown ec reason).armGrace answers).core :=
  (unnoted_postTo _ s.sessions .requestStop).trans
    ((s.closeDown ec reason).armGrace_unnoted answers)

/-- Beginning to stop notes the announcement, and the end if nothing is left to drain. -/
theorem beginStop_notes (ec : ErrorCode) (reason : ListenerStopReason)
    (h : Notes shown thrown a s.core) :
    Notes shown thrown a (s.beginStop answers ec reason).core := by
  rcases s.beginStop_cases answers ec reason with ⟨hs, heq⟩ | ⟨hs, heq⟩ | ⟨-, heq⟩
  · rw [heq, finish_core]
    exact (h.note (.stopping (by simp [ListenerState.Halted, hs]) ec reason)).note (.stopped rfl)
  · have hopen : ¬ s.core.state.Halted := by
      rcases hs with hs | hs <;> simp [ListenerState.Halted, hs]
    rw [heq]
    exact maybeFinish_notes _ ((h.note (.stopping hopen ec reason)).same
      (s.closeDown_armGrace_unnoted answers ec reason))
  · rwa [heq]

/-- Starting the next accept notes a failure that stops the listener, the end, or nothing. -/
theorem acceptNext_notes (reason : ListenerStopReason) (h : Notes shown thrown a s.core) :
    Notes shown thrown a (s.acceptNext answers reason).1.core := by
  unfold acceptNext
  split
  · exact s.maybeFinish_notes h
  · split
    · exact h
    · cases answers.accept with
      | none => exact h
      | some e =>
        exact beginStop_notes _ answers e.error reason
          (h.note (.failure .acceptFailed rfl {} _ _ e.coded))

/-- The retry timer is to be armed for an accept error, and it throws. -/
structure RetryThrows (acceptEc : ErrorCode) (e : ThrownException) : Prop where
  transient : isTransientAcceptError acceptEc = true
  errors : s.consecutiveAcceptErrors + 1 < s.options.maxConsecutiveAcceptErrors
  throws : answers.retryTimer = some e

/-- Reacting to a failed accept notes the failure, and a stop if there is one. A retry timer that
cannot be armed stops a running listener. -/
theorem retryAccept_notes (acceptEc : ErrorCode) (hs : s.core.state = .running)
    (hthrown : ∀ e, s.RetryThrows answers acceptEc e → thrown e) (h : Notes shown thrown a s.core) :
    Notes shown thrown a (s.retryAccept answers acceptEc).core := by
  have hfailed : Notes shown thrown a (s.core.acceptFailed acceptEc none) :=
    h.note (.failure .acceptFailed rfl {} acceptEc none nofun)
  unfold retryAccept
  extract_lets s₁ s₂ s₃
  split
  · exact beginStop_notes s₁ answers acceptEc _ hfailed
  · rename_i htransient
    split
    · exact beginStop_notes s₂ answers acceptEc _ hfailed
    · rename_i herrors
      cases htimer : answers.retryTimer with
      | none => exact hfailed
      | some e =>
        have he : thrown e := hthrown e ⟨by simpa using htransient, not_le.mp herrors, htimer⟩
        let s₄ := s₃.mapCore fun c => c.recordDiagnostic (exceptionToError (some e)) (some e)
        have hs₄ : s₄.core.state = .running := hs
        rcases s₄.beginStop_cases answers (exceptionToError (some e)) .runtimeFailure with
          ⟨hidle, -⟩ | ⟨-, heq⟩ | ⟨hhalted, -⟩
        · simp [hs₄] at hidle
        · change Notes shown thrown a
            (s₄.beginStop answers (exceptionToError (some e)) .runtimeFailure).core
          rw [heq]
          have hnote := hfailed.note
            (.unarmed (a := s.core.acceptFailed acceptEc none) hs e he (exceptionToError (some e)))
          exact maybeFinish_notes _ (Notes.same hnote (s₄.closeDown_armGrace_unnoted answers _ _))
        · simp [ListenerState.Halted, hs₄] at hhalted

/-- Holding a new session notes its start. -/
theorem addSession_notes (info : ConnectionInfo) (h : Notes shown thrown a s.core) :
    Notes shown thrown a (s.addSession info).core := by
  have hadded := h.same (unnoted_append s.core info s.core.generation (s.core.activeSessions + 1))
  exact (hadded.note (.sessionStarted info)).same (unnoted_postTo _ [info.id] .start)

/-- What the handler of an accept notes. -/
theorem accepted_notes (result : AcceptResult)
    (hthrown : ∀ e, s.core.state = .running → s.RetryThrows answers result.error e → thrown e)
    (h : Notes shown thrown a s.core) : Notes shown thrown a (s.accepted answers result).core := by
  unfold accepted
  extract_lets s₁ s₂ info
  split
  · exact s₁.maybeFinish_notes h
  · rename_i hs
    split
    · have hrunning : s.core.state = .running := not_not.mp hs
      refine s₁.retryAccept_notes answers result.error hrunning (fun e he => ?_) h
      exact hthrown e hrunning ⟨he.transient, he.errors, he.throws⟩
    · cases answers.factory with
      | some e =>
        exact acceptNext_notes _ answers .runtimeFailure
          (h.note (.failure .sessionFactoryFailed rfl info _ (some e) fun _ => rfl))
      | none => exact acceptNext_notes _ answers .runtimeFailure (s₂.addSession_notes info h)

/-- What the strand step of a session's report notes. -/
theorem sessionFinished_notes (report : SessionReport) (h : Unnoted [report] a s.core) :
    Notes SessionReport.info thrown a (s.sessionFinished answers report).core := by
  obtain ⟨t, rfl, heq⟩ := s.sessionFinished_eq answers report
  have hremoved : Unnoted [] s.core (s.removeSession report.info.id).core := by
    unfold removeSession
    split <;> exact ⟨⟨rfl, rfl, rfl, rfl, rfl⟩, rfl, rfl, id⟩
  have hnoted : Notes SessionReport.info thrown a
      ((s.removeSession report.info.id).core.sessionStopped report.info report) :=
    .single (.sessionStopped (h.trans hremoved))
  rw [heq]
  refine maybeFinish_notes _ ?_
  split
  · exact acceptNext_notes _ answers .runtimeFailure hnoted
  · exact hnoted

/-- What the strand step of a start notes. -/
theorem startOnStrand_notes (handler : CompletionHandler) :
    StepNotes shown thrown s.core (s.startOnStrand answers handler).core := by
  rcases s.startOnStrand_cases answers handler with
    ⟨-, heq⟩ | ⟨-, heq⟩ | ⟨hs, acceptor, endpoint, -, hbegun⟩
  · rw [heq]
    exact .notes (.silent (unnoted_completeOn _ _))
  · rw [heq]
    exact .notes (.silent (unnoted_completeOn _ _))
  · have hopened : Notes shown thrown s.core.beginGeneration (s.opened acceptor endpoint).core :=
      .silent ⟨⟨rfl, rfl, rfl, rfl, rfl⟩, rfl, rfl, id⟩
    refine .start (.refl s.core) ?_
    rcases hbegun with ⟨ec, heq⟩ | ⟨t, ec, hnext, ⟨-, heq⟩ | ⟨hec, heq⟩⟩
    · rw [heq, finish_core]
      exact (hopened.same (unnoted_completeOn _ _)).note (.failed rfl ec)
    · have ht := (s.opened acceptor endpoint).acceptNext_notes answers .startupFailure hopened
      rw [hnext] at ht
      rw [heq]
      exact ht.same (unnoted_completeOn _ _)
    · have hcore :=
        (s.opened acceptor endpoint).acceptNext_core answers .startupFailure (Or.inl rfl)
      rw [hnext] at hcore
      have ht : Notes shown thrown s.core.beginGeneration (t.core.transitionTo .running) := by
        rw [hcore hec]
        exact hopened.note (.running rfl)
      rw [heq]
      exact ht.same (unnoted_completeOn _ _)

/-- The step processes an accept error that is to be retried, and the retry timer throws. -/
def Unarmed (l : AcceptorLabel) (e : ThrownException) : Prop :=
  ∃ result answers, l = .accepted result answers ∧ s.core.state = .running ∧
    s.RetryThrows answers result.error e

/-- What a step on the strand of an accepting listener notes. -/
theorem step_notes {l : AcceptorLabel} {t : AcceptorListener} (h : s.step l = some t)
    (hl : ∀ call, l ≠ .core call) : StepNotes SessionReport.info (s.Unarmed l) s.core t.core := by
  cases s.step_cases h with
  | core hcall => exact absurd rfl (hl _)
  | @run answers message rest hstrand =>
    have hpop (hmessage : message.report? = none) : Unnoted [] s.core { s.core with
        strand := rest } := by
      have hpop := unnoted_pop hstrand
      rwa [hmessage] at hpop
    cases message with
    | start handler cancelled =>
      cases cancelled with
      | true => exact .notes ((Notes.silent (hpop rfl)).same (unnoted_completeOn _ _))
      | false =>
        exact (startOnStrand_notes (s.mapCore fun c => { c with strand := rest }) answers
          handler).after (hpop rfl)
    | wait w => exact .notes ((Notes.silent (hpop rfl)).same (unnoted_registerWait _ w))
    | cancelWait waiter =>
      exact .notes ((Notes.silent (hpop rfl)).same (unnoted_cancelWait _ waiter))
    | stop =>
      exact .notes (beginStop_notes (s.mapCore fun c => { c with strand := rest }) answers _ _
        (.silent (hpop rfl)))
    | sessionFinished report =>
      exact .notes (sessionFinished_notes (s.mapCore fun c => { c with strand := rest }) answers
        report (unnoted_pop hstrand))
    | complete completion =>
      exact .notes ((Notes.silent (hpop rfl)).same ⟨⟨rfl, rfl, rfl, rfl, rfl⟩, rfl, rfl, id⟩)
  | @accepted result answers hpos =>
    refine .notes (accepted_notes _ answers result (fun e hs he => ?_) .refl)
    exact ⟨result, answers, rfl, hs, he.transient, he.errors, he.throws⟩
  | retryExpires hexpire => exact .notes .refl
  | retryAborted htake hw => exact .notes (maybeFinish_notes _ .refl)
  | retryDue htake hw => exact .notes (acceptNext_notes _ _ _ .refl)
  | graceAborted htake hw => exact .notes (.silent ⟨⟨rfl, rfl, rfl, rfl, rfl⟩, rfl, rfl, id⟩)
  | @graceDue k w timer htake hw =>
    have htimer : Unnoted [] s.core { s.core with shutdownTimer := timer } :=
      ⟨⟨rfl, rfl, rfl, rfl, rfl⟩, rfl, rfl, id⟩
    exact .notes (Notes.forceShutdown (.silent htimer) _)

end AcceptorListener

namespace SocketListener

variable (s : SocketListener) (answers : SocketAnswers)

/-- Draining notes the end of the generation or nothing. -/
theorem maybeFinish_notes (h : Notes shown thrown a s.core) :
    Notes shown thrown a s.maybeFinish.core := by
  unfold maybeFinish
  split
  · rename_i hdrained
    exact h.note (.stopped hdrained.1)
  · exact h

/-- Giving the session its grace period is not noted. -/
theorem armGrace_unnoted : Unnoted [] s.core s.armGrace.core := by
  have htimer (timer : Timer Arming) : Unnoted [] s.core { s.core with shutdownTimer := timer } :=
    ⟨⟨rfl, rfl, rfl, rfl, rfl⟩, rfl, rfl, id⟩
  unfold armGrace
  split
  · exact htimer s.core.shutdownTimer
  · exact (htimer _).trans (unnoted_postTo _ s.session.toList .requestStop)

/-- What the strand step of a stop notes. -/
theorem stopOnStrand_notes (h : Notes shown thrown a s.core) :
    Notes shown thrown a s.stopOnStrand.core := by
  have hgrace (hs : ¬ s.core.state.Halted) : Notes shown thrown a
      (s.mapCore fun c => (c.setStopReason .requested).transitionTo
        .stopping).armGrace.maybeFinish.core := by
    have hannounced : Notes shown thrown a
        (s.mapCore fun c => (c.setStopReason .requested).transitionTo .stopping).core :=
      h.note (.stopping hs s.core.terminalError .requested)
    exact maybeFinish_notes _ (hannounced.same (armGrace_unnoted _))
  unfold stopOnStrand
  cases hs : s.core.state with
  | idle =>
    have hannounced : Notes shown thrown a (s.core.announceStop .success .requested) :=
      h.note (.stopping (by simp [ListenerState.Halted, hs]) .success .requested)
    exact hannounced.note (.stopped rfl)
  | starting => exact hgrace (by simp [ListenerState.Halted, hs])
  | running => exact hgrace (by simp [ListenerState.Halted, hs])
  | stopping => exact h
  | stopped => exact h

/-- What the strand step of a session's report notes, without metadata. -/
theorem sessionFinished_notes (report : SessionReport) (h : Unnoted [report] a s.core) :
    Notes (fun _ => {}) thrown a (s.sessionFinished report).core := by
  have hremoved : Unnoted [] s.core { s.core with activeSessions := 0 } :=
    ⟨⟨rfl, rfl, rfl, rfl, rfl⟩, rfl, rfl, id⟩
  obtain ⟨t, ht, heq⟩ := s.sessionFinished_eq report
  have hnoted : Notes (fun _ => {}) thrown a t.core := by
    rw [ht]
    exact .single (.sessionStopped (h.trans hremoved))
  rw [heq]
  by_cases hrunning : t.core.state = .running
  · rw [if_pos hrunning]
    exact hnoted.note (.concluded hrunning report.error _)
  · rw [if_neg hrunning]
    exact t.maybeFinish_notes hnoted

/-- What the strand step of a start notes. -/
theorem startOnStrand_notes (handler : CompletionHandler) :
    StepNotes shown thrown s.core (s.startOnStrand answers handler).core := by
  unfold startOnStrand
  split
  · exact .notes (.silent (unnoted_completeOn _ _))
  · split
    · exact .notes (.silent (unnoted_completeOn _ _))
    · extract_lets s₁ ec s₂
      refine .start (.refl s.core) ?_
      have hbegun : Notes shown thrown s.core.beginGeneration s₁.core := .refl
      have hbound : Notes shown thrown s.core.beginGeneration s₂.core :=
        hbegun.same ⟨⟨rfl, rfl, rfl, rfl, rfl⟩, rfl, rfl, id⟩
      split
      · exact (hbegun.same (unnoted_completeOn _ _)).note (.failed rfl ec)
      · cases answers.factory with
        | some e =>
          have hfailed : Notes shown thrown s.core.beginGeneration
              (s₂.core.sessionFactoryFailed {} (exceptionToError (some e)) (some e)) :=
            hbound.note (.failure .sessionFactoryFailed rfl {} _ _ fun _ => rfl)
          exact (hfailed.same (unnoted_completeOn _ _)).note (.failed rfl _)
        | none =>
          have hadded : Notes shown thrown s.core.beginGeneration s₂.addSession.core :=
            hbound.same (unnoted_append _ _ _ 1)
          have hlaunched : Notes shown thrown s.core.beginGeneration
              ((s₂.addSession.core.transitionTo .running).emit .sessionStarted {} .success none) :=
            (hadded.note (.running rfl)).note (.sessionStarted {})
          exact (hlaunched.same (unnoted_completeOn _ _)).same (unnoted_postTo _ _ .start)

/-- What a step on the strand of a bound-socket listener notes. It has no retry timer. -/
theorem step_notes {l : SocketLabel} {t : SocketListener} (h : s.step l = some t)
    (hl : ∀ call, l ≠ .core call) : StepNotes (fun _ => {}) (fun _ => False) s.core t.core := by
  cases l with
  | core l => exact absurd rfl (hl l)
  | run answers =>
    cases hstrand : s.core.strand with
    | nil => simp [step, hstrand] at h
    | cons message rest =>
      obtain rfl : _ = t := by simpa [step, hstrand] using h
      have hpop (hmessage : message.report? = none) : Unnoted [] s.core { s.core with
          strand := rest } := by
        have hpop := unnoted_pop hstrand
        rwa [hmessage] at hpop
      cases message with
      | start handler cancelled =>
        cases cancelled with
        | true => exact .notes ((Notes.silent (hpop rfl)).same (unnoted_completeOn _ _))
        | false =>
          exact (startOnStrand_notes (s.mapCore fun c => { c with strand := rest }) answers
            handler).after (hpop rfl)
      | wait w => exact .notes ((Notes.silent (hpop rfl)).same (unnoted_registerWait _ w))
      | cancelWait waiter =>
        exact .notes ((Notes.silent (hpop rfl)).same (unnoted_cancelWait _ waiter))
      | stop =>
        exact .notes (stopOnStrand_notes (s.mapCore fun c => { c with strand := rest })
          (.silent (hpop rfl)))
      | sessionFinished report =>
        exact .notes (sessionFinished_notes (s.mapCore fun c => { c with strand := rest }) report
          (unnoted_pop hstrand))
      | complete completion =>
        exact .notes ((Notes.silent (hpop rfl)).same ⟨⟨rfl, rfl, rfl, rfl, rfl⟩, rfl, rfl, id⟩)
  | graceHandler k =>
    obtain ⟨⟨w, timer⟩, htake, rfl⟩ := Option.map_eq_some_iff.mp h
    have htimer : Notes (fun _ => {}) (fun _ => False) s.core { s.core with
        shutdownTimer := timer } :=
      .silent ⟨⟨rfl, rfl, rfl, rfl, rfl⟩, rfl, rfl, id⟩
    refine .notes ?_
    change Notes (fun _ => {}) (fun _ => False) s.core
      ((s.mapCore fun c => { c with shutdownTimer := timer }).graceExpired
        (waitError w.status)).core
    unfold graceExpired
    split
    · exact htimer
    · exact htimer.forceShutdown _

end SocketListener

namespace Listener

/-- The metadata that is shown for the report of a session. -/
def metadata : Listener → SessionReport → ConnectionInfo
  | .acceptor _ => SessionReport.info
  | .socket _ => fun _ => {}

/-- The step is to arm the retry timer of an accepting listener, which throws. -/
def Unarmed : Listener → ListenerLabel → ThrownException → Prop
  | .acceptor s, .acceptor l, e => s.Unarmed l e
  | _, _, _ => False

/-- A step of a listener of either kind is a call, or it is noted. -/
theorem step_notes {x y : Listener} {l : ListenerLabel} (h : x.step l = some y) :
    (∃ call, l.off? = some call ∧ CallStep x.alive call x.core y.core) ∨
      l.off? = none ∧ StepNotes x.metadata (x.Unarmed l) x.core y.core := by
  cases x with
  | acceptor s =>
    cases l with
    | acceptor l =>
      obtain ⟨t, ht, rfl⟩ := Option.map_eq_some_iff.mp h
      cases l with
      | core call =>
        obtain ⟨c, hc, rfl⟩ := Option.map_eq_some_iff.mp ht
        exact Or.inl ⟨call, rfl, call_cases hc⟩
      | _ => exact Or.inr ⟨rfl, s.step_notes ht nofun⟩
    | socket l => contradiction
  | socket s =>
    cases l with
    | acceptor l => contradiction
    | socket l =>
      obtain ⟨t, ht, rfl⟩ := Option.map_eq_some_iff.mp h
      cases l with
      | core call =>
        obtain ⟨c, hc, rfl⟩ := Option.map_eq_some_iff.mp ht
        exact Or.inl ⟨call, rfl, call_cases hc⟩
      | _ => exact Or.inr ⟨rfl, s.step_notes ht nofun⟩

end Listener

end Serveza
