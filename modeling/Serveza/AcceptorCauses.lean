import Serveza.AcceptorBooks
import Serveza.Settlement

/-!
# What stops an accepting listener

The causes of a stop, read off the state before a step and the answers the step gets: a stop
request, a failed startup, and an accept that fails for good or cannot be started. The step that
processes a cause in a listener that has not stopped leaves it halted with the reason and the
error of that cause, and no other step halts the listener.
-/

namespace Serveza

open Foundation ListenerCore

variable {a b : ListenerCore} {reason : ListenerStopReason} {ec : ErrorCode}

namespace AcceptorListener

variable (s : AcceptorListener) (answers : AcceptorAnswers)

/-- The error of starting the next accept while a number of sessions is held. -/
def acceptError (sessions : ℕ) : Option ErrorCode :=
  if sessions < s.options.maxActiveSessions then answers.accept.map FailingException.error else none

/-- The error a startup ends with. -/
def startupError : Option ErrorCode :=
  let ec := answers.bindError s.configuredEndpoint
  let ec := if !ec.failed then answers.listening else ec
  if ec.failed then some ec else s.acceptError answers 0

/-- The error a failed accept stops the listener with. -/
def failedAccept (acceptEc : ErrorCode) : Option ErrorCode :=
  if !isTransientAcceptError acceptEc ∨
    s.options.maxConsecutiveAcceptErrors ≤ s.consecutiveAcceptErrors + 1 then
    some acceptEc
  else answers.retryTimer.map fun e => exceptionToError (some e)

/-- The cause of a stop that a posted message stands for when it runs. -/
def messageCause : Message → Option (ListenerStopReason × ErrorCode)
  | .stop => if s.core.state.Halted then none else some (.requested, .success)
  | .start _ cancelled =>
    if cancelled = false ∧ (s.core.state = .idle ∨ s.core.state = .stopped) then
      (s.startupError answers).map (.startupFailure, ·)
    else none
  | .sessionFinished report =>
    if s.core.state = .running ∧ s.acceptPending = false then
      (s.acceptError answers (s.sessions.erase report.info.id).length).map (.runtimeFailure, ·)
    else none
  | _ => none

/-- The cause of a stop that a step processes, with its reason and its error. -/
def cause : AcceptorLabel → Option (ListenerStopReason × ErrorCode)
  | .run answers => s.core.strand.head?.bind (s.messageCause answers)
  | .accepted result answers =>
    if s.core.state = .running then
      if result.error.failed then (s.failedAccept answers result.error).map (.runtimeFailure, ·)
      else (s.acceptError answers (s.sessions.length + if answers.factory.isNone then 1 else 0)).map
        (.runtimeFailure, ·)
    else none
  | .retryHandler k answers =>
    match s.retryTimer.take k with
    | some (w, _) =>
      if w.status ≠ .aborted ∧ (s.core.state = .starting ∨ s.core.state = .running) ∧
        s.acceptPending = false then
        (s.acceptError answers s.sessions.length).map (.runtimeFailure, ·)
      else none
    | none => none
  | _ => none

/-- Beginning to stop a listener that is not halted decides the outcome. -/
theorem beginStop_decided (hs : ¬ s.core.state.Halted) :
    Decided (s.beginStop answers ec reason).core (some (reason, ec)) := by
  have hannounced : Decided (s.core.announceStop ec reason) (some (reason, ec)) :=
    ⟨Or.inl rfl, rfl, rfl⟩
  rcases s.beginStop_cases answers ec reason with ⟨-, heq⟩ | ⟨-, heq⟩ | ⟨hhalted, -⟩
  · rw [heq, finish_core]
    exact hannounced.entries (.single (.stopped rfl))
  · rw [heq]
    exact hannounced.entries
      (maybeFinish_entries _ (.silent (s.closeDown_armGrace_record answers ec reason)))
  · exact absurd hhalted hs

/-- A listener that accepts is not halted. -/
theorem Accepting.not_halted {s : AcceptorListener} (h : s.Accepting) : ¬ s.core.state.Halted := by
  rintro (hs | hs) <;> rcases h with h | h <;> simp [hs] at h

/-- The outcome that starting the next accept decides. -/
def acceptOutcome (reason : ListenerStopReason) : Option (ListenerStopReason × ErrorCode) :=
  if s.acceptPending = false then (s.acceptError answers s.sessions.length).map
    (reason, ·) else none

/-- Starting the next accept decides the outcome if the accept cannot be started, and returns
an error exactly then. -/
theorem acceptNext_decided (hs : s.Accepting) (reason : ListenerStopReason) :
    Decided (s.acceptNext answers reason).1.core (s.acceptOutcome answers reason) ∧
      (s.acceptNext answers reason).2.failed = (s.acceptOutcome answers reason).isSome := by
  unfold acceptNext acceptOutcome acceptError
  cases hpending : s.acceptPending with
  | true =>
    rw [if_pos (Or.inr rfl), maybeFinish_of_not_stopping _ fun hstopping =>
      hs.not_halted (Or.inl hstopping)]
    exact ⟨hs.not_halted, rfl⟩
  | false =>
    rw [if_neg (by rintro (⟨h₁, h₂⟩ | h); exacts [hs.elim h₁ h₂, Bool.noConfusion h]), if_pos rfl]
    by_cases hfull : s.options.maxActiveSessions ≤ s.sessions.length
    · rw [if_pos hfull, if_neg (Nat.not_lt.mpr hfull)]
      exact ⟨hs.not_halted, rfl⟩
    · rw [if_neg hfull, if_pos (Nat.lt_of_not_le hfull)]
      cases answers.accept with
      | none => exact ⟨hs.not_halted, rfl⟩
      | some e =>
        exact ⟨beginStop_decided (s.mapCore fun c => c.acceptFailed e.error (some e.exception))
          answers hs.not_halted, e.failed⟩

/-- Reacting to a failed accept decides the outcome if the listener stops. -/
theorem retryAccept_decided (hs : ¬ s.core.state.Halted) (acceptEc : ErrorCode) :
    Decided (s.retryAccept answers acceptEc).core
      ((s.failedAccept answers acceptEc).map (.runtimeFailure, ·)) := by
  unfold retryAccept failedAccept
  extract_lets s₁ s₂ s₃
  by_cases hfatal : (!isTransientAcceptError acceptEc) = true
  · rw [if_pos hfatal, if_pos (Or.inl hfatal)]
    exact beginStop_decided s₁ answers hs
  · rw [if_neg hfatal]
    by_cases hbudget : s.options.maxConsecutiveAcceptErrors ≤ s.consecutiveAcceptErrors + 1
    · have hspent : s₂.options.maxConsecutiveAcceptErrors ≤ s₂.consecutiveAcceptErrors := hbudget
      rw [if_pos hspent, if_pos (Or.inr hbudget)]
      exact beginStop_decided s₂ answers hs
    · have hspare : ¬ s₂.options.maxConsecutiveAcceptErrors ≤ s₂.consecutiveAcceptErrors := hbudget
      rw [if_neg hspare, if_neg (not_or.mpr ⟨hfatal, hbudget⟩)]
      cases answers.retryTimer with
      | none => exact hs
      | some e =>
        exact beginStop_decided (s₃.mapCore fun c => c.recordDiagnostic (exceptionToError (some e))
          (some e)) answers hs

/-- The handler of an accept decides the outcome if the accept failed for good or the next one
cannot be started. -/
theorem accepted_decided (hs : s.core.state = .running) (result : AcceptResult) :
    Decided (s.accepted answers result).core (s.cause (.accepted result answers)) := by
  have hrunning : ¬ s.core.state ≠ .running := not_not.mpr hs
  rw [cause, if_pos hs]
  unfold accepted
  extract_lets s₁ s₂ info
  rw [if_neg hrunning]
  by_cases hfailed : result.error.failed = true
  · rw [if_pos hfailed, if_pos hfailed]
    exact retryAccept_decided s₁ answers (not_halted_of_running hs) result.error
  · rw [if_neg hfailed, if_neg hfailed]
    cases hfactory : answers.factory with
    | some e =>
      exact (acceptNext_decided
        (s₂.mapCore fun c => c.sessionFactoryFailed info (exceptionToError (some e)) (some e))
        answers (Or.inr hs) .runtimeFailure).1
    | none =>
      have hdecided :=
        (acceptNext_decided (s₂.addSession info) answers (Or.inr hs) .runtimeFailure).1
      have hlength : (s₂.addSession info).sessions.length = s.sessions.length + 1 :=
        List.length_append
      rw [acceptOutcome, hlength] at hdecided
      exact hdecided

/-- Draining changes nothing about a decided outcome. -/
theorem maybeFinish_decided {outcome : Option (ListenerStopReason × ErrorCode)}
    (h : Decided s.core outcome) :
    Decided s.maybeFinish.core outcome := by
  cases outcome with
  | none =>
    rw [s.maybeFinish_of_not_stopping fun hstopping => h (Or.inl hstopping)]
    exact h
  | some outcome => exact Decided.entries h (s.maybeFinish_entries .refl)

/-- Dropping a session touches the sessions and their count only. -/
theorem removeSession_frame (key : ℕ) : (s.removeSession key).sessions = s.sessions.erase key ∧
    (s.removeSession key).options = s.options ∧
    (s.removeSession key).acceptPending = s.acceptPending ∧
    (s.removeSession key).core.state = s.core.state := by
  unfold removeSession
  split
  · exact ⟨rfl, rfl, rfl, rfl⟩
  · rename_i hmem
    exact ⟨(List.erase_of_not_mem hmem).symm, rfl, rfl, rfl⟩

/-- The strand step of a session's report decides the outcome if the next accept cannot be
started. -/
theorem sessionFinished_decided (hs : s.core.state = .running) (report : SessionReport) :
    Decided (s.sessionFinished answers report).core (if s.acceptPending = false then
      (s.acceptError answers (s.sessions.erase report.info.id).length).map
      (.runtimeFailure, ·) else none) := by
  obtain ⟨t, ht, heq⟩ := s.sessionFinished_eq answers report
  obtain ⟨hsessions, hoptions, hpending, hstate⟩ := s.removeSession_frame report.info.id
  have hrunning : t.core.state = .running := by
    rw [ht]
    exact ((quiet_sessionStopped _ _ _).state.trans hstate).trans hs
  have hdecided := (t.acceptNext_decided answers (Or.inr hrunning) .runtimeFailure).1
  have hpending' : t.acceptPending = s.acceptPending := by rw [ht]; exact hpending
  have herror : t.acceptError answers t.sessions.length =
      s.acceptError answers (s.sessions.erase report.info.id).length := by
    rw [acceptError, acceptError, ht]
    simp only [mapCore, hsessions, hoptions]
  rw [acceptOutcome, hpending', herror] at hdecided
  rw [heq, if_pos hrunning]
  exact maybeFinish_decided _ hdecided

/-- A start of a listener at rest begins a generation and decides its outcome if the startup
fails. -/
theorem startOnStrand_decided (hs : s.core.state = .idle ∨ s.core.state = .stopped)
    (hsessions : s.sessions = []) (hpending : s.acceptPending = false)
    (handler : CompletionHandler) :
    Decided (s.startOnStrand answers handler).core
      ((s.startupError answers).map (.startupFailure, ·)) ∧
      (s.startOnStrand answers handler).core.generation = s.core.generation + 1 := by
  have hrunning : s.core.state ≠ .running := by rcases hs with hs | hs <;> simp [hs]
  have hidle : ¬ (s.core.state ≠ .idle ∧ s.core.state ≠ .stopped) := fun h => hs.elim h.1 h.2
  unfold startOnStrand
  rw [if_neg hrunning, if_neg hidle]
  extract_lets s₁ s₂ bindError ec s₃
  change Decided _ ((if ec.failed = true then some ec else s.acceptError answers 0).map
    (.startupFailure, ·)) ∧ _
  by_cases hfailed : ec.failed = true
  · rw [if_pos hfailed, if_pos hfailed, finish_core]
    have hstarting :
        ((s₂.mapCore fun c => c.completeOn ⟨handler, none, ec, .startupFailed⟩).core).state ≠
        .stopped := nofun
    exact ⟨finish_decided hstarting, (finish_sameGeneration _ _ _).generation⟩
  · have houtcome : s₃.acceptOutcome answers .startupFailure =
        (s.acceptError answers 0).map (.startupFailure, ·) := by
      have hempty : s₃.sessions = [] := hsessions
      have hidle : s₃.acceptPending = false := hpending
      rw [acceptOutcome, if_pos hidle, hempty]
      rfl
    rw [if_neg hfailed, if_neg hfailed, ← houtcome]
    obtain ⟨hdecided, herror⟩ := s₃.acceptNext_decided answers (Or.inl rfl) .startupFailure
    have hgeneration : (s₃.acceptNext answers .startupFailure).1.core.generation =
        s.core.generation + 1 :=
      entries_generation (s₃.acceptNext_entries answers .startupFailure (by simp) .refl)
    cases hcause : s₃.acceptOutcome answers .startupFailure with
    | none =>
      rw [hcause] at herror
      simp only [herror, Option.isSome_none, Bool.false_eq_true, if_false]
      refine ⟨?_, hgeneration⟩
      rintro (hstopping | hstopped) <;> contradiction
    | some outcome =>
      rw [hcause] at hdecided herror
      simp only [herror, Option.isSome_some, if_true]
      exact ⟨hdecided, hgeneration⟩

/-- Draining needs no cause. -/
theorem maybeFinish_settles (hstate : s.core.state = a.state)
    (hgeneration : s.core.generation = a.generation) :
    Settles a s.maybeFinish.core none := by
  by_cases hhalted : a.state.Halted
  · exact Or.inr ⟨rfl, hhalted,
      (entries_generation (s.maybeFinish_entries .refl)).trans hgeneration⟩
  · refine Or.inl ⟨maybeFinish_decided s ?_, Or.inl hhalted⟩
    rwa [Decided, hstate]

/-- Running a posted message settles the cause it stands for. -/
theorem handle_settles {options : AcceptorOptions} (hbooks : Books options s) (message : Message) :
    Settles s.core (s.handle answers message).core (s.messageCause answers message) := by
  cases message with
  | start handler cancelled =>
    cases cancelled with
    | true => exact settles_same rfl rfl
    | false =>
      rw [handle, messageCause, if_neg (by simp)]
      by_cases hs : s.core.state = .idle ∨ s.core.state = .stopped
      · obtain ⟨hsessions, hpending, -⟩ := hbooks.released hs
        rw [if_pos ⟨rfl, hs⟩]
        obtain ⟨hdecided, hgeneration⟩ :=
          s.startOnStrand_decided answers hs hsessions hpending handler
        exact Or.inl ⟨hdecided, Or.inr hgeneration⟩
      · rw [if_neg fun h => hs h.2]
        rcases s.startOnStrand_cases answers handler with ⟨-, heq⟩ | ⟨-, heq⟩ | ⟨hidle, -⟩
        · rw [heq]
          exact settles_same rfl rfl
        · rw [heq]
          exact settles_same rfl rfl
        · exact absurd hidle hs
  | wait w =>
    have hsame := sameRecord_registerWait s.core w
    exact settles_same hsame.state hsame.generation
  | cancelWait waiter =>
    have hsame := sameRecord_cancelWait s.core waiter
    exact settles_same hsame.state hsame.generation
  | stop =>
    rw [handle, messageCause]
    by_cases hhalted : s.core.state.Halted
    · rw [if_pos hhalted]
      exact Or.inr ⟨rfl, hhalted,
        entries_generation (s.beginStop_entries answers _ (by simp) .refl)⟩
    · rw [if_neg hhalted]
      exact Or.inl ⟨s.beginStop_decided answers hhalted, Or.inl hhalted⟩
  | sessionFinished report =>
    rw [handle, messageCause]
    by_cases hs : s.core.state = .running
    · have hdecided := s.sessionFinished_decided answers hs report
      simp only [hs, true_and]
      exact Or.inl ⟨hdecided, Or.inl (not_halted_of_running hs)⟩
    · obtain ⟨t, ht, heq⟩ := s.sessionFinished_eq answers report
      have hquiet : Quiet s.core t.core := by
        rw [ht]
        exact (s.removeSession_quiet _).trans (quiet_sessionStopped _ _ _)
      rw [if_neg fun h => hs h.1, heq, if_neg (hquiet.state ▸ hs)]
      exact t.maybeFinish_settles hquiet.state hquiet.generation
  | complete completion => exact settles_same rfl rfl

/-- Every step settles the cause it processes. -/
theorem step_settles {options : AcceptorOptions} (hbooks : Books options s) {l : AcceptorLabel}
    {t : AcceptorListener} (h : s.step l = some t) : Settles s.core t.core (s.cause l) := by
  cases s.step_cases h with
  | core hcall => exact settles_same hcall.sameRecord.state hcall.sameRecord.generation
  | @run answers message rest hstrand =>
    have hcause : s.cause (.run answers) = s.messageCause answers message := by
      rw [cause, hstrand]; rfl
    rw [hcause]
    exact handle_settles (s.mapCore fun c => { c with strand := rest }) answers
      (hbooks.withCore { s.core with strand := rest } rfl rfl) message
  | @accepted result answers hpos =>
    by_cases hs : s.core.state = .running
    · refine Or.inl ⟨?_, Or.inl (not_halted_of_running hs)⟩
      exact accepted_decided { s with
        acceptor := ⟨s.acceptor.isOpen, s.acceptor.accepts - 1⟩ } answers hs result
    · rw [cause, if_neg hs, accepted]
      simp only
      rw [if_pos hs]
      exact maybeFinish_settles _ rfl rfl
  | retryExpires hexpire => exact settles_same rfl rfl
  | @retryAborted k answers w timer htake hw =>
    have hcause : s.cause (.retryHandler k answers) = none := by simp [cause, htake, hw]
    rw [hcause]
    exact maybeFinish_settles _ rfl rfl
  | @retryDue k answers w timer htake hw =>
    by_cases hs : s.Accepting
    · have hcause : s.cause (.retryHandler k answers) =
          { s with retryTimer := timer }.acceptOutcome answers .runtimeFailure := by
        have hs' : s.core.state = .starting ∨ s.core.state = .running := hs
        simp [cause, htake, hw, acceptOutcome, hs', acceptError]
      rw [hcause]
      exact Or.inl ⟨(acceptNext_decided { s with retryTimer := timer } answers hs
        .runtimeFailure).1, Or.inl hs.not_halted⟩
    · have hcause : s.cause (.retryHandler k answers) = none := by
        simp only [cause, htake]
        exact if_neg fun h => hs h.2.1
      rcases acceptNext_cases { s with retryTimer := timer } answers .runtimeFailure with
        ⟨-, heq⟩ | ⟨⟨haccepting, -⟩, -⟩
      · rw [hcause, heq]
        exact maybeFinish_settles _ rfl rfl
      · exact absurd haccepting hs
  | graceAborted htake hw => exact settles_same rfl rfl
  | graceDue htake hw => exact settles_same rfl rfl

end AcceptorListener

end Serveza
