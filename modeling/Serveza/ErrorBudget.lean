import Serveza.AcceptorRest
import Serveza.StopCauses

/-!
# The budget of accept errors

A running listener retries transient accept errors until a number of them has come in a row.
The counter is reset by an accept that succeeds and by nothing else, so what one generation
leaves in it is charged to the next. The failures are counted from the steps of the run here, and
the counter of the source is shown to agree with them.
-/

namespace Serveza

open Foundation

/-- The accept failures that a listener has processed while it was running, since the last accept
that succeeded: the transient ones of earlier generations, all those of the current generation, and
the transient ones among these. -/
structure AcceptHistory where
  carried : ℕ := 0
  failures : ℕ := 0
  transient : ℕ := 0
  deriving DecidableEq, Repr

namespace AcceptorListener

/-- The step begins a generation: it runs a start that was not cancelled in a listener at rest. -/
def beginsGeneration (s : AcceptorListener) : AcceptorLabel → Bool
  | .run _ =>
    match s.core.strand with
    | .start _ false :: _ => s.core.state = .idle ∨ s.core.state = .stopped
    | _ => false
  | _ => false

/-- The history of failed accepts after a step. -/
def noteAccept (s : AcceptorListener) (l : AcceptorLabel) (past : AcceptHistory) : AcceptHistory :=
  if s.beginsGeneration l then ⟨past.carried + past.transient, 0, 0⟩
  else
    match l with
    | .accepted result _ =>
      if s.core.state ≠ .running then past
      else if result.error.failed then
        { past with
          failures := past.failures + 1
          transient := past.transient + if isTransientAcceptError result.error then 1 else 0 }
      else {}
    | _ => past

/-- The failed accepts of a run of a new listener. -/
def acceptHistory (s : AcceptorListener) (ls : List AcceptorLabel) : AcceptHistory :=
  history step noteAccept s ls {}

variable (s : AcceptorListener) (answers : AcceptorAnswers)

/-- Finishing a generation leaves the counter alone. -/
@[simp] theorem finish_errors (ec : ErrorCode) (reason : ListenerStopReason) :
    (s.finish ec reason).consecutiveAcceptErrors = s.consecutiveAcceptErrors := by
  unfold finish
  split <;> rfl

/-- Draining leaves the counter alone. -/
@[simp] theorem maybeFinish_errors :
    s.maybeFinish.consecutiveAcceptErrors = s.consecutiveAcceptErrors := by
  unfold maybeFinish
  split
  · exact s.finish_errors _ _
  · rfl

/-- Giving the sessions their grace period leaves the counter alone. -/
@[simp] theorem armGrace_errors :
    (s.armGrace answers).consecutiveAcceptErrors = s.consecutiveAcceptErrors := by
  unfold armGrace
  split
  · rfl
  · cases answers.graceTimer <;> rfl

/-- Beginning to stop leaves the counter alone. -/
@[simp] theorem beginStop_errors (ec : ErrorCode) (reason : ListenerStopReason) :
    (s.beginStop answers ec reason).consecutiveAcceptErrors = s.consecutiveAcceptErrors := by
  rcases s.beginStop_cases answers ec reason with ⟨-, heq⟩ | ⟨-, heq⟩ | ⟨-, heq⟩
  · rw [heq, finish_errors]
    rfl
  · rw [heq, maybeFinish_errors, armGrace_errors]
    rfl
  · rw [heq]

/-- Starting the next accept leaves the counter alone. -/
@[simp] theorem acceptNext_errors (reason : ListenerStopReason) :
    (s.acceptNext answers reason).1.consecutiveAcceptErrors = s.consecutiveAcceptErrors := by
  unfold acceptNext
  split
  · exact s.maybeFinish_errors
  · split
    · rfl
    · cases answers.accept with
      | none => rfl
      | some e =>
        exact beginStop_errors (s.mapCore fun c => c.acceptFailed e.error (some e.exception)) _ _ _

/-- The strand step of a start leaves the counter alone. -/
@[simp] theorem startOnStrand_errors (handler : CompletionHandler) :
    (s.startOnStrand answers handler).consecutiveAcceptErrors = s.consecutiveAcceptErrors := by
  rcases s.startOnStrand_cases answers handler with
    ⟨-, heq⟩ | ⟨-, heq⟩ | ⟨-, acceptor, endpoint, -, hbegun⟩
  · rw [heq]
    rfl
  · rw [heq]
    rfl
  · rcases hbegun with ⟨ec, heq⟩ | ⟨t, ec, hnext, ⟨-, heq⟩ | ⟨-, heq⟩⟩
    · rw [heq, finish_errors]
      rfl
    all_goals
      have ht := (s.opened acceptor endpoint).acceptNext_errors answers .startupFailure
      rw [hnext] at ht
      rw [heq]
      exact ht

/-- The strand step of a session's report leaves the counter alone. -/
@[simp] theorem sessionFinished_errors (report : SessionReport) :
    (s.sessionFinished answers report).consecutiveAcceptErrors = s.consecutiveAcceptErrors := by
  have hremoved : (s.removeSession report.info.id).consecutiveAcceptErrors =
      s.consecutiveAcceptErrors := by
    unfold removeSession
    split <;> rfl
  obtain ⟨t, rfl, heq⟩ := s.sessionFinished_eq answers report
  rw [heq, maybeFinish_errors]
  split
  · rw [acceptNext_errors]
    exact hremoved
  · exact hremoved

/-- A transient accept error is counted. -/
theorem retryAccept_errors {acceptEc : ErrorCode} (h : isTransientAcceptError acceptEc = true) :
    (s.retryAccept answers acceptEc).consecutiveAcceptErrors = s.consecutiveAcceptErrors + 1 := by
  have htransient : ¬ (!isTransientAcceptError acceptEc) = true := by simp [h]
  unfold retryAccept
  extract_lets s₁ s₂ s₃
  rw [if_neg htransient]
  split
  · exact beginStop_errors s₂ _ _ _
  · cases answers.retryTimer with
    | none => rfl
    | some e =>
      exact beginStop_errors (s₃.mapCore fun c => c.recordDiagnostic
        (exceptionToError (some e)) (some e)) _ _ _

/-- Every posted message but a report of an accept leaves the counter alone. -/
theorem handle_errors (message : Message) :
    (s.handle answers message).consecutiveAcceptErrors = s.consecutiveAcceptErrors := by
  cases message with
  | start handler cancelled =>
    cases cancelled with
    | true => rfl
    | false => exact s.startOnStrand_errors answers handler
  | stop => exact s.beginStop_errors _ _ _
  | sessionFinished report => exact s.sessionFinished_errors answers report
  | _ => rfl

/-- Only the completion of an accept touches the counter. -/
theorem step_errors {l : AcceptorLabel} {t : AcceptorListener} (h : s.step l = some t)
    (hl : ∀ result answers, l ≠ .accepted result answers) :
    t.consecutiveAcceptErrors = s.consecutiveAcceptErrors := by
  cases s.step_cases h with
  | run hstrand => exact handle_errors _ _ _
  | accepted hpos => exact absurd rfl (hl _ _)
  | retryAborted htake hw => exact maybeFinish_errors _
  | retryDue htake hw => exact acceptNext_errors _ _ _
  | _ => rfl

end AcceptorListener

/-- Moves set no listener starting, and only one that is starting running. -/
theorem moves_accepting {a b : ListenerCore} (h : Moves a b) :
    (b.state = .starting → a.state = .starting) ∧
    (b.state = .running → a.state = .starting ∨ a.state = .running) := by
  induction h with
  | refl => exact ⟨id, Or.inr⟩
  | tail _ hmove ih =>
    cases hmove with
    | quiet hq => exact ⟨fun hs => ih.1 (hq.state ▸ hs), fun hs => ih.2 (hq.state ▸ hs)⟩
    | running hs => exact ⟨nofun, fun _ => Or.inl (ih.1 hs)⟩
    | stopping hs ht => exact ⟨nofun, nofun⟩
    | finish ec reason hs =>
      rw [finish_state]
      exact ⟨nofun, nofun⟩

namespace AcceptorListener

variable {s t : AcceptorListener} {l : AcceptorLabel}

/-- A listener that runs after a step that begins no generation ran before it. -/
theorem running_before (hrest : Rest s) (hbegins : s.beginsGeneration l = false)
    (h : s.step l = some t) (ht : t.core.state = .running) : s.core.state = .running := by
  have hmoves (hm : Moves s.core t.core) : s.core.state = .running :=
    ((moves_accepting hm).2 ht).resolve_left hrest.started
  cases s.step_cases h with
  | core hcall => exact hcall.frame.1 ▸ ht
  | @run answers message rest hstrand =>
    cases message with
    | start handler cancelled =>
      cases cancelled with
      | true => exact ht
      | false =>
        rcases (s.mapCore fun c => { c with strand := rest }).startOnStrand_cases
          answers handler with
          ⟨hs, -⟩ | ⟨-, heq⟩ | ⟨hs, -⟩
        · exact hs
        · simp only [handle, Bool.false_eq_true, if_false, heq] at ht
          exact ht
        · simp only [beginsGeneration, hstrand, decide_eq_false_iff_not] at hbegins
          exact absurd hs hbegins
    | wait w => exact (registerWait_waitsOnly { s.core with strand := rest } w).state ▸ ht
    | cancelWait id => exact (cancelWait_waitsOnly { s.core with strand := rest } id).state ▸ ht
    | stop =>
      have hhalted :=
        (s.mapCore fun c => { c with strand := rest }).beginStop_halted answers .success .requested
      exact absurd hhalted (not_halted_of_running ht)
    | sessionFinished report =>
      have hm := sessionFinished_moves (s.mapCore fun c => { c with strand := rest })
        answers report .refl
      exact ((moves_accepting hm).2 ht).resolve_left hrest.started
    | complete completion => exact ht
  | accepted hpos => exact hmoves (accepted_moves _ _ _ .refl)
  | retryExpires hexpire => exact ht
  | @retryAborted k answers w timer htake hw =>
    exact hmoves (maybeFinish_moves { s with retryTimer := timer } .refl)
  | @retryDue k answers w timer htake hw =>
    exact hmoves (acceptNext_moves { s with retryTimer := timer } _ _ .refl)
  | graceAborted htake hw => exact ht
  | graceDue htake hw => exact ht

end AcceptorListener

/-- The counter holds the transient failures since the last accept that succeeded, and all failures
of a generation that is still running were transient. -/
structure Charged (s : AcceptorListener) (past : AcceptHistory) : Prop where
  errors : s.consecutiveAcceptErrors = past.carried + past.transient
  failures : s.core.state = .running → past.failures = past.transient

namespace AcceptorListener

variable {s t : AcceptorListener}

/-- A transient accept error reports a failure. -/
theorem failed_of_transient {ec : ErrorCode} (h : isTransientAcceptError ec = true) :
    ec.failed = true := by
  simp only [isTransientAcceptError, Bool.or_eq_true, decide_eq_true_eq] at h
  rcases h with (((((rfl | rfl) | rfl) | rfl) | rfl) | rfl) | rfl <;> rfl

/-- A running listener that processes an accept error either halts or goes on running. -/
theorem retryAccept_state (hs : s.core.state = .running) (answers : AcceptorAnswers)
    (acceptEc : ErrorCode) :
    (s.retryAccept answers acceptEc).core.state.Halted ∨
    (s.retryAccept answers acceptEc).core.state = .running := by
  obtain ⟨t, hnoted, ⟨ec, heq⟩ | ⟨tag, heq⟩⟩ := s.retryAccept_cases answers acceptEc
  · rw [heq]
    exact Or.inl (beginStop_halted _ _ _ _)
  · rw [heq]
    exact Or.inr (hnoted.quiet.state.trans hs)

/-- A transient accept error stops a running listener exactly when the counter reaches the limit
or the retry timer cannot be armed, and then for a runtime failure; otherwise it goes on. -/
theorem transient_halts (hs : s.core.state = .running) {result : AcceptResult}
    (answers : AcceptorAnswers) (htransient : isTransientAcceptError result.error = true) :
    ((s.accepted answers result).core.state.Halted ↔
        s.options.maxConsecutiveAcceptErrors ≤ s.consecutiveAcceptErrors + 1 ∨
        answers.retryTimer.isSome = true) ∧
      ((s.accepted answers result).core.state.Halted →
        (s.accepted answers result).core.stopReason = .runtimeFailure) ∧
      (¬ (s.accepted answers result).core.state.Halted →
        (s.accepted answers result).core.state = .running) := by
  have hfailed := failed_of_transient htransient
  have hdecided := s.accepted_decided answers hs result
  have hretry : s.accepted answers result = { s with acceptPending := false }.retryAccept
      answers result.error := by
    simp [accepted, hs, hfailed]
  have hgoes : ¬ (s.accepted answers result).core.state.Halted →
      (s.accepted answers result).core.state = .running := by
    rw [hretry]
    exact (retryAccept_state (s := { s with acceptPending := false }) hs answers
      result.error).resolve_left
  have hcause : s.cause (.accepted result answers) =
      (s.failedAccept answers result.error).map (ListenerStopReason.runtimeFailure, ·) := by
    rw [cause, if_pos hs, if_pos hfailed]
  rw [hcause, failedAccept, htransient] at hdecided
  by_cases hbudget : s.options.maxConsecutiveAcceptErrors ≤ s.consecutiveAcceptErrors + 1
  · rw [if_pos (Or.inr hbudget)] at hdecided
    obtain ⟨hhalted, hreason, -⟩ := hdecided
    exact ⟨⟨fun _ => Or.inl hbudget, fun _ => hhalted⟩, fun _ => hreason, hgoes⟩
  · rw [if_neg (by simp [hbudget])] at hdecided
    cases htimer : answers.retryTimer with
    | none =>
      rw [htimer] at hdecided
      exact ⟨⟨fun hhalted => absurd hhalted hdecided, by simp [hbudget]⟩, fun hhalted =>
        absurd hhalted hdecided, hgoes⟩
    | some e =>
      rw [htimer] at hdecided
      obtain ⟨hhalted, hreason, -⟩ := hdecided
      exact ⟨⟨fun _ => Or.inr rfl, fun _ => hhalted⟩, fun _ => hreason, hgoes⟩

end AcceptorListener

/-- The completion of an accept in a listener that is not running leaves the counter alone. -/
theorem AcceptorListener.accepted_errors_of_not_running {s : AcceptorListener}
    (hs : s.core.state ≠ .running) (answers : AcceptorAnswers) (result : AcceptResult) :
    (s.accepted answers result).consecutiveAcceptErrors = s.consecutiveAcceptErrors := by
  simp only [accepted, hs, ne_eq, not_false_eq_true, if_true]
  exact maybeFinish_errors _

/-- A transient failure of an accept in a running listener is counted, another one is not. -/
theorem AcceptorListener.accepted_errors {s : AcceptorListener} (hs : s.core.state = .running)
    (answers : AcceptorAnswers) {result : AcceptResult} (hfailed : result.error.failed = true) :
    (s.accepted answers result).consecutiveAcceptErrors =
      s.consecutiveAcceptErrors + if isTransientAcceptError result.error then 1 else 0 := by
  have hretry : s.accepted answers result = { s with acceptPending := false }.retryAccept
      answers result.error := by
    simp [accepted, hs, hfailed]
  rw [hretry]
  cases htransient : isTransientAcceptError result.error with
  | true => exact retryAccept_errors _ _ htransient
  | false =>
    unfold retryAccept
    rw [if_pos (by simp [htransient])]
    exact beginStop_errors _ _ _ _

/-- The completion of an accept keeps the counter in step with the history. -/
theorem Charged.accepted {s : AcceptorListener} {past : AcceptHistory} (h : Charged s past)
    (answers : AcceptorAnswers) (result : AcceptResult)
    (hran : (s.accepted answers result).core.state = .running → s.core.state = .running) :
    Charged (s.accepted answers result) (s.noteAccept (.accepted result answers) past) := by
  by_cases hs : s.core.state = .running
  · have hdecided := s.accepted_decided answers hs result
    cases hfailed : result.error.failed with
    | true =>
      have hnote : s.noteAccept (.accepted result answers) past =
          ⟨past.carried, past.failures + 1,
            past.transient + if isTransientAcceptError result.error then 1 else 0⟩ := by
        simp [AcceptorListener.noteAccept, AcceptorListener.beginsGeneration, hs, hfailed]
      rw [hnote]
      refine ⟨?_, fun ht => ?_⟩
      · rw [AcceptorListener.accepted_errors hs answers hfailed, h.errors, Nat.add_assoc]
      · -- A failure that is not transient stops the listener.
        cases htransient : isTransientAcceptError result.error with
        | true => exact congrArg (· + 1) (h.failures hs)
        | false =>
          simp only [AcceptorListener.cause, if_pos hs, hfailed, if_true,
            AcceptorListener.failedAccept, htransient] at hdecided
          exact absurd hdecided.1 (not_halted_of_running ht)
    | false =>
      have hnote : s.noteAccept (.accepted result answers) past = {} := by
        simp [AcceptorListener.noteAccept, AcceptorListener.beginsGeneration, hs, hfailed]
      have hreset : (s.accepted answers result).consecutiveAcceptErrors = 0 := by
        simp only [AcceptorListener.accepted, hs, hfailed, ne_eq, not_true_eq_false,
          Bool.false_eq_true, if_false]
        cases answers.factory <;> exact AcceptorListener.acceptNext_errors _ _ _
      rw [hnote]
      exact ⟨hreset, fun _ => rfl⟩
  · have hnote : s.noteAccept (.accepted result answers) past = past := by
      simp [AcceptorListener.noteAccept, AcceptorListener.beginsGeneration, hs]
    rw [hnote]
    exact ⟨(AcceptorListener.accepted_errors_of_not_running hs answers result).trans h.errors,
      fun ht => absurd (hran ht) hs⟩

/-- Every step keeps the counter in step with the history. -/
theorem Charged.step {s t : AcceptorListener} {l : AcceptorLabel} {past : AcceptHistory}
    (h : Charged s past) (hrest : Rest s) (hstep : s.step l = some t) :
    Charged t (s.noteAccept l past) := by
  cases hbegins : s.beginsGeneration l with
  | true =>
    have hl : ∀ result answers, l ≠ .accepted result answers := by
      rintro result answers rfl
      contradiction
    have hnote : s.noteAccept l past = ⟨past.carried + past.transient, 0, 0⟩ := by
      simp [AcceptorListener.noteAccept, hbegins]
    rw [hnote]
    exact ⟨(s.step_errors hstep hl).trans h.errors, fun _ => rfl⟩
  | false =>
    have hran := AcceptorListener.running_before hrest hbegins hstep
    cases l with
    | accepted result answers =>
      obtain ⟨hpos, hstep⟩ := Option.ite_none_right_eq_some.mp hstep
      obtain rfl := Option.some.inj hstep
      exact Charged.accepted (s := { s with
        acceptor := ⟨s.acceptor.isOpen, s.acceptor.accepts - 1⟩ })
        ⟨h.errors, h.failures⟩ answers result hran
    | _ =>
      simp only [AcceptorListener.noteAccept, hbegins, Bool.false_eq_true, if_false]
      exact ⟨(s.step_errors hstep (by simp)).trans h.errors, fun ht => h.failures (hran ht)⟩

/-- A transient accept error that a running listener processes, in any generation of any run,
stops it exactly when it is at least the last one of the budget, counted since the later of the
start of the generation and the last accept that succeeded in it; and it stops for a runtime
failure. This holds as long as no transient failures of earlier generations are left uncleared by
an accept that succeeded, and the retry timer can be armed. -/
theorem acceptErrors_budget {id : ℕ} {endpoint : Endpoint} {options : AcceptorOptions}
    {ls : List AcceptorLabel} {s t : AcceptorListener}
    (hrun : run AcceptorListener.step (.create id endpoint options) ls = some s)
    (hs : s.core.state = .running) {result : AcceptResult} {answers : AcceptorAnswers}
    (htransient : isTransientAcceptError result.error = true)
    (hstep : s.step (.accepted result answers) = some t)
    (hcarried : ((AcceptorListener.create id endpoint options).acceptHistory ls).carried = 0)
    (htimer : answers.retryTimer = none) :
    (t.core.state.Halted ↔ options.maxConsecutiveAcceptErrors ≤
        ((AcceptorListener.create id endpoint options).acceptHistory ls).failures + 1) ∧
      (t.core.state.Halted → t.core.stopReason = .runtimeFailure) ∧
      (¬ t.core.state.Halted → t.core.state = .running) := by
  obtain ⟨hbooks, -, hcharged⟩ : Books options s ∧ Rest s ∧
      Charged s ((AcceptorListener.create id endpoint options).acceptHistory ls) :=
    history_invariant (fun s past => Books options s ∧ Rest s ∧ Charged s past)
      (fun _ _ _ _ h hstep => ⟨h.1.step hstep, h.2.1.step hstep, h.2.2.step h.2.1 hstep⟩)
      ⟨.create .., ⟨nofun, nofun, nofun⟩, ⟨rfl, fun _ => rfl⟩⟩ hrun
  obtain ⟨hpos, hstep⟩ := Option.ite_none_right_eq_some.mp hstep
  obtain rfl := Option.some.inj hstep
  have hhalts := AcceptorListener.transient_halts
    (s := { s with acceptor := ⟨s.acceptor.isOpen, s.acceptor.accepts - 1⟩ }) hs answers htransient
  have hcount : s.consecutiveAcceptErrors =
      ((AcceptorListener.create id endpoint options).acceptHistory ls).failures := by
    rw [hcharged.errors, hcarried, Nat.zero_add, hcharged.failures hs]
  rw [← hcount, ← hbooks.configured]
  simpa [htimer] using hhalts

/-- A listener that tolerates one accept error in a row. -/
def oneErrorOptions : AcceptorOptions := ⟨{ maxConsecutiveAcceptErrors := 2 }, rfl⟩

/-- The listener is started, an accept fails, and the next one fails as well. -/
theorem acceptErrors_budget_spent : ∃ s t : AcceptorListener,
    run AcceptorListener.step (.create 1 ⟨"127.0.0.1:0", true, false⟩ oneErrorOptions)
        [.core (.asyncStart (.user 0)), .run {}, .accepted { error := .noDescriptors }
          {}, .retryExpires 0,
          .retryHandler 0 {}] = some s ∧
      s.step (.accepted { error := .noMemory } {}) = some t ∧ t.core.state.Halted := by
  have h : run AcceptorListener.step (.create 1 ⟨"127.0.0.1:0", true, false⟩ oneErrorOptions)
      [.core (.asyncStart (.user 0)), .run {}, .accepted { error := .noDescriptors }
        {}, .retryExpires 0, .retryHandler 0 {}] = some _ := rfl
  exact ⟨_, _, h, rfl, (acceptErrors_budget h rfl rfl rfl rfl rfl).1.mpr (by decide)⟩

/-- An accept fails, the listener is stopped and started again. -/
def errorBeforeRestart : List AcceptorLabel :=
  [.core (.asyncStart (.user 0)), .run {}, .accepted { error := .noDescriptors } {},
    .core .stopRead, .core .stopPost, .run {}, .run {}, .core (.asyncStart (.user 1)), .run {}]

/-- The first accept error of the second generation stops a listener that should tolerate one. -/
theorem acceptErrors_carriedOver : ∃ s t : AcceptorListener,
    run AcceptorListener.step (.create 1 ⟨"127.0.0.1:0", true, false⟩ oneErrorOptions)
      errorBeforeRestart = some s ∧
      s.core.state = .running ∧ isTransientAcceptError .noDescriptors = true ∧
      s.step (.accepted { error := .noDescriptors } {}) = some t ∧
      ((AcceptorListener.create 1 ⟨"127.0.0.1:0", true, false⟩ oneErrorOptions).acceptHistory
        errorBeforeRestart).failures + 1 <
        oneErrorOptions.maxConsecutiveAcceptErrors ∧ t.core.state.Halted ∧
          t.core.stopReason = .runtimeFailure :=
  ⟨_, _, rfl, rfl, rfl, rfl, by decide, by decide, rfl⟩

end Serveza
