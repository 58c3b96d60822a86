import Serveza.Settlement

/-!
# What stops a bound-socket listener

The causes of a stop are a stop request, a failed startup and the end of the bound session. The
step that processes a cause settles the outcome, and no other step halts the listener.
-/

namespace Serveza

open Foundation ListenerCore

variable {a b : ListenerCore} {reason : ListenerStopReason} {ec : ErrorCode}

namespace SocketListener

variable (s : SocketListener) (answers : SocketAnswers)

/-- The error a startup ends with: that of the socket, or of the session factory. -/
def startupError : Option ErrorCode :=
  let ec := answers.bindError s.configuredEndpoint
  if ec.failed then some ec else answers.factory.map fun e => exceptionToError (some e)

/-- The cause of a stop that a posted message stands for when it runs. -/
def messageCause : Message → Option (ListenerStopReason × ErrorCode)
  | .stop => if s.core.state.Halted then none else some (.requested, .success)
  | .start _ cancelled =>
    if cancelled = false ∧ (s.core.state = .idle ∨ s.core.state = .stopped) then
      (s.startupError answers).map (.startupFailure, ·)
    else none
  | .sessionFinished report =>
    if s.core.state = .running then
      some (if report.error.failed then .runtimeFailure else .completed, report.error)
    else none
  | _ => none

/-- The cause of a stop that a step processes, with its reason and its error. -/
def cause : SocketLabel → Option (ListenerStopReason × ErrorCode)
  | .run answers => s.core.strand.head?.bind (s.messageCause answers)
  | _ => none

/-- The strand step of a stop decides the outcome of a listener that is not halted, if no error
is left from before. -/
theorem stopOnStrand_decided (hs : ¬ s.core.state.Halted)
    (hfresh : s.core.terminalError = .success) :
    Decided s.stopOnStrand.core (some (.requested, .success)) := by
  have hgrace :
      Decided (s.mapCore fun c => (c.setStopReason .requested).transitionTo
        .stopping).armGrace.maybeFinish.core
      (some (.requested, .success)) := by
    have hannounced :
        Decided (s.mapCore fun c => (c.setStopReason .requested).transitionTo .stopping).core
        (some (.requested, .success)) := ⟨Or.inl rfl, rfl, hfresh⟩
    exact hannounced.entries (maybeFinish_entries _ (.silent (armGrace_record _)))
  unfold stopOnStrand
  cases hstate : s.core.state with
  | idle => exact finish_decided nofun
  | starting => exact hgrace
  | running => exact hgrace
  | stopping => exact absurd (Or.inl hstate) hs
  | stopped => exact absurd (Or.inr hstate) hs

/-- A start of a listener at rest begins a generation and decides its outcome if the startup
fails. -/
theorem startOnStrand_decided (hs : s.core.state = .idle ∨ s.core.state = .stopped)
    (handler : CompletionHandler) :
    Decided (s.startOnStrand answers handler).core
      ((s.startupError answers).map (.startupFailure, ·)) ∧
      (s.startOnStrand answers handler).core.generation = s.core.generation + 1 := by
  have hrunning : s.core.state ≠ .running := by rcases hs with hs | hs <;> simp [hs]
  have hidle : ¬ (s.core.state ≠ .idle ∧ s.core.state ≠ .stopped) := fun h => hs.elim h.1 h.2
  unfold startOnStrand
  rw [if_neg hrunning, if_neg hidle]
  extract_lets s₁ ec s₂
  change Decided _ ((if ec.failed = true then some ec
    else answers.factory.map fun e => exceptionToError (some e)).map (.startupFailure, ·)) ∧ _
  have hends (u : SocketListener) (code : ErrorCode) (hstate : u.core.state = .starting)
      (hgeneration : u.core.generation = s.core.generation + 1) :
      Decided (u.finish code .startupFailure).core (some (.startupFailure, code)) ∧
        (u.finish code .startupFailure).core.generation = s.core.generation + 1 :=
    ⟨finish_decided (by simp [hstate]),
      (finish_sameGeneration u.core code _).generation.trans hgeneration⟩
  by_cases hfailed : ec.failed = true
  · rw [if_pos hfailed, if_pos hfailed]
    exact hends _ ec rfl rfl
  · rw [if_neg hfailed, if_neg hfailed]
    cases answers.factory with
    | none =>
      refine ⟨?_, rfl⟩
      exact not_halted_of_running rfl
    | some e => exact hends _ _ rfl rfl

/-- Draining needs no cause. -/
theorem maybeFinish_settles (hstate : s.core.state = a.state)
    (hgeneration : s.core.generation = a.generation) :
    Settles a s.maybeFinish.core none := by
  by_cases hhalted : a.state.Halted
  · exact Or.inr ⟨rfl, hhalted,
      (entries_generation (s.maybeFinish_entries .refl)).trans hgeneration⟩
  · have hstopping : s.core.state ≠ .stopping := fun h => hhalted (Or.inl (hstate ▸ h))
    rw [maybeFinish, if_neg fun h => hstopping h.1]
    exact settles_same hstate hgeneration

/-- Running a posted message settles the cause it stands for. -/
theorem handle_settles (hfresh : ¬ s.core.state.Halted → s.core.terminalError = .success)
    (message : Message) :
    Settles s.core (s.handle answers message).core (s.messageCause answers message) := by
  cases message with
  | start handler cancelled =>
    cases cancelled with
    | true => exact settles_same rfl rfl
    | false =>
      rw [handle, messageCause, if_neg (by simp)]
      by_cases hs : s.core.state = .idle ∨ s.core.state = .stopped
      · rw [if_pos ⟨rfl, hs⟩]
        obtain ⟨hdecided, hgeneration⟩ := s.startOnStrand_decided answers hs handler
        exact Or.inl ⟨hdecided, Or.inr hgeneration⟩
      · rw [if_neg fun h => hs h.2]
        rcases s.startOnStrand_cases answers handler with ⟨-, heq⟩ | ⟨-, heq⟩ | ⟨hidle, -⟩
        · rw [heq]
          exact settles_same rfl rfl
        · rw [heq]
          exact settles_same rfl rfl
        · exact absurd hidle hs
  | wait w =>
    have hsame := sameRecord_registerWait s.core w
    exact settles_same hsame.state hsame.generation
  | cancelWait waiter =>
    have hsame := sameRecord_cancelWait s.core waiter
    exact settles_same hsame.state hsame.generation
  | stop =>
    rw [handle, messageCause]
    by_cases hhalted : s.core.state.Halted
    · rw [if_pos hhalted]
      exact Or.inr ⟨rfl, hhalted, entries_generation s.stopOnStrand_entries⟩
    · rw [if_neg hhalted]
      exact Or.inl ⟨s.stopOnStrand_decided hhalted (hfresh hhalted), Or.inl hhalted⟩
  | sessionFinished report =>
    rw [handle, messageCause]
    have hquiet : Quiet s.core ({ s.core with activeSessions := 0 }.sessionStopped {} report) :=
      (quiet_activeSessions s.core 0).trans (quiet_sessionStopped _ _ _)
    obtain ⟨t, ht, heq⟩ := s.sessionFinished_eq report
    have hstate : t.core.state = s.core.state := by rw [ht]; exact hquiet.state
    rw [heq]
    by_cases hs : s.core.state = .running
    · rw [if_pos hs, if_pos (hstate.trans hs)]
      exact Or.inl ⟨finish_decided (by decide : ListenerState.stopping ≠ .stopped),
        Or.inl (not_halted_of_running hs)⟩
    · rw [if_neg hs, if_neg (hstate ▸ hs)]
      exact t.maybeFinish_settles hstate (by rw [ht]; exact hquiet.generation)
  | complete completion => exact settles_same rfl rfl

/-- Every step settles the cause it processes. -/
theorem step_settles (hfresh : ¬ s.core.state.Halted → s.core.terminalError = .success)
    {l : SocketLabel} {t : SocketListener} (h : s.step l = some t) :
    Settles s.core t.core (s.cause l) := by
  cases l with
  | core l =>
    obtain ⟨c, hc, rfl⟩ := Option.map_eq_some_iff.mp h
    exact settles_same (call_cases hc).sameRecord.state (call_cases hc).sameRecord.generation
  | run answers =>
    cases hstrand : s.core.strand with
    | nil => simp [step, hstrand] at h
    | cons message rest =>
      obtain rfl : _ = t := by simpa [step, hstrand] using h
      have hcause : s.cause (.run answers) = s.messageCause answers message := by
        rw [cause, hstrand]; rfl
      rw [hcause]
      exact handle_settles (s.mapCore fun c => { c with strand := rest }) answers hfresh message
  | graceHandler k =>
    obtain ⟨⟨w, timer⟩, htake, rfl⟩ := Option.map_eq_some_iff.mp h
    have hkept :
        ((s.mapCore fun c => { c with shutdownTimer := timer }).graceExpired
          (waitError w.status)).core.state =
          s.core.state ∧
        ((s.mapCore fun c => { c with shutdownTimer := timer }).graceExpired
          (waitError w.status)).core.generation =
          s.core.generation := by
      unfold graceExpired
      split <;> exact ⟨rfl, rfl⟩
    exact settles_same hkept.1 hkept.2

end SocketListener

end Serveza
