import Serveza.Status

/-!
# Sessions

The object a listener keeps for each session: `connection_state` of the accepting listener
and `session_state` of the bound-socket listener, which differ only in the metadata they
hold. A session runs on a strand of its own. Everything that ends it goes through `finish`,
which acts once: the completion handler of `async_run`, an exception out of `async_run`,
and a forced close. What the user's session does is left open, so its handler may be
invoked at any moment after `async_run` was entered, and any number of times.
-/

namespace Serveza

/-- Work posted to the strand of a session. -/
inductive SessionMessage where
  | start
  | requestStop
  | forceClose
  deriving DecidableEq, Repr

/-- What a finished session tells its listener. -/
structure SessionReport where
  info : ConnectionInfo
  error : ErrorCode
  exception : Option ThrownException
  deriving DecidableEq, Repr

/-- A session object. The source has no `generation`: it records which generation of the
listener created the session and is read by no function. -/
structure Session where
  info : ConnectionInfo
  generation : ℕ
  strand : List SessionMessage := []
  entered : Bool := false
  exception : Option ThrownException := none
  finished : Bool := false
  deriving DecidableEq, Repr

namespace Session

/-- Post to the strand of the session. -/
def post (session : Session) (message : SessionMessage) : Session :=
  { session with strand := session.strand ++ [message] }

/-- End the session, unless it has ended already, and report the end. -/
def finish (session : Session) (ec : ErrorCode) (ep : Option ThrownException) :
    Session × Option SessionReport :=
  if session.finished then (session, none)
  else ({ session with finished := true }, some ⟨session.info, ec, ep⟩)

/-- Run one message of the session's strand. The cancellation that `requestStop` emits
reaches the user's session only, whose reaction is not determined by this code. -/
def handle (session : Session) : SessionMessage → Session × Option SessionReport
  | .start => ({ session with entered := true }, none)
  | .requestStop => (session, none)
  | .forceClose => session.finish .operationAborted none

end Session

/-- What can happen to a session without its listener: its strand runs a message, its
completion handler is invoked, `async_run` throws, or it reports an exception. -/
inductive SessionLabel where
  | run
  | complete (ec : ErrorCode)
  | throws (e : ThrownException)
  | report (e : ThrownException)
  deriving DecidableEq, Repr

/-- One step of a session. The completion handler and an exception need `async_run` to have
been entered; the handler takes the exception that was reported before it. -/
def Session.step (session : Session) : SessionLabel → Option (Session × Option SessionReport)
  | .run =>
    match session.strand with
    | [] => none
    | message :: rest => some ({ session with strand := rest }.handle message)
  | .complete ec =>
    if session.entered then some ({ session with exception := none }.finish ec session.exception)
    else none
  | .throws e =>
    if session.entered then some (session.finish (exceptionToError (some e)) (some e)) else none
  | .report e =>
    if session.entered then some ({ session with exception := some e }, none) else none

namespace Session

variable {session session' : Session} {report : Option SessionReport} {l : SessionLabel}

/-- Ending a session marks it, keeps everything else, and reports exactly when it was open. -/
theorem finish_spec (ec : ErrorCode) (ep : Option ThrownException)
    (h : session.finish ec ep = (session', report)) :
    session'.info = session.info ∧ session'.generation = session.generation ∧
      session'.strand = session.strand ∧ session'.finished = true ∧
      (session.finished = true → report = none) ∧
      (session.finished = false → ∃ r, report = some r ∧ r.info = session.info) := by
  unfold finish at h
  split at h
  · obtain ⟨rfl, rfl⟩ := Prod.mk.inj h
    simp_all
  · obtain ⟨rfl, rfl⟩ := Prod.mk.inj h
    simp_all

/-- A step keeps the identity of a session. It reports at most once: exactly when it ends the
session, and never for a session that has ended. A forced close that is no longer queued has
ended the session. -/
theorem step_spec (h : session.step l = some (session', report)) :
    session'.info = session.info ∧ session'.generation = session.generation ∧
      (session.finished = true → session'.finished = true ∧ report = none) ∧
      (session.finished = false → session'.finished = true → ∃ r, report = some r ∧
        r.info = session.info) ∧
      (session'.finished = false → report = none) ∧
      (.forceClose ∈ session.strand → .forceClose ∈ session'.strand ∨
        session'.finished = true) := by
  cases l with
  | run =>
    cases hs : session.strand with
    | nil => simp [step, hs] at h
    | cons message rest =>
      simp only [step, hs, Option.some.injEq] at h
      cases message with
      | start =>
        obtain ⟨rfl, rfl⟩ := Prod.mk.inj h
        simp_all
      | requestStop =>
        obtain ⟨rfl, rfl⟩ := Prod.mk.inj h
        simp_all
      | forceClose =>
        obtain ⟨hi, hg, -, hf, hold, hnew⟩ := finish_spec _ _ h
        simp_all
  | complete ec =>
    simp only [step] at h
    split at h
    · obtain ⟨hi, hg, hs, hf, hold, hnew⟩ := finish_spec _ _ (Option.some.inj h)
      simp_all
    · contradiction
  | throws e =>
    simp only [step] at h
    split at h
    · obtain ⟨hi, hg, hs, hf, hold, hnew⟩ := finish_spec _ _ (Option.some.inj h)
      simp_all
    · contradiction
  | report e =>
    simp only [step] at h
    split at h
    · obtain ⟨rfl, rfl⟩ := Prod.mk.inj (Option.some.inj h)
      simp_all
    · contradiction

end Session

end Serveza
