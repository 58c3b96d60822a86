import Serveza.SessionOutcomes

/-!
# Sessions made by adapters

A listener runs sessions of one kind, and the library makes a user's function a session in three
ways. `callback_session` hands the completion handler to the function. `yield_session` and
`awaitable_session` run the function as a coroutine, and when it ends they report the exception it
ended with, or none, and call the handler with the error code that stands for it.

The exception that a session has reported, `m_ep`, is kept here by adapter and session until the
handler takes it. What a function does is left open: a callback may call its handler at any time
and any number of times, and any function may report exceptions while it runs. A coroutine ends
once. A callback, and a function that only returns an awaitable, may also throw out of
`async_run`.
-/

namespace Serveza

open Foundation ListenerCore

/-- The ways to make a function a session. -/
inductive Adapter where
  | callback
  | yield
  | awaitable
  deriving DecidableEq, Repr

namespace Adapter

/-- The adapter runs the function as a coroutine. -/
def spawns : Adapter → Bool
  | .callback => false
  | _ => true

/-- The function is called by `async_run` itself, and may throw out of it. -/
def mayThrow : Adapter → Bool
  | .yield => false
  | _ => true

end Adapter

/-- A listener with sessions made by an adapter, the coroutines that have not ended, and the
exceptions that the sessions have reported. -/
structure AdaptedListener where
  listener : Listener
  adapter : Adapter
  running : List ℕ := []
  reported : ℕ → Option ThrownException := fun _ => none

/-- The steps: of the listener, of a session's strand, which may enter a function that throws, and
what a function does: it reports an exception, calls its handler, or ends. -/
inductive AdaptedLabel where
  | listener (l : ListenerLabel)
  | runSession (key : ℕ) (threw : Option ThrownException)
  | reportException (key : ℕ) (e : ThrownException)
  | invoke (key : ℕ) (ec : ErrorCode)
  | ends (key : ℕ) (ep : Option ThrownException)

/-- The step is one of a session. -/
def ListenerLabel.isSession (l : ListenerLabel) : Bool :=
  match l.off? with
  | some (.session _ _) => true
  | _ => false

namespace AdaptedListener

variable (d : AdaptedListener)

/-- A session takes some steps within one handler. -/
def takes (key : ℕ) (ls : List SessionLabel) : Option AdaptedListener :=
  (run Listener.step d.listener (ls.map fun l => d.listener.off (.session key l))).map fun x =>
    { d with listener := x }

/-- The completion handler of a session takes the exception that was reported. -/
def complete (key : ℕ) (ec : ErrorCode) : Option AdaptedListener :=
  { d with reported := Function.update d.reported key none }.takes key
    ((d.reported key).toList.map SessionLabel.report ++ [SessionLabel.complete ec])

/-- The message that a session's strand runs next. -/
def next? (key : ℕ) : Option SessionMessage :=
  (d.listener.core.session? key).bind fun x => x.strand.head?

/-- `async_run` has been entered for a session. -/
def isEntered (key : ℕ) : Bool := (d.listener.core.session? key).any fun x => x.entered

/-- Enter `async_run`, which may spawn a coroutine, or throw. -/
def start (key : ℕ) : Option ThrownException → Option AdaptedListener
  | none =>
    { d with running := if d.adapter.spawns then key :: d.running else d.running }.takes key [.run]
  | some e => if d.adapter.mayThrow then d.takes key [.run, .throws e] else none

/-- One step. -/
def step : AdaptedLabel → Option AdaptedListener
  | .listener l =>
    if l.isSession then none else (d.listener.step l).map fun x => { d with listener := x }
  | .runSession key threw =>
    if d.next? key = some .start then d.start key threw
    else if threw = none then d.takes key [.run]
    else none
  | .reportException key e =>
    if d.isEntered key then some { d with reported := Function.update d.reported key (some e) }
    else none
  | .invoke key ec => if d.adapter.spawns then none else d.complete key ec
  | .ends key ep =>
    if key ∈ d.running then
      { d with
        running := d.running.erase key
        reported := Function.update d.reported key ep }.complete key (exceptionToError ep)
    else none

/-- The session that a step may end, and its outcome. -/
def outcome? : AdaptedLabel → Option (ℕ × Diagnosis)
  | .runSession key none =>
    if d.next? key = some .forceClose then some (key, ⟨.operationAborted, none⟩) else none
  | .runSession key (some e) => some (key, e.diagnosis)
  | .invoke key ec => some (key, ⟨ec, d.reported key⟩)
  | .ends key ep => some (key, ⟨exceptionToError ep, ep⟩)
  | _ => none

/-- A session that has not ended. -/
def isOpen (key : ℕ) : Bool := (d.listener.core.session? key).any fun x => !x.finished

/-- The outcome of a session that a step ends, with the number of the connection that is shown,
unless the listener does not exist any more. -/
def ended (l : AdaptedLabel) : List (ℕ × Diagnosis) :=
  ((d.outcome? l).filter fun p => d.listener.alive && d.isOpen p.1).toList.map fun p =>
    (d.listener.shows p.1, p.2)

end AdaptedListener

/-- Steps that end a session with an outcome, unless it has ended: it reports the outcome, and no
exception is left behind. -/
structure Session.Ends (session : Session) (d : Diagnosis) (session' : Session)
    (reports : List SessionReport) : Prop where
  exception : session'.exception = none
  reports : reports = if session.finished then [] else [⟨session.info, d.error, d.exception⟩]

namespace Session

variable {session session' : Session} {reports : List SessionReport}

/-- The first of several steps. -/
theorem steps_cons {l : SessionLabel} {ls : List SessionLabel}
    (h : session.steps (l :: ls) = some (session', reports)) :
    ∃ between report rest, session.step l = some (between, report) ∧
    between.steps ls = some (session', rest) ∧
      reports = report.toList ++ rest := by
  obtain ⟨⟨between, report⟩, hstep, h⟩ := Option.bind_eq_some_iff.mp h
  obtain ⟨⟨last, rest⟩, hrest, h⟩ := Option.map_eq_some_iff.mp h
  obtain ⟨rfl, rfl⟩ := Prod.mk.inj h
  exact ⟨between, report, rest, hstep, hrest, rfl⟩

/-- A single step. -/
theorem steps_singleton {l : SessionLabel} (h : session.steps [l] = some (session', reports)) :
    ∃ report, session.step l = some (session', report) ∧ reports = report.toList := by
  obtain ⟨between, report, rest, hstep, hrest, rfl⟩ := steps_cons h
  obtain ⟨rfl, rfl⟩ := Prod.mk.inj (Option.some.inj hrest)
  exact ⟨report, hstep, List.append_nil _⟩

/-- Finishing a session that has reported nothing. -/
theorem ends_finish (h : session.exception = none) {ec : ErrorCode} {ep : Option ThrownException}
    {report : Option SessionReport} (hfinish : session.finish ec ep = (session', report)) :
    session.Ends ⟨ec, ep⟩ session' report.toList := by
  unfold finish at hfinish
  split at hfinish
  · obtain ⟨rfl, rfl⟩ := Prod.mk.inj hfinish
    exact ⟨h, by simp [*]⟩
  · obtain ⟨rfl, rfl⟩ := Prod.mk.inj hfinish
    exact ⟨h, by simp [*]⟩

/-- The handler takes the exception that was reported. -/
theorem ends_step {ec : ErrorCode} {report : Option SessionReport}
    (hstep : session.step (.complete ec) = some (session', report)) :
    session.Ends ⟨ec, session.exception⟩ session' report.toList := by
  obtain ⟨-, hstep⟩ := Option.ite_none_right_eq_some.mp hstep
  obtain ⟨hexception, hreports⟩ := ends_finish rfl (Option.some.inj hstep)
  exact ⟨hexception, hreports⟩

/-- The handler ends a session with its error code and the exception that was reported. -/
theorem ends_complete (h : session.exception = none) {ec : ErrorCode} {ep : Option ThrownException}
    (hsteps : session.steps (ep.toList.map SessionLabel.report ++ [SessionLabel.complete ec]) =
      some (session', reports)) :
    session.Ends ⟨ec, ep⟩ session' reports := by
  cases ep with
  | none =>
    obtain ⟨report, hstep, rfl⟩ := steps_singleton hsteps
    exact h ▸ ends_step hstep
  | some e =>
    obtain ⟨between, report, rest, hfirst, hsecond, rfl⟩ := steps_cons hsteps
    obtain ⟨report', hstep, rfl⟩ := steps_singleton hsecond
    obtain ⟨-, hfirst⟩ := Option.ite_none_right_eq_some.mp hfirst
    obtain ⟨rfl, rfl⟩ := Prod.mk.inj (Option.some.inj hfirst)
    obtain ⟨hexception, hreports⟩ := ends_step hstep
    exact ⟨hexception, hreports⟩

/-- A message of its strand other than a forced close leaves a session without an end. -/
theorem steps_run (h : session.exception = none) {message : SessionMessage}
    {rest : List SessionMessage} (hstrand : session.strand = message :: rest)
    (hmessage : message ≠ .forceClose) (hsteps : session.steps [.run] = some (session', reports)) :
    session'.exception = none ∧ reports = [] := by
  obtain ⟨report, hstep, rfl⟩ := steps_singleton hsteps
  simp only [step, hstrand, Option.some.injEq] at hstep
  cases message with
  | start =>
    obtain ⟨rfl, rfl⟩ := Prod.mk.inj hstep
    exact ⟨h, rfl⟩
  | requestStop =>
    obtain ⟨rfl, rfl⟩ := Prod.mk.inj hstep
    exact ⟨h, rfl⟩
  | forceClose => exact absurd rfl hmessage

/-- A forced close ends a session with an abort. -/
theorem ends_forceClose (h : session.exception = none) {rest : List SessionMessage}
    (hstrand : session.strand = .forceClose :: rest)
    (hsteps : session.steps [.run] = some (session', reports)) :
    session.Ends ⟨.operationAborted, none⟩ session' reports := by
  obtain ⟨report, hstep, rfl⟩ := steps_singleton hsteps
  simp only [step, hstrand, Option.some.injEq] at hstep
  obtain ⟨hexception, hreports⟩ := ends_finish (by exact h) hstep
  exact ⟨hexception, hreports⟩

/-- A function that throws ends its session with the exception. -/
theorem ends_throws (h : session.exception = none) {rest : List SessionMessage}
    (hstrand : session.strand = .start :: rest) {e : ThrownException}
    (hsteps : session.steps [.run, .throws e] = some (session', reports)) :
    session.Ends e.diagnosis session' reports := by
  obtain ⟨between, report, last, hfirst, hsecond, rfl⟩ := steps_cons hsteps
  obtain ⟨report', hstep, rfl⟩ := steps_singleton hsecond
  simp only [step, hstrand, Option.some.injEq] at hfirst
  obtain ⟨rfl, rfl⟩ := Prod.mk.inj hfirst
  simp only [step, if_true, Option.some.injEq] at hstep
  obtain ⟨hexception, hreports⟩ := ends_finish (by exact h) hstep
  exact ⟨hexception, hreports⟩

end Session

/-- What is reported by sessions is told after what was reported before. -/
theorem told_reports {alive : Bool} {key : ℕ} {x : Session} {reports : List SessionReport}
    {a b : ListenerCore} (h : Reports alive key x reports a b)
    (shown : SessionReport → ConnectionInfo) : b.told shown =
      a.told shown ++ (if alive then reports else []).map fun report =>
      ((shown report).id, report.diagnosis) := by
  rw [told, told, h.record.events, h.reports, List.map_append, List.append_assoc]

/-- A session without an exception may take the place of one. -/
theorem unreported_reports {alive : Bool} {key : ℕ} {x : Session} {reports : List SessionReport}
    {a b : ListenerCore} (h : Reports alive key x reports a b) (ha : Unreported a)
    (hx : x.exception = none) : Unreported b := by
  intro y hy
  rcases h.others y hy with ⟨hy, -⟩ | rfl
  · exact ha y hy
  · exact hx

/-- A step off the strand that is none of a session reports nothing. -/
theorem CallStep.told {alive : Bool} {l : CoreLabel} {a b : ListenerCore} (h : CallStep alive l a b)
    (hl : ∀ key label, l ≠ .session key label) (shown : SessionReport → ConnectionInfo) :
    b.told shown = a.told shown ∧ (Unreported a → Unreported b) := by
  have hsame (hevents : b.events = a.events) (hreports : b.reports = a.reports) :
      b.told shown = a.told shown := by
    rw [ListenerCore.told, ListenerCore.told, hevents, hreports]
  cases h with
  | session hx hstep => exact absurd rfl (hl _ _)
  | cancelStart => exact ⟨hsame rfl (by simp [reports, List.filterMap_map]), id⟩
  | asyncStart hpos => exact ⟨hsame rfl (reports_append rfl (by simp [Message.report?])), id⟩
  | postWait hw => exact ⟨hsame rfl (reports_append rfl (by simp [Message.report?])), id⟩
  | postCancel hmem halive => exact ⟨hsame rfl (reports_append rfl (by simp [Message.report?])), id⟩
  | stopPost hpos => exact ⟨hsame rfl (reports_append rfl (by simp [Message.report?])), id⟩
  | _ => exact ⟨hsame rfl rfl, id⟩

namespace AdaptedListener

variable {d d' : AdaptedListener} {key : ℕ} {l : AdaptedLabel}

/-- The outcomes that have been told and those that are to be told. -/
def told (d : AdaptedListener) : List (ℕ × Diagnosis) := d.listener.core.told d.listener.metadata

/-- What a step of an adapted listener does, as far as outcomes are concerned: it is made of steps
of the listener, it tells the outcome of the session it ends after all others, and no exception is
left behind. -/
structure Tells (d : AdaptedListener) (outcomes : List (ℕ × Diagnosis)) (d' : AdaptedListener) :
    Prop where
  reachable : Reachable Listener.step d.listener d'.listener
  unreported : Unreported d'.listener.core
  told : d'.told = d.told ++ outcomes

/-- The session of a key has the key as its number. -/
theorem shows_session {x : Session} (hx : d.listener.core.session? key = some x)
    (report : SessionReport) (hinfo : report.info = x.info) :
    (d.listener.metadata report).id = d.listener.shows key := by
  have hid : x.info.id = key := by simpa using List.find?_some hx
  rw [Listener.metadata_id, hinfo, hid]

/-- Steps that end a session tell its outcome if it was open and the listener exists. -/
theorem takes_ends {ls : List SessionLabel} {outcome : Diagnosis} (hun : Unreported d.listener.core)
    (h : d.takes key ls = some d') (hne : ls ≠ [])
    (hends : ∀ x x' reports, d.listener.core.session? key = some x → x.exception = none →
      x.steps ls = some (x', reports) → x.Ends outcome x' reports) :
    Tells d (if d.listener.alive && d.isOpen key then [(d.listener.shows key, outcome)] else [])
      d' := by
  obtain ⟨first, rest, rfl⟩ := List.exists_cons_of_ne_nil hne
  obtain ⟨y, hrun, rfl⟩ := Option.map_eq_some_iff.mp h
  obtain ⟨x, x', reports, hx, hsteps, hreports, halive, hmetadata⟩ := Listener.run_session hrun
  have hend := hends x x' reports hx (hun x (List.mem_of_find?_eq_some hx)) hsteps
  refine ⟨⟨_, hrun⟩, unreported_reports hreports hun hend.exception, ?_⟩
  have hopen : d.isOpen key = !x.finished := by simp [isOpen, hx]
  rw [AdaptedListener.told, AdaptedListener.told, hmetadata, told_reports hreports,
    hend.reports, hopen]
  cases d.listener.alive with
  | false => simp
  | true =>
    cases x.finished with
    | true => simp
    | false => simp [shows_session hx, SessionReport.diagnosis]

/-- The message of a session's strand that ends nothing. -/
theorem takes_run {message : SessionMessage} (hun : Unreported d.listener.core)
    (h : d.takes key [.run] = some d') (hnext : d.next? key = some message)
    (hmessage : message ≠ .forceClose) : Tells d [] d' := by
  obtain ⟨y, hrun, rfl⟩ := Option.map_eq_some_iff.mp h
  obtain ⟨x, x', reports, hx, hsteps, hreports, halive, hmetadata⟩ := Listener.run_session hrun
  obtain ⟨rest, hstrand⟩ : ∃ rest, x.strand = message :: rest := by
    simpa [next?, hx, List.head?_eq_some_iff] using hnext
  obtain ⟨hexception, rfl⟩ :=
    Session.steps_run (hun x (List.mem_of_find?_eq_some hx)) hstrand hmessage hsteps
  refine ⟨⟨_, hrun⟩, unreported_reports hreports hun hexception, ?_⟩
  rw [AdaptedListener.told, AdaptedListener.told, hmetadata, told_reports hreports]
  cases d.listener.alive <;> rfl

/-- What is told does not depend on the coroutines. -/
theorem Tells.of_listener {e : AdaptedListener} {outcomes : List (ℕ × Diagnosis)}
    (h : Tells e outcomes d') (heq : e.listener = d.listener) : Tells d outcomes d' := by
  refine ⟨heq ▸ h.reachable, h.unreported, ?_⟩
  rw [h.told, AdaptedListener.told, AdaptedListener.told, heq]

/-- The outcome that a step tells. -/
theorem ended_of_outcome {outcome : Diagnosis} (h : d.outcome? l = some (key, outcome)) :
    d.ended l = if d.listener.alive && d.isOpen key then [(d.listener.shows key, outcome)]
    else [] := by
  rw [ended, h, Option.filter_some]
  split <;> rfl

/-- The completion handler of a session tells its outcome. -/
theorem complete_tells {ec : ErrorCode} {ep : Option ThrownException}
    (hun : Unreported d.listener.core) (h : d.complete key ec = some d')
    (hep : d.reported key = ep) :
    Tells d (if d.listener.alive && d.isOpen key then [(d.listener.shows key, ⟨ec, ep⟩)] else [])
      d' := by
  subst hep
  exact (takes_ends (by exact hun) h (by simp) fun _ _ _ _ hx hsteps => Session.ends_complete hx
    hsteps).of_listener rfl

/-- A message of a session's strand tells a forced close. -/
theorem run_tells (hun : Unreported d.listener.core) (h : d.takes key [.run] = some d') :
    Tells d (d.ended (.runSession key none)) d' := by
  obtain ⟨y, hrun, -⟩ := Option.map_eq_some_iff.mp h
  obtain ⟨x, x', reports, hx, hsteps, -⟩ := Listener.run_session hrun
  cases hstrand : x.strand with
  | nil =>
    obtain ⟨report, hstep, -⟩ := Session.steps_singleton hsteps
    simp [Session.step, hstrand] at hstep
  | cons message rest =>
    have hnext : d.next? key = some message := by simp [next?, hx, hstrand]
    by_cases hmessage : message = .forceClose
    · subst hmessage
      have houtcome : d.outcome? (.runSession key none) = some (key, ⟨.operationAborted, none⟩) :=
        by simp [outcome?, hnext]
      rw [ended_of_outcome houtcome]
      refine takes_ends hun h (by simp) fun y y' reports hy hexception hsteps => ?_
      obtain rfl : x = y := Option.some.inj (hx.symm.trans hy)
      exact Session.ends_forceClose hexception hstrand hsteps
    · have hnone : d.ended (.runSession key none) = [] := by simp [ended, outcome?, hnext, hmessage]
      rw [hnone]
      exact takes_run hun h hnext hmessage

/-- Entering `async_run` tells the exception that it throws. -/
theorem start_tells {threw : Option ThrownException} (hun : Unreported d.listener.core)
    (hnext : d.next? key = some .start) (h : d.start key threw = some d') :
    Tells d (d.ended (.runSession key threw)) d' := by
  cases threw with
  | none =>
    have hnone : d.ended (.runSession key none) = [] := by simp [ended, outcome?, hnext]
    rw [hnone]
    exact (takes_run (by exact hun) h (by exact hnext) (by simp)).of_listener rfl
  | some e =>
    obtain ⟨-, h⟩ := Option.ite_none_right_eq_some.mp h
    rw [ended_of_outcome rfl]
    refine takes_ends hun h (by simp) fun x x' reports hx hexception hsteps => ?_
    obtain ⟨rest, hstrand⟩ : ∃ rest, x.strand = .start :: rest := by
      simpa [next?, hx, List.head?_eq_some_iff] using hnext
    exact Session.ends_throws hexception hstrand hsteps

/-- What a step of an adapted listener tells. -/
theorem step_tells (hun : Unreported d.listener.core) (h : d.step l = some d') :
    Tells d (d.ended l) d' := by
  cases l with
  | listener l =>
    obtain ⟨hsession, h⟩ := Option.ite_none_left_eq_some.mp h
    obtain ⟨y, hstep, rfl⟩ := Option.map_eq_some_iff.mp h
    have htold : y.core.told d.listener.metadata = d.listener.core.told d.listener.metadata ∧
        Unreported y.core := by
      rcases Listener.step_notes hstep with ⟨call, hcall, hstep⟩ | ⟨-, hnotes⟩
      · have hother (key : ℕ) (label : SessionLabel) : call ≠ .session key label := by
          rintro rfl
          simp [ListenerLabel.isSession, hcall] at hsession
        obtain ⟨htold, hkept⟩ := hstep.told hother d.listener.metadata
        exact ⟨htold, hkept hun⟩
      · exact ⟨hnotes.told.1, hnotes.told.2 hun⟩
    refine ⟨⟨[l], run_cons.mpr ⟨y, hstep, rfl⟩⟩, htold.2, ?_⟩
    rw [AdaptedListener.told, Listener.step_metadata hstep, htold.1]
    exact (List.append_nil _).symm
  | runSession key threw =>
    simp only [step] at h
    split at h
    · exact start_tells hun ‹_› h
    · obtain ⟨rfl, h⟩ := Option.ite_none_right_eq_some.mp h
      exact run_tells hun h
  | reportException key e =>
    obtain ⟨-, h⟩ := Option.ite_none_right_eq_some.mp h
    obtain rfl := Option.some.inj h
    exact ⟨Reachable.refl _, hun, (List.append_nil _).symm⟩
  | invoke key ec =>
    obtain ⟨-, h⟩ := Option.ite_none_left_eq_some.mp h
    rw [ended_of_outcome rfl]
    exact complete_tells hun h rfl
  | ends key ep =>
    obtain ⟨-, h⟩ := Option.ite_none_right_eq_some.mp h
    rw [ended_of_outcome rfl]
    exact (complete_tells (by exact hun) h (Function.update_self ..)).of_listener rfl

/-- The outcomes of the sessions that a run ends, in order. -/
def outcomes (d : AdaptedListener) (ls : List AdaptedLabel) : List (ℕ × Diagnosis) :=
  history step (fun d l outcomes => outcomes ++ d.ended l) d ls []

/-- The listener has come about by steps of a listener, and has told, or is about to tell, some
outcomes. -/
structure Telling (start : Listener) (d : AdaptedListener) (outcomes : List (ℕ × Diagnosis)) :
    Prop where
  reachable : Reachable Listener.step start d.listener
  unreported : Unreported d.listener.core
  told : d.told = outcomes

/-- A new listener has told nothing. -/
theorem Telling.create (id : ℕ) (config : ListenerConfig) (adapter : Adapter) :
    Telling (.create id config) { listener := .create id config, adapter := adapter } [] := by
  obtain ⟨endpoint, hcore⟩ := Listener.create_core id config
  exact ⟨Reachable.refl _, by simp [Unreported, hcore],
    by simp [AdaptedListener.told, ListenerCore.told, hcore, reports]⟩

/-- Every step tells the outcome of the session it ends after all others. -/
theorem Telling.step {start : Listener} {outcomes : List (ℕ × Diagnosis)}
    (h : Telling start d outcomes) (hstep : d.step l = some d') :
    Telling start d' (outcomes ++ d.ended l) := by
  obtain ⟨ls, hls⟩ := h.reachable
  obtain ⟨⟨ms, hms⟩, hun, htold⟩ := step_tells h.unreported hstep
  exact ⟨⟨ls ++ ms, run_append.mpr ⟨_, hls, hms⟩⟩, hun, h.told ▸ htold⟩

end AdaptedListener

/-- The outcomes of sessions reach the observers as they happen, whatever adapter the sessions are
made by. A listener with adapted sessions does only what a listener can do. What its events tell of
sessions that have stopped, followed by the reports that are waiting on its strand, are the outcomes
of the sessions in the order in which they ended: the exception that a coroutine ended with and the
error code that stands for it, the error code of a callback and the exception it had reported, the
exception that was thrown out of `async_run`, or the abort of a forced close. -/
theorem outcomes_inOrder {id : ℕ} {config : ListenerConfig} {adapter : Adapter}
    {ls : List AdaptedLabel} {d : AdaptedListener}
    (hrun :
      run AdaptedListener.step { listener := .create id config, adapter := adapter } ls = some d) :
    d.listener.Reached ∧
      (d.listener.core.events.filter (·.ends)).map (·.outcome) ++
          d.listener.core.reports.map
          (fun report => (d.listener.shows report.info.id, report.diagnosis)) =
        AdaptedListener.outcomes { listener := .create id config, adapter := adapter } ls := by
  have htelling : AdaptedListener.Telling (.create id config) d
      (AdaptedListener.outcomes { listener := .create id config, adapter := adapter } ls) := by
    refine history_invariant (AdaptedListener.Telling (.create id config))
      (fun d l d' outcomes h hstep => ?_) ?_ hrun
    · exact h.step hstep
    · exact .create id config adapter
  refine ⟨⟨id, config, htelling.reachable⟩, ?_⟩
  rw [← htelling.told, AdaptedListener.told, told]
  simp only [Listener.metadata_id]

/-- An awaitable session on a bound socket reports an exception of its own and ends with another
one. -/
def coroutineFails : List AdaptedLabel :=
  [.listener (.socket (.core (.asyncStart (.user 0)))),
    .listener (.socket (.run {})), .runSession 1 none,
    .reportException 1 (.other 3), .ends 1 (some (.systemError .noMemory)),
    .listener (.socket (.run {})), .listener (.socket (.run {}))]

/-- The observers are told the exception that the coroutine ended with, and its error code. -/
theorem outcomes_inOrder_coroutineFails : ∃ d,
    run AdaptedListener.step { listener := .create 1 defaultSocket, adapter := .awaitable }
      coroutineFails = some d ∧
      d.listener.core.reports = [] ∧
      (d.listener.core.events.filter (·.ends)).map (·.outcome) =
      [(0, ⟨.noMemory, some (.systemError .noMemory)⟩)] := by
  have h : run AdaptedListener.step { listener := .create 1 defaultSocket, adapter := .awaitable }
      coroutineFails = some _ := rfl
  have houtcomes := (outcomes_inOrder h).2
  exact ⟨_, h, rfl, (List.append_nil _).symm.trans houtcomes⟩

end Serveza
