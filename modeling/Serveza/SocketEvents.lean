import Serveza.BoundSession
import Serveza.SessionEvents

/-!
# The session events of a bound-socket listener are paired

A bound-socket listener announces its session when it has started and when it has stopped,
and one session at a time. The events name no connection, so a start and the stop that
follows it belong together.
-/

namespace Serveza

open Foundation ListenerCore

/-- The events added announce neither the start nor the end of a session. -/
def Beside (a b : ListenerCore) : Prop :=
  ∃ added, b.events = a.events ++ added ∧ ∀ e ∈ added, e.starts = false ∧ e.ends = false

namespace Beside

variable {a b c : ListenerCore}

/-- Nothing is announced. -/
theorem silent (h : b.events = a.events) : Beside a b := ⟨[], by simpa using h, by simp⟩

/-- What is announced beside a session may go on. -/
theorem trans (h : Beside a b) (k : Beside b c) : Beside a c := by
  obtain ⟨added, hadded, hbeside⟩ := h
  obtain ⟨more, hmore, hbeside'⟩ := k
  refine ⟨added ++ more, by rw [hmore, hadded, List.append_assoc], fun e he => ?_⟩
  rcases List.mem_append.mp he with he | he
  · exact hbeside e he
  · exact hbeside' e he

/-- An event that is not about a session. -/
theorem one {e : ListenerEvent} (h : b.events = a.events ++ [e]) (hstarts : e.starts = false)
    (hends : e.ends = false) :
    Beside a b :=
  ⟨[e], h, fun _ he => List.mem_singleton.mp he ▸ ⟨hstarts, hends⟩⟩

/-- The end of a generation is announced. -/
theorem finish (a : ListenerCore) (ec : ErrorCode) (reason : ListenerStopReason) :
    Beside a (a.finish ec reason) := by
  unfold ListenerCore.finish
  split
  · exact silent rfl
  · exact one rfl rfl rfl

end Beside

/-- How the session events of a bound-socket listener follow one another: a session is
announced when all before it have been announced as stopped, and none has a connection. -/
structure SocketPaired (s : SocketListener) : Prop where
  law : Logged (fun before e => e.starts = true → before.countP (·.ends) = before.countP (·.starts))
    s.core.events
  counted : s.session.toList.length + s.core.events.countP (·.ends) =
    s.core.events.countP (·.starts)
  unnamed : ∀ e ∈ s.core.events, e.starts = true ∨ e.ends = true → e.connection = {}

namespace SocketPaired

variable {s t : SocketListener} {answers : SocketAnswers}

/-- What is announced beside the session keeps the events paired. -/
theorem beside (h : SocketPaired s) (hbeside : Beside s.core t.core)
    (hsession : t.session = s.session) : SocketPaired t := by
  obtain ⟨added, hadded, hnone⟩ := hbeside
  have hstarts : added.countP (·.starts) = 0 := List.countP_eq_zero.mpr fun e he => by
    simp [(hnone e he).1]
  have hends : added.countP (·.ends) = 0 := List.countP_eq_zero.mpr fun e he => by
    simp [(hnone e he).2]
  refine ⟨hadded ▸ h.law.append fun before e after hsplit hstart => ?_, ?_, fun e he hsession => ?_⟩
  · have := (hnone e (by simp [hsplit])).1
    simp [hstart] at this
  · rw [hsession, hadded, List.countP_append, List.countP_append, hstarts, hends]
    exact h.counted
  · rcases List.mem_append.mp (hadded ▸ he) with he | he
    · exact h.unnamed e he hsession
    · simp [hnone e he] at hsession

/-- A session event without a connection joins the others. -/
theorem unnamed_concat (h : SocketPaired s) {e : ListenerEvent}
    (hevents : t.core.events = s.core.events ++ [e]) (hconnection : e.connection = {}) :
    ∀ x ∈ t.core.events, x.starts = true ∨ x.ends = true → x.connection = {} := by
  intro x hx hsession
  rcases List.mem_append.mp (hevents ▸ hx) with hx | hx
  · exact h.unnamed x hx hsession
  · rwa [List.mem_singleton.mp hx]

/-- The start of a session is announced when no other is held. -/
theorem started (h : SocketPaired s) (hnone : s.session = none) {e : ListenerEvent}
    (hevents : t.core.events = s.core.events ++ [e]) (hstarts : e.starts = true)
    (hends : e.ends = false) (hconnection : e.connection = {})
    (hsession : t.session.isSome = true) : SocketPaired t := by
  have hcounted : s.core.events.countP (·.ends) = s.core.events.countP (·.starts) := by
    simpa [hnone] using h.counted
  obtain ⟨key, hkey⟩ := Option.isSome_iff_exists.mp hsession
  refine ⟨hevents ▸ logged_concat.mpr ⟨h.law, fun _ => hcounted⟩, ?_,
    h.unnamed_concat hevents hconnection⟩
  rw [hevents, List.countP_append, List.countP_append, hcounted, List.countP_singleton,
    List.countP_singleton, hstarts, hends]
  simp [hkey, Nat.add_comm]

/-- The end of the session that is held is announced. -/
theorem stopped (h : SocketPaired s) (hheld : s.session.isSome = true) {e : ListenerEvent}
    (hevents : t.core.events = s.core.events ++ [e]) (hstarts : e.starts = false)
    (hends : e.ends = true) (hconnection : e.connection = {}) (hsession : t.session = none) :
    SocketPaired t := by
  obtain ⟨key, hkey⟩ := Option.isSome_iff_exists.mp hheld
  have hcounted : 1 + s.core.events.countP (·.ends) = s.core.events.countP (·.starts) := by
    simpa [hkey] using h.counted
  refine ⟨hevents ▸ logged_concat.mpr ⟨h.law, fun hstart => by simp [hstarts] at hstart⟩, ?_,
    h.unnamed_concat hevents hconnection⟩
  rw [hevents, List.countP_append, List.countP_append, List.countP_singleton, List.countP_singleton,
    hstarts, hends, hsession]
  simp only [Option.toList_none, List.length_nil, if_true, Bool.false_eq_true, if_false]
  omega

/-- Draining keeps the events paired. -/
theorem maybeFinish (h : SocketPaired s) : SocketPaired s.maybeFinish := by
  unfold SocketListener.maybeFinish
  split
  · exact h.beside (.finish _ _ _) rfl
  · exact h

/-- A start keeps the events paired. -/
theorem startOnStrand (h : SocketPaired s)
    (hreleased : s.core.state = .idle ∨ s.core.state = .stopped → s.session = none)
    (handler : CompletionHandler) : SocketPaired (s.startOnStrand answers handler) := by
  unfold SocketListener.startOnStrand
  split
  · exact h.beside (.silent rfl) rfl
  · rename_i hrunning
    split
    · exact h.beside (.silent rfl) rfl
    · rename_i hidle
      have hnone : s.session = none := hreleased (by
        by_contra hcontra
        exact hidle ⟨fun hs => hcontra (Or.inl hs), fun hs => hcontra (Or.inr hs)⟩)
      extract_lets s₁ ec s₂ s₃ s₄ s₅
      have hbegun : SocketPaired s₁ := h.beside (.one rfl rfl rfl) rfl
      split
      · exact hbegun.beside (.finish (s₁.core.completeOn _) ec .startupFailure) rfl
      · cases answers.factory with
        | some e =>
          exact hbegun.beside (.trans (.one rfl rfl rfl)
            (.finish ((s₂.core.sessionFactoryFailed {} _ _).completeOn _) _ .startupFailure)) rfl
        | none =>
          have hrunning : SocketPaired { s₁ with core := s₃.core.transitionTo .running } :=
            hbegun.beside (.one rfl rfl rfl) rfl
          obtain ⟨e, hevents, htype, hconnection⟩ : ∃ e : ListenerEvent,
              s₄.core.events = (s₃.core.transitionTo .running).events ++ [e] ∧
              e.type = .sessionStarted ∧
                e.connection = {} := ⟨_, rfl, rfl, rfl⟩
          exact hrunning.started hnone hevents (by simp [ListenerEvent.starts, htype])
            (by simp [ListenerEvent.ends, htype]) hconnection rfl

/-- The report of the session keeps the events paired. -/
theorem sessionFinished (h : SocketPaired s) (hheld : s.session.isSome = true)
    (report : SessionReport) :
    SocketPaired (s.sessionFinished report) := by
  obtain ⟨t, rfl, heq⟩ := s.sessionFinished_eq report
  obtain ⟨-, -, -, e, hevents, htype, hconnection, -⟩ :=
    sessionStopped_eq { s.core with activeSessions := 0 } {} report
  have hnoted : SocketPaired { s with
      core := { s.core with activeSessions := 0 }.sessionStopped {} report
      session := none } :=
    h.stopped hheld hevents (by simp [ListenerEvent.starts, htype])
      (by simp [ListenerEvent.ends, htype]) hconnection rfl
  rw [heq]
  split
  · exact hnoted.beside (.trans (.one rfl rfl rfl) (.finish _ _ _)) rfl
  · exact hnoted.maybeFinish

/-- A stop keeps the events paired. -/
theorem stopOnStrand (h : SocketPaired s) : SocketPaired s.stopOnStrand := by
  have hannounced : SocketPaired
      (s.mapCore fun c => (c.setStopReason .requested).transitionTo .stopping) :=
    h.beside (.one rfl rfl rfl) rfl
  have harmed : SocketPaired
      (s.mapCore fun c => (c.setStopReason .requested).transitionTo .stopping).armGrace := by
    unfold SocketListener.armGrace
    split
    · exact hannounced
    · exact hannounced.beside (.silent rfl) rfl
  unfold SocketListener.stopOnStrand
  cases s.core.state with
  | idle => exact hannounced.beside (.finish _ _ _) rfl
  | starting | running => exact harmed.maybeFinish
  | stopping | stopped => exact h

/-- Running a posted message keeps the events paired. -/
theorem run (h : SocketPaired s) (htended : SocketTended s) (hbound : Bound s) {message : Message}
    {rest : List Message} (hstrand : s.core.strand = message :: rest) :
    SocketPaired ((s.mapCore fun c => { c with strand := rest }).handle answers message) := by
  have hpop : SocketPaired (s.mapCore fun c => { c with strand := rest }) :=
    h.beside (.silent rfl) rfl
  cases message with
  | start handler cancelled =>
    cases cancelled with
    | true => exact hpop.beside (.silent rfl) rfl
    | false => exact hpop.startOnStrand htended.released handler
  | wait w => exact hpop.beside (.silent (registerWait_waitsOnly _ w).events) rfl
  | cancelWait waiter => exact hpop.beside (.silent (cancelWait_waitsOnly _ waiter).events) rfl
  | stop => exact hpop.stopOnStrand
  | sessionFinished report =>
    have hreport : report ∈ s.core.reports := by simp [reports, hstrand, Message.report?]
    obtain ⟨-, x, -, -, -, -, hsession⟩ := hbound.report htended hreport
    exact hpop.sessionFinished (Option.isSome_iff_exists.mpr ⟨_, hsession⟩) report
  | complete completion => exact hpop.beside (.silent rfl) rfl

/-- Every step keeps the events paired. -/
theorem step {l : SocketLabel} (h : SocketPaired s) (htended : SocketTended s) (hbound : Bound s)
    (hstep : s.step l = some t) : SocketPaired t := by
  cases l with
  | core l =>
    obtain ⟨c, hc, rfl⟩ := Option.map_eq_some_iff.mp hstep
    exact h.beside (.silent (call_cases hc).frame.2.2.2) rfl
  | run answers =>
    cases hstrand : s.core.strand with
    | nil => simp [SocketListener.step, hstrand] at hstep
    | cons message rest =>
      obtain rfl : _ = t := by simpa [SocketListener.step, hstrand] using hstep
      exact h.run htended hbound hstrand
  | graceHandler k =>
    obtain ⟨⟨w, timer⟩, htake, rfl⟩ := Option.map_eq_some_iff.mp hstep
    change SocketPaired (if (waitError w.status).failed = true then _ else _)
    split
    · exact h.beside (.silent rfl) rfl
    · exact h.beside (.one rfl rfl rfl) rfl

/-- A new listener has announced nothing. -/
theorem create (id : ℕ) (endpoint : Endpoint) (options : SocketOptions) :
    SocketPaired (.create id endpoint options) :=
  ⟨logged_nil, rfl, fun _ he => absurd he List.not_mem_nil⟩

/-- When no session is held, every session that was announced was then announced as stopped. -/
theorem followed (h : SocketPaired s) (hnone : s.session = none) {before after : List ListenerEvent}
    {e : ListenerEvent} (hsplit : s.core.events = before ++ e :: after)
    (hstarts : e.starts = true) :
    ∃ stop ∈ after, stop.ends = true ∧ stop.connection = e.connection := by
  have hends : e.ends = false := by
    have htype : e.type = .sessionStarted := by simpa [ListenerEvent.starts] using hstarts
    simp [ListenerEvent.ends, htype]
  have hbefore := h.law before e after hsplit hstarts
  have hcounted := h.counted
  rw [hnone, hsplit, List.countP_append, List.countP_append, List.countP_cons, List.countP_cons,
    hstarts, hends] at hcounted
  simp only [Option.toList_none, List.length_nil, if_true, Bool.false_eq_true, if_false] at hcounted
  obtain ⟨stop, hstop, hstops⟩ := List.countP_pos_iff.mp (show 0 < after.countP (·.ends) by omega)
  refine ⟨stop, hstop, hstops, ?_⟩
  rw [h.unnamed stop (by simp [hsplit, hstop]) (Or.inr hstops),
    h.unnamed e (by simp [hsplit]) (Or.inl hstarts)]

end SocketPaired

end Serveza
