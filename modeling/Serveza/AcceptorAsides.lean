import Serveza.AcceptorBooks
import Serveza.SessionReports

/-!
# What an accepting listener does beside its sessions

Only two handlers announce a session: a completed accept its start, and the session's report
its end. Everything else the handlers do is an aside: it neither announces a session nor
changes the count of them, and a generation ends only when the count is zero.
-/

namespace Serveza

open Foundation ListenerCore

namespace ListenerEvent

/-- The event announces that a session has started. -/
def starts (event : ListenerEvent) : Bool := event.type = .sessionStarted

/-- The event announces that a session has stopped. -/
def ends (event : ListenerEvent) : Bool := event.type = .sessionStopped

/-- The event gives a connection its number. -/
def numbers (event : ListenerEvent) : Bool := event.starts || event.type = .sessionFactoryFailed

/-- An event beside the sessions, published with a given count of them; the end of a
generation finds none. -/
structure Aside (count : ℕ) (event : ListenerEvent) : Prop where
  numbers : event.numbers = false
  ends : event.ends = false
  counted : event.status.activeSessions = count
  drained : event.Stopped → count = 0

/-- An event beside the sessions starts none. -/
theorem Aside.starts {count : ℕ} {event : ListenerEvent} (h : event.Aside count) :
    event.starts = false :=
  (Bool.or_eq_false_iff.mp h.numbers).1

end ListenerEvent

/-- The handler acts beside the sessions: it keeps them, their objects and their reports, and
publishes asides only. -/
structure Aside (s t : AcceptorListener) : Prop where
  sessions : t.sessions = s.sessions
  nextConnectionId : t.nextConnectionId = s.nextConnectionId
  activeSessions : t.core.activeSessions = s.core.activeSessions
  accounts : t.core.accounts = s.core.accounts
  reports : t.core.reports = s.core.reports
  events : ∃ added, t.core.events = s.core.events ++ added ∧
    ∀ e ∈ added, e.Aside s.core.activeSessions

namespace Aside

variable {options : AcceptorOptions} {s t u : AcceptorListener} {answers : AcceptorAnswers}

/-- A handler that publishes nothing and keeps the sessions acts beside them. -/
theorem silent (c : ListenerCore) (hactive : c.activeSessions = s.core.activeSessions)
    (haccounts : c.accounts = s.core.accounts) (hreports : c.reports = s.core.reports)
    (hevents : c.events = s.core.events) : Aside s { s with core := c } :=
  ⟨rfl, rfl, hactive, haccounts, hreports, [], by simpa using hevents, by simp⟩

/-- Nothing happens beside the sessions. -/
theorem refl (s : AcceptorListener) : Aside s s := silent s.core rfl rfl rfl rfl

/-- Two handlers that act beside the sessions may follow one another. -/
theorem trans (h : Aside s t) (k : Aside t u) : Aside s u := by
  obtain ⟨added, hadded, haside⟩ := h.events
  obtain ⟨more, hmore, haside'⟩ := k.events
  refine ⟨k.sessions.trans h.sessions, k.nextConnectionId.trans h.nextConnectionId,
    k.activeSessions.trans h.activeSessions,
    k.accounts.trans h.accounts, k.reports.trans h.reports, added ++ more, ?_, fun e he => ?_⟩
  · rw [hmore, hadded, List.append_assoc]
  · rcases List.mem_append.mp he with he | he
    · exact haside e he
    · exact h.activeSessions ▸ haside' e he

/-- Diagnostics are noted beside the sessions. -/
theorem noted (h : Noted s t) : Aside s t := by
  obtain ⟨added, hadded, hfailed⟩ := h.events
  refine ⟨h.sessions, h.nextConnectionId, h.activeSessions, accounts_of_heap h.heap,
    quiet_reports h.quiet, added, hadded,
    fun e he => ?_⟩
  obtain ⟨htype, hcount⟩ := hfailed e he
  exact ⟨by simp [ListenerEvent.numbers, ListenerEvent.starts, htype],
    by simp [ListenerEvent.ends, htype], hcount,
    fun hstopped => by simp [hstopped.1] at htype⟩

/-- A handler that publishes one aside and keeps the sessions acts beside them. -/
theorem one (hsessions : t.sessions = s.sessions) (hnext : t.nextConnectionId = s.nextConnectionId)
    (hactive : t.core.activeSessions = s.core.activeSessions)
    (haccounts : t.core.accounts = s.core.accounts) (hreports : t.core.reports = s.core.reports)
    {e : ListenerEvent} (hevents : t.core.events = s.core.events ++ [e])
    (he : e.Aside s.core.activeSessions) : Aside s t :=
  ⟨hsessions, hnext, hactive, haccounts, hreports, [e], hevents, fun _ hx =>
    List.mem_singleton.mp hx ▸ he⟩

/-- Finishing a generation posts no report. -/
theorem finish_reports (a : ListenerCore) (ec : ErrorCode) (reason : ListenerStopReason) :
    (a.finish ec reason).reports = a.reports := by
  by_cases hs : a.state = .stopped
  · rw [ListenerCore.finish, if_pos hs]
  · refine reports_append (finish_eq a ec reason hs).1 fun m hm => ?_
    obtain ⟨w, -, rfl⟩ := List.mem_map.mp hm
    rfl

/-- The end of a generation without sessions is announced beside them. -/
theorem finish_event (a : ListenerCore) (h : a.activeSessions = 0) (hs : a.state ≠ .stopped)
    (ec : ErrorCode) (reason : ListenerStopReason) :
    ∃ e, (a.finish ec reason).events = a.events ++ [e] ∧ e.Aside a.activeSessions := by
  rw [ListenerCore.finish, if_neg hs]
  exact ⟨_, rfl, rfl, rfl, rfl, fun _ => h⟩

/-- A generation ends beside the sessions when none is left. -/
theorem finish (h : s.core.activeSessions = 0) (ec : ErrorCode) (reason : ListenerStopReason) :
    Aside s (s.finish ec reason) := by
  unfold AcceptorListener.finish
  split
  · exact refl s
  · rename_i hs
    obtain ⟨e, hevents, he⟩ := finish_event s.core h hs ec reason
    exact one rfl rfl (finish_activeSessions _ _ _) (accounts_of_heap (finish_heap _ _ _))
      (finish_reports _ _ _) hevents he

/-- Draining acts beside the sessions. -/
theorem maybeFinish (h : Books options s) : Aside s s.maybeFinish := by
  unfold AcceptorListener.maybeFinish
  split
  · rename_i hdrained
    exact finish (by rw [h.counted, hdrained.2.2]; rfl) _ _
  · exact refl s

/-- Giving the sessions their grace period acts beside them. -/
theorem armGrace (s : AcceptorListener) : Aside s (s.armGrace answers) := by
  unfold AcceptorListener.armGrace
  split
  · exact refl s
  · cases answers.graceTimer with
    | none => exact silent _ rfl rfl rfl rfl
    | some e => exact silent _ rfl (postTo_accounts _ s.sessions .forceClose) rfl rfl

/-- Closing down acts beside the sessions. -/
theorem closeDown (s : AcceptorListener) (ec : ErrorCode) (reason : ListenerStopReason) :
    Aside s (s.closeDown ec reason) := by
  exact one rfl rfl rfl (postTo_accounts _ _ _) rfl rfl
    ⟨rfl, rfl, rfl, fun hstopped => nomatch hstopped.2⟩

/-- Beginning to stop acts beside the sessions. -/
theorem beginStop (h : Books options s) (ec : ErrorCode) (reason : ListenerStopReason) :
    Aside s (s.beginStop answers ec reason) := by
  rcases s.beginStop_cases answers ec reason with ⟨hs, heq⟩ | ⟨-, heq⟩ | ⟨-, heq⟩
  · have hnone : s.core.activeSessions = 0 := by rw [h.counted, (h.released (Or.inl hs)).1]; rfl
    have hannounced : Aside s (s.mapCore fun c => c.announceStop ec reason) :=
      one rfl rfl rfl rfl rfl rfl ⟨rfl, rfl, rfl, fun hstopped => nomatch hstopped.2⟩
    rw [heq]
    exact hannounced.trans (finish (hannounced.activeSessions.trans hnone) _ _)
  · rw [heq]
    exact (closeDown s ec reason).trans
      ((armGrace _).trans (maybeFinish (h.closeDown ec reason).armGrace))
  · rw [heq]
    exact refl s

/-- Starting the next accept acts beside the sessions. -/
theorem acceptNext (h : Books options s) (reason : ListenerStopReason) :
    Aside s (s.acceptNext answers reason).1 := by
  rcases s.acceptNext_cases answers reason with
    ⟨-, heq⟩ | ⟨-, ⟨-, heq⟩ | ⟨-, heq | ⟨t, e, hnoted, heq⟩⟩⟩
  · rw [heq]
    exact maybeFinish h
  · rw [heq]
    exact refl s
  · rw [heq]
    exact ⟨rfl, rfl, rfl, rfl, rfl, [], by simp [AcceptorListener.startAccept], by simp⟩
  · rw [heq]
    exact (noted hnoted).trans (beginStop (h.noted hnoted) _ _)

/-- Reacting to a failed accept acts beside the sessions. -/
theorem retryAccept (h : Books options s) (acceptEc : ErrorCode) :
    Aside s (s.retryAccept answers acceptEc) := by
  obtain ⟨t, hnoted, ⟨ec, heq⟩ | ⟨tag, heq⟩⟩ := s.retryAccept_cases answers acceptEc
  · rw [heq]
    exact (noted hnoted).trans (beginStop (h.noted hnoted) _ _)
  · rw [heq]
    obtain ⟨hsessions, hnext, hactive, haccounts, hreports, hevents⟩ := noted hnoted
    exact ⟨hsessions, hnext, hactive, haccounts, hreports, hevents⟩

/-- Completing and registering operations acts beside the sessions. -/
theorem waitsOnly (c : ListenerCore) (hw : WaitsOnly s.core c) : Aside s { s with core := c } :=
  silent c hw.activeSessions (accounts_of_heap hw.heap) (waitsOnly_reports hw) hw.events

/-- The strand step of a start acts beside the sessions. -/
theorem startOnStrand (h : Books options s) (handler : CompletionHandler) :
    Aside s (s.startOnStrand answers handler) := by
  rcases s.startOnStrand_cases answers handler with
    ⟨-, heq⟩ | ⟨-, heq⟩ | ⟨hs, acceptor, endpoint, haccepts, hbegun⟩
  · rw [heq]
    exact waitsOnly _ (completeOn_waitsOnly _ _)
  · rw [heq]
    exact waitsOnly _ (completeOn_waitsOnly _ _)
  · have hopened : Aside s (s.opened acceptor endpoint) :=
      one rfl rfl rfl rfl rfl rfl ⟨rfl, rfl, rfl, fun hstopped => nomatch hstopped.2⟩
    have hbooks : Books options (s.opened acceptor endpoint) := h.opened hs haccepts endpoint
    have hnone : (s.opened acceptor endpoint).core.activeSessions = 0 := by
      rw [hbooks.counted]
      exact congrArg List.length (h.released hs).1
    rcases hbegun with ⟨ec, heq⟩ | ⟨t, ec, hnext, ⟨-, heq⟩ | ⟨-, heq⟩⟩
    · rw [heq]
      have hcompleted :=
        hopened.trans (waitsOnly _ (completeOn_waitsOnly _ ⟨handler, none, ec, .startupFailed⟩))
      exact hcompleted.trans (finish (hcompleted.activeSessions.trans hnone) ec .startupFailure)
    · have haccepting :
          Aside _ ((s.opened acceptor endpoint).acceptNext answers .startupFailure).1 :=
          acceptNext hbooks _
      rw [hnext] at haccepting
      rw [heq]
      exact hopened.trans (haccepting.trans (waitsOnly _ (completeOn_waitsOnly _ _)))
    · have haccepting :
          Aside _ ((s.opened acceptor endpoint).acceptNext answers .startupFailure).1 :=
          acceptNext hbooks _
      rw [hnext] at haccepting
      have hrunning : Aside t (t.mapCore fun c => c.transitionTo .running) :=
        one rfl rfl rfl rfl rfl rfl ⟨rfl, rfl, rfl, fun hstopped => nomatch hstopped.2⟩
      rw [heq]
      exact hopened.trans (haccepting.trans
        (hrunning.trans (waitsOnly _ (completeOn_waitsOnly _ _))))

end Aside

end Serveza
