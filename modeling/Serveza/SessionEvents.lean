import Serveza.AcceptorAsides
import Serveza.Foundation.Log

/-!
# The session events of an accepting listener are paired

Observers count the sessions of an accepting listener by its events. Each connection has a
number of its own, each session that is announced is announced once more when it has ended,
and every event carries the number of sessions between the two.
-/

namespace Serveza

open Foundation ListenerCore

/-- How an event of an accepting listener stands to the events before it: it carries the number
of sessions started and not stopped, which is zero at the end of a generation; a session is
announced by a running listener under a number higher than all before; and the stop of a
session follows its start, once. -/
structure ListenerEvent.Paired (before : List ListenerEvent) (event : ListenerEvent) : Prop where
  counted : event.status.activeSessions + (before ++ [event]).countP (·.ends) =
    (before ++ [event]).countP (·.starts)
  drained : event.Stopped → event.status.activeSessions = 0
  running : event.starts = true → event.status.state = .running
  numbered : event.numbers = true → ∀ earlier ∈ before, earlier.numbers = true →
    earlier.connection.id < event.connection.id
  begun : event.ends = true → ∃ earlier ∈ before, earlier.starts = true ∧
    earlier.connection = event.connection
  once : event.ends = true → ∀ earlier ∈ before, earlier.ends = true →
    earlier.connection.id ≠ event.connection.id

/-- An event carries the count on if the count goes up with a start and down with an end. -/
theorem counted_concat {log : List ListenerEvent} {event : ListenerEvent} {before after : ℕ}
    (h : before + log.countP (·.ends) = log.countP (·.starts))
    (hevent : after + (if event.ends then 1 else 0) = before + if event.starts then 1 else 0) :
    after + (log ++ [event]).countP (·.ends) = (log ++ [event]).countP (·.starts) := by
  rw [List.countP_append, List.countP_append, List.countP_singleton, List.countP_singleton]
  omega

/-- What noting the end of a session does: it is announced with the count as it is. -/
theorem sessionStopped_eq (c : ListenerCore) (info : ConnectionInfo) (report : SessionReport) :
    (c.sessionStopped info report).activeSessions = c.activeSessions ∧
    (c.sessionStopped info report).heap = c.heap ∧
      (c.sessionStopped info report).strand = c.strand ∧
      ∃ e : ListenerEvent, (c.sessionStopped info report).events = c.events ++ [e] ∧
      e.type = .sessionStopped ∧
        e.connection = info ∧ e.status.activeSessions = c.activeSessions := by
  unfold ListenerCore.sessionStopped
  split <;> exact ⟨rfl, rfl, rfl, _, rfl, rfl, rfl, rfl⟩

/-- Asides obey the law of the events. -/
theorem paired_asides {log added : List ListenerEvent} {count : ℕ}
    (h : Logged ListenerEvent.Paired log)
    (hcount : count + log.countP (·.ends) = log.countP (·.starts))
    (hadded : ∀ e ∈ added, e.Aside count) :
    Logged ListenerEvent.Paired (log ++ added) ∧
      count + (log ++ added).countP (·.ends) = (log ++ added).countP (·.starts) := by
  have hends (more : List ListenerEvent) (hmore : ∀ e ∈ more, e.Aside count) :
      more.countP (·.ends) = 0 :=
    List.countP_eq_zero.mpr fun e he => by simp [(hmore e he).ends]
  have hstarts (more : List ListenerEvent) (hmore : ∀ e ∈ more, e.Aside count) :
      more.countP (·.starts) = 0 :=
    List.countP_eq_zero.mpr fun e he => by simp [(hmore e he).starts]
  have hcounted (more : List ListenerEvent) (hmore : ∀ e ∈ more, e.Aside count) :
      count + (log ++ more).countP (·.ends) = (log ++ more).countP (·.starts) := by
    rw [List.countP_append, List.countP_append, hends more hmore, hstarts more hmore, Nat.add_zero,
      Nat.add_zero, hcount]
  refine ⟨h.append fun before e after hsplit => ?_, hcounted added hadded⟩
  have hmore : ∀ x ∈ before ++ [e], x.Aside count := fun x hx => hadded x (by
    rw [hsplit]
    rcases List.mem_append.mp hx with hx | hx
    · exact List.mem_append_left _ hx
    · exact List.mem_append_right _ (List.mem_singleton.mp hx ▸ List.mem_cons_self))
  have he : e.Aside count := hmore e (by simp)
  refine ⟨?_, fun hs => he.counted.trans (he.drained hs), ?_, ?_, ?_, ?_⟩
  · rw [he.counted, List.append_assoc]
    exact hcounted _ hmore
  · simp [he.starts]
  · simp [he.numbers]
  · simp [he.ends]
  · simp [he.ends]

/-- The events of a listener are in order: they obey the law, the count is right, numbers are
given in turn, each session object has been announced, none of those held has been announced
as stopped, and the reports are in order. -/
structure SessionsPaired (s : AcceptorListener) : Prop where
  law : Logged ListenerEvent.Paired s.core.events
  counted : s.core.activeSessions + s.core.events.countP (·.ends) = s.core.events.countP (·.starts)
  bounded : ∀ e ∈ s.core.events, e.numbers = true → e.connection.id ≤ s.nextConnectionId
  begun : ∀ p ∈ s.core.accounts, ∃ e ∈ s.core.events, e.starts = true ∧ e.connection = p.1
  unended : ∀ key ∈ s.sessions, ∀ e ∈ s.core.events, e.ends = true → e.connection.id ≠ key
  reporting : Reporting s.core s.sessions

namespace SessionsPaired

variable {options : AcceptorOptions} {s t : AcceptorListener} {answers : AcceptorAnswers}

/-- A handler that acts beside the sessions keeps the events in order. -/
theorem aside (h : SessionsPaired s) (haside : Aside s t) : SessionsPaired t := by
  obtain ⟨hsessions, hnext, hactive, haccounts, hreports, added, hevents, hadded⟩ := haside
  obtain ⟨hlaw, hcount⟩ := paired_asides h.law h.counted hadded
  have hmem {e : ListenerEvent} (he : e ∈ t.core.events) : e ∈ s.core.events ∨
      e.Aside s.core.activeSessions :=
    (List.mem_append.mp (hevents ▸ he)).imp_right (hadded e)
  refine ⟨hevents ▸ hlaw, ?_, fun e he hnumbers => ?_, fun p hp => ?_,
    fun key hkey e he hends => ?_, ?_⟩
  · rw [hevents, hactive]
    exact hcount
  · rw [hnext]
    rcases hmem he with he | he
    · exact h.bounded e he hnumbers
    · simp [he.numbers] at hnumbers
  · obtain ⟨e, he, hstarts⟩ := h.begun p (haccounts ▸ hp)
    exact ⟨e, hevents ▸ List.mem_append_left _ he, hstarts⟩
  · rcases hmem he with he | he
    · exact h.unended key (hsessions ▸ hkey) e he hends
    · simp [he.ends] at hends
  · rw [hsessions]
    exact h.reporting.same haccounts hreports

/-- A number that is new is higher than all that were given before. -/
theorem fresh (h : SessionsPaired s) {info : ConnectionInfo}
    (hid : info.id = s.nextConnectionId + 1) :
    ∀ earlier ∈ s.core.events, earlier.numbers = true → earlier.connection.id < info.id :=
    fun earlier hearlier hnumbers =>
  hid ▸ Nat.lt_succ_of_le (h.bounded earlier hearlier hnumbers)

/-- Numbers stay bounded when an event gives the next one. -/
theorem bounded_concat (h : SessionsPaired s) {event : ListenerEvent}
    (hid : event.connection.id ≤ s.nextConnectionId + 1) :
    ∀ e ∈ s.core.events ++ [event], e.numbers = true →
    e.connection.id ≤ s.nextConnectionId + 1 := by
  intro e he hnumbers
  rcases List.mem_append.mp he with he | he
  · exact Nat.le_succ_of_le (h.bounded e he hnumbers)
  · rwa [List.mem_singleton.mp he]

/-- A connection whose factory failed uses up its number. -/
theorem factoryFailed (h : SessionsPaired s) {info : ConnectionInfo}
    (hid : info.id = s.nextConnectionId + 1) (ec : ErrorCode) (ep : Option ThrownException) :
    SessionsPaired (s.nextConnection.mapCore fun c => c.sessionFactoryFailed info ec ep) := by
  refine ⟨logged_concat.mpr ⟨h.law, ?_⟩, counted_concat h.counted rfl, h.bounded_concat hid.le,
    fun p hp => ?_, fun key hkey e he hends => ?_, h.reporting.same rfl rfl⟩
  · exact ⟨counted_concat h.counted rfl, (fun hs => nomatch hs.1), nofun, fun _ =>
      h.fresh hid, nofun, nofun⟩
  · obtain ⟨e, he, hstarts⟩ := h.begun p hp
    exact ⟨e, List.mem_append_left _ he, hstarts⟩
  · rcases List.mem_append.mp he with he | he
    · exact h.unended key hkey e he hends
    · rw [List.mem_singleton.mp he] at hends
      contradiction

/-- A new session is announced under its own number. -/
theorem addSession (h : SessionsPaired s) {info : ConnectionInfo}
    (hid : info.id = s.nextConnectionId + 1) (hs : s.core.state = .running) :
    SessionsPaired (s.nextConnection.addSession info) := by
  have hnew : ∀ p ∈ s.core.accounts, p.1.id ≠ info.id := by
    intro p hp
    obtain ⟨e, he, hstarts, hconnection⟩ := h.begun p hp
    rw [← hconnection]
    exact (h.fresh hid e he (by simp [ListenerEvent.numbers, hstarts])).ne
  have hunused : ∀ e ∈ s.core.events, e.ends = true → e.connection.id ≠ info.id := by
    intro e he hends
    obtain ⟨before, after, hsplit⟩ := List.append_of_mem he
    obtain ⟨earlier, hearlier, hstarts, hconnection⟩ := (h.law before e after hsplit).begun hends
    rw [← hconnection]
    refine (h.fresh hid earlier ?_ (by simp [ListenerEvent.numbers, hstarts])).ne
    exact hsplit ▸ List.mem_append_left _ hearlier
  have haccounts : (s.nextConnection.addSession info).core.accounts =
      s.core.accounts ++ [(info, false)] :=
    (postTo_accounts _ _ _).trans List.map_append
  refine ⟨logged_concat.mpr ⟨h.law, ?_⟩, counted_concat h.counted rfl,
    h.bounded_concat hid.le, fun p hp => ?_,
    fun key hkey e he hends => ?_, ?_⟩
  · exact ⟨counted_concat h.counted rfl, by simp [ListenerEvent.Stopped], fun _ => hs,
      fun _ => h.fresh hid, by simp [ListenerEvent.ends], by simp [ListenerEvent.ends]⟩
  · rw [haccounts] at hp
    rcases List.mem_append.mp hp with hp | hp
    · obtain ⟨e, he, hstarts⟩ := h.begun p hp
      exact ⟨e, List.mem_append_left _ he, hstarts⟩
    · rw [List.mem_singleton.mp hp]
      exact ⟨_, List.mem_append_right _ (List.mem_singleton.mpr rfl), rfl, rfl⟩
  · rcases List.mem_append.mp he with he | he
    · rcases List.mem_append.mp hkey with hkey | hkey
      · exact h.unended key hkey e he hends
      · rw [List.mem_singleton.mp hkey]
        exact hunused e he hends
    · rw [List.mem_singleton.mp he] at hends
      contradiction
  · have hadded := h.reporting.add (x := { info := info, generation := s.core.generation }) hnew
    exact hadded.same (postTo_accounts _ _ _) rfl

/-- The end of a session is announced once. -/
theorem sessionStopped (h : SessionsPaired s) (hbooks : Books options s) {report : SessionReport}
    {rest : List Message} (hstrand : s.core.strand = .sessionFinished report :: rest) :
    SessionsPaired (((s.mapCore fun c => { c with strand := rest }).removeSession
      report.info.id).mapCore fun c =>
      c.sessionStopped report.info report) := by
  have hreport : report ∈ s.core.reports := by simp [reports, hstrand, Message.report?]
  obtain ⟨hheld, haccount⟩ := h.reporting.ended report hreport
  have hpos : 0 < s.core.activeSessions := by
    rw [hbooks.counted]
    exact List.length_pos_of_mem hheld
  have hremoved : (s.mapCore fun c => { c with strand := rest }).removeSession report.info.id =
      { s with
        core := { s.core with strand := rest, activeSessions := s.core.activeSessions - 1 }
        sessions := s.sessions.erase report.info.id } := if_pos hheld
  rw [hremoved]
  obtain ⟨hactive, hheap, hstrand', e, hevents, htype, hconnection, hcount⟩ := sessionStopped_eq
    { s.core with strand := rest, activeSessions := s.core.activeSessions - 1 } report.info report
  have hstarts : e.starts = false := by simp [ListenerEvent.starts, htype]
  have hnumbers : e.numbers = false := by simp [ListenerEvent.numbers, hstarts, htype]
  have hcounted : s.core.activeSessions - 1 + (s.core.events ++ [e]).countP (·.ends) =
      (s.core.events ++ [e]).countP (·.starts) :=
    counted_concat h.counted (by simp [hstarts, ListenerEvent.ends, htype, Nat.sub_add_cancel hpos])
  refine ⟨?_, ?_, fun x hx hxnumbers => ?_, fun p hp => ?_, fun key hkey x hx hxends => ?_, ?_⟩
  · refine hevents ▸ logged_concat.mpr
      ⟨h.law, by rw [hcount]; exact hcounted, fun hs => ?_, ?_, ?_, fun _ => ?_, fun _ => ?_⟩
    · simp [hs.1] at htype
    · simp [hstarts]
    · simp [hnumbers]
    · rw [hconnection]
      exact h.begun _ haccount
    · rw [hconnection]
      exact h.unended _ hheld
  · rw [AcceptorListener.mapCore, hevents, hactive]
    exact hcounted
  · rcases List.mem_append.mp (hevents ▸ hx) with hx | hx
    · exact h.bounded x hx hxnumbers
    · rw [List.mem_singleton.mp hx, hnumbers] at hxnumbers
      contradiction
  · obtain ⟨x, hx, hbegun⟩ := h.begun p (accounts_of_heap hheap ▸ hp)
    exact ⟨x, hevents ▸ List.mem_append_left _ hx, hbegun⟩
  · obtain ⟨hne, hmem⟩ := (hbooks.nodup.mem_erase_iff).mp hkey
    rcases List.mem_append.mp (hevents ▸ hx) with hx | hx
    · exact h.unended key hmem x hx hxends
    · rw [List.mem_singleton.mp hx, hconnection]
      exact hne.symm
  · have hdropped : Reporting { s.core with strand := rest } (s.sessions.erase report.info.id) :=
      h.reporting.drop hstrand fun key hkey hne => (List.mem_erase_of_ne hne).mpr hkey
    refine hdropped.same (accounts_of_heap hheap) ?_
    rw [reports, AcceptorListener.mapCore, hstrand']
    rfl

/-- The handler of an accept keeps the events in order. -/
theorem accepted (h : SessionsPaired s) (hbooks : Books options { s with acceptPending := false })
    (hroom : s.core.state = .running → s.sessions.length < s.options.maxActiveSessions)
    (result : AcceptResult) :
    SessionsPaired (s.accepted answers result) := by
  have hdone : SessionsPaired { s with acceptPending := false } :=
    h.aside ⟨rfl, rfl, rfl, rfl, rfl, [], by simp, by simp⟩
  rcases s.accepted_cases answers result with
    ⟨-, heq⟩ | ⟨hs, heq | ⟨info, hid, ec, ep, heq⟩ | ⟨info, hid, heq⟩⟩
  · rw [heq]
    exact hdone.aside (.maybeFinish hbooks)
  · rw [heq]
    exact hdone.aside (.retryAccept hbooks _)
  · have hfailed : Books options ({ s with acceptPending := false }.nextConnection.mapCore fun c =>
        c.sessionFactoryFailed info ec ep) := (hbooks.nextConnection).withCore _ rfl rfl
    rw [heq]
    exact (hdone.factoryFailed hid ec ep).aside (.acceptNext hfailed _)
  · rw [heq]
    exact (hdone.addSession hid hs).aside (.acceptNext (hbooks.addSession hid (hroom hs) rfl hs) _)

/-- The strand step of a session's report keeps the events in order. -/
theorem sessionFinished (h : SessionsPaired s) (hbooks : Books options s) {report : SessionReport}
    {rest : List Message} (hstrand : s.core.strand = .sessionFinished report :: rest) :
    SessionsPaired ((s.mapCore fun c => { c with strand := rest }).sessionFinished
      answers report) := by
  obtain ⟨t, rfl, heq⟩ :=
    (s.mapCore fun c => { c with strand := rest }).sessionFinished_eq answers report
  have hnoted := h.sessionStopped hbooks hstrand
  have hbooks' := (hbooks.withCore { s.core with strand := rest } rfl rfl).sessionStopped report
  rw [heq]
  split
  · exact (hnoted.aside (.acceptNext hbooks' _)).aside (.maybeFinish (hbooks'.acceptNext _))
  · exact hnoted.aside (.maybeFinish hbooks')

/-- Running a message other than a report keeps the events in order. -/
theorem pop (h : SessionsPaired s) {message : Message} {rest : List Message}
    (hstrand : s.core.strand = message :: rest) (hmessage : message.report? = none) :
    SessionsPaired (s.mapCore fun c => { c with strand := rest }) :=
  ⟨h.law, h.counted, h.bounded, h.begun, h.unended, h.reporting.pop hstrand hmessage⟩

/-- Running a posted message keeps the events in order. -/
theorem run (h : SessionsPaired s) (hbooks : Books options s) {message : Message}
    {rest : List Message} (hstrand : s.core.strand = message :: rest) :
    SessionsPaired ((s.mapCore fun c => { c with strand := rest }).handle answers message) := by
  have hpopped : Books options (s.mapCore fun c => { c with strand := rest }) :=
    hbooks.withCore _ rfl rfl
  cases message with
  | start handler cancelled =>
    have hpop := h.pop hstrand rfl
    cases cancelled with
    | true => exact hpop.aside (.waitsOnly _ (completeOn_waitsOnly _ _))
    | false => exact hpop.aside (.startOnStrand hpopped handler)
  | wait w => exact (h.pop hstrand rfl).aside (.waitsOnly _ (registerWait_waitsOnly _ w))
  | cancelWait id => exact (h.pop hstrand rfl).aside (.waitsOnly _ (cancelWait_waitsOnly _ id))
  | stop => exact (h.pop hstrand rfl).aside (.beginStop hpopped _ _)
  | sessionFinished report => exact h.sessionFinished hbooks hstrand
  | complete completion => exact (h.pop hstrand rfl).aside (.silent _ rfl rfl rfl rfl)

/-- Every step keeps the events in order. -/
theorem step {l : AcceptorLabel} (h : SessionsPaired s) (hbooks : Books options s)
    (hstep : s.step l = some t) :
    SessionsPaired t := by
  cases s.step_cases hstep with
  | @core l c hcall =>
    obtain ⟨-, -, hcount, hevents⟩ := hcall.frame
    refine ⟨hevents ▸ h.law, hcount ▸ hevents ▸ h.counted, hevents ▸ h.bounded, fun p hp => ?_,
      hevents ▸ h.unended, h.reporting.call hcall⟩
    obtain ⟨q, hq, hinfo⟩ := h.reporting.call_accounts hcall p hp
    exact hevents ▸ hinfo ▸ h.begun q hq
  | run hstrand => exact h.run hbooks hstrand
  | accepted hpos =>
    obtain ⟨hdone, hroom⟩ := hbooks.acceptReturns hpos
    exact accepted (s := { s with acceptor := ⟨s.acceptor.isOpen, s.acceptor.accepts - 1⟩ })
      (h.aside ⟨rfl, rfl, rfl, rfl, rfl, [], by simp, by simp⟩) hdone hroom _
  | @retryExpires k timer hexpire => exact h.aside ⟨rfl, rfl, rfl, rfl, rfl, [], by simp, by simp⟩
  | @retryAborted k answers w timer htake hw =>
    have hfired : SessionsPaired { s with retryTimer := timer } :=
      h.aside ⟨rfl, rfl, rfl, rfl, rfl, [], by simp, by simp⟩
    exact hfired.aside (.maybeFinish (hbooks.withRetryTimer _))
  | @retryDue k answers w timer htake hw =>
    have hfired : SessionsPaired { s with retryTimer := timer } :=
      h.aside ⟨rfl, rfl, rfl, rfl, rfl, [], by simp, by simp⟩
    exact hfired.aside (.acceptNext (hbooks.withRetryTimer _) _)
  | graceAborted htake hw => exact h.aside (.silent _ rfl rfl rfl rfl)
  | graceDue htake hw =>
    exact h.aside (.one rfl rfl rfl (postTo_accounts _ _ _) rfl rfl
      ⟨rfl, rfl, rfl, fun hstopped => nomatch hstopped.1⟩)

/-- A new listener has announced nothing. -/
theorem create (id : ℕ) (endpoint : Endpoint) (options : AcceptorOptions) :
    SessionsPaired (.create id endpoint options) :=
  ⟨logged_nil, rfl, by simp [AcceptorListener.create], by simp [AcceptorListener.create, accounts],
    by simp [AcceptorListener.create], List.nodup_nil, nofun, nofun, List.nodup_nil⟩

/-- When no session is held, every session that was announced was then announced as stopped. -/
theorem followed (h : SessionsPaired s) (hnone : s.core.activeSessions = 0)
    {before after : List ListenerEvent} {e : ListenerEvent}
    (hsplit : s.core.events = before ++ e :: after) (hstarts : e.starts = true) :
    ∃ stop ∈ after, stop.ends = true ∧ stop.connection = e.connection := by
  have hnumbers {x : ListenerEvent} (hx : x.starts = true) : x.numbers = true := by
    simp [ListenerEvent.numbers, hx]
  have hstarted : ((s.core.events.filter (·.starts)).map (·.connection.id)).Nodup := by
    refine List.pairwise_map.mpr
      (List.pairwise_filter.mpr (h.law.pairwise fun before y hy x hx hxstarts hystarts => ?_))
    exact (hy.numbered (hnumbers hystarts) x hx (hnumbers hxstarts)).ne
  have hended : ((s.core.events.filter (·.ends)).map (·.connection.id)).Nodup := by
    refine List.pairwise_map.mpr
      (List.pairwise_filter.mpr (h.law.pairwise fun before y hy x hx hxends hyends => ?_))
    exact hy.once hyends x hx hxends
  have hsub : (s.core.events.filter (·.ends)).map (·.connection.id) ⊆
      (s.core.events.filter (·.starts)).map (·.connection.id) := by
    intro key hkey
    obtain ⟨x, hx, rfl⟩ := List.mem_map.mp hkey
    obtain ⟨hx, hxends⟩ := List.mem_filter.mp hx
    obtain ⟨earlier, later, hat⟩ := List.append_of_mem hx
    obtain ⟨y, hy, hystarts, hconnection⟩ := (h.law earlier x later hat).begun hxends
    exact List.mem_map.mpr ⟨y, List.mem_filter.mpr ⟨by simp [hat, hy], hystarts⟩,
      by rw [hconnection]⟩
  have hcounted := h.counted
  rw [hnone, Nat.zero_add, List.countP_eq_length_filter, List.countP_eq_length_filter] at hcounted
  have hperm := (List.subperm_of_subset hended hsub).perm_of_length_le (by simp [hcounted])
  have hkey : e.connection.id ∈ (s.core.events.filter (·.ends)).map (·.connection.id) := by
    refine hperm.mem_iff.mpr
      (List.mem_map.mpr ⟨e, List.mem_filter.mpr ⟨by simp [hsplit], hstarts⟩, rfl⟩)
  obtain ⟨stop, hstop, hid⟩ := List.mem_map.mp hkey
  obtain ⟨hstop, hends⟩ := List.mem_filter.mp hstop
  have hlaw := h.law before e after hsplit
  have hfirst {y : ListenerEvent} (hy : y ∈ before) (hystarts : y.starts = true) :
      y.connection.id ≠ e.connection.id :=
    (hlaw.numbered (hnumbers hstarts) y hy (hnumbers hystarts)).ne
  rw [hsplit] at hstop
  rcases List.mem_append.mp hstop with hstop | hstop
  · obtain ⟨earlier, later, hat⟩ := List.append_of_mem hstop
    obtain ⟨y, hy, hystarts, hconnection⟩ :=
      (h.law earlier stop (later ++ e :: after) (by simp [hsplit, hat])).begun hends
    exact absurd (hconnection ▸ hid) (hfirst (by simp [hat, hy]) hystarts)
  · rcases List.mem_cons.mp hstop with rfl | hafter
    · have htype : stop.type = .sessionStarted := by simpa [ListenerEvent.starts] using hstarts
      simp [ListenerEvent.ends, htype] at hends
    · obtain ⟨earlier, later, hat⟩ := List.append_of_mem hafter
      obtain ⟨y, hy, hystarts, hconnection⟩ :=
        (h.law (before ++ e :: earlier) stop later (by simp [hsplit, hat])).begun hends
      rcases List.mem_append.mp hy with hy | hy
      · exact absurd (hconnection ▸ hid) (hfirst hy hystarts)
      · rcases List.mem_cons.mp hy with rfl | hy
        · exact ⟨stop, hafter, hends, hconnection.symm⟩
        · obtain ⟨first, second, hbetween⟩ := List.append_of_mem hy
          have hlater := (h.law (before ++ e :: first) y (second ++ stop :: later)
            (by simp [hsplit, hat, hbetween])).numbered
            (hnumbers hystarts) e (by simp) (hnumbers hstarts)
          exact absurd (hid.symm.trans (congrArg ConnectionInfo.id hconnection.symm)) hlater.ne

end SessionsPaired

/-- In every run of an accepting listener, over any number of generations, each connection
number is announced at most once as started and at most once as stopped, and the numbers
given to connections increase. Each event stands to the events before it as it should: a stop
follows the start of the same connection, with the same metadata; a start is announced by a
running listener only; the status carries the number of sessions started and not stopped; and
the end of a generation finds as many stopped as started. -/
theorem sessionEvents_paired {id : ℕ} {endpoint : Endpoint} {options : AcceptorOptions}
    {s : AcceptorListener} (h : Reachable AcceptorListener.step (.create id endpoint options) s) :
    (∀ key, s.core.events.countP (fun e => e.starts && e.connection.id = key) ≤ 1 ∧
      s.core.events.countP (fun e => e.ends && e.connection.id = key) ≤ 1) ∧
    ((s.core.events.filter (·.numbers)).map (·.connection.id)).Pairwise (· < ·) ∧
    ∀ before e after, s.core.events = before ++ e :: after →
      (e.ends = true → ∃ earlier ∈ before, earlier.starts = true ∧
        earlier.connection = e.connection) ∧
      (e.starts = true → e.status.state = .running) ∧
      e.status.activeSessions + (before ++ [e]).countP (·.ends) =
        (before ++ [e]).countP (·.starts) ∧
      (e.Stopped → (before ++ [e]).countP (·.ends) = (before ++ [e]).countP (·.starts)) := by
  have hpaired : Books options s ∧ SessionsPaired s :=
    h.invariant (fun s => Books options s ∧ SessionsPaired s)
    (fun _ _ _ hs hstep => ⟨hs.1.step hstep, hs.2.step hs.1 hstep⟩) ⟨.create .., .create ..⟩
  have hlaw := hpaired.2.law
  have hnumbered : s.core.events.Pairwise fun x y => x.numbers = true → y.numbers = true →
      x.connection.id < y.connection.id :=
    hlaw.pairwise fun before e he x hx hnumbers hnumbers' => he.numbered hnumbers' x hx hnumbers
  have honce : s.core.events.Pairwise fun x y => x.ends = true → y.ends = true →
      x.connection.id ≠ y.connection.id :=
    hlaw.pairwise fun before e he x hx hends hends' => he.once hends' x hx hends
  refine ⟨fun key =>
    ⟨countP_le_one (hnumbered.imp fun hlt hx hy => ?_),
      countP_le_one (honce.imp fun hne hx hy => ?_)⟩,
    List.pairwise_map.mpr (List.pairwise_filter.mpr hnumbered), fun before e after hsplit => ?_⟩
  · rw [Bool.and_eq_true, decide_eq_true_eq] at hx hy
    have hless :=
      hlt (by simp [ListenerEvent.numbers, hx.1]) (by simp [ListenerEvent.numbers, hy.1])
    exact absurd (hx.2.trans hy.2.symm) hless.ne
  · rw [Bool.and_eq_true, decide_eq_true_eq] at hx hy
    exact absurd (hx.2.trans hy.2.symm) (hne hx.1 hy.1)
  · obtain ⟨hcounted, hdrained, hrunning, -, hbegun, -⟩ := hlaw before e after hsplit
    refine ⟨hbegun, hrunning, hcounted, fun hs => ?_⟩
    rw [← hcounted, hdrained hs, Nat.zero_add]

/-- Two connections are accepted, for the second the factory fails; the session completes, is
closed by force as well and throws; the listener stops, starts again and accepts once more. -/
def sessionsAndRestart : List AcceptorLabel :=
  [.core (.asyncStart (.user 0)), .run {}, .run {}, .accepted {} {},
    .accepted {} { factory := some (.other 0) },
    .core (.session 1 .run), .core .stopRead, .core .stopPost, .run {},
    .accepted { error := .operationAborted } {},
    .core (.graceExpires 0), .graceHandler 0, .core (.session 1 (.complete .success)),
    .core (.session 1 .run),
    .core (.session 1 .run), .core (.session 1 (.throws (.other 1))), .run {},
    .core (.asyncStart (.user 1)), .run {}, .run {}, .accepted {} {}]

/-- In that run two sessions are announced as started, one of them as stopped. -/
theorem sessionEvents_paired_restart : ∃ s : AcceptorListener,
    run AcceptorListener.step (.create 1 ⟨"127.0.0.1:0", true, false⟩ ⟨{}, rfl⟩)
      sessionsAndRestart = some s ∧
      (s.core.events.filter (·.numbers)).map (·.connection.id) = [1, 2, 3] ∧
      s.core.events.countP (·.starts) = 2 ∧
      s.core.events.countP (·.ends) = 1 ∧
      ((s.core.events.filter (·.numbers)).map (·.connection.id)).Pairwise (· < ·) := by
  have h : run AcceptorListener.step (.create 1 ⟨"127.0.0.1:0", true, false⟩ ⟨{}, rfl⟩)
      sessionsAndRestart = some _ := rfl
  exact ⟨_, h, by decide, by decide, by decide, (sessionEvents_paired ⟨_, h⟩).2.1⟩

end Serveza
