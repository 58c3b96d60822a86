import Serveza.AcceptorMoves
import Serveza.Foundation.Run

/-!
# The books of an accepting listener

The count of active sessions, the list of sessions, the limit, the outstanding accept and
the acceptor agree with one another. Every handler keeps them in agreement at each point
where it calls another one, so they agree between any two steps.
-/

namespace Serveza

open Foundation

/-- The books of a listener that was made with given options agree. -/
structure Books (options : AcceptorOptions) (s : AcceptorListener) : Prop where
  configured : s.options = options
  counted : s.core.activeSessions = s.sessions.length
  nodup : s.sessions.Nodup
  known : ∀ key ∈ s.sessions, key ≤ s.nextConnectionId
  room : s.sessions.length ≤ s.options.maxActiveSessions
  pending : s.acceptor.accepts = if s.acceptPending then 1 else 0
  spare : s.core.state = .starting ∨ s.core.state = .running → s.acceptPending = true →
    s.sessions.length < s.options.maxActiveSessions
  released : s.core.state = .idle ∨ s.core.state = .stopped →
    s.sessions = [] ∧ s.acceptPending = false ∧ s.acceptor.isOpen = false

namespace Books

variable {options : AcceptorOptions} {s t : AcceptorListener} {answers : AcceptorAnswers}

/-- Without an accept in flight none is pending. -/
theorem not_pending (h : Books options s) (hidle : s.acceptor.accepts = 0) :
    s.acceptPending = false := by
  have hpending := h.pending
  rw [hidle] at hpending
  by_contra htrue
  rw [if_pos (by simpa using htrue)] at hpending
  contradiction

/-- The books of a new listener agree. -/
theorem create (id : ℕ) (endpoint : Endpoint) (options : AcceptorOptions) :
    Books options (.create id endpoint options) :=
  ⟨rfl, rfl, List.nodup_nil, by simp [AcceptorListener.create], Nat.zero_le _, rfl,
    by simp [AcceptorListener.create],
    fun _ => ⟨rfl, rfl, rfl⟩⟩

/-- The books depend on the shared part through the state and the count only. -/
theorem withCore (h : Books options s) (c : ListenerCore) (hstate : c.state = s.core.state)
    (hcount : c.activeSessions = s.core.activeSessions) : Books options { s with core := c } :=
  ⟨h.configured, hcount.trans h.counted, h.nodup, h.known, h.room, h.pending, fun hs =>
    h.spare (hstate ▸ hs),
    fun hs => h.released (hstate ▸ hs)⟩

/-- The books do not depend on diagnostics and retries. -/
theorem noted (h : Books options s) (hnoted : Noted s t) : Books options t := by
  obtain ⟨hquiet, hcount, -, hoptions, hacceptor, hnext, hpending, hsessions, -⟩ := hnoted
  refine ⟨hoptions.trans h.configured, ?_, ?_, ?_, ?_, ?_, ?_, ?_⟩
  · rw [hcount, hsessions, h.counted]
  · rw [hsessions]
    exact h.nodup
  · rw [hsessions, hnext]
    exact h.known
  · rw [hsessions, hoptions]
    exact h.room
  · rw [hacceptor, hpending]
    exact h.pending
  · rw [hquiet.state, hsessions, hoptions, hpending]
    exact h.spare
  · rw [hquiet.state, hsessions, hacceptor, hpending]
    exact h.released

/-- The books do not depend on the retry timer. -/
theorem withRetryTimer (h : Books options s) (timer : Timer Arming) :
    Books options { s with retryTimer := timer } :=
  ⟨h.configured, h.counted, h.nodup, h.known, h.room, h.pending, h.spare, h.released⟩

/-- A listener that halts keeps its books. -/
theorem stopping (h : Books options s) (c : ListenerCore) (hstate : c.state = .stopping)
    (hcount : c.activeSessions = s.core.activeSessions) (acceptor : Acceptor)
    (haccepts : acceptor.accepts = s.acceptor.accepts) (timer : Timer Arming) :
    Books options { s with core := c, acceptor := acceptor, retryTimer := timer } :=
  ⟨h.configured, hcount.trans h.counted, h.nodup, h.known, h.room, haccepts.trans h.pending,
    by simp [hstate], by simp [hstate]⟩

/-- Finishing a generation with nothing left to drain keeps the books. -/
theorem finish (h : Books options s) (hsessions : s.sessions = [])
    (hpending : s.acceptPending = false) (ec : ErrorCode) (reason : ListenerStopReason) :
    Books options (s.finish ec reason) := by
  unfold AcceptorListener.finish
  split
  · exact h
  · exact ⟨h.configured, by simpa using h.counted, h.nodup, h.known, h.room, h.pending, by simp,
      fun _ => ⟨hsessions, hpending, rfl⟩⟩

/-- Draining keeps the books. -/
theorem maybeFinish (h : Books options s) : Books options s.maybeFinish := by
  unfold AcceptorListener.maybeFinish
  split
  · rename_i hdrained
    exact h.finish hdrained.2.2 hdrained.2.1 _ _
  · exact h

/-- Giving the sessions their grace period keeps the books. -/
theorem armGrace (h : Books options s) : Books options (s.armGrace answers) := by
  unfold AcceptorListener.armGrace
  split
  · exact h
  · cases answers.graceTimer <;> exact h.withCore _ rfl rfl

/-- Closing down keeps the books. -/
theorem closeDown (h : Books options s) (ec : ErrorCode) (reason : ListenerStopReason) :
    Books options (s.closeDown ec reason) :=
  h.stopping (s.closeDown ec reason).core rfl rfl ⟨false, s.acceptor.accepts⟩
    rfl s.retryTimer.cancel

/-- Beginning to stop keeps the books. -/
theorem beginStop (h : Books options s) (ec : ErrorCode) (reason : ListenerStopReason) :
    Books options (s.beginStop answers ec reason) := by
  rcases s.beginStop_cases answers ec reason with ⟨hs, heq⟩ | ⟨-, heq⟩ | ⟨-, heq⟩
  · rw [heq]
    obtain ⟨hsessions, hpending, -⟩ := h.released (Or.inl hs)
    have hannounced : Books options (s.mapCore fun c => c.announceStop ec reason) :=
      h.stopping (s.core.announceStop ec reason) rfl rfl s.acceptor rfl s.retryTimer
    exact hannounced.finish hsessions hpending ec reason
  · rw [heq]
    exact (h.closeDown ec reason).armGrace.maybeFinish
  · rwa [heq]

/-- Starting the next accept keeps the books. -/
theorem acceptNext (h : Books options s) (reason : ListenerStopReason) :
    Books options (s.acceptNext answers reason).1 := by
  rcases s.acceptNext_cases answers reason with
    ⟨-, heq⟩ | ⟨⟨hs, hnone⟩, ⟨-, heq⟩ | ⟨hroom, heq | ⟨t, e, hnoted, heq⟩⟩⟩
  · rw [heq]
    exact h.maybeFinish
  · rwa [heq]
  · rw [heq]
    refine ⟨h.configured, h.counted, h.nodup, h.known, h.room, ?_, fun _ _ =>
      hroom, fun hidle => ?_⟩
    · simp [AcceptorListener.startAccept, h.pending, hnone]
    · have hidle : s.core.state = .idle ∨ s.core.state = .stopped := hidle
      rcases hs with hs | hs <;> simp [hs] at hidle
  · rw [heq]
    exact (h.noted hnoted).beginStop e.error reason

/-- Reacting to a failed accept keeps the books. -/
theorem retryAccept (h : Books options s) (acceptEc : ErrorCode) :
    Books options (s.retryAccept answers acceptEc) := by
  obtain ⟨t, hnoted, ⟨ec, heq⟩ | ⟨tag, heq⟩⟩ := s.retryAccept_cases answers acceptEc
  · rw [heq]
    exact (h.noted hnoted).beginStop ec .runtimeFailure
  · rw [heq]
    exact (h.noted hnoted).withRetryTimer _

/-- A number may be given to a connection without a session. -/
theorem nextConnection (h : Books options s) : Books options s.nextConnection :=
  ⟨h.configured, h.counted, h.nodup, fun key hkey => Nat.le_succ_of_le (h.known key hkey), h.room,
    h.pending, h.spare, h.released⟩

/-- A new session is entered in the books, under a number that is new. -/
theorem addSession (h : Books options s) {info : ConnectionInfo}
    (hid : info.id = s.nextConnectionId + 1)
    (hroom : s.sessions.length < s.options.maxActiveSessions) (hnone : s.acceptPending = false)
    (hs : s.core.state = .running) : Books options (s.nextConnection.addSession info) := by
  have hnew : info.id ∉ s.sessions := fun hmem => by
    have := h.known _ hmem
    omega
  refine ⟨h.configured, ?_, ?_, ?_, ?_, h.pending, fun _ hpending => ?_, fun hidle => ?_⟩
  · change s.core.activeSessions + 1 = (s.sessions ++ [info.id]).length
    rw [h.counted, List.length_append, List.length_singleton]
  · exact List.nodup_append.mpr ⟨h.nodup, by simp, fun x hx y hy => by
      rw [List.mem_singleton.mp hy]
      exact fun heq => hnew (heq ▸ hx)⟩
  · intro key hkey
    rcases List.mem_append.mp hkey with hold | hnew
    · exact Nat.le_succ_of_le (h.known key hold)
    · exact (List.mem_singleton.mp hnew).trans hid |>.le
  · change (s.sessions ++ [info.id]).length ≤ _
    rw [List.length_append, List.length_singleton]
    exact hroom
  · exact absurd hpending (by simp [AcceptorListener.addSession,
      AcceptorListener.nextConnection, hnone])
  · have hidle : s.core.state = .idle ∨ s.core.state = .stopped := hidle
    simp [hs] at hidle

/-- An accept that returns was the one outstanding, and there is room for its session. -/
theorem acceptReturns (h : Books options s) (hpos : 0 < s.acceptor.accepts) :
    Books options { s with acceptor := ⟨s.acceptor.isOpen,
      s.acceptor.accepts - 1⟩, acceptPending := false } ∧
      (s.core.state = .running → s.sessions.length < s.options.maxActiveSessions) := by
  have hpending : s.acceptPending = true := by
    by_contra hnone
    simp [h.pending, hnone] at hpos
  refine ⟨⟨h.configured, h.counted, h.nodup, h.known, h.room, by simp [h.pending, hpending],
    fun _ => nofun, fun hs => ?_⟩,
    fun hs => h.spare (Or.inr hs) hpending⟩
  exact ⟨(h.released hs).1, rfl, (h.released hs).2.2⟩

/-- The handler of an accept keeps the books. -/
theorem accepted (h : Books options { s with acceptPending := false })
    (hroom : s.core.state = .running → s.sessions.length < s.options.maxActiveSessions)
    (result : AcceptResult) :
    Books options (s.accepted answers result) := by
  rcases s.accepted_cases answers result with
    ⟨-, heq⟩ | ⟨hs, heq | ⟨info, -, ec, ep, heq⟩ | ⟨info, hid, heq⟩⟩
  · rw [heq]
    exact h.maybeFinish
  · rw [heq]
    exact h.retryAccept result.error
  · rw [heq]
    exact acceptNext
      ((h.nextConnection).withCore (s.core.sessionFactoryFailed info ec ep) rfl rfl) _
  · rw [heq]
    exact (h.addSession hid (hroom hs) rfl hs).acceptNext _

/-- Dropping a session keeps the books. -/
theorem removeSession (h : Books options s) (key : ℕ) : Books options (s.removeSession key) := by
  unfold AcceptorListener.removeSession
  split
  · rename_i hmem
    have hlength := List.length_erase_of_mem hmem
    refine ⟨h.configured, ?_, h.nodup.erase key, fun k hk =>
      h.known k (List.mem_of_mem_erase hk), ?_, h.pending,
      fun hs hpending => ?_, fun hs => ?_⟩
    · simp [AcceptorListener.mapCore, hlength, h.counted]
    · simp only [hlength]
      exact (Nat.sub_le _ _).trans h.room
    · simp only [hlength]
      exact (Nat.sub_le _ _).trans_lt (h.spare hs hpending)
    · simp [(h.released hs).1] at hmem
  · exact h

/-- Noting the end of a session keeps the books. -/
theorem sessionStopped (h : Books options s) (report : SessionReport) :
    Books options ((s.removeSession report.info.id).mapCore fun c => c.sessionStopped
      report.info report) := by
  refine (h.removeSession report.info.id).withCore _ (quiet_sessionStopped _ _ _).state ?_
  unfold ListenerCore.sessionStopped
  split <;> rfl

/-- The strand step of a session's report keeps the books. -/
theorem sessionFinished (h : Books options s) (report : SessionReport) :
    Books options (s.sessionFinished answers report) := by
  obtain ⟨t, rfl, heq⟩ := s.sessionFinished_eq answers report
  rw [heq]
  split
  · exact ((h.sessionStopped report).acceptNext _).maybeFinish
  · exact (h.sessionStopped report).maybeFinish

/-- A new generation of a listener at rest keeps the books. -/
theorem opened (h : Books options s) (hs : s.core.state = .idle ∨ s.core.state = .stopped)
    {acceptor : Acceptor} (haccepts : acceptor.accepts = s.acceptor.accepts) (endpoint : String) :
    Books options (s.opened acceptor endpoint) :=
  ⟨h.configured, h.counted, h.nodup, h.known, h.room, haccepts.trans h.pending,
    by simp [AcceptorListener.opened, (h.released hs).2.1],
    by rintro (hidle | hidle) <;> contradiction⟩

/-- The strand step of a start keeps the books. -/
theorem startOnStrand (h : Books options s) (handler : CompletionHandler) :
    Books options (s.startOnStrand answers handler) := by
  rcases s.startOnStrand_cases answers handler with
    ⟨-, heq⟩ | ⟨-, heq⟩ | ⟨hs, acceptor, endpoint, haccepts, hbegun⟩
  · rw [heq]
    exact h.withCore _ rfl rfl
  · rw [heq]
    exact h.withCore _ rfl rfl
  · obtain ⟨hsessions, hnone, -⟩ := h.released hs
    have hopened : Books options (s.opened acceptor endpoint) := h.opened hs haccepts endpoint
    rcases hbegun with ⟨ec, heq⟩ | ⟨t, ec, hnext, ⟨-, heq⟩ | ⟨hec, heq⟩⟩
    · have hcompleted : Books options ((s.opened acceptor endpoint).mapCore fun c =>
          c.completeOn ⟨handler, none, ec, .startupFailed⟩) := hopened.withCore _ rfl rfl
      rw [heq]
      exact hcompleted.finish hsessions hnone ec .startupFailure
    · have ht : Books options ((s.opened acceptor endpoint).acceptNext answers .startupFailure).1 :=
        hopened.acceptNext _
      rw [hnext] at ht
      rw [heq]
      exact ht.withCore _ rfl rfl
    · have ht : Books options ((s.opened acceptor endpoint).acceptNext answers .startupFailure).1 :=
        hopened.acceptNext _
      have hcore :=
        (s.opened acceptor endpoint).acceptNext_core answers .startupFailure (Or.inl rfl)
      rw [hnext] at ht hcore
      have hstarting : t.core.state = .starting := by rw [hcore hec]; rfl
      rw [heq]
      exact ⟨ht.configured, ht.counted, ht.nodup, ht.known, ht.room, ht.pending, fun _ =>
        ht.spare (Or.inl hstarting), by rintro (hidle | hidle) <;> contradiction⟩

/-- Running a posted message keeps the books. -/
theorem handle (h : Books options s) (message : Message) :
    Books options (s.handle answers message) := by
  cases message with
  | start handler cancelled =>
    cases cancelled with
    | true => exact h.withCore _ rfl rfl
    | false => exact h.startOnStrand handler
  | wait w =>
    have hframe := registerWait_waitsOnly s.core w
    exact h.withCore _ hframe.state hframe.activeSessions
  | cancelWait id =>
    have hframe := cancelWait_waitsOnly s.core id
    exact h.withCore _ hframe.state hframe.activeSessions
  | stop => exact h.beginStop _ _
  | sessionFinished report => exact h.sessionFinished report
  | complete completion => exact h.withCore _ rfl rfl

/-- Every step keeps the books. -/
theorem step {l : AcceptorLabel} (h : Books options s) (hstep : s.step l = some t) :
    Books options t := by
  cases s.step_cases hstep with
  | core hcall =>
    obtain ⟨hstate, -, hcount, -⟩ := hcall.frame
    exact h.withCore _ hstate hcount
  | @run answers message rest hstrand =>
    exact handle (h.withCore { s.core with strand := rest } rfl rfl) message
  | accepted hpos =>
    obtain ⟨hdone, hroom⟩ := h.acceptReturns hpos
    exact accepted (s := { s with acceptor := ⟨s.acceptor.isOpen, s.acceptor.accepts - 1⟩ }) hdone
      hroom _
  | retryExpires hexpire => exact h.withRetryTimer _
  | retryAborted htake hw => exact (h.withRetryTimer _).maybeFinish
  | retryDue htake hw => exact (h.withRetryTimer _).acceptNext _
  | graceAborted htake hw => exact h.withCore _ rfl rfl
  | graceDue htake hw => exact h.withCore _ rfl rfl

end Books

/-- Between any two steps, in any number of generations, the books of an accepting listener
agree: the sessions are counted, numbered apart and within the limit, at most one accept is
outstanding and exactly when it is noted as pending, an accept that is outstanding while the
listener runs has room for its session, and nothing is left in a listener at rest. -/
theorem acceptorListener_books {id : ℕ} {endpoint : Endpoint} {options : AcceptorOptions}
    {s : AcceptorListener} (h : Reachable AcceptorListener.step (.create id endpoint options) s) :
    s.core.activeSessions = s.sessions.length ∧ s.sessions.Nodup ∧
      s.sessions.length ≤ options.maxActiveSessions ∧ s.acceptor.accepts ≤ 1 ∧
      (s.acceptPending = true ↔ s.acceptor.accepts = 1) ∧
      (s.core.state = .running → 0 < s.acceptor.accepts →
        s.sessions.length < options.maxActiveSessions) ∧
      (s.core.state = .idle ∨ s.core.state = .stopped →
        s.sessions = [] ∧ s.acceptor.accepts = 0 ∧ s.acceptor.isOpen = false) := by
  have hbooks := h.invariant (Books options) (fun _ _ _ hs hstep => hs.step hstep)
    (Books.create id endpoint options)
  have hpending := hbooks.pending
  rw [← hbooks.configured]
  refine ⟨hbooks.counted, hbooks.nodup, hbooks.room, ?_, ?_, fun hs hpos => ?_, fun hs => ?_⟩
  · rw [hpending]
    split <;> omega
  · rw [hpending]
    split <;> simp_all
  · refine hbooks.spare (Or.inr hs) ?_
    by_contra hnone
    simp [hpending, hnone] at hpos
  · obtain ⟨hsessions, hnone, hclosed⟩ := hbooks.released hs
    exact ⟨hsessions, by simp [hpending, hnone], hclosed⟩

/-- A new listener is started and accepts one connection. -/
def oneSession : List AcceptorLabel := [.core (.asyncStart (.user 0)), .run {}, .accepted {} {}]

/-- The books agree after the first connection. -/
theorem acceptorListener_books_oneSession : ∃ s,
    run AcceptorListener.step (.create 1 ⟨"127.0.0.1:0", true, false⟩ ⟨{}, rfl⟩)
      oneSession = some s ∧
      s.sessions = [1] ∧ s.acceptor.accepts = 1 ∧ s.core.activeSessions = s.sessions.length ∧
      s.sessions.length < (1024 : ℕ) := by
  have h : run AcceptorListener.step (.create 1 ⟨"127.0.0.1:0", true, false⟩ ⟨{}, rfl⟩)
      oneSession = some _ := rfl
  have hbooks := acceptorListener_books ⟨_, h⟩
  exact ⟨_, h, rfl, rfl, hbooks.1, hbooks.2.2.2.2.2.1 rfl Nat.one_pos⟩

end Serveza
