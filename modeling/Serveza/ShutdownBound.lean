import Serveza.ShutdownWork

/-!
# Shutdown takes bounded time

Once a listener has been asked to stop, every run of the steps that are due is bounded by what
is left, whatever the user's sessions do in between, and when no such step is left the listener
is stopped: every session has been dropped, every wait has been completed and nothing is in
flight.
-/

namespace Serveza

open Foundation ListenerCore

/-- The step of an accepting listener is due. -/
def AcceptorLabel.isDue : AcceptorLabel → Bool
  | .core call => call.isDue
  | _ => true

/-- The step of an accepting listener is due or made by a session. -/
def AcceptorLabel.isUnattended : AcceptorLabel → Bool
  | .core call => call.isDue || call.isSession
  | _ => true

/-- The step of a bound-socket listener is due. -/
def SocketLabel.isDue : SocketLabel → Bool
  | .core call => call.isDue
  | _ => true

/-- The step of a bound-socket listener is due or made by its session. -/
def SocketLabel.isUnattended : SocketLabel → Bool
  | .core call => call.isDue || call.isSession
  | _ => true

/-- The step of a listener is due: nobody has to call for it and it will be made. -/
def ListenerLabel.isDue : ListenerLabel → Bool
  | .acceptor l => l.isDue
  | .socket l => l.isDue

/-- The step of a listener is due or made by the user's session. -/
def ListenerLabel.isUnattended : ListenerLabel → Bool
  | .acceptor l => l.isUnattended
  | .socket l => l.isUnattended

/-- What the handler that a step calls is worth. -/
def StepKind.called (burst : CompletionHandler → ℕ) : StepKind → ℕ
  | .deliver completion => burst completion.handler
  | _ => 0

/-- The step that runs a message calls the handler that the message calls. -/
theorem Message.kind_called (burst : CompletionHandler → ℕ) (message : Message) :
    message.kind.called burst = message.called burst := by
  cases message <;> rfl

section Messages

variable {a : ListenerCore} {rest : List Message} (burst : CompletionHandler → ℕ)

/-- Taking a message off the strand leaves less, even with what the handler it calls is worth. -/
theorem remainder_popped {message : Message} (h : a.strand = message :: rest) :
    { a with strand := rest }.remainder burst + message.called burst < a.remainder burst := by
  have hpop := remainder_pop burst h
  cases message <;> simp only [Message.work, Message.called] at hpop ⊢ <;> omega

/-- Running a queued wait leaves less. -/
theorem remainder_wait {w : WaitOperation} (h : a.strand = .wait w :: rest) :
    ({ a with strand := rest }.registerWait w).remainder burst < a.remainder burst := by
  have hpop := remainder_pop burst h
  have hwaits := remainder_waitsOnly burst (registerWait_waitsOnly { a with strand := rest } w)
  have hwork := work_registerWait burst { a with strand := rest } w
  omega

/-- Running a queued cancellation leaves less. -/
theorem remainder_cancelWait {id : ℕ} (h : a.strand = .cancelWait id :: rest) :
    ({ a with strand := rest }.cancelWait id).remainder burst < a.remainder burst := by
  have hpop := remainder_pop burst h
  have hwaits := remainder_waitsOnly burst (cancelWait_waitsOnly { a with strand := rest } id)
  have hwork := work_cancelWait burst { a with strand := rest } id
  simp only [Message.work] at hpop
  omega

/-- Closing the sessions after the grace period is paid for by the wait that is over. -/
theorem remainder_force {k : ℕ} {w : TimerWait Arming} {timer : Timer Arming}
    (htake : a.shutdownTimer.take k = some (w, timer)) (hw : w.status = .expired) (keys : List ℕ) :
    ({ a with shutdownTimer := timer }.forceShutdown keys).remainder burst < a.remainder burst := by
  have hweight := Timer.weight_take (f := graceWork a.heap.length) htake
  have hposted := sessionsWork_postTo a keys .forceClose
  have hheap : ({ a with shutdownTimer := timer }.forceShutdown keys).heap =
      (a.postTo keys .forceClose).heap := rfl
  have hlength : (a.postTo keys .forceClose).heap.length = a.heap.length := by simp [postTo]
  have hwork : ({ a with shutdownTimer := timer }.forceShutdown keys).work burst = a.work burst :=
    rfl
  have htimer : ({ a with shutdownTimer := timer }.forceShutdown keys).shutdownTimer = timer := rfl
  rw [hw] at hweight
  simp only [graceWork] at hweight
  rw [remainder, remainder, spare, spare, hheap, hlength, hwork, htimer]
  omega

/-- Running the handler of an aborted wait leaves less. -/
theorem remainder_aborted {k : ℕ} {w : TimerWait Arming} {timer : Timer Arming}
    (htake : a.shutdownTimer.take k = some (w, timer)) (hw : w.status = .aborted) :
    { a with shutdownTimer := timer }.remainder burst < a.remainder burst := by
  have hweight := Timer.weight_take (f := graceWork a.heap.length) htake
  rw [hw] at hweight
  simp only [remainder, spare, ListenerCore.work, graceWork] at hweight ⊢
  omega

end Messages

namespace AcceptorListener

variable {s t : AcceptorListener} (burst : CompletionHandler → ℕ)

/-- What an accepting listener that winds down has left. -/
def remainder (s : AcceptorListener) : ℕ :=
  s.core.remainder burst + s.acceptor.accepts + s.retryTimer.weight (graceWork 0)

/-- Draining leaves no more than there was. -/
theorem maybeFinish_remainder (s : AcceptorListener) :
    s.maybeFinish.remainder burst ≤ s.remainder burst := by
  unfold maybeFinish finish
  split
  · split
    · exact le_rfl
    · have hcore := remainder_finish burst s.core s.core.terminalError s.core.stopReason
      have htimer := s.retryTimer.weight_cancel_le (f := graceWork 0) (by simp [graceWork])
      simp only [remainder]
      omega
  · exact le_rfl

/-- Running a message leaves less, even with what the handler it calls is worth. -/
theorem run_remainder (h : WindingDown s.core) (answers : AcceptorAnswers) {message : Message}
    {rest : List Message} (hstrand : s.core.strand = message :: rest) :
    ((s.mapCore fun c => { c with strand := rest }).handle answers message).remainder burst +
    message.called burst <
      s.remainder burst := by
  have hcore {c : ListenerCore} {n : ℕ} (hless : c.remainder burst + n < s.core.remainder burst) :
      { s with core := c }.remainder burst + n < s.remainder burst := by
    simp only [remainder]
    omega
  cases message with
  | start handler cancelled =>
    exact absurd (h.starts _ (hstrand ▸ List.mem_cons_self)) (by simp [Message.isStart])
  | wait w => exact hcore (n := 0) (remainder_wait burst hstrand)
  | cancelWait id => exact hcore (n := 0) (remainder_cancelWait burst hstrand)
  | complete completion => exact hcore (remainder_popped burst hstrand)
  | stop =>
    have hsame : (s.mapCore fun c => { c with strand := rest }).handle answers .stop =
        s.mapCore fun c => { c with strand := rest } := by
      rcases (s.mapCore fun c => { c with strand := rest }).beginStop_cases answers
        .success .requested with
        ⟨hs, -⟩ | ⟨hs, -⟩ | ⟨-, heq⟩
      · rcases h.halted with hh | hh <;> exact absurd (hs.symm.trans hh) (by decide)
      · rcases hs with hs | hs <;> rcases h.halted with hh | hh <;>
          exact absurd (hs.symm.trans hh) (by decide)
      · exact heq
    rw [hsame]
    exact hcore (remainder_popped burst hstrand)
  | sessionFinished report =>
    obtain ⟨t, ht, heq⟩ :=
      (s.mapCore fun c => { c with strand := rest }).sessionFinished_eq answers report
    have hquiet : Quiet { s.core with strand := rest } t.core := by
      rw [ht]
      exact (removeSession_quiet (s.mapCore fun c => { c with strand := rest }) _).trans
        (quiet_sessionStopped _ _ _)
    have hheap : t.core.heap = s.core.heap := by
      rw [ht]
      exact (sessionStopped_eq _ _ _).2.1.trans (by unfold removeSession; split <;> rfl)
    have hothers : t.acceptor = s.acceptor ∧ t.retryTimer = s.retryTimer := by
      rw [ht]
      unfold removeSession
      split <;> exact ⟨rfl, rfl⟩
    have hnot : t.core.state ≠ .running := by
      rw [hquiet.state]
      rcases h.halted with hh | hh <;> simp [hh]
    have hless : t.core.remainder burst < s.core.remainder burst :=
      (remainder_congr burst hquiet.strand hquiet.waiters hquiet.initiating hheap
        hquiet.shutdownTimer).trans_lt (remainder_popped burst hstrand)
    have hdrained := t.maybeFinish_remainder burst
    rw [if_neg hnot] at heq
    change ((s.mapCore fun c => { c with strand := rest }).sessionFinished answers report).remainder
      burst < s.remainder burst
    rw [heq]
    simp only [remainder, hothers.1, hothers.2] at hdrained ⊢
    omega

/-- Every step that is due leaves less, even with what the handler it calls is worth, and a step of
a session leaves no more. -/
theorem step_remainder {l : AcceptorLabel} (h : WindingDown s.core)
    (hdistinct : (s.core.heap.map (·.info.id)).Nodup) (hstep : s.step l = some t)
    (hl : l.isUnattended = true) (hinternal : (ListenerLabel.acceptor l).isInternal = true) :
    t.remainder burst + (s.kind l).called burst + (if l.isDue then 1 else 0) ≤
      s.remainder burst := by
  have hdrained {u : AcceptorListener} (hless : u.remainder burst < s.remainder burst) :
      u.maybeFinish.remainder burst + 0 + 1 ≤ s.remainder burst :=
    Nat.succ_le_of_lt ((u.maybeFinish_remainder burst).trans_lt hless)
  have htaken {k : ℕ} {w : TimerWait Arming} {timer : Timer Arming}
      (htake : s.retryTimer.take k = some (w, timer))
      (hpos : 0 < graceWork 0 w.status) : { s with retryTimer := timer }.remainder burst <
        s.remainder burst := by
    have hweight := Timer.weight_take (f := graceWork 0) htake
    simp only [remainder]
    omega
  cases s.step_cases hstep with
  | @core call c hcall =>
    have hcore := hcall.remainder_le hdistinct (by cases call <;> first | rfl | contradiction) burst
    change c.remainder burst + s.acceptor.accepts + s.retryTimer.weight (graceWork 0) + 0 +
      (if call.isDue then 1 else 0) ≤ s.remainder burst
    simp only [remainder]
    omega
  | @run answers message rest hstrand =>
    have hkind : s.kind (.run answers) = message.kind := by simp [kind, hstrand]
    rw [hkind, Message.kind_called]
    exact run_remainder burst h answers hstrand
  | @accepted result answers hpos =>
    have hnot : s.core.state ≠ .running := by rcases h.halted with hh | hh <;> simp [hh]
    rcases { s with acceptor := ⟨s.acceptor.isOpen, s.acceptor.accepts - 1⟩ }.accepted_cases answers
      result with
      ⟨-, heq⟩ | ⟨hrunning, -⟩
    · rw [heq]
      refine hdrained ?_
      simp only [remainder]
      omega
    · exact absurd hrunning hnot
  | @retryExpires k timer hexpire =>
    have hweight := Timer.weight_expire (f := graceWork 0) hexpire
    simp only [graceWork] at hweight
    simp only [remainder, AcceptorLabel.isDue, if_true, kind, StepKind.called]
    omega
  | @retryAborted k answers w timer htake hw =>
    exact hdrained (htaken htake (by simp [hw, graceWork]))
  | @retryDue k answers w timer htake hw =>
    have hnot : ¬ { s with retryTimer := timer }.Accepting := by
      rintro (hs | hs) <;> rcases h.halted with hh | hh <;>
        exact absurd (hs.symm.trans hh) (by decide)
    rcases { s with retryTimer := timer }.acceptNext_cases answers .runtimeFailure with
      ⟨-, heq⟩ | ⟨⟨hs, -⟩, -⟩
    · rw [heq]
      exact hdrained (htaken htake (by simp [hw, graceWork]))
    · exact absurd hs hnot
  | @graceAborted k w timer htake hw =>
    have hless := remainder_aborted burst htake hw
    have hkind : (s.kind (.graceHandler k)).called burst = 0 := by
      simp [kind, htake, graceKind, hw, StepKind.called]
    simp only [remainder, mapCore, AcceptorLabel.isDue, if_true, hkind]
    omega
  | @graceDue k w timer htake hw =>
    have hless := remainder_force burst htake hw s.sessions
    have hkind : (s.kind (.graceHandler k)).called burst = 0 := by
      simp [kind, htake, graceKind, hw, StepKind.called]
    simp only [remainder, mapCore, AcceptorLabel.isDue, if_true, hkind]
    omega

end AcceptorListener

namespace SocketListener

variable {s t : SocketListener} (burst : CompletionHandler → ℕ)

/-- Draining leaves no more than there was. -/
theorem maybeFinish_remainder (s : SocketListener) :
    s.maybeFinish.core.remainder burst ≤ s.core.remainder burst := by
  unfold maybeFinish
  split
  · exact remainder_finish _ _ _ _
  · exact le_rfl

/-- Running a message leaves less, even with what the handler it calls is worth. -/
theorem run_remainder (h : WindingDown s.core) (answers : SocketAnswers) {message : Message}
    {rest : List Message} (hstrand : s.core.strand = message :: rest) :
    ((s.mapCore fun c => { c with strand := rest }).handle answers message).core.remainder burst +
    message.called burst <
      s.core.remainder burst := by
  cases message with
  | start handler cancelled =>
    exact absurd (h.starts _ (hstrand ▸ List.mem_cons_self)) (by simp [Message.isStart])
  | wait w => exact remainder_wait burst hstrand
  | cancelWait id => exact remainder_cancelWait burst hstrand
  | complete completion => exact remainder_popped burst hstrand
  | stop =>
    have hsame : ((s.mapCore fun c => { c with strand := rest }).handle answers .stop).core =
        { s.core with strand := rest } := by
      change (stopOnStrand _).core = _
      unfold stopOnStrand
      rcases h.halted with hh | hh <;> simp only [mapCore, hh]
    rw [hsame]
    exact remainder_popped burst hstrand
  | sessionFinished report =>
    obtain ⟨c, hquiet, hheap, -, ⟨hrunning, -⟩ | ⟨-, heq⟩⟩ :=
      (s.mapCore fun c => { c with strand := rest }).sessionFinished_cases report
    · rcases h.halted with hh | hh <;> exact absurd (hrunning.symm.trans hh) (by decide)
    · have hless : c.remainder burst < s.core.remainder burst :=
        (remainder_congr burst hquiet.strand hquiet.waiters hquiet.initiating hheap
          hquiet.shutdownTimer).trans_lt (remainder_popped burst hstrand)
      have hdrained := maybeFinish_remainder burst
        { s.mapCore (fun c => { c with strand := rest }) with core := c, session := none }
      change ((s.mapCore fun c => { c with strand := rest }).sessionFinished report).core.remainder
        burst < _
      rw [heq]
      exact hdrained.trans_lt hless

/-- Every step that is due leaves less, even with what the handler it calls is worth, and a step of
the session leaves no more. -/
theorem step_remainder {l : SocketLabel} (h : WindingDown s.core)
    (hdistinct : (s.core.heap.map (·.info.id)).Nodup) (hstep : s.step l = some t)
    (hl : l.isUnattended = true) (hinternal : (ListenerLabel.socket l).isInternal = true) :
    t.core.remainder burst + (s.kind l).called burst + (if l.isDue then 1 else 0) ≤
      s.core.remainder burst := by
  cases l with
  | core call =>
    obtain ⟨c, hc, rfl⟩ := Option.map_eq_some_iff.mp hstep
    exact (call_cases hc).remainder_le hdistinct
      (by cases call <;> first | rfl | contradiction) burst
  | run answers =>
    cases hstrand : s.core.strand with
    | nil => simp [step, hstrand] at hstep
    | cons message rest =>
      obtain rfl : _ = t := by simpa [step, hstrand] using hstep
      have hkind : s.kind (.run answers) = message.kind := by simp [kind, hstrand]
      rw [hkind, Message.kind_called]
      exact run_remainder burst h answers hstrand
  | graceHandler k =>
    obtain ⟨⟨⟨tag, status⟩, timer⟩, htake, rfl⟩ := Option.map_eq_some_iff.mp hstep
    have hkind : (s.kind (.graceHandler k)).called burst = 0 := by
      cases status <;> simp [kind, htake, graceKind, StepKind.called]
    rw [hkind]
    cases status with
    | pending => exact absurd rfl (Timer.take_cases htake).2.1
    | expired => exact remainder_force burst htake rfl s.session.toList
    | aborted => exact remainder_aborted burst htake rfl

end SocketListener

end Serveza
