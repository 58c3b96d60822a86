import Serveza.Lending
import Serveza.StopAfterStart

/-!
# Who owns a listener

A listener exists as long as a strong reference to it does: a handle, a call in progress, a
queued message, an outstanding accept, or a wait on one of its timers. Its sessions refer to
it weakly. A step that runs on behalf of such a reference uses it up, and `spend` is the
listener without it; what the step leaves is alive if that is.
-/

namespace Serveza

open Foundation ListenerCore

/-- Work that is added to the strand takes no reference away. -/
theorem referenced_mono {a b : ListenerCore}
    (hcalls : b.handles = a.handles ∧ b.stopping = a.stopping ∧ b.initiating = a.initiating)
    (hstrand : ∃ more, b.strand = a.strand ++ more)
    (htimer : a.shutdownTimer.waits ≠ [] → b.shutdownTimer.waits ≠ []) (h : a.referenced = true) :
    b.referenced = true := by
  obtain ⟨more, hmore⟩ := hstrand
  simp only [referenced, Bool.or_eq_true, decide_eq_true_eq, Bool.not_eq_true',
    List.isEmpty_eq_false_iff] at h ⊢
  rw [hcalls.1, hcalls.2.1, hcalls.2.2, hmore, List.any_append, Bool.or_eq_true]
  exact Or.imp (Or.imp_right Or.inl) htimer h

/-- A move takes no reference away. -/
theorem Move.referenced {a b : ListenerCore} (hm : Move a b) (h : a.referenced = true) :
    b.referenced = true := by
  have hsame := hm.sameGeneration
  obtain ⟨cs, hcs⟩ := hm.strand
  refine referenced_mono ⟨hsame.handles, hsame.stopping, hsame.initiating⟩ ⟨_, hcs⟩
    (fun htimer => ?_) h
  cases hm with
  | quiet hquiet => rwa [hquiet.shutdownTimer]
  | running hs => exact htimer
  | stopping hs harming =>
    cases harming with
    | none => exact htimer
    | failed => simpa [transitionTo, emit, Timer.expiresAfter, Timer.cancel] using htimer
    | armed delay => simp [transitionTo, emit, Timer.asyncWait]
  | finish ec reason hs =>
    have hstopped : a.state ≠ .stopped := by rcases hs with hs | hs <;> simp [hs]
    rw [ListenerCore.finish, if_neg hstopped]
    simpa [transitionTo, emit, completeWaiters, Timer.cancel] using htimer

/-- Moves take no reference away. -/
theorem moves_referenced {a b : ListenerCore} (hm : Moves a b) (h : a.referenced = true) :
    b.referenced = true := by
  induction hm with
  | refl => exact h
  | tail _ hmove ih => exact hmove.referenced ih

/-- The bookkeeping of waits takes no reference away. -/
theorem waitsOnly_referenced {a b : ListenerCore} (hw : WaitsOnly a b) (h : a.referenced = true) :
    b.referenced = true := by
  obtain ⟨cs, hcs⟩ := hw.strand
  exact referenced_mono ⟨hw.handles, hw.stopping, hw.initiating⟩ ⟨_, hcs⟩
    (fun htimer => hw.shutdownTimer ▸ htimer) h

/-- A call takes no reference away, unless it drops a handle. -/
theorem CallStep.referenced {a b : ListenerCore} {alive : Bool} {l : CoreLabel}
    (hcall : CallStep alive l a b) (hl : l ≠ .dropHandle) (h : a.referenced = true) :
    b.referenced = true := by
  cases hcall with
  | asyncStart | postCancel | session =>
    exact referenced_mono (a := a) ⟨rfl, rfl, rfl⟩ ⟨_, rfl⟩ id h
  | @cancelStart _ handler =>
    have howns : Message.ownsListener ∘ Message.cancelStart handler = Message.ownsListener := by
      funext m
      cases m <;> rfl
    simpa only [ListenerCore.referenced, List.any_map, howns] using h
  | beginWait => simp [ListenerCore.referenced]
  | postWait | stopPost => simp [ListenerCore.referenced, post, Message.ownsListener]
  | cancelWait | dropCancel | cancelGone | stopReturns => exact h
  | stopRead => simp [ListenerCore.referenced]
  | graceExpires htimer =>
    obtain ⟨w, hw, -⟩ := Timer.hasLive_expire htimer
    refine referenced_mono (a := a) ⟨rfl, rfl, rfl⟩ ⟨[], by simp⟩ (fun _ hnone => ?_) h
    rw [hnone] at hw
    contradiction
  | cloneHandle => simp [ListenerCore.referenced]
  | dropHandle => exact absurd rfl hl

/-- No outstanding accept and no wait on the retry timer is lost. -/
structure KeepsOperations (s t : AcceptorListener) : Prop where
  accepts : s.acceptor.accepts ≤ t.acceptor.accepts
  retries : s.retryTimer.waits ≠ [] → t.retryTimer.waits ≠ []

namespace KeepsOperations

variable {s t u : AcceptorListener} {answers : AcceptorAnswers}

/-- Nothing is lost if nothing changes. -/
theorem refl : KeepsOperations s s := ⟨Nat.le_refl _, id⟩

/-- What a handler keeps depends on the accepts and the retry timer only. -/
theorem same (h : KeepsOperations t u) (haccepts : t.acceptor.accepts = s.acceptor.accepts)
    (hretries : t.retryTimer = s.retryTimer) : KeepsOperations s u :=
  ⟨haccepts ▸ h.accepts, hretries ▸ h.retries⟩

/-- What two handlers keep, the two together keep. -/
theorem trans (h : KeepsOperations s t) (k : KeepsOperations t u) : KeepsOperations s u :=
  ⟨h.accepts.trans k.accepts, fun hs => k.retries (h.retries hs)⟩

/-- Diagnostics lose nothing. -/
theorem noted (h : Noted s t) : KeepsOperations s t := ⟨by rw [h.acceptor], h.retries⟩

/-- Finishing a generation cancels and loses nothing. -/
theorem finish (ec : ErrorCode) (reason : ListenerStopReason) :
    KeepsOperations s (s.finish ec reason) := by
  unfold AcceptorListener.finish
  split
  · exact refl
  · exact ⟨Nat.le_refl _, by simp [Timer.cancel]⟩

/-- Draining loses nothing. -/
theorem maybeFinish : KeepsOperations s s.maybeFinish := by
  unfold AcceptorListener.maybeFinish
  split
  · exact finish _ _
  · exact refl

/-- Beginning to stop cancels and loses nothing. -/
theorem beginStop (ec : ErrorCode) (reason : ListenerStopReason) :
    KeepsOperations s (s.beginStop answers ec reason) := by
  have harm : KeepsOperations s ((s.closeDown ec reason).armGrace answers) := by
    have hclosed : KeepsOperations s (s.closeDown ec reason) :=
      ⟨Nat.le_refl _, by simp [AcceptorListener.closeDown, AcceptorListener.mapCore, Timer.cancel]⟩
    unfold AcceptorListener.armGrace
    split
    · exact hclosed
    · cases answers.graceTimer <;> exact ⟨hclosed.accepts, hclosed.retries⟩
  rcases s.beginStop_cases answers ec reason with ⟨-, heq⟩ | ⟨-, heq⟩ | ⟨-, heq⟩
  · rw [heq]
    exact same (finish (s := s.mapCore fun c => c.announceStop ec reason) ec reason) rfl rfl
  · rw [heq]
    exact harm.trans maybeFinish
  · rw [heq]
    exact refl

/-- Starting the next accept loses nothing. -/
theorem acceptNext (reason : ListenerStopReason) :
    KeepsOperations s (s.acceptNext answers reason).1 := by
  rcases s.acceptNext_cases answers reason with
    ⟨-, heq⟩ | ⟨-, ⟨-, heq⟩ | ⟨-, heq | ⟨t, e, hnoted, heq⟩⟩⟩
  · rw [heq]
    exact maybeFinish
  · rw [heq]
    exact refl
  · rw [heq]
    exact ⟨Nat.le_succ _, id⟩
  · rw [heq]
    exact (noted hnoted).trans (beginStop _ _)

/-- Reacting to a failed accept loses nothing. -/
theorem retryAccept (acceptEc : ErrorCode) :
    KeepsOperations s (s.retryAccept answers acceptEc) := by
  obtain ⟨t, hnoted, ⟨ec, heq⟩ | ⟨tag, heq⟩⟩ := s.retryAccept_cases answers acceptEc
  · rw [heq]
    exact (noted hnoted).trans (beginStop _ _)
  · rw [heq]
    exact (noted hnoted).trans ⟨Nat.le_refl _, fun _ => by simp [Timer.asyncWait]⟩

/-- The handler of an accept loses no other operation. -/
theorem accepted (result : AcceptResult) : KeepsOperations s (s.accepted answers result) := by
  rcases s.accepted_cases answers result with
    ⟨-, heq⟩ | ⟨-, heq | ⟨info, -, ec, ep, heq⟩ | ⟨info, -, heq⟩⟩
  · rw [heq]
    exact same (maybeFinish (s := { s with acceptPending := false })) rfl rfl
  · rw [heq]
    exact same (retryAccept (s := { s with acceptPending := false }) _) rfl rfl
  · rw [heq]
    exact same (t := { s with acceptPending := false }.nextConnection.mapCore fun c =>
      c.sessionFactoryFailed info ec ep) (acceptNext _) rfl rfl
  · rw [heq]
    exact same (t := { s with acceptPending := false }.nextConnection.addSession info)
      (acceptNext _) rfl rfl

/-- The report of a session loses no operation. -/
theorem sessionFinished (report : SessionReport) :
    KeepsOperations s (s.sessionFinished answers report) := by
  obtain ⟨t, rfl, heq⟩ := s.sessionFinished_eq answers report
  have hremoved : KeepsOperations s
      ((s.removeSession report.info.id).mapCore fun c => c.sessionStopped report.info report) := by
    unfold AcceptorListener.removeSession
    split <;> exact ⟨Nat.le_refl _, id⟩
  rw [heq]
  split
  · exact (hremoved.trans (acceptNext _)).trans maybeFinish
  · exact hremoved.trans maybeFinish

/-- A start loses no operation. -/
theorem startOnStrand (handler : CompletionHandler) :
    KeepsOperations s (s.startOnStrand answers handler) := by
  rcases s.startOnStrand_cases answers handler with
    ⟨-, heq⟩ | ⟨-, heq⟩ | ⟨-, acceptor, endpoint, haccepts, hbegun⟩
  · rw [heq]
    exact ⟨Nat.le_refl _, id⟩
  · rw [heq]
    exact ⟨Nat.le_refl _, id⟩
  · have hopened : KeepsOperations s (s.opened acceptor endpoint) := ⟨haccepts.ge, id⟩
    rcases hbegun with ⟨ec, heq⟩ | ⟨t, ec, hnext, ⟨-, heq⟩ | ⟨-, heq⟩⟩
    · rw [heq]
      exact hopened.trans (same (finish _ _) rfl rfl)
    all_goals
      have ht : KeepsOperations s
          ((s.opened acceptor endpoint).acceptNext answers .startupFailure).1 :=
        hopened.trans (acceptNext _)
      rw [hnext] at ht
      rw [heq]
      exact ⟨ht.accepts, ht.retries⟩

/-- Running a posted message loses no operation. -/
theorem handle (message : Message) : KeepsOperations s (s.handle answers message) := by
  cases message with
  | start handler cancelled =>
    cases cancelled with
    | true => exact ⟨Nat.le_refl _, id⟩
    | false => exact startOnStrand handler
  | wait | cancelWait | complete => exact ⟨Nat.le_refl _, id⟩
  | stop => exact beginStop _ _
  | sessionFinished report => exact sessionFinished report

end KeepsOperations

namespace AcceptorListener

variable {s t : AcceptorListener} {l : AcceptorLabel}

/-- The listener without the reference that a step uses up: a handle that is dropped, or the
message, the accept or the wait whose handler runs. -/
def spend (s : AcceptorListener) : AcceptorLabel → AcceptorListener
  | .core .dropHandle => s.mapCore fun c => { c with handles := c.handles - 1 }
  | .run _ => s.mapCore fun c => { c with strand := c.strand.tail }
  | .accepted .. => { s with acceptor := ⟨s.acceptor.isOpen, s.acceptor.accepts - 1⟩ }
  | .retryHandler k _ => { s with retryTimer := ⟨s.retryTimer.waits.eraseIdx k⟩ }
  | .graceHandler k =>
    s.mapCore fun c => { c with shutdownTimer := ⟨c.shutdownTimer.waits.eraseIdx k⟩ }
  | _ => s

/-- A listener with other references to it is alive. -/
theorem alive_iff : s.alive = true ↔
    s.core.referenced = true ∨ 0 < s.acceptor.accepts ∨ s.retryTimer.waits ≠ [] := by
  simp only [alive, Bool.or_eq_true, decide_eq_true_eq, Bool.not_eq_true',
    List.isEmpty_eq_false_iff, or_assoc]

/-- Handlers that lose no reference leave the listener alive. -/
theorem alive_mono (hcore : s.core.referenced = true → t.core.referenced = true)
    (hkeeps : KeepsOperations s t) (h : s.alive = true) : t.alive = true :=
  alive_iff.mpr ((alive_iff.mp h).imp hcore
    (Or.imp (fun hpos => hpos.trans_le hkeeps.accepts) hkeeps.retries))

/-- A start takes no reference away. -/
theorem startOnStrand_referenced {answers : AcceptorAnswers} (handler : CompletionHandler)
    (h : s.core.referenced = true) :
    (s.startOnStrand answers handler).core.referenced = true := by
  obtain ⟨completion, -, hsettled | ⟨-, m, hbefore, hafter⟩⟩ := s.startOnStrand_core answers handler
  · rw [hsettled]
    exact waitsOnly_referenced (completeOn_waitsOnly _ _) h
  · refine moves_referenced hafter
      (waitsOnly_referenced (completeOn_waitsOnly _ _) (moves_referenced hbefore ?_))
    exact referenced_mono ⟨rfl, rfl, rfl⟩
      ⟨[], by simp [beginGeneration, clearDiagnostics, transitionTo, emit]⟩ id h

/-- Running a posted message takes no other reference away. -/
theorem handle_referenced {answers : AcceptorAnswers} (message : Message)
    (h : s.core.referenced = true) :
    (s.handle answers message).core.referenced = true := by
  cases message with
  | start handler cancelled =>
    cases cancelled with
    | true => exact waitsOnly_referenced (completeOn_waitsOnly _ _) h
    | false => exact startOnStrand_referenced handler h
  | wait w => exact waitsOnly_referenced (registerWait_waitsOnly _ w) h
  | cancelWait waiter => exact waitsOnly_referenced (cancelWait_waitsOnly _ waiter) h
  | stop => exact moves_referenced (s.beginStop_moves answers _ _ .refl) h
  | sessionFinished report =>
    exact moves_referenced (s.sessionFinished_moves answers report .refl) h
  | complete completion => exact h

/-- A step leaves a listener alive if the references it does not use up keep it so. -/
theorem alive_step (h : (s.spend l).alive = true) (hstep : s.step l = some t) : t.alive = true := by
  cases s.step_cases hstep with
  | @core l c hcall =>
    by_cases hl : l = .dropHandle
    · subst hl
      cases hcall with
      | dropHandle => exact h
    · have hspend : s.spend (.core l) = s := by cases l <;> first | rfl | exact absurd rfl hl
      rw [hspend] at h
      exact alive_mono (s := s) (hcall.referenced hl) ⟨Nat.le_refl _, id⟩ h
  | @run answers message rest hstrand =>
    have hspend : s.spend (.run answers) = s.mapCore fun c => { c with strand := rest } := by
      simp [spend, mapCore, hstrand]
    rw [hspend] at h
    exact alive_mono (handle_referenced message) (.handle message) h
  | accepted hpos =>
    exact alive_mono (moves_referenced (accepted_moves _ _ _ .refl)) (.accepted _) h
  | @retryExpires k timer hexpire =>
    obtain ⟨w, hw, -⟩ := Timer.hasLive_expire hexpire
    have hsome : timer.waits ≠ [] := List.ne_nil_of_mem hw
    exact alive_mono (s := s) id ⟨Nat.le_refl _, fun _ => hsome⟩ h
  | @retryAborted k answers w timer htake hw =>
    obtain ⟨-, -, rfl⟩ := Timer.take_cases htake
    exact alive_mono (moves_referenced (maybeFinish_moves _ .refl)) .maybeFinish h
  | @retryDue k answers w timer htake hw =>
    obtain ⟨-, -, rfl⟩ := Timer.take_cases htake
    exact alive_mono (moves_referenced (acceptNext_moves _ _ _ .refl)) (.acceptNext _) h
  | @graceAborted k w timer htake hw =>
    obtain ⟨-, -, rfl⟩ := Timer.take_cases htake
    exact h
  | @graceDue k w timer htake hw =>
    obtain ⟨-, -, rfl⟩ := Timer.take_cases htake
    exact alive_mono (s := s.spend (.graceHandler k)) (t := _) id ⟨Nat.le_refl _, id⟩ h

end AcceptorListener

namespace SocketListener

variable {s t : SocketListener} {l : SocketLabel}

/-- The listener without the reference that a step uses up. -/
def spend (s : SocketListener) : SocketLabel → SocketListener
  | .core .dropHandle => s.mapCore fun c => { c with handles := c.handles - 1 }
  | .run _ => s.mapCore fun c => { c with strand := c.strand.tail }
  | .graceHandler k =>
    s.mapCore fun c => { c with shutdownTimer := ⟨c.shutdownTimer.waits.eraseIdx k⟩ }
  | _ => s

/-- A start takes no reference away. -/
theorem startOnStrand_referenced {answers : SocketAnswers} (handler : CompletionHandler)
    (h : s.core.referenced = true) :
    (s.startOnStrand answers handler).core.referenced = true := by
  obtain ⟨completion, -, hsettled | ⟨-, m, hbefore, hafter⟩⟩ := s.startOnStrand_core answers handler
  · rw [hsettled]
    exact waitsOnly_referenced (completeOn_waitsOnly _ _) h
  · refine moves_referenced hafter
      (waitsOnly_referenced (completeOn_waitsOnly _ _) (moves_referenced hbefore ?_))
    exact referenced_mono ⟨rfl, rfl, rfl⟩
      ⟨[], by simp [beginGeneration, clearDiagnostics, transitionTo, emit]⟩ id h

/-- Running a posted message takes no other reference away. -/
theorem handle_referenced {answers : SocketAnswers} (message : Message)
    (h : s.core.referenced = true) :
    (s.handle answers message).core.referenced = true := by
  cases message with
  | start handler cancelled =>
    cases cancelled with
    | true => exact waitsOnly_referenced (completeOn_waitsOnly _ _) h
    | false => exact startOnStrand_referenced handler h
  | wait w => exact waitsOnly_referenced (registerWait_waitsOnly _ w) h
  | cancelWait waiter => exact waitsOnly_referenced (cancelWait_waitsOnly _ waiter) h
  | stop => exact moves_referenced s.stopOnStrand_moves h
  | sessionFinished report => exact moves_referenced (s.sessionFinished_moves report) h
  | complete completion => exact h

/-- A step leaves a listener alive if the references it does not use up keep it so. -/
theorem alive_step (h : (s.spend l).alive = true) (hstep : s.step l = some t) : t.alive = true := by
  cases l with
  | core l =>
    obtain ⟨c, hc, rfl⟩ := Option.map_eq_some_iff.mp hstep
    by_cases hl : l = .dropHandle
    · subst hl
      cases call_cases hc with
      | dropHandle => exact h
    · have hspend : s.spend (.core l) = s := by cases l <;> first | rfl | exact absurd rfl hl
      rw [hspend] at h
      exact (call_cases hc).referenced hl h
  | run answers =>
    cases hstrand : s.core.strand with
    | nil => simp [step, hstrand] at hstep
    | cons message rest =>
      obtain rfl : _ = t := by simpa [step, hstrand] using hstep
      have hspend : s.spend (.run answers) = s.mapCore fun c => { c with strand := rest } := by
        simp [spend, mapCore, hstrand]
      rw [hspend] at h
      exact handle_referenced message h
  | graceHandler k =>
    obtain ⟨⟨w, timer⟩, htake, rfl⟩ := Option.map_eq_some_iff.mp hstep
    obtain ⟨-, -, rfl⟩ := Timer.take_cases htake
    change (if (waitError w.status).failed = true then _ else _ : SocketListener).alive = true
    split
    · exact h
    · exact h

end SocketListener

end Serveza
