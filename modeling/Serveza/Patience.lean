import Serveza.ErrorBudget
import Serveza.RetryWaits

/-!
# Waiting for a retry

An accept is initiated by the completion of another one, by the handler of a retry, by the report
of a session and by a start. While a retry is armed and none of these happens out of turn, a
listener that runs starts no accept before the wait on the retry timer has expired.
-/

namespace Serveza

open Foundation

namespace AcceptorListener

/-- The accepts that are outstanding in a step, without the one it completes. -/
def outstanding (s : AcceptorListener) : AcceptorLabel → ℕ
  | .accepted _ _ => s.acceptor.accepts - 1
  | _ => s.acceptor.accepts

/-- The step initiates an accept. -/
def Initiates (s : AcceptorListener) (l : AcceptorLabel) (t : AcceptorListener) : Prop :=
  s.outstanding l < t.acceptor.accepts

instance (s : AcceptorListener) (l : AcceptorLabel) (t : AcceptorListener) :
    Decidable (s.Initiates l t) :=
  inferInstanceAs (Decidable (_ < _))

variable {s t : AcceptorListener} {l : AcceptorLabel} {answers : AcceptorAnswers}

/-- A start that starts an accept leaves the listener running. -/
theorem startOnStrand_initiates (handler : CompletionHandler)
    (h : s.acceptor.accepts < (s.startOnStrand answers handler).acceptor.accepts) :
    (s.startOnStrand answers handler).core.state = .running := by
  rcases s.startOnStrand_cases answers handler with
    ⟨-, heq⟩ | ⟨-, heq⟩ | ⟨-, acceptor, endpoint, haccepts, hbegun⟩
  · rw [heq] at h
    exact absurd h (Nat.lt_irrefl _)
  · rw [heq] at h
    exact absurd h (Nat.lt_irrefl _)
  · rw [← haccepts] at h
    rcases hbegun with ⟨ec, heq⟩ | ⟨t, ec, hnext, ⟨hec, heq⟩ | ⟨-, heq⟩⟩
    · have hfinish := StartsNothing.finish ((s.opened acceptor endpoint).mapCore fun c =>
        c.completeOn ⟨handler, none, ec, .startupFailed⟩) ec .startupFailure
      rw [heq] at h
      exact absurd h hfinish.not_lt
    · rw [heq] at h
      rcases (s.opened acceptor endpoint).acceptNext_starts answers .startupFailure with
        hnothing | ⟨-, hstarts⟩
      · rw [hnext] at hnothing
        exact absurd h hnothing.not_lt
      · rw [hnext, Prod.mk.injEq] at hstarts
        rw [hstarts.2] at hec
        contradiction
    · rw [heq]
      rfl

/-- The next accept of a running listener leaves it running. -/
theorem acceptNext_initiates (hs : s.core.state = .running) (reason : ListenerStopReason)
    (h : s.acceptor.accepts < (s.acceptNext answers reason).1.acceptor.accepts) :
    (s.acceptNext answers reason).1.core.state = .running := by
  rcases s.acceptNext_starts answers reason with hnothing | ⟨-, hstarts⟩
  · exact absurd h hnothing.not_lt
  · rw [hstarts]
    exact hs

/-- A session's report that starts an accept leaves the listener running. -/
theorem sessionFinished_initiates (report : SessionReport)
    (h : s.acceptor.accepts < (s.sessionFinished answers report).acceptor.accepts) :
    (s.sessionFinished answers report).core.state = .running := by
  obtain ⟨t, ht, heq⟩ := s.sessionFinished_eq answers report
  have hdropped : StartsNothing s t :=
    ht ▸ (StartsNothing.removeSession s report.info.id).trans ⟨rfl, rfl⟩
  rw [heq] at h ⊢
  by_cases hrunning : t.core.state = .running
  · rw [if_pos hrunning] at h ⊢
    rcases t.acceptNext_starts answers .runtimeFailure with hnothing | ⟨-, hstarts⟩
    · exact absurd h ((hdropped.trans hnothing).trans (.maybeFinish _)).not_lt
    · have hstarted : t.startAccept.core.state = .running := hrunning
      rw [hstarts, maybeFinish_of_not_stopping _ (by simp [hstarted])]
      exact hrunning
  · rw [if_neg hrunning] at h
    exact absurd h (hdropped.trans (.maybeFinish _)).not_lt

/-- The handler of an accept that starts another one leaves the listener running. -/
theorem accepted_initiates (result : AcceptResult)
    (h : s.acceptor.accepts < (s.accepted answers result).acceptor.accepts) :
    (s.accepted answers result).core.state = .running := by
  rcases s.accepted_cases answers result with
    ⟨-, heq⟩ | ⟨hs, heq | ⟨info, -, ec, ep, heq⟩ | ⟨info, -, heq⟩⟩
  · rw [heq] at h
    exact absurd h (StartsNothing.maybeFinish { s with acceptPending := false }).not_lt
  · rw [heq] at h
    rcases retryAccept_starts { s with acceptPending := false } answers
      result.error with hnothing | harms
    · exact absurd h hnothing.not_lt
    · rw [harms] at h
      exact absurd h (Nat.lt_irrefl _)
  all_goals
    rw [heq] at h ⊢
    refine acceptNext_initiates ?_ _ h
    exact hs

/-- A step that starts an accept leaves the listener running. -/
theorem Initiates.running (h : s.Initiates l t) (hstarted : s.core.state ≠ .starting)
    (hstep : s.step l = some t) :
    t.core.state = .running := by
  cases s.step_cases hstep with
  | core hcall => exact absurd h (Nat.lt_irrefl _)
  | @run answers message rest hstrand =>
    cases message with
    | start handler cancelled =>
      cases cancelled with
      | true => exact absurd h (Nat.lt_irrefl _)
      | false =>
        exact startOnStrand_initiates (s := s.mapCore fun c => { c with strand := rest }) handler h
    | stop =>
      exact absurd h (StartsNothing.beginStop
        (s.mapCore fun c => { c with strand := rest }) _ _ _).not_lt
    | sessionFinished report =>
      exact sessionFinished_initiates (s := s.mapCore fun c => { c with strand := rest }) report h
    | _ => exact absurd h (Nat.lt_irrefl _)
  | accepted hpos =>
    exact accepted_initiates
      (s := { s with acceptor := ⟨s.acceptor.isOpen, s.acceptor.accepts - 1⟩ }) _ h
  | retryExpires hexpire => exact absurd h (Nat.lt_irrefl _)
  | @retryAborted k answers w timer htake hw =>
    exact absurd h (StartsNothing.maybeFinish { s with retryTimer := timer }).not_lt
  | @retryDue k answers w timer htake hw =>
    rcases acceptNext_starts { s with retryTimer := timer } answers .runtimeFailure with
      hnothing | ⟨haccepting, hstarts⟩
    · exact absurd h hnothing.not_lt
    · rw [hstarts]
      exact haccepting.resolve_left hstarted
  | graceAborted htake hw => exact absurd h (Nat.lt_irrefl _)
  | graceDue htake hw => exact absurd h (Nat.lt_irrefl _)

end AcceptorListener

/-- A generation accepts nothing more: it has been halted, or a later one has begun. -/
def Over (generation : ℕ) (c : ListenerCore) : Prop :=
  generation < c.generation ∨ c.generation = generation ∧ c.state.Halted

namespace Over

variable {generation : ℕ} {a b : ListenerCore}

/-- A generation that is over is over after a change that keeps the generation and the halt. -/
theorem keep (h : Over generation a) (hgeneration : b.generation = a.generation)
    (hhalted : a.state.Halted → b.state.Halted) :
    Over generation b := by
  rcases h with hlt | ⟨heq, hs⟩
  · exact Or.inl (hgeneration ▸ hlt)
  · exact Or.inr ⟨hgeneration.trans heq, hhalted hs⟩

/-- A generation that is over is over after moves. -/
theorem moves (h : Over generation a) (hm : Moves a b) : Over generation b :=
  h.keep (moves_sameGeneration hm).generation (moves_halted hm)

/-- The bookkeeping of waits does not revive a generation. -/
theorem waitsOnly (h : Over generation a) (hw : WaitsOnly a b) : Over generation b :=
  h.keep hw.generation fun hs => hw.state ▸ hs

/-- A generation that is over is over after every step. -/
theorem step {k : StepKind} (h : Over generation a) (hstep : CoreStep k a b) :
    Over generation b := by
  cases hstep with
  | off alive halive hcall =>
    obtain ⟨hstate, hgeneration, -⟩ := hcall.frame
    exact h.keep hgeneration fun hs => hstate ▸ hs
  | deliver hstrand => exact h.keep rfl id
  | settleStart hstrand completion hc => exact h.keep rfl id
  | start hstrand hs completion hc hbefore hafter =>
    have hgeneration : b.generation = a.generation + 1 :=
      (moves_sameGeneration hafter).generation.trans (moves_sameGeneration hbefore).generation
    refine Or.inl ?_
    rcases h with hlt | ⟨heq, -⟩ <;> omega
  | @wait _ w rest hstrand =>
    exact waitsOnly (a := { a with strand := rest }) h (registerWait_waitsOnly _ w)
  | @cancelWait _ id rest hstrand =>
    exact waitsOnly (a := { a with strand := rest }) h (cancelWait_waitsOnly _ id)
  | @stop _ _ rest hstrand hm hb => exact moves (a := { a with strand := rest }) h hm
  | @report _ _ rest report hstrand hm => exact moves (a := { a with strand := rest }) h hm
  | asynchronous hm => exact h.moves hm
  | graceAborted htake hw => exact h.keep rfl id
  | force htake hw keys => exact h.keep rfl id

end Over

/-- Where a wait on the retry timer is found after a step. -/
def AcceptorLabel.shift (l : AcceptorLabel) (i : ℕ) : Option ℕ :=
  match l with
  | .retryHandler k _ => Timer.shift k i
  | _ => some i

/-- Where a wait on the retry timer is found after a run; nowhere once its handler has run. -/
def shifted : List AcceptorLabel → ℕ → Option ℕ
  | [], i => some i
  | l :: ls, i => (l.shift i).bind (shifted ls)

namespace AcceptorListener

/-- The step runs the report of a session, or the handler of a retry wait that has expired, in a
state that passes the tests of `accept_next`, and the initiation of the accept does not throw. -/
def hurries (s : AcceptorListener) : AcceptorLabel → Bool
  | .run answers =>
    match s.core.strand with
    | .sessionFinished report :: _ => decide ((s.removeSession report.info.id).mayAccept answers)
    | _ => false
  | .retryHandler k answers =>
    (s.retryTimer.take k).any (fun (w, _) => w.status = .expired) && decide (s.mayAccept answers)
  | _ => false

/-- If a wait on the retry timer is pending, the step runs neither the report of a session nor the
handler of an expired retry wait in a state that passes the tests of `accept_next`. -/
def Patient (s : AcceptorListener) (l : AcceptorLabel) : Prop :=
  s.retryTimer.HasPending → s.hurries l = false

instance (s : AcceptorListener) (l : AcceptorLabel) : Decidable (s.Patient l) :=
  inferInstanceAs (Decidable (_ → _))

/-- A running generation waits to retry an accept: none is outstanding, and a wait on the retry
timer is pending. -/
structure Waiting (generation : ℕ) (tag : Arming) (s : AcceptorListener) (i : ℕ) : Prop where
  generation : s.core.generation = generation
  running : s.core.state = .running
  idle : s.acceptPending = false
  pending : s.retryTimer.waits[i]? = some ⟨tag, .pending⟩

namespace Waiting

variable {s t : AcceptorListener} {answers : AcceptorAnswers} {generation i : ℕ} {tag : Arming}

/-- A generation that begins to stop is over. -/
theorem beginStop (h : s.core.generation = generation) (ec : ErrorCode)
    (reason : ListenerStopReason) :
    Over generation (s.beginStop answers ec reason).core :=
  Or.inr ⟨(moves_sameGeneration (s.beginStop_moves answers ec reason .refl)).generation.trans h,
    s.beginStop_halted answers ec reason⟩

/-- Starting the next accept either may start one, or leaves the generation waiting or over. -/
theorem acceptNext (h : Waiting generation tag s i) (hmay : ¬ s.mayAccept answers)
    (reason : ListenerStopReason) :
    Waiting generation tag (s.acceptNext answers reason).1 i ∨
    Over generation (s.acceptNext answers reason).1.core := by
  rcases s.acceptNext_of_running answers h.running h.idle reason with
    heq | ⟨hmay', -⟩ | ⟨t, ec, -, hquiet, heq⟩
  · rw [heq]
    exact Or.inl h
  · exact absurd hmay' hmay
  · rw [heq]
    exact Or.inr (beginStop (hquiet.generation.trans h.generation) ec reason)

/-- The report of a session either may start an accept, or leaves the generation waiting or over. -/
theorem sessionFinished (h : Waiting generation tag s i) {report : SessionReport}
    (hmay : ¬ (s.removeSession report.info.id).mayAccept answers) :
    Waiting generation tag (s.sessionFinished answers report) i ∨
    Over generation (s.sessionFinished answers report).core := by
  obtain ⟨t, ht, heq⟩ := s.sessionFinished_eq answers report
  have hquiet : Quiet (s.removeSession report.info.id).core t.core :=
    ht ▸ quiet_sessionStopped _ _ _
  have hremoved := s.removeSession_quiet report.info.id
  have hidle : t.acceptPending = s.acceptPending := by
    rw [ht]
    unfold AcceptorListener.removeSession
    split <;> rfl
  have htimer : t.retryTimer = s.retryTimer := by
    rw [ht]
    unfold AcceptorListener.removeSession
    split <;> rfl
  have hwaiting : Waiting generation tag t i :=
    ⟨(hquiet.generation.trans hremoved.generation).trans h.generation,
      (hquiet.state.trans hremoved.state).trans h.running, hidle.trans h.idle, htimer ▸ h.pending⟩
  have hmay' : ¬ t.mayAccept answers := by
    rintro ⟨hs, hnone, hroom, haccept⟩
    subst ht
    exact hmay ⟨hquiet.state ▸ hs, hnone, hroom, haccept⟩
  rw [heq, if_pos hwaiting.running]
  rcases hwaiting.acceptNext hmay' .runtimeFailure with hnext | hover
  · rw [maybeFinish_of_not_stopping _ (by simp [hnext.running])]
    exact Or.inl hnext
  · exact Or.inr (hover.moves (maybeFinish_moves _ .refl))

/-- Running a posted message that does not hurry leaves the generation waiting or over. -/
theorem handle (h : Waiting generation tag s i) {message : Message} {rest : List Message}
    (hstrand : s.core.strand = message :: rest) (hpatient : s.hurries (.run answers) = false) :
    Waiting generation tag ((s.mapCore fun c => { c with strand := rest }).handle answers message)
      i ∨
      Over generation ((s.mapCore fun c => { c with strand := rest }).handle
        answers message).core := by
  have hpopped : Waiting generation tag (s.mapCore fun c => { c with strand := rest }) i :=
    ⟨h.generation, h.running, h.idle, h.pending⟩
  cases message with
  | start handler cancelled =>
    cases cancelled with
    | true => exact Or.inl ⟨h.generation, h.running, h.idle, h.pending⟩
    | false =>
      rcases (s.mapCore fun c => { c with strand := rest }).startOnStrand_cases answers handler with
        ⟨-, heq⟩ | ⟨hbusy, -⟩ | ⟨hrest, -⟩
      · simp only [AcceptorListener.handle, Bool.false_eq_true, if_false, heq]
        exact Or.inl ⟨h.generation, h.running, h.idle, h.pending⟩
      · simp [hpopped.running] at hbusy
      · simp [hpopped.running] at hrest
  | wait w =>
    have hw := registerWait_waitsOnly { s.core with strand := rest } w
    exact Or.inl ⟨hw.generation.trans h.generation, hw.state.trans h.running, h.idle, h.pending⟩
  | cancelWait id =>
    have hw := cancelWait_waitsOnly { s.core with strand := rest } id
    exact Or.inl ⟨hw.generation.trans h.generation, hw.state.trans h.running, h.idle, h.pending⟩
  | stop => exact Or.inr (beginStop hpopped.generation _ _)
  | sessionFinished report =>
    simp only [hurries, hstrand, decide_eq_false_iff_not] at hpatient
    refine hpopped.sessionFinished fun hmay => hpatient ?_
    rw [removeSession_mayAccept] at hmay ⊢
    exact hmay
  | complete completion => exact Or.inl ⟨h.generation, h.running, h.idle, h.pending⟩

/-- A step that does not hurry expires the wait, or leaves the generation waiting or over. -/
theorem step {options : AcceptorOptions} {l : AcceptorLabel} (h : Waiting generation tag s i)
    (hbooks : Books options s) (hpatient : s.Patient l) (hstep : s.step l = some t) :
    l = .retryExpires i ∨ (∃ j, l.shift i = some j ∧ Waiting generation tag t j) ∨
    Over generation t.core := by
  have hquick : s.hurries l = false := hpatient ⟨_, List.mem_of_getElem? h.pending, rfl⟩
  have hother {k : ℕ} {w : TimerWait Arming} {timer : Timer Arming}
      (htake : s.retryTimer.take k = some (w, timer)) : k ≠ i := by
    rintro rfl
    obtain ⟨hk, hdecided, -⟩ := Timer.take_cases htake
    exact hdecided (Option.some.inj (hk.symm.trans h.pending) ▸ rfl)
  cases s.step_cases hstep with
  | core hcall =>
    obtain ⟨hstate, hgeneration, -⟩ := hcall.frame
    exact Or.inr (Or.inl ⟨i, rfl,
      ⟨hgeneration.trans h.generation, hstate.trans h.running, h.idle, h.pending⟩⟩)
  | run hstrand =>
    refine Or.inr ((h.handle hstrand hquick).imp_left fun hwaiting => ⟨i, rfl, hwaiting⟩)
  | accepted hpos => simp [hbooks.pending, h.idle] at hpos
  | @retryExpires k timer hexpire =>
    by_cases hk : k = i
    · exact Or.inl (hk ▸ rfl)
    · exact Or.inr (Or.inl ⟨i, rfl,
        ⟨h.generation, h.running, h.idle, (Timer.expire_ne hexpire hk).trans h.pending⟩⟩)
  | @retryAborted k answers w timer htake hw =>
    obtain ⟨j, hshift, hj⟩ := Timer.take_shift htake h.pending (hother htake)
    rw [maybeFinish_of_not_stopping _ (by simp [h.running])]
    exact Or.inr (Or.inl ⟨j, hshift, ⟨h.generation, h.running, h.idle, hj⟩⟩)
  | @retryDue k answers w timer htake hw =>
    obtain ⟨j, hshift, hj⟩ := Timer.take_shift htake h.pending (hother htake)
    have htaken : Waiting generation tag { s with retryTimer := timer } j :=
      ⟨h.generation, h.running, h.idle, hj⟩
    simp only [hurries, htake, Option.any_some, hw, decide_true, Bool.true_and,
      decide_eq_false_iff_not] at hquick
    exact Or.inr ((htaken.acceptNext hquick .runtimeFailure).imp_left fun hwaiting =>
      ⟨j, hshift, hwaiting⟩)
  | graceAborted htake hw =>
    exact Or.inr (Or.inl ⟨i, rfl, ⟨h.generation, h.running, h.idle, h.pending⟩⟩)
  | graceDue htake hw =>
    exact Or.inr (Or.inl ⟨i, rfl, ⟨h.generation, h.running, h.idle, h.pending⟩⟩)

/-- A run whose steps do not hurry contains the expiry of the wait, or leaves the generation
waiting or over. -/
theorem run {options : AcceptorOptions} {ls : List AcceptorLabel} (h : Waiting generation tag s i)
    (hbooks : Books options s) (hpatient : Along AcceptorListener.step Patient s ls)
    (hrun : Foundation.run AcceptorListener.step s ls = some t) :
    (∃ before k after, ls = before ++ .retryExpires k :: after ∧ shifted before i = some k) ∨
      (∃ j, Waiting generation tag t j) ∨ Over generation t.core := by
  induction ls generalizing s i with
  | nil =>
    obtain rfl : s = t := by simpa [Foundation.run] using hrun
    exact Or.inr (Or.inl ⟨i, h⟩)
  | cons l ls ih =>
    obtain ⟨u, hstep, hrest⟩ := run_cons.mp hrun
    rcases h.step hbooks hpatient.1 hstep with rfl | ⟨j, hshift, hwaiting⟩ | hover
    · exact Or.inl ⟨[], i, ls, rfl, rfl⟩
    · refine (ih hwaiting (hbooks.step hstep) (hpatient.2 u hstep) hrest).imp_left ?_
      rintro ⟨before, k, after, rfl, hk⟩
      exact ⟨l :: before, k, after, rfl, by rw [shifted, hshift]; exact hk⟩
    · exact Or.inr (Or.inr (run_invariant (fun s => Over generation s.core)
        (fun s _ _ h hstep => h.step (s.step_core hstep)) hover hrest))

end Waiting

variable {s t : AcceptorListener}

/-- What the completion of an accept does that arms a retry: it counts the error, and the retry is
armed with the delay for the errors counted, in a listener that runs and has no accept
outstanding. -/
theorem accepted_arms (answers : AcceptorAnswers) (result : AcceptResult)
    (hlonger : (s.accepted answers result).retryTimer.waits.length =
      s.retryTimer.waits.length + 1) :
    s.core.state = .running ∧
    s.accepted answers result = { s with acceptPending := false }.armRetry result.error := by
  have hsame {x : AcceptorListener} (h : StartsNothing { s with acceptPending := false } x)
      (hx : x.retryTimer.waits.length = s.retryTimer.waits.length + 1) : False :=
    Nat.succ_ne_self _ (hx.symm.trans h.retries)
  rcases s.accepted_cases answers result with
    ⟨-, heq⟩ | ⟨hs, heq | ⟨info, -, ec, ep, heq⟩ | ⟨info, -, heq⟩⟩
  · rw [heq] at hlonger
    exact (hsame (.maybeFinish _) hlonger).elim
  · rcases retryAccept_starts { s with acceptPending := false } answers
      result.error with hnothing | harms
    · rw [heq] at hlonger
      exact (hsame hnothing hlonger).elim
    · exact ⟨hs, heq.trans harms⟩
  all_goals
    rw [heq] at hlonger
    rcases acceptNext_starts _ answers .runtimeFailure with hnothing | ⟨-, hstarts⟩
    · refine (hsame ?_ hlonger).elim
      exact ⟨hnothing.accepts, hnothing.retries⟩
    · rw [hstarts] at hlonger
      exact (Nat.succ_ne_self _ hlonger.symm).elim

/-- A generation that has just armed a retry waits for it. -/
theorem waiting_of_arms {tag : Arming} (hs : t.core.state = .running)
    (hidle : t.acceptPending = false)
    (harms : t.retryTimer = s.retryTimer.expiresAfter.asyncWait tag) :
    Waiting t.core.generation tag t s.retryTimer.waits.length := by
  refine ⟨rfl, hs, hidle, ?_⟩
  have hlast := s.retryTimer.expiresAfter.getElem?_asyncWait tag
  rw [Timer.expiresAfter, Timer.cancel, List.length_map] at hlast
  rw [harms]
  exact hlast

/-- A step does not initiate an accept in a generation that waits for a retry or is over. -/
theorem not_initiates {options : AcceptorOptions} {l : AcceptorLabel} {generation : ℕ}
    (hbooks : Books options s) (hrest : Rest s)
    (h : (∃ tag i, Waiting generation tag s i) ∨ Over generation s.core) (hpatient : s.Patient l)
    (hstep : s.step l = some t) (hsame : t.core.generation = generation) : ¬ s.Initiates l t := by
  intro hinitiates
  have hrunning := hinitiates.running hrest.started hstep
  have hnot_over (hover : Over generation t.core) : False := by
    rcases hover with hlt | ⟨-, hhalted⟩
    · omega
    · exact not_halted_of_running hrunning hhalted
  rcases h with ⟨tag, i, hwaiting⟩ | hover
  · rcases hwaiting.step hbooks hpatient hstep with rfl | ⟨j, -, hwaits⟩ | hover
    · obtain ⟨timer, -, rfl⟩ := Option.map_eq_some_iff.mp hstep
      exact Nat.lt_irrefl _ hinitiates
    · have hnone : t.acceptor.accepts = 0 := by rw [(hbooks.step hstep).pending, hwaits.idle]; rfl
      unfold Initiates at hinitiates
      omega
    · exact hnot_over hover
  · exact hnot_over (hover.step (s.step_core hstep))

end AcceptorListener

end Serveza
