import Serveza.Ownership

/-!
# The last reference to a listener

What is known about a listener that was asked to stop when nothing refers to it any more, or
when a step uses up the last reference: no stop and no start is left, so the listener is
halted, or the stop is what runs.
-/

namespace Serveza

open Foundation ListenerCore

/-- Nothing refers to a listener when each kind of reference is missing. -/
theorem referenced_eq_false {c : ListenerCore} : c.referenced = false ↔
    c.handles = 0 ∧ c.stopping = 0 ∧ c.initiating = [] ∧ (∀ m ∈ c.strand, m.ownsListener = false) ∧
      c.shutdownTimer.waits = [] := by
  simp [referenced, and_assoc]

/-- The references a listener does not have when nothing refers to it. -/
theorem unreferenced {c : ListenerCore} (h : c.referenced = false) :
    c.handles = 0 ∧ c.stopping = 0 ∧ c.initiating = [] ∧ (∀ m ∈ c.strand, m.ownsListener = false) ∧
      c.shutdownTimer.waits = [] :=
  referenced_eq_false.mp h

/-- A step off the strand gives no reference to a listener that is gone. -/
theorem CallStep.unreferenced {l : CoreLabel} {a b : ListenerCore} (hcall : CallStep false l a b)
    (h : a.referenced = false) : b.referenced = false := by
  obtain ⟨hhandles, hcalls, hinitiating, hstrand, htimer⟩ := Serveza.unreferenced h
  cases hcall with
  | asyncStart hpos | beginWait hpos | stopReturns hpos hs | stopRead hpos hs | cloneHandle hpos
  | dropHandle hpos => omega
  | stopPost hpos => omega
  | cancelStart =>
    refine referenced_eq_false.mpr ⟨hhandles, hcalls, hinitiating, fun m hm => ?_, htimer⟩
    obtain ⟨m, hmem, rfl⟩ := List.mem_map.mp hm
    have howns := hstrand m hmem
    cases m <;> simp_all [Message.cancelStart, Message.ownsListener]
  | postWait hw => simp [hinitiating] at hw
  | cancelWait | cancelGone | dropCancel => exact h
  | postCancel hmem halive => contradiction
  | graceExpires hexpire =>
    obtain ⟨tag, htag, -⟩ := Timer.expire_cases hexpire
    simp [htimer] at htag
  | session hx hstep =>
    refine referenced_eq_false.mpr ⟨hhandles, hcalls, hinitiating, fun m hm => hstrand m ?_, htimer⟩
    simpa using hm

/-- A listener that was asked to stop and has no work of its own queued is halted, and nothing
starts it. -/
theorem Settling.unowned {c : ListenerCore} (h : Settling c) (hcalls : c.stopping = 0)
    (hstrand : ∀ m ∈ c.strand, m.ownsListener = false) :
    (∀ m rest, c.strand = m :: rest → m.isStart = false) ∧ c.state.Halted := by
  have hnone (m : Message) (hm : m ∈ c.strand) : m.isStart = false ∧ m.isStop = false := by
    have := hstrand m hm
    cases m <;> simp_all [Message.isStart, Message.isStop, Message.ownsListener]
  refine ⟨fun m rest hm => (hnone m (hm ▸ List.mem_cons_self)).1, ?_⟩
  rcases h with hpos | ⟨-, hhalted | ⟨m, hm, hstop⟩⟩
  · omega
  · exact hhalted
  · simp [(hnone m hm).2] at hstop

/-- If the message that runs is the last work of a listener that was asked to stop, then it is
the stop, or the listener is halted and nothing starts it. -/
theorem Settling.last {c : ListenerCore} {message : Message} {rest : List Message} (h : Settling c)
    (hcalls : c.stopping = 0) (hstrand : c.strand = message :: rest)
    (hrest : ∀ m ∈ rest, m.ownsListener = false) :
    message.isStart = false ∧ c.state.Halted ∨ message = .stop := by
  have hnone (m : Message) (hm : m ∈ rest) : m.isStop = false := by
    have := hrest m hm
    cases m <;> simp_all [Message.isStop, Message.ownsListener]
  rcases h with hpos | ⟨hcovered, hend⟩
  · omega
  · rw [hstrand] at hcovered hend
    have hstart : message.isStart = false := by
      by_contra hstart
      obtain ⟨m, hm, hstop⟩ := hcovered.1 (by simpa using hstart)
      simp [hnone m hm] at hstop
    rcases hend with hhalted | ⟨m, hm, hstop⟩
    · exact Or.inl ⟨hstart, hhalted⟩
    · rcases List.mem_cons.mp hm with rfl | hm
      · cases m <;> simp_all [Message.isStop]
      · simp [hnone m hm] at hstop

/-- Moves leave a stopped listener stopped. -/
theorem moves_stopped {a b : ListenerCore} (h : Moves a b) (ha : a.state = .stopped) :
    b.state = .stopped := by
  induction h with
  | refl => exact ha
  | tail _ hmove ih =>
    cases hmove with
    | quiet hquiet => exact hquiet.state.trans ih
    | running hs => simp [ih] at hs
    | stopping hs harming => simp [ih] at hs
    | finish ec reason hs => exact finish_state _ _ _

/-- Only a start leads a listener out of `stopped`. -/
theorem CoreStep.stopped {k : StepKind} {a b : ListenerCore} (h : CoreStep k a b)
    (ha : a.state = .stopped) (hstart : ∀ m rest, a.strand = m :: rest → m.isStart = false) :
    b.state = .stopped := by
  cases h with
  | off alive halive hcall => exact hcall.frame.1.trans ha
  | deliver hstrand => exact ha
  | settleStart hstrand | start hstrand =>
    exact absurd (hstart _ _ hstrand) (by simp [Message.isStart])
  | wait hstrand => exact (registerWait_waitsOnly _ _).state.trans ha
  | cancelWait hstrand => exact (cancelWait_waitsOnly _ _).state.trans ha
  | stop hstrand hm hb | report hstrand hm => exact moves_stopped hm ha
  | asynchronous hm => exact moves_stopped hm ha
  | graceAborted htake hw => exact ha
  | force htake hw keys => exact ha

/-- The last handle to a listener goes only when it is dropped. -/
theorem CoreStep.last_handle {k : StepKind} {a b : ListenerCore} (h : CoreStep k a b)
    (ha : a.handles ≠ 0) (hb : b.handles = 0) : k = .off .dropHandle ∧ a.handles = 1 := by
  have hkept (hsame : b.handles = a.handles) : k = .off .dropHandle ∧ a.handles = 1 :=
    absurd (hsame.symm.trans hb) ha
  cases h with
  | off alive halive hcall =>
    cases hcall with
    | cloneHandle hpos => contradiction
    | dropHandle hpos =>
      have hlast : a.handles - 1 = 0 := hb
      exact ⟨rfl, by omega⟩
    | _ => exact hkept rfl
  | deliver hstrand | settleStart hstrand | graceAborted htake hw | force htake hw keys =>
    exact hkept rfl
  | start hstrand hs completion hc hbefore hafter =>
    exact hkept ((moves_sameGeneration hafter).handles.trans (moves_sameGeneration hbefore).handles)
  | wait hstrand => exact hkept (registerWait_waitsOnly _ _).handles
  | cancelWait hstrand => exact hkept (cancelWait_waitsOnly _ _).handles
  | stop hstrand hm hb | report hstrand hm => exact hkept (moves_sameGeneration hm).handles
  | asynchronous hm => exact hkept (moves_sameGeneration hm).handles

/-- A listener without handles that is on its way to a halt stays so. -/
theorem Settling.step_unhandled {k : StepKind} {a b : ListenerCore} (h : Settling a)
    (hzero : a.handles = 0) (hstep : CoreStep k a b) : Settling b := by
  refine h.step (fun handler hk => ?_) hstep
  subst hk
  cases hstep with
  | off alive halive hcall =>
    cases hcall with
    | asyncStart hpos => omega

/-- The sessions held that have not been closed by force have reported, if all are on their way
to be closed. -/
theorem reported_of_closing {c : ListenerCore} {held : List ℕ} (hheld : Held c held)
    (hpos : 0 < c.handles)
    (hforced : ∀ key ∈ held, ∀ x ∈ c.session? key, x.finished = false → .forceClose ∉ x.strand)
    (hclosing : ∀ key ∈ held, Closing c key) : ∀ key ∈ held, Reported c key := by
  intro key hkey
  rcases hclosing key hkey with ⟨x, hx, hclose⟩ | hreported
  · obtain ⟨y, hy, -, hended⟩ := hheld key hkey
    obtain rfl : x = y := by simpa [hx] using hy
    refine hended ?_ hpos
    cases hfinished : x.finished with
    | true => rfl
    | false => exact absurd hclose (hforced key hkey x hx hfinished)
  · exact hreported

/-- The only wait on a timer is the one whose handler runs, if no other is left. -/
theorem Timer.last_expired {timer rest : Timer Arming} {k : ℕ} {w : TimerWait Arming}
    (htake : timer.take k = some (w, rest)) (hrest : rest.waits = []) (hlive : timer.HasLive) :
    w.status = .expired := by
  obtain ⟨hk, hdecided, rfl⟩ := Timer.take_cases htake
  obtain ⟨v, hv, hvlive⟩ := hlive
  obtain ⟨i, hi⟩ := List.mem_iff_getElem?.mp hv
  have hik : i = k := by
    by_contra hne
    have := List.mem_eraseIdx_iff_getElem?.mpr ⟨i, hne, hi⟩
    simp [show timer.waits.eraseIdx k = [] from hrest] at this
  subst hik
  obtain rfl : w = v := by simpa [hk] using hi
  cases hstatus : w.status with
  | pending => exact absurd hstatus hdecided
  | expired => rfl
  | aborted => exact absurd hstatus hvlive

end Serveza
