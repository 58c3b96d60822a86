import Serveza.Waits
import Serveza.WithoutWaitSteps

/-!
# The numbers of waits

Every number a listener uses for a wait has been given out. So a wait that is made gets a number
that nothing else refers to, and taking it out again leaves the listener as it was before.
-/

namespace Serveza

open Foundation ListenerCore

/-- The numbers of waits that a listener uses have been given out. -/
structure Numbered (c : ListenerCore) : Prop where
  waits : ∀ w ∈ c.connectedWaits, 0 < w.id ∧ w.id ≤ c.nextWaiterId
  completed : ∀ q ∈ c.completed, ∀ waiter, q.wait = some waiter → waiter ≤ c.nextWaiterId
  cancelled : ∀ waiter ∈ c.cancelled, waiter ≤ c.nextWaiterId
  cancelling : ∀ waiter ∈ c.cancelling, waiter ≤ c.nextWaiterId
  posted : ∀ waiter, .cancelWait waiter ∈ c.strand → waiter ≤ c.nextWaiterId

/-- A wait that is in exactly one place has a number that was given out. -/
theorem WaitsOnce.given {c : ListenerCore} (h : WaitsOnce c) {waiter : ℕ}
    (hpos : 0 < c.initiations waiter + c.registrations waiter + c.completions waiter) :
    0 < waiter ∧ waiter ≤ c.nextWaiterId := by
  by_contra hnot
  have hnone := h waiter
  rw [if_neg hnot] at hnone
  omega

/-- A connected wait is counted. -/
theorem WaitsOnce.connected {c : ListenerCore} (h : WaitsOnce c) {w : WaitOperation}
    (hw : w ∈ c.connectedWaits) :
    0 < w.id ∧ w.id ≤ c.nextWaiterId := by
  have hcount {ws : List WaitOperation} (hw : w ∈ ws) : 0 < ws.countP fun v => v.id = w.id :=
    List.countP_pos_iff.mpr ⟨w, hw, by simp⟩
  refine h.given ?_
  rcases List.mem_append.mp hw with hw | hw
  · rcases List.mem_append.mp hw with hw | hw
    · have := hcount hw
      unfold initiations
      omega
    · have := hcount hw
      unfold initiations
      omega
  · have := hcount hw
    unfold registrations
    omega

/-- The cancelled waits of a listener have numbers that were given out. -/
theorem CoreStep.cancelled_given {k : StepKind} {a b : ListenerCore} (h : CoreStep k a b)
    (honce : WaitsOnce a) (hold : ∀ waiter ∈ a.cancelled, waiter ≤ a.nextWaiterId) :
    ∀ waiter ∈ b.cancelled, waiter ≤ b.nextWaiterId := by
  intro waiter hw
  have hnext : a.nextWaiterId ≤ b.nextWaiterId := by
    rw [h.nextWaiterId]
    exact Nat.le_add_right _ _
  rcases h.cancelled hw with hw | rfl
  · exact (hold waiter hw).trans hnext
  · cases h with
    | off alive halive hcall =>
      cases hcall with
      | cancelWait hconnected =>
        obtain ⟨w, hmem, rfl⟩ := hconnected
        exact (honce.connected hmem).2
      | cancelGone hgone => exact hold waiter hw

/-- The numbers of waits that a listener uses have been given out. -/
theorem Listener.Reached.numbered {x : Listener} (h : x.Reached) : Numbered x.core := by
  obtain ⟨id, config, ls, hrun⟩ := h
  obtain ⟨honce, houtcomes⟩ := create_waits id config
  have hcancelled := run_invariant
    (fun x => WaitsOnce x.core ∧ ∀ waiter ∈ x.core.cancelled, waiter ≤ x.core.nextWaiterId)
    (fun _ _ _ hx hstep =>
      ⟨hx.1.step (step_core hstep), (step_core hstep).cancelled_given hx.1 hx.2⟩) ⟨honce, by
      obtain ⟨endpoint, hcore⟩ := create_core id config
      simp [hcore]⟩ hrun
  have houtcomes := run_waitOutcomes houtcomes hrun
  refine ⟨fun w hw => hcancelled.1.connected hw, fun q hq waiter hwait => ?_, hcancelled.2,
    fun waiter hw => hcancelled.2 waiter (houtcomes.flagged waiter hw),
    fun waiter hw => hcancelled.2 waiter (houtcomes.posted waiter hw)⟩
  have hcount : 0 < x.core.completions waiter :=
    List.countP_pos_iff.mpr ⟨q, hq, by simpa using hwait⟩
  exact (hcancelled.1.given (by omega)).2

/-- A wait on the strand is one that is being made. -/
theorem Message.wait?_mem {strand : List Message} {w : WaitOperation} (h : .wait w ∈ strand) :
    w ∈ strand.filterMap wait? :=
  List.mem_filterMap.mpr ⟨_, h, rfl⟩

/-- A completion on the strand is one that is to be delivered. -/
theorem Message.completion?_mem {strand : List Message} {q : Completion}
    (h : .complete q ∈ strand) :
    q ∈ strand.filterMap completion? :=
  List.mem_filterMap.mpr ⟨_, h, rfl⟩

/-- A list stays what it is when all its entries do. -/
theorem filterMap_kept {α : Type} {f : α → Option α} {l : List α} (hf : ∀ a ∈ l, f a = some a) :
    l.filterMap f = l :=
  (List.filterMap_congr hf).trans List.filterMap_some

/-- A wait with a lower number stays what it is. -/
theorem WaitOperation.without_below {gap : ℕ} {w : WaitOperation} (h : w.id < gap) :
    w.without (some gap) = some w := by
  simp [without, closeGap_below h]

/-- The completion of a wait with a lower number stays what it is. -/
theorem Completion.without_below {gap : ℕ} {q : Completion}
    (h : ∀ waiter, q.wait = some waiter → waiter < gap) :
    q.without (some gap) = some q := by
  obtain ⟨handler, wait, error, cause⟩ := q
  cases wait with
  | none => rfl
  | some waiter => simp [without, closeGap_below (h waiter rfl)]

/-- Taking a wait out that has just been made gives back the listener before it. -/
theorem Numbered.without_begun {c : ListenerCore} (h : Numbered c) (handler : CompletionHandler) :
    ({ c with
      nextWaiterId := c.nextWaiterId + 1
      initiating := c.initiating ++ [⟨c.nextWaiterId + 1, handler⟩] } : ListenerCore).without
        (some (c.nextWaiterId + 1)) = c := by
  have hwait (w : WaitOperation) (hw : w ∈ c.connectedWaits) : w.without
      (some (c.nextWaiterId + 1)) = some w :=
    WaitOperation.without_below (Nat.lt_succ_of_le (h.waits w hw).2)
  have hcompletion (q : Completion) (hq : q ∈ c.completed) : q.without
      (some (c.nextWaiterId + 1)) = some q :=
    Completion.without_below fun waiter hwaiter => Nat.lt_succ_of_le
      (h.completed q hq waiter hwaiter)
  have hstrand : ∀ m ∈ c.strand, m.without (some (c.nextWaiterId + 1)) = some m := by
    intro m hm
    cases m with
    | wait w => simp [Message.without, hwait w (by simp [connectedWaits, Message.wait?_mem hm])]
    | cancelWait waiter =>
      simp [Message.without, closeGap_below (Nat.lt_succ_of_le (h.posted waiter hm))]
    | complete q =>
      simp [Message.without, hcompletion q
        (by simp [ListenerCore.completed, Message.completion?_mem hm])]
    | start | stop | sessionFinished => rfl
  have hgone : closeGap (some (c.nextWaiterId + 1)) (c.nextWaiterId + 1) = none := if_pos rfl
  have hwaiters :=
    filterMap_kept fun w (hw : w ∈ c.waiters) => hwait w (by simp [connectedWaits, hw])
  have hinitiating :=
    filterMap_kept fun w (hw : w ∈ c.initiating) => hwait w (by simp [connectedWaits, hw])
  have hdelivered := filterMap_kept fun q (hq : q ∈ c.delivered) =>
    hcompletion q (by simp [ListenerCore.completed, hq])
  have hcancelled := filterMap_kept fun waiter (hw : waiter ∈ c.cancelled) =>
    closeGap_below (Nat.lt_succ_of_le (h.cancelled waiter hw))
  have hcancelling := filterMap_kept fun waiter (hw : waiter ∈ c.cancelling) =>
    closeGap_below (Nat.lt_succ_of_le (h.cancelling waiter hw))
  simp [ListenerCore.without, reshape, withBookkeeping, bookkeeping, Bookkeeping.without,
    filterMap_kept hstrand, hwaiters,
    hinitiating, hdelivered, hcancelled, hcancelling, WaitOperation.without, hgone]

/-- Taking a wait out of a listener that has just been made gives back the listener before it. -/
theorem Listener.without_begun {x y : Listener} (h : Numbered x.core) (hpos : 0 < x.core.handles)
    {handler : CompletionHandler} (hstep : x.step (x.off (.beginWait handler)) = some y) :
    y.without (some (x.core.nextWaiterId + 1)) = x := by
  obtain ⟨c, hc, rfl⟩ := (step_off_iff hpos).mp hstep
  obtain rfl : _ = c := Option.some.inj ((if_pos hpos).symm.trans hc)
  have hcore := h.without_begun handler
  cases x with
  | acceptor s => exact congrArg (fun c => Listener.acceptor { s with core := c }) hcore
  | socket s => exact congrArg (fun c => Listener.socket { s with core := c }) hcore

end Serveza
