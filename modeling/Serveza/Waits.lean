import Serveza.Operations

/-!
# Waits end exactly once, and for a reason

Each wait of a listener is being initiated, registered, or completed, in exactly one of
these places at a time and never completed twice. A wait that was cancelled ends with
`operation_aborted`; every other wait ends with the terminal error of a stop. Cancelling a
wait touches no other wait.
-/

namespace Serveza

open Foundation ListenerCore

/-- The completion a message delivers. -/
def Message.completion? : Message → Option Completion
  | .complete completion => some completion
  | _ => none

namespace ListenerCore

/-- How often a wait is on its way to the strand step that registers it. -/
def initiations (c : ListenerCore) (waiter : ℕ) : ℕ :=
  c.initiating.countP (fun w => w.id = waiter) + (c.strand.filterMap Message.wait?).countP
    fun w => w.id = waiter

/-- How often a wait is registered. -/
def registrations (c : ListenerCore) (waiter : ℕ) : ℕ := c.waiters.countP fun w => w.id = waiter

/-- Everything that has been completed: delivered, or queued for delivery. -/
def completed (c : ListenerCore) : List Completion :=
  c.delivered ++ c.strand.filterMap Message.completion?

/-- How often a wait has been completed. -/
def completions (c : ListenerCore) (waiter : ℕ) : ℕ :=
  c.completed.countP fun q => q.wait = some waiter

end ListenerCore

/-- The reason a wait ended with: it was cancelled, or the listener stopped. -/
def Completion.EndsWait (q : Completion) (c : ListenerCore) (waiter : ℕ) : Prop :=
  q.cause = .cancelled ∧ q.error = .operationAborted ∧ waiter ∈ c.cancelled ∨
    q.cause = .stopped ∧ q.error ∈ c.stops

/-- The step is part of the cancellation of a wait: the flag, the post, or the strand step. -/
def StepKind.Cancels (k : StepKind) (waiter : ℕ) : Prop :=
  k = .off (.cancelWait waiter) ∨ k = .off (.postCancel waiter) ∨ k = .cancelWait waiter

variable {a b : ListenerCore} {k : StepKind}

/-- The three places together hold what the tally of a wait counts. -/
theorem tally_wait (c : ListenerCore) (waiter : ℕ) : tally (fun o => o.wait = some waiter) c =
    c.initiations waiter + c.registrations waiter + c.completions waiter := by
  have hwait (w : WaitOperation) : decide (w.operation.wait = some waiter) =
      decide (w.id = waiter) := by
    simp [WaitOperation.operation]
  have hcompletion (q : Completion) : decide (q.operation.wait = some waiter) =
      decide (q.wait = some waiter) := rfl
  have hstrand (ms : List Message) :
      (ms.filterMap Message.operation?).countP (fun o => o.wait = some waiter) =
        (ms.filterMap Message.wait?).countP (fun w => w.id = waiter) +
          (ms.filterMap Message.completion?).countP (fun q => q.wait = some waiter) := by
    induction ms with
    | nil => rfl
    | cons m ms ih =>
      cases m with
      | start handler cancelled =>
        simp only [List.filterMap_cons, Message.operation?, Message.wait?, Message.completion?,
          List.countP_cons, ih]
        simp
      | wait w =>
        simp only [List.filterMap_cons, Message.operation?, Message.wait?,
          Message.completion?, List.countP_cons, hwait, ih]
        omega
      | complete completion =>
        simp only [List.filterMap_cons, Message.operation?, Message.wait?,
          Message.completion?, List.countP_cons, hcompletion, ih]
        omega
      | _ => exact ih
  simp only [tally, hstrand, hwait, hcompletion, initiations, registrations, completions, completed,
    List.countP_append]
  omega

/-- Waits are numbered in the order of their initiation. -/
theorem CoreStep.nextWaiterId (h : CoreStep k a b) :
    b.nextWaiterId = a.nextWaiterId +
      (k.initiates a.nextWaiterId).countP fun o => o.wait.isSome := by
  by_cases hk : ∃ l, k = .off l
  · obtain ⟨l, rfl⟩ := hk
    cases h with
    | off alive halive hcall => cases hcall <;> rfl
  · have hnone : k.initiates a.nextWaiterId = [] := by
      cases k with
      | off l => exact absurd ⟨l, rfl⟩ hk
      | _ => rfl
    rw [hnone]
    exact (h.sameCalls fun l hl => hk ⟨l, hl⟩).nextWaiterId

/-- Each wait that has been given a number is in exactly one place. -/
def WaitsOnce (c : ListenerCore) : Prop :=
  ∀ waiter, c.initiations waiter + c.registrations waiter + c.completions waiter =
    if 0 < waiter ∧ waiter ≤ c.nextWaiterId then 1 else 0

/-- A step keeps each wait in exactly one place. -/
theorem WaitsOnce.step (h : WaitsOnce a) (hstep : CoreStep k a b) : WaitsOnce b := by
  intro waiter
  have hnext := hstep.nextWaiterId
  have hcount := hstep.tally (p := fun o => o.wait = some waiter)
  have hbefore := h waiter
  rw [tally_wait, tally_wait] at hcount
  rw [hcount, hbefore, hnext]
  by_cases hk : ∃ handler, k = .off (.beginWait handler)
  · obtain ⟨handler, rfl⟩ := hk
    simp only [StepKind.initiates, List.countP_cons, List.countP_nil,
      Option.some.injEq, decide_eq_true_eq, Option.isSome_some, if_true]
    split_ifs <;> omega
  · have hstarts : ∀ o ∈ k.initiates a.nextWaiterId, o.wait = none := by
      unfold StepKind.initiates
      split
      · simp
      · exact absurd ⟨_, rfl⟩ hk
      · simp
    rw [List.countP_eq_zero.mpr fun o ho => by simp [hstarts o ho],
      List.countP_eq_zero.mpr fun o ho => by simp [hstarts o ho]]
    rfl

/-- What is known about the reasons waits end with. -/
structure WaitOutcomes (c : ListenerCore) : Prop where
  terminal : c.state = .stopped → c.terminalError ∈ c.stops
  flagged : ∀ waiter ∈ c.cancelling, waiter ∈ c.cancelled
  posted : ∀ waiter, .cancelWait waiter ∈ c.strand → waiter ∈ c.cancelled
  outcome : ∀ q ∈ c.completed, ∀ waiter, q.wait = some waiter → q.EndsWait c waiter

namespace WaitOutcomes

/-- The reasons stay known when nothing is cancelled anew and each new completion has a reason. -/
theorem extend (h : WaitOutcomes a) (hcancelled : b.cancelled = a.cancelled)
    (hcancelling : b.cancelling ⊆ a.cancelling) (hstops : a.stops ⊆ b.stops)
    (hterminal : b.state = .stopped → b.terminalError ∈ b.stops)
    (hposted : ∀ waiter, .cancelWait waiter ∈ b.strand → .cancelWait waiter ∈ a.strand)
    (hcompleted : ∀ q ∈ b.completed, q ∈ a.completed ∨ ∀ waiter, q.wait = some waiter →
      q.EndsWait b waiter) :
    WaitOutcomes b := by
  refine ⟨hterminal, fun waiter hw => hcancelled ▸ h.flagged waiter (hcancelling hw),
    fun waiter hw => hcancelled ▸ h.posted waiter (hposted waiter hw), fun q hq waiter hwait => ?_⟩
  rcases hcompleted q hq with hold | hnew
  · refine (h.outcome q hold waiter hwait).imp ?_ ?_
    · rintro ⟨hcause, herror, hmem⟩
      exact ⟨hcause, herror, hcancelled ▸ hmem⟩
    · rintro ⟨hcause, hmem⟩
      exact ⟨hcause, hstops hmem⟩
  · exact hnew waiter hwait

/-- Running a message that completes nothing forgets no reason. -/
theorem pop (h : WaitOutcomes a) {m : Message} {rest : List Message}
    (hstrand : a.strand = m :: rest) (hm : m.completion? = none) :
    WaitOutcomes { a with strand := rest } := by
  refine h.extend rfl (List.Subset.refl _) (List.Subset.refl _) h.terminal (fun waiter hw => ?_)
    fun q hq => Or.inl ?_
  · exact hstrand ▸ List.mem_cons_of_mem _ hw
  · simpa [completed, hstrand, hm] using hq

/-- Completing an operation for a reason keeps the reasons known. -/
theorem completeOn (h : WaitOutcomes a) (q : Completion)
    (hq : ∀ waiter, q.wait = some waiter → q.EndsWait a waiter) :
    WaitOutcomes (a.completeOn q) := by
  refine h.extend rfl (List.Subset.refl _) (List.Subset.refl _) h.terminal
    (fun waiter hw => ?_) fun r hr => ?_
  · simpa [ListenerCore.completeOn, post] using hw
  · simp only [completed, ListenerCore.completeOn, post, List.filterMap_append, List.filterMap_cons,
      Message.completion?, List.filterMap_nil, ← List.append_assoc, List.mem_append,
      List.mem_singleton] at hr
    rcases hr with hold | rfl
    · exact Or.inl (List.mem_append.mpr hold)
    · exact Or.inr hq

/-- A move keeps the reasons known. -/
theorem move (h : WaitOutcomes a) (hm : Move a b) : WaitOutcomes b := by
  cases hm with
  | quiet hq =>
    refine h.extend hq.cancelled (by rw [hq.cancelling]; exact List.Subset.refl _)
      (by rw [hq.stops]; exact List.Subset.refl _) (fun hb => ?_) (fun waiter hw => hq.strand ▸ hw)
      fun q hmem => Or.inl ?_
    · rw [hq.state] at hb
      rw [hq.stops, hq.terminalError hb]
      exact h.terminal hb
    · simpa [completed, hq.strand, hq.delivered] using hmem
  | running hs =>
    exact h.extend rfl (List.Subset.refl _) (List.Subset.refl _) (by simp [transitionTo, emit])
      (fun _ hw => hw) fun q hmem => Or.inl hmem
  | stopping hs ht =>
    exact h.extend rfl (List.Subset.refl _) (List.Subset.refl _) (by simp [transitionTo, emit])
      (fun _ hw => hw) fun q hmem => Or.inl hmem
  | finish ec reason hs =>
    have hframe := finish_sameGeneration a ec reason
    obtain ⟨hstrand, hdelivered, hwaiters, herror, hstops, -⟩ :=
      finish_eq a ec reason (by rcases hs with hs | hs <;> simp [hs])
    refine h.extend hframe.cancelled (by rw [hframe.cancelling]; exact List.Subset.refl _)
      (by rw [hstops]; exact List.subset_append_left _ _) (fun _ => by simp [herror, hstops])
      (fun waiter hw => ?_) fun q hmem => ?_
    · simpa [hstrand] using hw
    · simp only [completed, hstrand, hdelivered, List.filterMap_append, ← List.append_assoc,
        List.mem_append (t := List.filterMap _ (List.map _ _))] at hmem
      refine hmem.imp id fun hnew waiter _ => Or.inr ?_
      obtain ⟨w, -, rfl⟩ : ∃ w ∈ a.waiters, ⟨w.handler, some w.id, ec, .stopped⟩ = q := by
        simpa [List.filterMap_map, Message.completion?] using hnew
      exact ⟨rfl, by simp [hstops]⟩

/-- Moves keep the reasons known. -/
theorem moves (h : WaitOutcomes a) (hm : Moves a b) : WaitOutcomes b := by
  induction hm with
  | refl => exact h
  | tail _ hmove ih => exact ih.move hmove

/-- Registering a wait keeps the reasons known. -/
theorem registerWait (h : WaitOutcomes a) (w : WaitOperation) :
    WaitOutcomes (a.registerWait w) := by
  unfold ListenerCore.registerWait
  split
  · rename_i hcancelled
    refine h.completeOn _ fun waiter hwait => Or.inl ⟨rfl, rfl, ?_⟩
    exact (Option.some.inj hwait) ▸ hcancelled
  · split
    · rename_i hstopped
      exact h.completeOn _ fun waiter hwait => Or.inr ⟨rfl, h.terminal hstopped⟩
    · exact ⟨h.terminal, h.flagged, h.posted, h.outcome⟩

/-- The strand step of a cancellation keeps the reasons known. -/
theorem cancelWait (h : WaitOutcomes a) {waiter : ℕ} (hcancelled : waiter ∈ a.cancelled) :
    WaitOutcomes (a.cancelWait waiter) := by
  unfold ListenerCore.cancelWait
  split
  · exact h
  · rename_i w hw
    have hid : w.id = waiter := by simpa using List.find?_some hw
    have herased : WaitOutcomes { a with waiters := a.waiters.eraseP fun w => w.id = waiter } :=
      ⟨h.terminal, h.flagged, h.posted, h.outcome⟩
    refine herased.completeOn ⟨w.handler, some w.id, .operationAborted, .cancelled⟩ fun v hv =>
      Or.inl ⟨rfl, rfl, ?_⟩
    exact (Option.some.inj hv) ▸ hid ▸ hcancelled

/-- A step off the strand keeps the reasons known. -/
theorem call {alive : Bool} {l : CoreLabel} (h : WaitOutcomes a) (hcall : CallStep alive l a b) :
    WaitOutcomes b := by
  have hposting {c : ListenerCore} {m : Message} (hc : WaitOutcomes c)
      (hm : ∀ waiter, m = .cancelWait waiter → waiter ∈ c.cancelled) (hq : m.completion? = none) :
      WaitOutcomes (c.post m) := by
    have hsame : (c.post m).completed = c.completed := by simp [completed, post, hq]
    refine ⟨hc.terminal, hc.flagged, fun waiter hw => ?_, fun q hmem => hc.outcome q (hsame ▸ hmem)⟩
    simp only [post, List.mem_append, List.mem_singleton] at hw
    exact hw.elim (hc.posted waiter) fun he => hm waiter he.symm
  cases hcall with
  | asyncStart hpos => exact hposting h (by simp) rfl
  | cancelStart =>
    have hcompletion (m : Message) (handler : CompletionHandler) :
        (m.cancelStart handler).completion? = m.completion? := by
      cases m <;> rfl
    refine h.extend rfl (List.Subset.refl _) (List.Subset.refl _) h.terminal (fun waiter hw => ?_)
      fun q hq => Or.inl ?_
    · obtain ⟨m, hm, he⟩ := List.mem_map.mp hw
      cases m with
      | cancelWait v => exact he ▸ hm
      | _ => contradiction
    · simpa [completed, List.filterMap_map, hcompletion] using hq
  | postWait hw => exact hposting ⟨h.terminal, h.flagged, h.posted, h.outcome⟩ (by simp) rfl
  | @cancelWait _ waiter hconnected =>
    refine ⟨h.terminal, fun v hv => ?_, fun v hv => List.mem_append_left _ (h.posted v hv),
      fun q hq v hv => ?_⟩
    · rcases List.mem_append.mp hv with hold | hnew
      · exact List.mem_append_left _ (h.flagged v hold)
      · exact List.mem_append_right _ hnew
    · exact (h.outcome q hq v hv).imp_left fun hcancelled =>
        ⟨hcancelled.1, hcancelled.2.1, List.mem_append_left _ hcancelled.2.2⟩
  | @postCancel _ waiter hmem halive =>
    refine hposting ⟨h.terminal, fun v hv => h.flagged v (List.mem_of_mem_erase hv),
      h.posted, h.outcome⟩ ?_ rfl
    rintro v ⟨⟩
    exact h.flagged _ hmem
  | dropCancel hmem halive =>
    exact ⟨h.terminal, fun v hv => h.flagged v (List.mem_of_mem_erase hv), h.posted, h.outcome⟩
  | stopPost hpos => exact hposting ⟨h.terminal, h.flagged, h.posted, h.outcome⟩ (by simp) rfl
  | session hx hstep =>
    refine h.extend rfl (List.Subset.refl _) (List.Subset.refl _) h.terminal (fun waiter hw => ?_)
      fun q hq => Or.inl ?_
    · cases alive <;> simpa using hw
    · cases alive <;>
        simpa [completed, List.filterMap_map, Function.comp_def, Message.completion?] using hq
  | _ => exact ⟨h.terminal, h.flagged, h.posted, h.outcome⟩

/-- A step keeps the reasons known. -/
theorem step (h : WaitOutcomes a) (hstep : CoreStep k a b) : WaitOutcomes b := by
  cases hstep with
  | off alive halive hcall => exact h.call hcall
  | @deliver _ completion rest hstrand =>
    refine h.extend rfl (List.Subset.refl _) (List.Subset.refl _) h.terminal (fun waiter hw => ?_)
      fun q hq => Or.inl ?_
    · exact hstrand ▸ List.mem_cons_of_mem _ hw
    · simpa [completed, deliver, hstrand, Message.completion?] using hq
  | settleStart hstrand completion hc =>
    exact (h.pop hstrand rfl).completeOn completion (by simp [hc.2.1])
  | start hstrand hs completion hc hbefore hafter =>
    have hpopped := h.pop hstrand rfl
    have hbegun : WaitOutcomes { a with strand := _ }.beginGeneration :=
      ⟨by simp [beginGeneration, transitionTo, emit], hpopped.flagged,
        hpopped.posted, hpopped.outcome⟩
    exact ((hbegun.moves hbefore).completeOn completion (by simp [hc.2.1])).moves hafter
  | wait hstrand => exact (h.pop hstrand rfl).registerWait _
  | cancelWait hstrand =>
    exact (h.pop hstrand rfl).cancelWait (h.posted _ (hstrand ▸ List.mem_cons_self))
  | stop hstrand hm hb => exact (h.pop hstrand rfl).moves hm
  | report hstrand hm => exact (h.pop hstrand rfl).moves hm
  | asynchronous hm => exact h.moves hm
  | graceAborted htake hw => exact ⟨h.terminal, h.flagged, h.posted, h.outcome⟩
  | force htake hw keys => exact ⟨h.terminal, h.flagged, h.posted, h.outcome⟩

end WaitOutcomes

/-- Only the cancellation of a wait marks it as cancelled. -/
theorem CoreStep.cancelled (h : CoreStep k a b) {waiter : ℕ} (hw : waiter ∈ b.cancelled) :
    waiter ∈ a.cancelled ∨ k = .off (.cancelWait waiter) := by
  by_cases hk : ∃ l, k = .off l
  · obtain ⟨l, rfl⟩ := hk
    cases h with
    | off alive halive hcall =>
      cases hcall with
      | cancelWait hconnected =>
        refine (List.mem_append.mp hw).imp_right fun hnew => ?_
        rw [List.mem_singleton.mp hnew]
      | _ => exact Or.inl hw
  · exact Or.inl ((h.sameCalls fun l hl => hk ⟨l, hl⟩).cancelled ▸ hw)

/-- The cancellation of a wait leaves the lifecycle and every other wait as they are. -/
theorem CoreStep.cancels_frame (h : CoreStep k a b) {waiter : ℕ} (hk : k.Cancels waiter) :
    b.state = a.state ∧ b.generation = a.generation ∧ b.events = a.events ∧
      ∀ other, other ≠ waiter → b.initiations other = a.initiations other ∧
        b.waiters.filter (fun w => w.id = other) = a.waiters.filter (fun w => w.id = other) ∧
        b.completed.filter (fun q => q.wait = some other) =
          a.completed.filter (fun q => q.wait = some other) := by
  rcases hk with rfl | rfl | rfl
  · cases h with
    | off alive halive hcall =>
      cases hcall <;> exact ⟨rfl, rfl, rfl, fun other _ => ⟨rfl, rfl, rfl⟩⟩
  · cases h with
    | off alive halive hcall =>
      cases hcall with
      | postCancel hmem halive =>
        exact ⟨rfl, rfl, rfl, fun other _ => ⟨by simp [initiations, post, Message.wait?], rfl,
          by simp [completed, post, Message.completion?]⟩⟩
      | dropCancel hmem halive => exact ⟨rfl, rfl, rfl, fun other _ => ⟨rfl, rfl, rfl⟩⟩
  · cases h with
    | @cancelWait _ _ rest hstrand =>
      have hwaits : a.strand.filterMap Message.wait? = rest.filterMap Message.wait? := by
        rw [hstrand]; rfl
      have hcompletions : a.strand.filterMap Message.completion? =
          rest.filterMap Message.completion? := by
        rw [hstrand]
        rfl
      unfold ListenerCore.cancelWait
      split
      · refine ⟨rfl, rfl, rfl, fun other _ => ⟨?_, rfl, ?_⟩⟩
        · rw [initiations, initiations, hwaits]
        · rw [completed, completed, hcompletions]
      · rename_i w hw
        have hid : w.id = waiter := by simpa using List.find?_some hw
        refine ⟨rfl, rfl, rfl, fun other hother => ⟨?_, filter_eraseP_of_find? hw ?_, ?_⟩⟩
        · simp [initiations, hwaits, completeOn, post, Message.wait?]
        · simp [hid, hother.symm]
        · simp [completed, hcompletions, completeOn, post, Message.completion?, hid, hother.symm]

/-- A run takes each wait of a listener through exactly one place at a time. -/
theorem run_waitsOnce {x y : Listener} {ls : List ListenerLabel} (h : WaitsOnce x.core)
    (hrun : run Listener.step x ls = some y) : WaitsOnce y.core :=
  run_invariant (fun x => WaitsOnce x.core)
    (fun _ _ _ hx hstep => hx.step (Listener.step_core hstep)) h hrun

/-- A run keeps the reasons of completed waits known. -/
theorem run_waitOutcomes {x y : Listener} {ls : List ListenerLabel} (h : WaitOutcomes x.core)
    (hrun : run Listener.step x ls = some y) : WaitOutcomes y.core :=
  run_invariant (fun x => WaitOutcomes x.core)
    (fun _ _ _ hx hstep => hx.step (Listener.step_core hstep)) h hrun

/-- A wait that is marked as cancelled was cancelled in the course of the run. -/
theorem run_cancelled {x y : Listener} {ls : List ListenerLabel}
    (hrun : run Listener.step x ls = some y) {waiter : ℕ} (hw : waiter ∈ y.core.cancelled) :
    waiter ∈ x.core.cancelled ∨ ∃ l ∈ ls, l.off? = some (.cancelWait waiter) := by
  induction ls generalizing x with
  | nil => exact Or.inl ((Option.some.inj hrun) ▸ hw)
  | cons l ls ih =>
    obtain ⟨t, hstep, hrest⟩ := run_cons.mp hrun
    rcases ih hrest with hold | ⟨m, hm, hcancel⟩
    · refine ((Listener.step_core hstep).cancelled hold).imp_right fun hkind => ?_
      exact ⟨l, List.mem_cons_self, (Listener.kind_eq_off hstep _).mp hkind⟩
    · exact Or.inr ⟨m, List.mem_cons_of_mem _ hm, hcancel⟩

/-- A newly constructed listener has no waits. -/
theorem create_waits (id : ℕ) (config : ListenerConfig) :
    WaitsOnce (Listener.create id config).core ∧ WaitOutcomes (Listener.create id config).core := by
  obtain ⟨endpoint, hcore⟩ := Listener.create_core id config
  rw [hcore]
  refine ⟨fun waiter => ?_, by simp, by simp, by simp, by simp [completed]⟩
  rw [if_neg (by rintro ⟨hpos, hle⟩; exact absurd hle (Nat.not_le_of_lt hpos))]
  rfl

/-- Each wait of a listener is initiated, registered or completed exactly once, whatever
starts, stops, restarts and cancellations surround it. It ends with `operation_aborted` for
a cancellation only if the run cancels that very wait, and with the terminal error of a stop
otherwise. The steps of a cancellation leave the state and all other waits alone. -/
theorem waits_exactlyOnce {id : ℕ} {config : ListenerConfig} {ls : List ListenerLabel}
    {x : Listener} (hrun : run Listener.step (Listener.create id config) ls = some x) :
    (∀ waiter, 0 < waiter → waiter ≤ x.core.nextWaiterId →
      x.core.initiations waiter + x.core.registrations waiter + x.core.completions waiter = 1) ∧
    (∀ waiter, x.core.completions waiter ≤ 1) ∧
    (∀ q ∈ x.core.completed, ∀ waiter, q.wait = some waiter →
      q.cause = .cancelled ∧ q.error = .operationAborted ∧
      (∃ l ∈ ls, l.off? = some (.cancelWait waiter)) ∨
        q.cause = .stopped ∧ q.error ∈ x.core.stops) ∧
    ∀ waiter l y, x.step l = some y → (x.kind l).Cancels waiter →
      y.core.state = x.core.state ∧ y.core.generation = x.core.generation ∧
      y.core.events = x.core.events ∧
      ∀ other, other ≠ waiter → y.core.initiations other = x.core.initiations other ∧
        y.core.registrations other = x.core.registrations other ∧
        y.core.completed.filter (fun q => q.wait = some other) =
          x.core.completed.filter (fun q => q.wait = some other) := by
  obtain ⟨honce, houtcomes⟩ := create_waits id config
  have honce := run_waitsOnce honce hrun
  have houtcomes := run_waitOutcomes houtcomes hrun
  refine ⟨fun waiter hpos hle => ?_, fun waiter => ?_, fun q hq waiter hwait => ?_,
    fun waiter l y hstep hk => ?_⟩
  · rw [honce waiter, if_pos ⟨hpos, hle⟩]
  · have := honce waiter
    split_ifs at this <;> omega
  · refine (houtcomes.outcome q hq waiter hwait).imp_left fun ⟨hcause, herror, hcancelled⟩ =>
      ⟨hcause, herror, ?_⟩
    rcases run_cancelled hrun hcancelled with hnew | hlabel
    · obtain ⟨endpoint, hcore⟩ := Listener.create_core id config
      simp [hcore] at hnew
    · exact hlabel
  · obtain ⟨hstate, hgeneration, hevents, hothers⟩ := (Listener.step_core hstep).cancels_frame hk
    refine ⟨hstate, hgeneration, hevents, fun other hother => ?_⟩
    obtain ⟨hinitiations, hwaiters, hcompleted⟩ := hothers other hother
    refine ⟨hinitiations, ?_, hcompleted⟩
    rw [registrations, registrations, List.countP_eq_length_filter,
      List.countP_eq_length_filter, hwaiters]

/-- Two waits on a new listener, of which the first is cancelled before the listener stops. -/
def twoWaits : List ListenerLabel :=
  [.socket (.core (.beginWait (.user 1))), .socket (.core (.postWait 1)),
    .socket (.core (.beginWait (.user 2))),
    .socket (.core (.postWait 2)), .socket (.run {}), .socket (.run {}),
    .socket (.core (.cancelWait 1)),
    .socket (.core (.postCancel 1)), .socket (.run {}), .socket (.core .stopRead),
    .socket (.core .stopPost), .socket (.run {}), .socket (.run {})]

/-- Both of the two waits have been completed, once. -/
theorem waits_exactlyOnce_two : ∃ x, run Listener.step (.create 1 defaultSocket) twoWaits = some x ∧
    x.core.nextWaiterId = 2 ∧ x.core.completions 1 ≤ 1 ∧ x.core.completions 2 ≤ 1 ∧
      x.core.completed = [⟨.user 1, some 1, .operationAborted, .cancelled⟩,
        ⟨.user 2, some 2, .success, .stopped⟩] := by
  have h : run Listener.step (.create 1 defaultSocket) twoWaits = some _ := rfl
  have honce := (waits_exactlyOnce h).2.1
  exact ⟨_, h, rfl, honce 1, honce 2, rfl⟩

end Serveza
