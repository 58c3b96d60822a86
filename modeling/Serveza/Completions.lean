import Serveza.Waits

/-!
# What operations are completed with

The error an operation of a listener is completed with follows from the branch that completes
it: a start that did not fail by itself succeeds or is aborted, and a wait that was not ended
by a stop was cancelled and is aborted.
-/

namespace Serveza

open Foundation ListenerCore

/-- The error of a completion is the one its cause stands for. -/
def Completion.Justified (q : Completion) : Prop :=
  match q.wait with
  | none => q.EndsStart q.handler
  | some _ => q.cause = .cancelled ∧ q.error = .operationAborted ∨ q.cause = .stopped

/-- What a completion made in a step says about the state after it: a start ends as its cause
says, and a wait was cancelled, or ends with the terminal error of a listener that has stopped. -/
inductive Completion.Ends (q : Completion) (b : ListenerCore) : Prop where
  | start (hwait : q.wait = none) (hends : q.EndsStart q.handler)
  | cancelled (hwait : q.wait ≠ none) (hcause : q.cause = .cancelled)
    (herror : q.error = .operationAborted)
  | stopped (hwait : q.wait ≠ none) (hcause : q.cause = .stopped) (hs : b.state = .stopped)
    (herror : q.error = b.terminalError)

/-- Operations are completed on the way, a listener that has stopped keeps its outcome, and a
wait stays registered until it is completed. -/
structure Completes (a b : ListenerCore) : Prop where
  stays : a.state = .stopped → b.state = .stopped ∧ b.terminalError = a.terminalError
  added : ∃ new, b.completed = a.completed ++ new ∧ ∀ q ∈ new, q.Ends b
  waiters : ∀ w ∈ a.waiters, w ∈ b.waiters ∨ ∃ q ∈ b.completed, q.wait = some w.id

namespace Completes

variable {a b c : ListenerCore} {k : StepKind}

/-- Nothing is completed if what has been completed is as before. -/
theorem none (hs : a.state = .stopped → b.state = .stopped ∧ b.terminalError = a.terminalError)
    (hcompleted : b.completed = a.completed) (hwaiters : a.waiters ⊆ b.waiters) : Completes a b :=
  ⟨hs, ⟨[], by rw [hcompleted, List.append_nil], nofun⟩, fun _ hw => Or.inl (hwaiters hw)⟩

/-- What is completed on the way is completed. -/
theorem trans (h : Completes a b) (h' : Completes b c) : Completes a c := by
  obtain ⟨new, hnew, hends⟩ := h.added
  obtain ⟨more, hmore, hends'⟩ := h'.added
  refine ⟨fun hs => ?_, ⟨new ++ more, by rw [hmore, hnew, List.append_assoc], fun q hq => ?_⟩,
    fun w hw => ?_⟩
  · obtain ⟨hb, herror⟩ := h.stays hs
    obtain ⟨hc, herror'⟩ := h'.stays hb
    exact ⟨hc, herror'.trans herror⟩
  · rcases List.mem_append.mp hq with hq | hq
    · cases hends q hq with
      | start hwait hends => exact .start hwait hends
      | cancelled hwait hcause herror => exact .cancelled hwait hcause herror
      | stopped hwait hcause hs herror =>
        obtain ⟨hc, herror'⟩ := h'.stays hs
        exact .stopped hwait hcause hc (herror.trans herror'.symm)
    · exact hends' q hq
  · rcases h.waiters w hw with hb | ⟨q, hq, hwait⟩
    · exact h'.waiters w hb
    · exact Or.inr ⟨q, hmore ▸ List.mem_append_left _ hq, hwait⟩

/-- Completing an operation adds it at the end. -/
theorem completed_completeOn (a : ListenerCore) (q : Completion) :
    (a.completeOn q).completed = a.completed ++ [q] := by
  simp [completed, completeOn, post, Message.completion?]

/-- Finishing a generation completes the registered waits with its error. -/
theorem completed_finish (a : ListenerCore) (ec : ErrorCode) (reason : ListenerStopReason)
    (h : a.state ≠ .stopped) :
    (a.finish ec reason).completed = a.completed ++ a.waiters.map fun w =>
    ⟨w.handler, some w.id, ec, .stopped⟩ := by
  obtain ⟨hstrand, hdelivered, -⟩ := finish_eq a ec reason h
  rw [completed, completed, hstrand, hdelivered, List.filterMap_append, List.append_assoc]
  simp [List.filterMap_map, Function.comp_def, Message.completion?]

/-- Completing one operation. -/
theorem one {q : Completion} (h : q.Ends a) : Completes a (a.completeOn q) := by
  refine ⟨fun hs => ⟨hs, rfl⟩, ⟨[q], completed_completeOn a q, fun r hr => ?_⟩,
    fun w hw => Or.inl hw⟩
  rw [List.mem_singleton.mp hr]
  cases h with
  | start hwait hends => exact .start hwait hends
  | cancelled hwait hcause herror => exact .cancelled hwait hcause herror
  | stopped hwait hcause hs herror => exact .stopped hwait hcause hs herror

/-- A move completes the registered waits or nothing. -/
theorem move (h : Move a b) : Completes a b := by
  cases h with
  | quiet hq =>
    exact .none (fun hs => ⟨hq.state.trans hs, hq.terminalError hs⟩)
      (by rw [completed, completed, hq.strand, hq.delivered])
      (by rw [hq.waiters]; exact List.Subset.refl _)
  | running hs => exact .none (fun h => by simp [hs] at h) rfl (List.Subset.refl _)
  | stopping hs ht => exact .none (fun h => by simp [h] at hs) rfl (List.Subset.refl _)
  | finish ec reason hs =>
    have hstopped : a.state ≠ .stopped := by rcases hs with hs | hs <;> simp [hs]
    obtain ⟨-, -, -, herror, -⟩ := finish_eq a ec reason hstopped
    have hcompleted := completed_finish a ec reason hstopped
    refine ⟨fun h => absurd h hstopped, ⟨_, hcompleted, fun q hq => ?_⟩, fun w hw => Or.inr ?_⟩
    · obtain ⟨w, -, rfl⟩ := List.mem_map.mp hq
      exact .stopped (by simp) rfl (finish_state a ec reason) herror.symm
    · rw [hcompleted]
      exact ⟨_, List.mem_append_right _ (List.mem_map_of_mem hw), rfl⟩

/-- Moves complete registered waits only. -/
theorem moves (h : Moves a b) : Completes a b := by
  induction h with
  | refl => exact .none (fun hs => ⟨hs, rfl⟩) rfl (List.Subset.refl _)
  | tail _ hmove ih => exact ih.trans (.move hmove)

/-- Registering a wait may complete it. -/
theorem registerWait (a : ListenerCore) (w : WaitOperation) : Completes a (a.registerWait w) := by
  unfold ListenerCore.registerWait
  split
  · exact .one (.cancelled (by simp) rfl rfl)
  · split
    · rename_i hstopped
      exact .one (.stopped (by simp) rfl hstopped rfl)
    · exact .none (fun hs => ⟨hs, rfl⟩) rfl (List.subset_append_left _ _)

/-- Cancelling a registered wait completes it. -/
theorem cancelWait (a : ListenerCore) (waiter : ℕ) : Completes a (a.cancelWait waiter) := by
  unfold ListenerCore.cancelWait
  split
  · exact .none (fun hs => ⟨hs, rfl⟩) rfl (List.Subset.refl _)
  · rename_i w hfind
    have hid : w.id = waiter := by simpa using List.find?_some hfind
    have hcompleted :=
      completed_completeOn { a with waiters := a.waiters.eraseP fun w => w.id = waiter }
      ⟨w.handler, some w.id, .operationAborted, .cancelled⟩
    refine ⟨fun hs => ⟨hs, rfl⟩, ⟨_, hcompleted, fun q hq => ?_⟩, fun v hv => ?_⟩
    · rw [List.mem_singleton.mp hq]
      exact .cancelled (by simp) rfl rfl
    · by_cases hv' : v.id = waiter
      · exact Or.inr ⟨_, hcompleted ▸ List.mem_append_right _
          (List.mem_singleton_self _), by rw [hid, hv']⟩
      · exact Or.inl ((List.mem_eraseP_of_neg (by simpa using hv')).mpr hv)

/-- A step off the strand completes nothing. -/
theorem call {alive : Bool} {l : CoreLabel} (h : CallStep alive l a b) : Completes a b := by
  have hposted (c : ListenerCore) {m : Message} (hm : m.completion? = Option.none) :
      (c.post m).completed = c.completed := by
    simp [completed, post, hm]
  cases h with
  | asyncStart hpos => exact .none (fun hs => ⟨hs, rfl⟩) (hposted _ rfl) (List.Subset.refl _)
  | cancelStart =>
    have hcompletion (m : Message) (handler : CompletionHandler) :
        (m.cancelStart handler).completion? = m.completion? := by
      cases m <;> rfl
    exact .none (fun hs => ⟨hs, rfl⟩) (by simp [completed, List.filterMap_map, hcompletion])
      (List.Subset.refl _)
  | postWait hw => exact .none (fun hs => ⟨hs, rfl⟩) (hposted _ rfl) (List.Subset.refl _)
  | postCancel hmem halive => exact .none (fun hs => ⟨hs, rfl⟩) (hposted _ rfl) (List.Subset.refl _)
  | stopPost hpos => exact .none (fun hs => ⟨hs, rfl⟩) (hposted _ rfl) (List.Subset.refl _)
  | session hx hstep =>
    refine .none (fun hs => ⟨hs, rfl⟩) ?_ (List.Subset.refl _)
    cases alive <;> simp [completed, List.filterMap_map, Function.comp_def, Message.completion?]
  | _ => exact .none (fun hs => ⟨hs, rfl⟩) rfl (List.Subset.refl _)

/-- Taking a message that completes nothing off the strand. -/
theorem pop {m : Message} {rest : List Message} (hstrand : a.strand = m :: rest)
    (hm : m.completion? = Option.none) :
    Completes a { a with strand := rest } :=
  .none (fun hs => ⟨hs, rfl⟩) (by simp [completed, hstrand, hm]) (List.Subset.refl _)

end Completes

/-- What a step completes, it completes as its causes say; only a start leaves `stopped`. -/
theorem CoreStep.completes {a b : ListenerCore} {k : StepKind} (h : CoreStep k a b) :
    Completes a b ∨ (a.state = .idle ∨ a.state = .stopped) ∧ b.generation = a.generation + 1 ∧
      ∃ m, m.completed = a.completed ∧ m.waiters = a.waiters ∧ Completes m b := by
  cases h with
  | off alive halive hcall => exact Or.inl (.call hcall)
  | @deliver _ completion rest hstrand =>
    refine Or.inl (.none (fun hs => ⟨hs, rfl⟩) ?_ (List.Subset.refl _))
    simp [completed, ListenerCore.deliver, hstrand, Message.completion?]
  | settleStart hstrand completion hc =>
    exact Or.inl ((Completes.pop hstrand rfl).trans (.one (.start hc.2.1 (hc.1 ▸ hc))))
  | @start _ _ _ _ rest hstrand hs completion hc hbefore hafter =>
    have hbegun : { a with strand := rest }.beginGeneration.completed = a.completed := by
      rw [completed, completed, hstrand]
      rfl
    have hgeneration :=
      (moves_sameGeneration hafter).generation.trans (moves_sameGeneration hbefore).generation
    refine Or.inr ⟨hs, hgeneration, _, hbegun, rfl, ?_⟩
    exact ((Completes.moves hbefore).trans (.one (.start hc.2.1 (hc.1 ▸ hc)))).trans (.moves hafter)
  | wait hstrand => exact Or.inl ((Completes.pop hstrand rfl).trans (.registerWait _ _))
  | cancelWait hstrand => exact Or.inl ((Completes.pop hstrand rfl).trans (.cancelWait _ _))
  | stop hstrand hm hb => exact Or.inl ((Completes.pop hstrand rfl).trans (.moves hm))
  | report hstrand hm => exact Or.inl ((Completes.pop hstrand rfl).trans (.moves hm))
  | asynchronous hm => exact Or.inl (.moves hm)
  | graceAborted htake hw => exact Or.inl (.none (fun hs => ⟨hs, rfl⟩) rfl (List.Subset.refl _))
  | force htake hw keys => exact Or.inl (.none (fun hs => ⟨hs, rfl⟩) rfl (List.Subset.refl _))

/-- A step adds to what has been completed. -/
theorem CoreStep.completed_eq {a b : ListenerCore} {k : StepKind} (h : CoreStep k a b) :
    ∃ new, b.completed = a.completed ++ new ∧ ∀ q ∈ new, q.Ends b := by
  rcases h.completes with hcompletes | ⟨-, -, m, hm, -, hcompletes⟩
  · exact hcompletes.added
  · rw [← hm]
    exact hcompletes.added

/-- The starts among the completions end as starts do. -/
def StartsEnd (c : ListenerCore) : Prop := ∀ q ∈ c.completed, q.wait = none → q.EndsStart q.handler

/-- A step keeps the starts ending as they do. -/
theorem StartsEnd.step {a b : ListenerCore} {k : StepKind} (h : StartsEnd a)
    (hstep : CoreStep k a b) : StartsEnd b := by
  obtain ⟨new, hnew, hends⟩ := hstep.completed_eq
  intro q hq hwait
  rw [hnew] at hq
  rcases List.mem_append.mp hq with hq | hq
  · exact h q hq hwait
  · cases hends q hq with
    | start _ hends => exact hends
    | cancelled hsome => exact absurd hwait hsome
    | stopped hsome => exact absurd hwait hsome

/-- Everything a listener has completed was completed with the error its cause stands for. -/
theorem Listener.Reached.justified {x : Listener} (h : x.Reached) :
    ∀ q ∈ x.core.completed, q.Justified := by
  obtain ⟨id, config, hreachable⟩ := h
  obtain ⟨endpoint, hcore⟩ := Listener.create_core id config
  have hstarts : StartsEnd x.core :=
    hreachable.invariant (fun x => StartsEnd x.core)
      (fun _ _ _ hx hstep => hx.step (Listener.step_core hstep))
      (by rw [hcore]; intro q hq; simp [completed] at hq)
  have hwaits : WaitOutcomes x.core :=
    hreachable.invariant (fun x => WaitOutcomes x.core)
      (fun _ _ _ hx hstep => hx.step (Listener.step_core hstep)) (create_waits id config).2
  intro q hq
  unfold Completion.Justified
  cases hwait : q.wait with
  | none => exact hstarts q hq hwait
  | some waiter => exact (hwaits.outcome q hq waiter hwait).imp (fun h => ⟨h.1, h.2.1⟩) And.left

end Serveza
