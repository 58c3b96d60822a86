import Serveza.Completions

/-!
# Starts are answered in order

A start is posted to the listener's strand, and the handler that runs it posts its completion.
Both wait in the same queue, so no start overtakes another one: the starts that have been
completed, followed by those that are still queued, are the starts that have been called, in
the order of the calls. A generation is begun by one of them.
-/

namespace Serveza

open Foundation ListenerCore

/-- The handler that a queued start will be completed with. -/
def Message.start? : Message → Option CompletionHandler
  | .start handler _ => some handler
  | _ => none

/-- The handler of the start that a step calls. -/
def StepKind.start? : StepKind → Option CompletionHandler
  | .off (.asyncStart h) => some h
  | _ => none

/-- The handler of the start that a label calls. -/
def ListenerLabel.start? (l : ListenerLabel) : Option CompletionHandler :=
  l.off?.bind fun call => (StepKind.off call).start?

namespace ListenerCore

/-- The handlers of the starts that have been completed, in order. -/
def startsCompleted (c : ListenerCore) : List CompletionHandler :=
  (c.completed.filter fun q => q.wait.isNone).map (·.handler)

/-- The handlers of the starts that are queued, in order. -/
def startsQueued (c : ListenerCore) : List CompletionHandler := c.strand.filterMap Message.start?

/-- The handlers of all starts, those that have been completed first. -/
def starts (c : ListenerCore) : List CompletionHandler := c.startsCompleted ++ c.startsQueued

end ListenerCore

/-- The same starts have been completed, and the same ones are queued. -/
structure SameStarts (a b : ListenerCore) : Prop where
  completed : b.startsCompleted = a.startsCompleted
  queued : b.startsQueued = a.startsQueued

variable {a b c : ListenerCore} {k : StepKind}

/-- The starts are compared across several changes. -/
theorem SameStarts.trans (h : SameStarts a b) (h' : SameStarts b c) : SameStarts a c :=
  ⟨h'.completed.trans h.completed, h'.queued.trans h.queued⟩

/-- The starts together are the same. -/
theorem SameStarts.starts (h : SameStarts a b) : b.starts = a.starts := by
  rw [ListenerCore.starts, ListenerCore.starts, h.completed, h.queued]

/-- The starts are the same if the strand and the deliveries are. -/
theorem sameStarts_of_eq (hstrand : b.strand = a.strand) (hdelivered : b.delivered = a.delivered) :
    SameStarts a b := by
  constructor <;> simp only [startsCompleted, startsQueued, completed, hstrand, hdelivered]

/-- Messages that are posted and neither start nor complete a start leave the starts alone. -/
theorem sameStarts_append (messages : List Message)
    (hnone : ∀ m ∈ messages, m.start? = none ∧ ∀ q ∈ m.completion?, q.wait ≠ none)
    (hstrand : b.strand = a.strand ++ messages) (hdelivered : b.delivered = a.delivered) :
    SameStarts a b := by
  have hstarts : messages.filterMap Message.start? = [] :=
    List.filterMap_eq_nil_iff.mpr fun m hm => (hnone m hm).1
  have hcompletions : (messages.filterMap Message.completion?).filter
      (fun q => q.wait.isNone) = [] := by
    refine List.filter_eq_nil_iff.mpr fun q hq => ?_
    obtain ⟨m, hm, hq⟩ := List.mem_filterMap.mp hq
    simpa using (hnone m hm).2 q hq
  constructor <;>
    simp only [startsCompleted, startsQueued, completed, hstrand, hdelivered, List.filterMap_append,
      ← List.append_assoc, List.filter_append, hstarts, hcompletions, List.append_nil]

/-- Completing a wait leaves the starts alone. -/
theorem sameStarts_completeOn (a : ListenerCore) {q : Completion} (h : q.wait ≠ none) :
    SameStarts a (a.completeOn q) :=
  sameStarts_append [.complete q] (by simp [Message.start?, Message.completion?, h]) rfl rfl

/-- Taking a message off the strand that is neither a start nor a completion leaves the starts
alone. -/
theorem sameStarts_pop {m : Message} {rest : List Message} (h : a.strand = m :: rest)
    (hstart : m.start? = none) (hcompletion : m.completion? = none) :
    SameStarts a { a with strand := rest } := by
  constructor <;> simp [startsCompleted, startsQueued, completed, h, hstart, hcompletion]

/-- Moves leave the starts alone. -/
theorem moves_sameStarts (h : Moves a b) : SameStarts a b := by
  induction h with
  | refl => exact ⟨rfl, rfl⟩
  | @tail b c _ hmove ih =>
    refine ih.trans ?_
    cases hmove with
    | quiet h => exact sameStarts_of_eq h.strand h.delivered
    | running h => exact sameStarts_of_eq rfl rfl
    | stopping h ht => exact sameStarts_of_eq rfl rfl
    | finish ec reason h =>
      obtain ⟨hstrand, hdelivered, -⟩ := finish_eq b ec reason (by rcases h with h | h <;> simp [h])
      refine sameStarts_append _ (fun m hm => ?_) hstrand hdelivered
      obtain ⟨w, -, rfl⟩ := List.mem_map.mp hm
      simp [Message.start?, Message.completion?]

/-- Registering a wait leaves the starts alone. -/
theorem sameStarts_registerWait (a : ListenerCore) (w : WaitOperation) :
    SameStarts a (a.registerWait w) := by
  unfold ListenerCore.registerWait
  split
  · exact sameStarts_completeOn a (by simp)
  · split
    · exact sameStarts_completeOn a (by simp)
    · exact sameStarts_of_eq rfl rfl

/-- Cancelling a wait leaves the starts alone. -/
theorem sameStarts_cancelWait (a : ListenerCore) (id : ℕ) : SameStarts a (a.cancelWait id) := by
  unfold ListenerCore.cancelWait
  split
  · exact ⟨rfl, rfl⟩
  · rename_i w _
    have herased : SameStarts a { a with waiters := a.waiters.eraseP fun w => w.id = id } :=
      sameStarts_of_eq rfl rfl
    exact herased.trans (sameStarts_completeOn _ (by simp))

/-- A step of a given kind completes starts in order and queues the one it calls, and it begins
a generation only if it completes a start. -/
structure Serves (k : StepKind) (a b : ListenerCore) : Prop where
  starts : b.starts = a.starts ++ k.start?.toList
  generation : b.generation + a.startsCompleted.length ≤ a.generation + b.startsCompleted.length

/-- A step that calls and completes no start, and begins no generation. -/
theorem serves_of_same (hstart : k.start? = none) (hsame : SameStarts a b)
    (hgeneration : b.generation = a.generation) :
    Serves k a b := by
  refine ⟨?_, ?_⟩
  · rw [hstart, hsame.starts]
    exact (List.append_nil _).symm
  · rw [hsame.completed, hgeneration]

/-- Completing the start at the front of the queue, in a generation of its own or not. -/
theorem serves_settled {handler : CompletionHandler} {cancelled : Bool} {rest : List Message}
    (h : a.strand = .start handler cancelled :: rest)
    (hsame : SameStarts { a with strand := rest } c) {q : Completion} (hq : q.EndsStart handler)
    (hgeneration : c.generation ≤ a.generation + 1) : Serves .handler a (c.completeOn q) := by
  have hpopped : { a with strand := rest }.startsCompleted = a.startsCompleted := by
    simp [startsCompleted, completed, h, Message.completion?, List.filterMap_cons]
  have hcompleted : (c.completeOn q).startsCompleted = a.startsCompleted ++ [handler] := by
    rw [startsCompleted, Completes.completed_completeOn, List.filter_append, List.map_append,
      ← hpopped, ← hsame.completed]
    simp [startsCompleted, hq.1, hq.2.1]
  have hqueued : a.startsQueued = handler :: (c.completeOn q).startsQueued := by
    have hposted : (c.completeOn q).startsQueued = c.startsQueued := by
      simp [startsQueued, completeOn, post, Message.start?, List.filterMap_cons]
    rw [hposted, hsame.queued]
    simp [startsQueued, h, Message.start?]
  refine ⟨?_, ?_⟩
  · rw [ListenerCore.starts, ListenerCore.starts, hcompleted, hqueued, List.append_assoc,
      List.singleton_append]
    exact (List.append_nil _).symm
  · rw [hcompleted, List.length_append, List.length_singleton]
    have hbegun : (c.completeOn q).generation ≤ a.generation + 1 := hgeneration
    omega

/-- A step off the strand queues the start that it calls. -/
theorem CallStep.serves {alive : Bool} {l : CoreLabel} (h : CallStep alive l a b) :
    Serves (.off l) a b := by
  cases h with
  | @asyncStart _ handler hpos =>
    have hcompleted : (a.post (.start handler false)).startsCompleted = a.startsCompleted := by
      simp [startsCompleted, completed, post, Message.completion?, List.filterMap_cons]
    refine ⟨?_, by rw [hcompleted]; exact le_rfl⟩
    rw [ListenerCore.starts, hcompleted]
    simp [ListenerCore.starts, startsQueued, post, Message.start?, StepKind.start?]
  | @cancelStart _ handler =>
    have hstart (m : Message) : (m.cancelStart handler).start? = m.start? := by cases m <;> rfl
    have hcompletion (m : Message) : (m.cancelStart handler).completion? = m.completion? := by
      cases m <;> rfl
    refine serves_of_same rfl ⟨?_, ?_⟩ rfl
    · simp [startsCompleted, completed, List.filterMap_map, hcompletion]
    · simp [startsQueued, List.filterMap_map, hstart]
  | postWait hw =>
    exact serves_of_same rfl
      (sameStarts_append [_] (by simp [Message.start?, Message.completion?]) rfl rfl) rfl
  | postCancel hmem halive =>
    exact serves_of_same rfl
      (sameStarts_append [_] (by simp [Message.start?, Message.completion?]) rfl rfl) rfl
  | stopPost hpos =>
    exact serves_of_same rfl
      (sameStarts_append [_] (by simp [Message.start?, Message.completion?]) rfl rfl) rfl
  | session hx hstep =>
    refine serves_of_same rfl (sameStarts_append _ (fun m hm => ?_) rfl rfl) rfl
    split at hm
    · obtain ⟨report, -, rfl⟩ := List.mem_map.mp hm
      simp [Message.start?, Message.completion?]
    · simp at hm
  | _ => exact serves_of_same rfl (sameStarts_of_eq rfl rfl) rfl

/-- A step completes the start at the front of the queue or queues the one it calls; all others
stay where they are. -/
theorem CoreStep.serves (h : CoreStep k a b) : Serves k a b := by
  cases h with
  | off alive halive hcall => exact hcall.serves
  | @deliver _ completion rest hstrand =>
    refine serves_of_same rfl ⟨?_, ?_⟩ rfl
    · simp [startsCompleted, completed, ListenerCore.deliver, hstrand, Message.completion?]
    · simp [startsQueued, ListenerCore.deliver, hstrand, Message.start?, List.filterMap_cons]
  | settleStart hstrand completion hc => exact serves_settled hstrand ⟨rfl, rfl⟩ hc (Nat.le_succ _)
  | start hstrand hs completion hc hbefore hafter =>
    have hbegun := moves_sameStarts hbefore
    have hserves := serves_settled hstrand ⟨hbegun.completed, hbegun.queued⟩ hc
      (moves_sameGeneration hbefore).generation.le
    have hsame := moves_sameStarts hafter
    refine ⟨hsame.starts.trans hserves.starts, ?_⟩
    rw [(moves_sameGeneration hafter).generation, hsame.completed]
    exact hserves.generation
  | @wait _ w rest hstrand =>
    exact serves_of_same rfl ((sameStarts_pop hstrand rfl rfl).trans (sameStarts_registerWait _ w))
      (registerWait_waitsOnly _ _).generation
  | @cancelWait _ id rest hstrand =>
    exact serves_of_same rfl ((sameStarts_pop hstrand rfl rfl).trans (sameStarts_cancelWait _ id))
      (cancelWait_waitsOnly _ _).generation
  | stop hstrand hm hb =>
    exact serves_of_same rfl ((sameStarts_pop hstrand rfl rfl).trans (moves_sameStarts hm))
      (moves_sameGeneration hm).generation
  | report hstrand hm =>
    exact serves_of_same rfl ((sameStarts_pop hstrand rfl rfl).trans (moves_sameStarts hm))
      (moves_sameGeneration hm).generation
  | asynchronous hm =>
    exact serves_of_same rfl (moves_sameStarts hm) (moves_sameGeneration hm).generation
  | graceAborted htake hw => exact serves_of_same rfl (sameStarts_of_eq rfl rfl) rfl
  | force htake hw keys => exact serves_of_same rfl (sameStarts_of_eq rfl rfl) rfl

/-- The start that a step of a listener calls is the one its label names. -/
theorem Listener.kind_start {x y : Listener} {l : ListenerLabel} (h : x.step l = some y) :
    (x.kind l).start? = l.start? := by
  have hcall := kind_eq_off h
  cases hoff : l.off? with
  | some call => rw [(hcall call).mpr hoff, ListenerLabel.start?, hoff, Option.bind_some]
  | none =>
    rw [ListenerLabel.start?, hoff, Option.bind_none]
    cases hkind : x.kind l with
    | off call => exact absurd ((hcall call).mp hkind) (by simp [hoff])
    | _ => rfl

/-- A run serves the starts that it calls in order. -/
theorem Listener.run_starts {x y : Listener} {ls : List ListenerLabel}
    (hrun : run Listener.step x ls = some y) :
    y.core.starts = x.core.starts ++ ls.filterMap ListenerLabel.start? := by
  induction ls generalizing x with
  | nil =>
    obtain rfl := Option.some.inj hrun
    simp
  | cons l ls ih =>
    obtain ⟨z, hz, hrest⟩ := run_cons.mp hrun
    rw [ih hrest, (step_core hz).serves.starts, kind_start hz, List.append_assoc]
    cases hstart : l.start? <;> simp [hstart]

/-- Whatever else happens to a listener, its starts are served in the order in which they were
called, each one once: the starts completed so far, and after them the ones queued, are the
starts called. No more generations have begun than starts have been completed. -/
theorem starts_inOrder {id : ℕ} {config : ListenerConfig} {ls : List ListenerLabel} {x : Listener}
    (hrun : run Listener.step (.create id config) ls = some x) :
    x.core.startsCompleted ++ x.core.startsQueued = ls.filterMap ListenerLabel.start? ∧
      x.core.generation ≤ x.core.startsCompleted.length := by
  obtain ⟨endpoint, hcore⟩ := Listener.create_core id config
  constructor
  · have hstarts := Listener.run_starts hrun
    rw [hcore] at hstarts
    exact hstarts
  · refine run_invariant (fun x : Listener => x.core.generation ≤ x.core.startsCompleted.length)
      (fun a l b ha hstep => ?_) (by simp [hcore]) hrun
    have hgeneration := (Listener.step_core hstep).serves.generation
    omega

/-- Two starts of a new listener, the first of which is run. -/
def startedTwice : List ListenerLabel :=
  [.socket (.core (.asyncStart (.user 0))),
    .socket (.core (.asyncStart (.user 1))), .socket (.run {})]

/-- The first of two starts has been completed, and the second one is queued. -/
theorem starts_inOrder_startedTwice :
    ∃ x, run Listener.step (.create 1 defaultSocket) startedTwice = some x ∧
    x.core.startsCompleted = [.user 0] ∧ x.core.startsCompleted ++ x.core.startsQueued =
      [.user 0, .user 1] ∧
      x.core.generation ≤ 1 := by
  have h : run Listener.step (.create 1 defaultSocket) startedTwice = some _ := rfl
  obtain ⟨hstarts, hgeneration⟩ := starts_inOrder h
  exact ⟨_, h, rfl, hstarts, hgeneration⟩

end Serveza
