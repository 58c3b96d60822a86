import Serveza.ServerSound
import Serveza.StopAfterStart

/-!
# Stops of a server's listeners

The stop requests that have looked at the state of a listener and have not posted yet are
those the listener counts. A listener that is settling stays so until a step starts it, and
the first error of an operation is kept until its end.
-/

namespace Serveza

open Foundation

/-- A step changes the number of stop requests in progress only if it is a piece of one. -/
theorem CoreStep.stopping_eq {k : StepKind} {a b : ListenerCore} (h : CoreStep k a b)
    (hread : k ≠ .off .stopRead) (hpost : k ≠ .off .stopPost) : b.stopping = a.stopping := by
  cases k with
  | off call =>
    cases h with
    | off alive halive hcall => cases hcall <;> first | rfl | contradiction
  | _ => exact (h.sameCalls (by simp)).stopping

/-- An internal step of a listener is no piece of a stop request. -/
theorem Listener.isInternal_stop {x y : Listener} {l : ListenerLabel} (hstep : x.step l = some y)
    (h : l.isInternal = true) {call : CoreLabel} (hcall : call = .stopRead ∨ call = .stopPost) :
    x.kind l ≠ .off call := by
  intro hkind
  have hoff := (Listener.kind_eq_off hstep call).mp hkind
  rcases hcall with rfl | rfl <;>
  · cases l with
    | acceptor l =>
      cases l with
      | core l =>
        obtain rfl := Option.some.inj hoff
        contradiction
      | _ => contradiction
    | socket l =>
      cases l with
      | core l =>
        obtain rfl := Option.some.inj hoff
        contradiction
      | _ => contradiction

/-- The action starts a child on a listener. -/
def Action.startsOn (listener : ℕ) : Action → Bool
  | .startChild _ index => index = listener
  | _ => false

/-- The action is a piece of a stop request to a listener. -/
def Action.stopsOn (listener : ℕ) : Action → Bool
  | .stopRead i | .stopPost i => i = listener
  | _ => false

/-- Where an action comes from: the call it belongs to, or the action before it. -/
def Action.Follows (l : ServerLabel) (done : List Action) : Action → Prop
  | .beginStart key => ∃ t, l = .asyncStart t key
  | .startChild key _ | .recheck key => done = [.beginStart key]
  | .stopPost listener => done = [.stopRead listener]
  | _ => True

namespace Server

variable {s s₁ s' : Server} {l : ServerLabel} {done added : List Action} {listener key index : ℕ}

/-- What a step adds follows from the step. -/
theorem Acts.follows (h : s.Acts l s₁ done added) : ∀ a ∈ added, a.Follows l done := by
  have hone {group : OperationGroup} {key : ℕ} {report : Report} :
      ∀ a ∈ (group.one key report).2, a.Follows l done := by
    intro a ha
    rcases OperationGroup.one_mem ha with ⟨i, rfl⟩ | ⟨result, rfl⟩ <;> trivial
  cases h with
  | asyncWait hnone hopen =>
    intro a ha
    split at ha
    · rw [List.mem_singleton.mp ha]
      trivial
    · rcases OperationGroup.start_mem ha with ⟨i, -, hwait, -⟩ | ⟨i, -, -, rfl⟩ | ⟨i, -, rfl⟩
      · contradiction
      · trivial
      · trivial
  | requestStop hopen =>
    intro a ha
    rcases List.mem_append.mp ha with ha | ha
    · obtain ⟨i, -, rfl⟩ := List.mem_map.mp ha
      trivial
    · rw [List.mem_singleton.mp ha]
      trivial
  | delivers hx hstep hinternal hstrand hkind hhandler hold =>
    intro a ha
    unfold onStrand at ha
    split at ha
    · simp at ha
    · rcases List.mem_append.mp ha with ha | ha
      · exact hone a ha
      · rw [List.mem_singleton.mp ha]
        trivial
  | proceed hnext h =>
    cases h with
    | begins hold hcontrol =>
      intro a ha
      split at ha
      · rw [List.mem_singleton.mp ha]
        trivial
      · rcases List.mem_append.mp ha with ha | ha
        · rcases OperationGroup.start_mem ha with ⟨i, -, -, rfl⟩ | ⟨i, -, -, rfl⟩ | ⟨i, -, rfl⟩
          · exact rfl
          · trivial
          · trivial
        · rw [List.mem_singleton.mp ha]
          exact rfl
    | reports hold hec hfailed => exact hone
    | checkCancelled hold => split <;> simp [Action.Follows]
    | recheck hold => split <;> simp [Action.Follows, OperationGroup.requestStop]
    | _ => simp [Action.Follows]
  | _ => simp [Action.Follows]

/-- How many stop requests a listener has in progress. -/
def stoppingAt (s : Server) (listener : ℕ) : ℕ :=
  ((s.listeners[listener]?).map fun x => x.core.stopping).getD 0

/-- A listener counts the stop requests that are still to be posted. -/
def StopsCounted (s : Server) : Prop :=
  ∀ listener, s.stoppingAt listener = s.actions.count (.stopPost listener)

/-- A step that is no piece of a stop request leaves their number alone. -/
theorem Effect.stoppingAt_eq (h : Effect s l done s' listener) (hread : done ≠ [.stopRead listener])
    (hpost : done ≠ [.stopPost listener]) : s'.stoppingAt listener = s.stoppingAt listener := by
  cases h with
  | same h => rw [stoppingAt, stoppingAt, h]
  | @created config hnone h =>
    obtain ⟨endpoint, hcore⟩ := Listener.create_core (listener + 1) config
    simp [stoppingAt, h, hnone, hcore]
  | @stepped x y k hx hy hstep horigin =>
    have hsame : y.core.stopping = x.core.stopping := by
      refine (Listener.step_core hstep).stopping_eq ?_ ?_
      · cases horigin with
        | stopRead h => exact absurd h hread
        | stopPost h => exact absurd h hpost
        | internal hl hinternal => exact Listener.isInternal_stop hstep hinternal (Or.inl rfl)
        | @quiet call h =>
          rw [Listener.kind_off]
          rintro ⟨⟩
          contradiction
        | _ => simp
      · cases horigin with
        | stopRead h => exact absurd h hread
        | stopPost h => exact absurd h hpost
        | internal hl hinternal => exact Listener.isInternal_stop hstep hinternal (Or.inr rfl)
        | @quiet call h =>
          rw [Listener.kind_off]
          rintro ⟨⟩
          contradiction
        | _ => simp
    simp [stoppingAt, hx, hy, hsame]

/-- A listener that is there has its own stop requests. -/
theorem stoppingAt_found {x : Listener} (h : s.listeners[listener]? = some x) :
    s.stoppingAt listener = x.core.stopping := by
  rw [stoppingAt, h]
  rfl

/-- A piece of a stop request is counted. -/
theorem stoppingAt_calls {call : CoreLabel} {x y : Listener} (hcall : s.Calls listener call x y)
    (hlisteners : s'.listeners = (s.setListener listener y).listeners) (other : ℕ) :
    s'.stoppingAt other = if other = listener then y.core.stopping else s.stoppingAt other := by
  have hlt : listener < s.listeners.length := (List.getElem?_eq_some_iff.mp hcall.found).1
  rw [stoppingAt, hlisteners, setListener]
  by_cases hother : other = listener
  · subst hother
    simp [hlt]
  · rw [List.getElem?_set_ne (Ne.symm hother), if_neg hother]
    rfl

/-- A step keeps the stop requests counted. -/
theorem StopsCounted.step (h : s.StopsCounted) (hacts : s.Acts l s₁ done added)
    (houtcome : Outcome s s₁ done added s') : s'.StopsCounted := by
  intro other
  have hcount := houtcome.count (.stopPost other)
  have hquiet (hread : ∀ i, done ≠ [.stopRead i]) (hpost : ∀ i, done ≠ [.stopPost i]) :
      s'.stoppingAt other = s'.actions.count (.stopPost other) := by
    have hadded : Action.stopPost other ∉ added := fun hmem => hread other (hacts.follows _ hmem)
    have hdone : Action.stopPost other ∉ done := by
      intro hmem
      cases hacts with
      | proceed hnext hperforms => exact hpost other (by rw [List.mem_singleton.mp hmem])
      | _ => simp at hmem
    rw [List.count_eq_zero.mpr hadded, List.count_eq_zero.mpr hdone] at hcount
    rw [((hacts.effect other).outcome houtcome).stoppingAt_eq (hread other) (hpost other), h other]
    exact hcount.symm
  have hpieces {i : ℕ} {call : CoreLabel} {x y : Listener} (hcall : s.Calls i call x y)
      (hlisteners : s'.listeners = (s.setListener i y).listeners)
      (hbalance : (if other = i then y.core.stopping else s.stoppingAt other) +
        done.count (.stopPost other) =
        s.stoppingAt other + added.count (.stopPost other)) :
      s'.stoppingAt other = s'.actions.count (.stopPost other) := by
    have hcalled := stoppingAt_calls hcall hlisteners other
    rw [← hcalled, h other] at hbalance
    omega
  cases hacts with
  | proceed hnext hperforms =>
    cases hperforms with
    | @stopReturns _ i x y hcall hstopped =>
      have hpiece : y.core.stopping = x.core.stopping := by
        obtain ⟨alive, -, hstep⟩ := Listener.step_off hcall.step
        generalize y.core = b at hstep
        cases hstep with
        | stopReturns hpos hs => rfl
        | stopRead hpos hs => exact absurd hstopped hs
      refine hpieces hcall houtcome.listeners ?_
      rw [hpiece, ← stoppingAt_found hcall.found]
      by_cases hother : other = i
      · simp [hother]
      · simp [hother]
    | @stopReads _ i x y hcall hopen =>
      have hpiece : y.core.stopping = x.core.stopping + 1 := by
        obtain ⟨alive, -, hstep⟩ := Listener.step_off hcall.step
        generalize y.core = b at hstep
        cases hstep with
        | stopReturns hpos hs => exact absurd hs hopen
        | stopRead hpos hs => rfl
      refine hpieces hcall houtcome.listeners ?_
      rw [hpiece, ← stoppingAt_found hcall.found]
      by_cases hother : other = i
      · simp [hother]
      · simp [hother, Ne.symm hother]
    | @stopPost _ i x y hcall =>
      have hpiece : y.core.stopping + 1 = x.core.stopping := by
        obtain ⟨alive, -, hstep⟩ := Listener.step_off hcall.step
        generalize y.core = b at hstep
        cases hstep with
        | stopPost hpos => exact Nat.sub_add_cancel hpos
      refine hpieces hcall houtcome.listeners ?_
      rw [← stoppingAt_found hcall.found] at hpiece
      by_cases hother : other = i
      · simp [hother, hpiece]
      · simp [hother, Ne.symm hother]
    | _ => exact hquiet (by simp) (by simp)
  | _ => exact hquiet (by simp) (by simp)

/-- In every server that can be reached the stop requests are counted. -/
theorem stopsCounted_of_reachable (h : Reachable step {} s) : s.StopsCounted :=
  h.invariant StopsCounted (fun _ _ _ hs hstep => by
    obtain ⟨s₁, done, added, hacts, houtcome⟩ := step_cases hstep
    exact hs.step hacts houtcome) fun _ => rfl

/-- The listener with an index is settling, if there is one. -/
def SettlingAt (s : Server) (listener : ℕ) : Prop :=
  ∀ x, s.listeners[listener]? = some x → Settling x.core

/-- A step that does not start a listener keeps it settling. -/
theorem Effect.settlingAt (h : Effect s l done s' listener)
    (hstart : ∀ k, done ≠ [.startChild k listener]) (hl : ∀ tag, l ≠ .listenerStart listener tag)
    (hlistener : listener < s.listeners.length) (hsettling : s.SettlingAt listener) :
    s'.SettlingAt listener := by
  intro y hy
  cases h with
  | same h => exact hsettling y (h ▸ hy)
  | created hnone h => simp [hlistener] at hnone
  | @stepped x y' k hx hy' hstep horigin =>
    obtain rfl := Option.some.inj (hy.symm.trans hy')
    refine (hsettling x hx).step (fun handler hkind => ?_) (Listener.step_core hstep)
    cases horigin with
    | startChild h => exact hstart _ h
    | listenerStart h => exact hl _ h
    | @quiet call h =>
      rw [Listener.kind_off] at hkind
      obtain rfl := StepKind.off.inj hkind
      contradiction
    | internal hlabel hinternal =>
      have hnone := Listener.isInternal_initiated hstep hinternal
      rw [hkind] at hnone
      contradiction
    | _ => simp at hkind

/-- A thread is still to start a child on the listener. -/
def startsPending (s : Server) (listener : ℕ) : Bool := s.actions.any (Action.startsOn listener)

/-- What is still to start a child is an action that does. -/
theorem startsPending_iff :
    s.startsPending listener = true ↔ ∃ key, .startChild key listener ∈ s.actions := by
  unfold startsPending
  rw [List.any_eq_true]
  constructor
  · rintro ⟨a, ha, hstarts⟩
    cases a with
    | startChild key index =>
      obtain rfl := of_decide_eq_true hstarts
      exact ⟨key, ha⟩
    | _ => contradiction
  · rintro ⟨key, hmem⟩
    exact ⟨_, hmem, decide_eq_true rfl⟩

/-- The listener is going to halt: somebody is about to look at its state for a stop request
or to post one, or it is settling and no thread is still to start it. -/
def StopAhead (s : Server) (listener : ℕ) : Prop :=
  .stopRead listener ∈ s.actions ∨ 0 < s.stoppingAt listener ∨ s.SettlingAt listener ∧
    s.startsPending listener = false

/-- A look at a listener's state for a stop request finds `stopped` although a start is queued
without a stop behind it, or is still to be queued. -/
def overlooks (s : Server) (listener : ℕ) : Bool :=
  (s.listeners[listener]?).any fun x => x.core.state = .stopped &&
    !(decide (Covered Message.isStart Message.isStop x.core.strand) && !s.startsPending listener)

/-- How many stop requests to the listener are still on their way. -/
def stopsPending (s : Server) (listener : ℕ) : ℕ := s.actions.countP (Action.stopsOn listener)

/-- A stop request that is on its way is ahead of the listener. -/
theorem stopAhead_of_pending (hcounted : s.StopsCounted) (h : 0 < s.stopsPending listener) :
    s.StopAhead listener := by
  obtain ⟨a, ha, hstops⟩ := List.countP_pos_iff.mp h
  cases a with
  | stopRead i =>
    obtain rfl := of_decide_eq_true hstops
    exact Or.inl ha
  | stopPost i =>
    obtain rfl := of_decide_eq_true hstops
    exact Or.inr (Or.inl (by rw [hcounted i]; exact List.count_pos_iff.mpr ha))
  | _ => contradiction

/-- Carrying out one piece of a stop request leaves the other requests on their way. -/
theorem stopsPending_step {a : Action} (houtcome : Outcome s s₁ [a] added s')
    (h : 2 ≤ s.stopsPending listener) :
    0 < s'.stopsPending listener := by
  have hcount := houtcome.countP (Action.stopsOn listener)
  have hone : [a].countP (Action.stopsOn listener) ≤ 1 := List.countP_le_length
  unfold stopsPending at h ⊢
  omega

/-- Unless somebody begins another start, no further start comes up. -/
theorem startsPending_step (hacts : s.Acts l s₁ done added) (houtcome : Outcome s s₁ done added s')
    (hbegin : ∀ k, done ≠ [.beginStart k]) (h : s.startsPending listener = false) :
    s'.startsPending listener = false := by
  rw [Bool.eq_false_iff] at h ⊢
  intro hpending
  obtain ⟨k, hmem⟩ := startsPending_iff.mp hpending
  rcases houtcome.mem hmem with hmem | hmem
  · exact h (startsPending_iff.mpr ⟨k, hmem⟩)
  · exact hbegin k (hacts.follows _ hmem)

/-- A look at a listener's state that overlooks nothing puts a stop ahead of the listener. -/
theorem stopAhead_of_stopRead (hacts : s.Acts l s₁ [.stopRead listener] added)
    (houtcome : Outcome s s₁ [.stopRead listener] added s') (hread : s.overlooks listener = false) :
    s'.StopAhead listener := by
  have hcalled {x y : Listener} (hcall : s.Calls listener .stopRead x y)
      (hlisteners : s'.listeners = (s.setListener listener y).listeners) :
      s'.StopAhead listener := by
    have hlt : listener < s.listeners.length := (List.getElem?_eq_some_iff.mp hcall.found).1
    by_cases hstopped : x.core.state = .stopped
    · obtain ⟨hcovered, hpending⟩ :
          Covered Message.isStart Message.isStop x.core.strand ∧
          s.startsPending listener = false := by
        simpa [overlooks, hcall.found, hstopped] using hread
      refine Or.inr (Or.inr ⟨fun z hz => ?_, startsPending_step hacts houtcome (by simp) hpending⟩)
      rw [hlisteners, setListener, List.getElem?_set_self hlt] at hz
      obtain rfl := Option.some.inj hz
      exact stopRead_settling hcall.step fun _ => hcovered
    · refine Or.inr (Or.inl ?_)
      rw [stoppingAt_calls hcall hlisteners, if_pos rfl]
      obtain ⟨alive, -, hstep⟩ := Listener.step_off hcall.step
      generalize y.core = b at hstep
      cases hstep with
      | stopReturns hpos hs => exact absurd hs hstopped
      | stopRead hpos hs => exact Nat.succ_pos _
  cases hacts with
  | proceed hnext hperforms =>
    cases hperforms with
    | stopReturns hcall hstopped => exact hcalled hcall houtcome.listeners
    | stopReads hcall hopen => exact hcalled hcall houtcome.listeners

/-- Posting a stop to a listener that nobody is still to start settles it. -/
theorem stopAhead_of_stopPost (hacts : s.Acts l s₁ [.stopPost listener] added)
    (houtcome : Outcome s s₁ [.stopPost listener] added s')
    (hpost : s.startsPending listener = false) :
    s'.StopAhead listener := by
  refine Or.inr (Or.inr ⟨fun z hz => ?_, startsPending_step hacts houtcome (by simp) hpost⟩)
  cases hacts with
  | proceed hnext hperforms =>
    cases hperforms with
    | @stopPost _ _ x y hcall =>
      have hlt : listener < s.listeners.length := (List.getElem?_eq_some_iff.mp hcall.found).1
      rw [houtcome.listeners, setListener, List.getElem?_set_self hlt] at hz
      obtain rfl := Option.some.inj hz
      obtain ⟨alive, -, hstep⟩ := Listener.step_off hcall.step
      generalize y.core = b at hstep
      cases hstep with
      | stopPost hpos =>
        exact Or.inr ⟨covered_append_closer _ rfl rfl,
          Or.inr ⟨.stop, by simp [ListenerCore.post], rfl⟩⟩

/-- A stop that is ahead of a listener stays ahead of it until the listener is started again,
provided that the last stop request is neither overlooked nor overtaken. -/
theorem StopAhead.step (h : s.StopAhead listener) (hcounted : s.StopsCounted)
    (hacts : s.Acts l s₁ done added) (houtcome : Outcome s s₁ done added s')
    (hlistener : listener < s.listeners.length) (hl : ∀ tag, l ≠ .listenerStart listener tag)
    (hbegin : ∀ k, done ≠ [.beginStart k])
    (hread : done = [.stopRead listener] → s.overlooks listener = false ∨
      2 ≤ s.stopsPending listener)
    (hpost : done = [.stopPost listener] → s.startsPending listener = false ∨
      2 ≤ s.stopsPending listener) :
    s'.StopAhead listener := by
  have hcounted' := hcounted.step hacts houtcome
  by_cases hreads : done = [.stopRead listener]
  · subst hreads
    rcases hread rfl with hread | hmore
    · exact stopAhead_of_stopRead hacts houtcome hread
    · exact stopAhead_of_pending hcounted' (stopsPending_step houtcome hmore)
  by_cases hposts : done = [.stopPost listener]
  · subst hposts
    rcases hpost rfl with hpost | hmore
    · exact stopAhead_of_stopPost hacts houtcome hpost
    · exact stopAhead_of_pending hcounted' (stopsPending_step houtcome hmore)
  rcases h with h | h | ⟨hsettling, hpending⟩
  · refine Or.inl (houtcome.mem_of (Or.inl h) fun hdone => ?_)
    cases hacts with
    | proceed hnext hperforms => exact hreads (by rw [List.mem_singleton.mp hdone])
    | _ => simp at hdone
  · refine Or.inr (Or.inl ?_)
    rwa [((hacts.effect listener).outcome houtcome).stoppingAt_eq hreads hposts]
  · refine Or.inr (Or.inr ⟨((hacts.effect listener).outcome houtcome).settlingAt (fun k hk => ?_) hl
      hlistener hsettling, startsPending_step hacts houtcome hbegin hpending⟩)
    have hmem : .startChild k listener ∈ s.actions := hacts.mem_done (by simp [hk])
    rw [startsPending_iff.mpr ⟨k, hmem⟩] at hpending
    contradiction

/-- With nothing left to be done, a listener with a stop ahead of it has halted. -/
theorem StopAhead.halted (h : s.StopAhead listener) (hcounted : s.StopsCounted)
    (hquiescent : s.Quiescent) {x : Listener} (hx : s.listeners[listener]? = some x) :
    x.core.state.Halted := by
  have hactions := hquiescent.actions_eq
  have hstopping : s.stoppingAt listener = 0 := by rw [hcounted listener, hactions, List.count_nil]
  rcases h with h | h | ⟨hsettling, -⟩
  · simp [hactions] at h
  · omega
  · exact (hsettling x hx).halted (by rw [← stoppingAt_found hx, hstopping])
      (hquiescent.2 x (List.mem_of_getElem? hx))

end Server

end Serveza
