import Serveza.Foundation.Registry
import Serveza.Waits

/-!
# Cancelled waits of a listener

The cancellation of a wait marks the wait and is then posted to the strand. A wait that is
registered after it was marked is completed at once, and one that was registered before has its
cancellation ahead: it is still to be posted or it is on the strand.
-/

namespace Serveza

open Foundation ListenerCore

variable {a b : ListenerCore} {k : StepKind} {w : WaitOperation}

/-- A move connects no wait. -/
theorem Move.connected (h : Move a b) : b.connectedWaits ⊆ a.connectedWaits := by
  cases h with
  | quiet hquiet =>
    rw [connectedWaits, connectedWaits, hquiet.initiating, hquiet.strand, hquiet.waiters]
    exact List.Subset.refl _
  | running hs | stopping hs ht => exact List.Subset.refl _
  | finish ec reason hs =>
    obtain ⟨hstrand, -, hwaiters, -⟩ :=
      finish_eq a ec reason (by rcases hs with hs | hs <;> simp [hs])
    rw [connectedWaits, connectedWaits, hstrand, hwaiters,
      (finish_sameGeneration a ec reason).initiating]
    intro w hw
    simp only [List.filterMap_append, List.append_nil, List.mem_append, List.mem_filterMap,
      List.mem_map] at hw ⊢
    refine Or.inl (hw.imp_right fun hw => hw.resolve_right ?_)
    rintro ⟨_, ⟨v, -, rfl⟩, hnone⟩
    contradiction

/-- Moves connect no wait. -/
theorem moves_connected (h : Moves a b) : b.connectedWaits ⊆ a.connectedWaits := by
  induction h with
  | refl => exact List.Subset.refl _
  | tail _ hmove ih => exact List.Subset.trans hmove.connected ih

/-- A wait is connected by its initiation only. -/
theorem CoreStep.connected (h : CoreStep k a b) (hw : w ∈ b.connectedWaits) :
    w ∈ a.connectedWaits ∨ k = .off (.beginWait w.handler) := by
  have hpop {m : Message} {rest : List Message} (hstrand : a.strand = m :: rest) :
      ({ a with strand := rest } : ListenerCore).connectedWaits ⊆ a.connectedWaits := by
    intro v hv
    simp only [connectedWaits, List.mem_append] at hv ⊢
    refine hv.imp_left (Or.imp_right fun hv => ?_)
    rw [hstrand]
    exact List.mem_filterMap.mpr
      ((List.mem_filterMap.mp hv).imp fun _ hm => ⟨List.mem_cons_of_mem _ hm.1, hm.2⟩)
  have hcompleted (c : ListenerCore) (q : Completion) : (c.completeOn q).connectedWaits =
      c.connectedWaits := by
    simp [connectedWaits, completeOn, post, Message.wait?]
  cases h with
  | off alive halive hcall =>
    cases hcall with
    | asyncStart | stopPost =>
      exact Or.inl (by simpa [connectedWaits, post, Message.wait?] using hw)
    | @cancelStart _ handler =>
      have hsame : (fun m => (Message.cancelStart handler m).wait?) = Message.wait? := by
        funext m
        cases m <;> rfl
      exact Or.inl (by simpa [connectedWaits, List.filterMap_map,
        Function.comp_def, hsame] using hw)
    | @beginWait _ handler hpos =>
      simp only [connectedWaits, List.mem_append, List.mem_singleton] at hw ⊢
      rcases hw with ((hw | rfl) | hw) | hw
      · exact Or.inl (Or.inl (Or.inl hw))
      · exact Or.inr rfl
      · exact Or.inl (Or.inl (Or.inr hw))
      · exact Or.inl (Or.inr hw)
    | @postWait _ waiter v hv =>
      refine Or.inl ?_
      simp only [connectedWaits, post, List.mem_append, List.filterMap_append,
        List.filterMap_cons, Message.wait?, List.filterMap_nil, List.mem_singleton] at hw ⊢
      rcases hw with (hw | hw | rfl) | hw
      · exact Or.inl (Or.inl (List.mem_of_mem_eraseP hw))
      · exact Or.inl (Or.inr hw)
      · exact Or.inl (Or.inl (List.mem_of_find?_eq_some hv))
      · exact Or.inr hw
    | postCancel hmem halive =>
      exact Or.inl (by simpa [connectedWaits, post, Message.wait?] using hw)
    | @session _ key l x x' report hx hstep =>
      have hnone : (if alive then report.toList.map Message.sessionFinished else []).filterMap
          Message.wait? = [] := by
        cases report <;> cases alive <;> rfl
      exact Or.inl (by simpa [connectedWaits, hnone] using hw)
    | cancelWait | cancelGone | dropCancel | stopReturns | stopRead | graceExpires | cloneHandle
    | dropHandle => exact Or.inl hw
  | deliver hstrand => exact Or.inl (hpop hstrand hw)
  | settleStart hstrand completion hc =>
    rw [hcompleted] at hw
    exact Or.inl (hpop hstrand hw)
  | start hstrand hs completion hc hbefore hafter =>
    have hmoved := moves_connected hafter hw
    rw [hcompleted] at hmoved
    have hbegun := moves_connected hbefore hmoved
    exact Or.inl (hpop hstrand hbegun)
  | @wait _ v rest hstrand =>
    refine Or.inl ?_
    unfold registerWait at hw
    split at hw
    · rw [hcompleted] at hw
      exact hpop hstrand hw
    · split at hw
      · rw [hcompleted] at hw
        exact hpop hstrand hw
      · simp only [connectedWaits, List.mem_append, List.mem_singleton] at hw
        rcases hw with hw | hw | rfl
        · exact hpop hstrand (List.mem_append_left _ (List.mem_append.mpr hw))
        · exact hpop hstrand (List.mem_append_right _ hw)
        · simp [connectedWaits, hstrand, Message.wait?]
  | @cancelWait _ id rest hstrand =>
    refine Or.inl (hpop hstrand ?_)
    unfold ListenerCore.cancelWait at hw
    split at hw
    · exact hw
    · rw [hcompleted] at hw
      simp only [connectedWaits, List.mem_append] at hw ⊢
      exact hw.imp_right List.mem_of_mem_eraseP
  | stop hstrand hm hb => exact Or.inl (hpop hstrand (moves_connected hm hw))
  | report hstrand hm => exact Or.inl (hpop hstrand (moves_connected hm hw))
  | asynchronous hm => exact Or.inl (moves_connected hm hw)
  | graceAborted htake hw' => exact Or.inl hw
  | force htake hw' keys => exact Or.inl hw

/-- A wait is registered once at most. -/
theorem WaitsOnce.registrations_le (h : WaitsOnce a) (waiter : ℕ) : a.registrations waiter ≤ 1 := by
  have hone := h waiter
  split at hone <;> omega

/-- A registered wait that was cancelled has its cancellation ahead. -/
def CancelsAhead (c : ListenerCore) : Prop :=
  ∀ w ∈ c.waiters, w.id ∈ c.cancelled → w.id ∈ c.cancelling ∨ .cancelWait w.id ∈ c.strand

namespace CancelsAhead

/-- Cancellations stay ahead where waits, marks and messages are kept. -/
theorem mono (h : CancelsAhead a) (hcalls : SameCalls a b) (hwaiters : b.waiters ⊆ a.waiters)
    (hstrand : ∀ waiter, .cancelWait waiter ∈ a.strand → .cancelWait waiter ∈ b.strand) :
    CancelsAhead b := by
  intro w hw hmarked
  rw [hcalls.cancelled] at hmarked
  rw [hcalls.cancelling]
  exact (h w (hwaiters hw) hmarked).imp_right (hstrand w.id)

/-- A move keeps cancellations ahead. -/
theorem move (h : CancelsAhead a) (hmove : Move a b) : CancelsAhead b := by
  cases hmove with
  | quiet hquiet =>
    refine h.mono hquiet.toSameCalls (hquiet.waiters ▸ List.Subset.refl _) fun waiter hw => ?_
    rw [hquiet.strand]
    exact hw
  | running hs | stopping hs ht => exact h
  | finish ec reason hs =>
    obtain ⟨-, -, hwaiters, -⟩ := finish_eq a ec reason (by rcases hs with hs | hs <;> simp [hs])
    intro w hw
    rw [hwaiters] at hw
    contradiction

/-- Moves keep cancellations ahead. -/
theorem moves (h : CancelsAhead a) (hm : Moves a b) : CancelsAhead b := by
  induction hm with
  | refl => exact h
  | tail _ hmove ih => exact ih.move hmove

/-- Running another message keeps cancellations ahead. -/
theorem pop (h : CancelsAhead a) {m : Message} {rest : List Message}
    (hstrand : a.strand = m :: rest) (hm : ∀ waiter, m ≠ .cancelWait waiter) :
    CancelsAhead { a with strand := rest } := by
  refine h.mono (sameCalls_pop a rest) (List.Subset.refl _) fun waiter hw => ?_
  rw [hstrand] at hw
  exact (List.mem_cons.mp hw).resolve_left fun heq => hm waiter heq.symm

/-- Completing an operation keeps cancellations ahead. -/
theorem completeOn (h : CancelsAhead a) (q : Completion) : CancelsAhead (a.completeOn q) :=
  fun w hw hmarked => (h w hw hmarked).imp_right (List.mem_append_left _)

/-- A call on a listener that somebody holds keeps cancellations ahead. -/
theorem call {l : CoreLabel} (h : CancelsAhead a) (hcall : CallStep true l a b) :
    CancelsAhead b := by
  cases hcall with
  | asyncStart | stopPost =>
    exact fun w hw hmarked => (h w hw hmarked).imp_right (List.mem_append_left _)
  | postWait hv => exact fun w hw hmarked => (h w hw hmarked).imp_right (List.mem_append_left _)
  | cancelStart =>
    exact fun w hw hmarked => (h w hw hmarked).imp_right fun hmem => List.mem_map.mpr ⟨_, hmem, rfl⟩
  | @cancelWait _ waiter hconnected =>
    intro w hw hmarked
    rcases List.mem_append.mp hmarked with hmarked | hnew
    · exact (h w hw hmarked).imp_left (List.mem_append_left _)
    · exact Or.inl (List.mem_append_right _ hnew)
  | @postCancel _ waiter hmem halive =>
    intro w hw hmarked
    by_cases hid : w.id = waiter
    · exact Or.inr (List.mem_append_right _ (hid ▸ List.mem_singleton_self _))
    · exact (h w hw hmarked).imp (fun hmem => (List.mem_erase_of_ne hid).mpr hmem)
        (List.mem_append_left _)
  | dropCancel hmem halive => contradiction
  | session hx hstep =>
    exact fun w hw hmarked => (h w hw hmarked).imp_right (List.mem_append_left _)
  | beginWait | cancelGone | stopReturns | stopRead | graceExpires | cloneHandle | dropHandle =>
    exact h

/-- Every step of a listener that somebody holds keeps cancellations ahead. -/
theorem step (h : CancelsAhead a) (honce : WaitsOnce a) (hpos : 0 < a.handles)
    (hstep : CoreStep k a b) : CancelsAhead b := by
  cases hstep with
  | off alive halive hcall => exact h.call (halive hpos ▸ hcall)
  | deliver hstrand => exact h.pop hstrand (by simp)
  | settleStart hstrand completion hc => exact (h.pop hstrand (by simp)).completeOn completion
  | @start _ m _ handler rest hstrand hs completion hc hbefore hafter =>
    have hbegun : CancelsAhead ({ a with strand := rest } : ListenerCore).beginGeneration :=
      h.pop hstrand (by simp)
    exact ((hbegun.moves hbefore).completeOn completion).moves hafter
  | @wait _ v rest hstrand =>
    have hpopped := h.pop hstrand (by simp)
    unfold registerWait
    split
    · exact hpopped.completeOn _
    · rename_i hunmarked
      split
      · exact hpopped.completeOn _
      · intro w hw hmarked
        rcases List.mem_append.mp hw with hw | hw
        · exact hpopped w hw hmarked
        · rw [List.mem_singleton.mp hw] at hmarked
          exact absurd hmarked hunmarked
  | @cancelWait _ id rest hstrand =>
    have hother {w : WaitOperation} (hw : w ∈ a.waiters) (hid : w.id ≠ id)
        (hmarked : w.id ∈ a.cancelled) : w.id ∈ a.cancelling ∨ .cancelWait w.id ∈ rest := by
      refine (h w hw hmarked).imp_right fun hmem => ?_
      rw [hstrand] at hmem
      exact (List.mem_cons.mp hmem).resolve_left fun heq => hid (Message.cancelWait.inj heq)
    unfold ListenerCore.cancelWait
    split
    · rename_i hnone
      intro w hw hmarked
      have hid : w.id ≠ id := by simpa using List.find?_eq_none.mp hnone w hw
      exact hother hw hid hmarked
    · rename_i v hv
      have hv : (a.waiters.find? fun w => w.id = id) = some v := hv
      intro w hw hmarked
      have hid : w.id ≠ id := by
        intro hid
        have hcount := (perm_of_find? hv).countP_eq fun w => w.id = id
        have hlater : 0 < (a.waiters.eraseP fun w => w.id = id).countP fun w => w.id = id :=
          List.countP_pos_iff.mpr ⟨w, hw, decide_eq_true hid⟩
        rw [List.countP_cons_of_pos (List.find?_some hv)] at hcount
        have honce : a.registrations id ≤ 1 := honce.registrations_le id
        unfold registrations at honce
        omega
      exact (hother (List.mem_of_mem_eraseP hw) hid hmarked).imp_right (List.mem_append_left _)
  | stop hstrand hm hb => exact (h.pop hstrand (by simp)).moves hm
  | report hstrand hm => exact (h.pop hstrand (by simp)).moves hm
  | asynchronous hm => exact h.moves hm
  | graceAborted htake hw' => exact h
  | force htake hw' keys => exact h

end CancelsAhead

/-- The posts to the strand that calls on waits have begun to make. -/
def ListenerCore.posts (c : ListenerCore) : List CoreLabel :=
  c.initiating.map (fun w => .postWait w.id) ++ c.cancelling.map .postCancel

namespace StepKind

/-- The post that a step makes. -/
def posts : StepKind → List CoreLabel
  | .off (.postWait waiter) => [.postWait waiter]
  | .off (.postCancel waiter) => [.postCancel waiter]
  | _ => []

/-- The post that a step begins to make. -/
def promises (c : ListenerCore) : StepKind → List CoreLabel
  | .off (.beginWait _) => [.postWait (c.nextWaiterId + 1)]
  | .off (.cancelWait waiter) =>
    if ∃ w ∈ c.connectedWaits, w.id = waiter then [.postCancel waiter] else []
  | _ => []

end StepKind

/-- A call on a wait makes a post or begins to make one, and other calls leave those that are still
to come. -/
theorem CallStep.posts {alive : Bool} {l : CoreLabel} (h : CallStep alive l a b) :
    (b.posts ++ (StepKind.off l).posts).Perm (a.posts ++ (StepKind.off l).promises a) := by
  have hcancelled {waiter : ℕ} (hmem : waiter ∈ a.cancelling) :
      ((a.cancelling.erase waiter).map CoreLabel.postCancel ++ [CoreLabel.postCancel waiter]).Perm
        (a.cancelling.map CoreLabel.postCancel) :=
    List.perm_append_comm.trans ((List.perm_cons_erase hmem).map CoreLabel.postCancel).symm
  cases h with
  | beginWait hpos =>
    simp only [ListenerCore.posts, StepKind.posts, StepKind.promises, List.map_append,
      List.append_nil, List.append_assoc]
    exact List.perm_append_comm.append_left _
  | @postWait _ waiter w hw =>
    obtain rfl : w.id = waiter := by simpa using List.find?_some hw
    have hperm := (perm_of_find? hw).map fun w => CoreLabel.postWait w.id
    simp only [StepKind.promises, List.append_nil]
    exact List.perm_append_comm.trans
      (hperm.symm.append_right (a.cancelling.map CoreLabel.postCancel))
  | cancelWait hconnected =>
    simp only [ListenerCore.posts, StepKind.posts, StepKind.promises, List.map_append,
      List.append_nil, List.append_assoc, if_pos hconnected]
    exact List.Perm.refl _
  | cancelGone hgone =>
    have hnone : ¬∃ w ∈ a.connectedWaits, w.id = _ := fun ⟨w, hw, hid⟩ => hgone w hw hid
    rw [StepKind.promises, if_neg hnone]
    exact List.Perm.refl _
  | postCancel hmem halive | dropCancel hmem halive =>
    simp only [ListenerCore.posts, ListenerCore.post, StepKind.posts, StepKind.promises,
      List.append_nil, List.append_assoc]
    exact (hcancelled hmem).append_left _
  | _ => exact List.Perm.refl _

/-- A step makes a post, begins to make one, or leaves the posts that are still to come. -/
theorem CoreStep.posts (h : CoreStep k a b) :
    (b.posts ++ k.posts).Perm (a.posts ++ k.promises a) := by
  cases hk : k with
  | off l =>
    subst hk
    cases h with
    | off alive halive hcall => exact hcall.posts
  | deliver | cancelWait | force | handler =>
    have hsame := h.sameCalls (by simp [hk])
    rw [ListenerCore.posts, ListenerCore.posts, hsame.initiating, hsame.cancelling]
    exact List.Perm.refl _

/-- A mark of a cancellation stays. -/
theorem CoreStep.marks (h : CoreStep k a b) : a.cancelled ⊆ b.cancelled := by
  cases hk : k with
  | off l =>
    subst hk
    cases h with
    | off alive halive hcall =>
      cases hcall with
      | cancelWait hconnected => exact List.subset_append_left _ _
      | _ => exact List.Subset.refl _
  | deliver | cancelWait | force | handler =>
    rw [(h.sameCalls (by simp [hk])).cancelled]
    exact List.Subset.refl _

end Serveza
