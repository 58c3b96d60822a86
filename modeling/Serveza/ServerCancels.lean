import Serveza.ServerGaps
import Serveza.WaitCancels

/-!
# Cancelled waits of a server

The posts that calls on waits have begun to make are actions of threads. Once a wait of a server is
cancelled, each of its children that is still connected is marked or a signal to it is pending. So
when nothing is left to be done, all its children are done and the wait has been completed.
-/

namespace Serveza

open Foundation

/-- The post that an action makes, with its listener. -/
def Action.post? : Action → Option (ℕ × CoreLabel)
  | .postWait listener id => some (listener, .postWait id)
  | .postCancel listener id => some (listener, .postCancel id)
  | _ => none

/-- The action makes a post on a listener. -/
def Action.makes (listener : ℕ) (post : CoreLabel) (a : Action) : Bool :=
  a.post? = some (listener, post)

/-- An internal step of a listener begins no post for a wait. -/
theorem Listener.isInternal_promises {x y : Listener} {l : ListenerLabel}
    (hstep : x.step l = some y) (h : l.isInternal = true) :
    (x.kind l).promises x.core = [] := by
  cases hkind : x.kind l with
  | off call =>
    rcases l.isInternal_off h ((Listener.kind_eq_off hstep call).mp hkind) with
      ⟨k, rfl⟩ | ⟨key, label, rfl⟩ <;> rfl
  | deliver | cancelWait | force | handler => rfl

namespace Server

variable {s s₁ s' : Server} {l : ServerLabel} {done added : List Action} {key i j : ℕ}
  {x y : Listener} {w : WaitOperation}

/-- The posts that calls on waits have begun to make are still to be made by threads. -/
def PostsPending (s : Server) : Prop :=
  ∀ i x, s.listeners[i]? = some x →
    ∀ post, x.core.posts.count post ≤ s.actions.countP (Action.makes i post)

namespace PostsPending

/-- A step that leaves the listeners alone and makes no post. -/
theorem keep (h : s.PostsPending) (houtcome : Outcome s s₁ done added s')
    (hlisteners : s₁.listeners = s.listeners) (hdone : ∀ a ∈ done, a.post? = none) :
    s'.PostsPending := by
  intro i x hx post
  rw [houtcome.listeners, hlisteners] at hx
  have hcount := houtcome.countP (Action.makes i post)
  have hnone : done.countP (Action.makes i post) = 0 :=
    List.countP_eq_zero.mpr fun a ha hmakes => by simp [Action.makes, hdone a ha] at hmakes
  have hold := h i x hx post
  omega

/-- A step of a listener that makes the posts it is to make, and threads begin the ones to come. -/
theorem setListener (h : s.PostsPending) (houtcome : Outcome s s₁ done added s') {k : ListenerLabel}
    (hx : s.listeners[j]? = some x) (hstep : x.step k = some y)
    (hlisteners : s₁.listeners = s.listeners.set j y)
    (hdone : ∀ i post, done.countP (Action.makes i post) ≤ if i =
      j then (x.kind k).posts.count post else 0)
    (hadded : ∀ post, ((x.kind k).promises x.core).count post ≤
      added.countP (Action.makes j post)) :
    s'.PostsPending := by
  have hlt : j < s.listeners.length := (List.getElem?_eq_some_iff.mp hx).1
  intro i z hz post
  rw [houtcome.listeners, hlisteners] at hz
  have hcount := houtcome.countP (Action.makes i post)
  have hmade := hdone i post
  by_cases hi : i = j
  · subst hi
    obtain rfl := Option.some.inj ((List.getElem?_set_self hlt).symm.trans hz)
    have hperm := (Listener.step_core hstep).posts.count_eq post
    have hold := h i x hx post
    have hnew := hadded post
    simp only [List.count_append] at hperm
    rw [if_pos rfl] at hmade
    omega
  · rw [List.getElem?_set_ne (Ne.symm hi)] at hz
    have hold := h i z hz post
    rw [if_neg hi] at hmade
    omega

/-- A step of a listener that makes no post and begins none. -/
theorem quiet (h : s.PostsPending) (houtcome : Outcome s s₁ done added s') {k : ListenerLabel}
    (hx : s.listeners[j]? = some x) (hstep : x.step k = some y)
    (hlisteners : s₁.listeners = s.listeners.set j y) (hdone : ∀ a ∈ done, a.post? = none)
    (hpromises : (x.kind k).promises x.core = []) : s'.PostsPending := by
  refine h.setListener houtcome hx hstep hlisteners (fun i post => ?_) fun post => ?_
  · rw [List.countP_eq_zero.mpr fun a ha hmakes => by simp [Action.makes, hdone a ha] at hmakes]
    exact Nat.zero_le _
  · rw [hpromises]
    exact Nat.zero_le _

/-- A call on a listener that makes no post and begins none. -/
theorem calls (h : s.PostsPending) {call : CoreLabel} (hcall : s.Calls j call x y)
    (houtcome : Outcome s (s.setListener j y) done added s') (hdone : ∀ a ∈ done, a.post? = none)
    (hpromises : (StepKind.off call).promises x.core = []) : s'.PostsPending :=
  h.quiet houtcome hcall.found hcall.step rfl hdone (by rw [Listener.kind_off]; exact hpromises)

/-- A call on a listener that begins a post, which is the next thing its thread does. -/
theorem promised (h : s.PostsPending) {call post : CoreLabel} {a : Action}
    (hcall : s.Calls j call x y) (houtcome : Outcome s (s.setListener j y) done added s')
    (hdone : ∀ a ∈ done, a.post? = none) (hpromises : (StepKind.off call).promises x.core ⊆ [post])
    (hnodup : ((StepKind.off call).promises x.core).Nodup) (ha : a.post? = some (j, post))
    (hadded : a ∈ added) : s'.PostsPending := by
  refine h.setListener houtcome hcall.found hcall.step rfl (fun i post => ?_) fun post' => ?_
  · rw [List.countP_eq_zero.mpr fun a ha hmakes => by simp [Action.makes, hdone a ha] at hmakes]
    exact Nat.zero_le _
  · rw [Listener.kind_off]
    by_cases hmem : post' ∈ (StepKind.off call).promises x.core
    · obtain rfl := List.mem_singleton.mp (hpromises hmem)
      rw [List.count_eq_one_of_mem hnodup hmem]
      exact List.countP_pos_iff.mpr ⟨a, hadded, decide_eq_true ha⟩
    · rw [List.count_eq_zero.mpr hmem]
      exact Nat.zero_le _

/-- A call on a listener that makes a post. -/
theorem made (h : s.PostsPending) {call : CoreLabel} {a : Action} (hcall : s.Calls j call x y)
    (houtcome : Outcome s (s.setListener j y) [a] added s') (ha : a.post? = some (j, call))
    (hposts : (StepKind.off call).posts = [call])
    (hpromises : (StepKind.off call).promises x.core = []) : s'.PostsPending := by
  refine h.setListener houtcome hcall.found hcall.step rfl (fun i post => ?_) fun post => ?_
  · rw [Listener.kind_off, hposts]
    by_cases hmakes : a.makes i post = true
    · obtain ⟨rfl, rfl⟩ := Prod.mk.inj (Option.some.inj (ha.symm.trans (of_decide_eq_true hmakes)))
      simp [hmakes]
    · simp [hmakes]
  · rw [Listener.kind_off, hpromises]
    exact Nat.zero_le _

/-- An action makes the posts it is to make, and threads begin the ones to come. -/
theorem performs (h : s.PostsPending) {threw : Option FailingException} {a : Action}
    (hperforms : s.Performs threw a s₁ added) (houtcome : Outcome s s₁ [a] added s') :
    s'.PostsPending := by
  cases hperforms with
  | startsChild hgroup hcall => exact h.calls hcall houtcome (by simp [Action.post?]) rfl
  | waitsChild hgroup hcall =>
    exact h.promised hcall houtcome (by simp [Action.post?]) (List.Subset.refl _)
      (by simp [StepKind.promises]) rfl List.mem_cons_self
  | postWait hcall => exact h.made hcall houtcome rfl rfl rfl
  | emitWait hgroup hwait hw hcall =>
    refine h.promised hcall houtcome (by simp [Action.post?]) ?_ ?_ rfl (List.mem_singleton_self _)
    · rw [StepKind.promises]
      split <;> simp
    · rw [StepKind.promises]
      split <;> simp
  | emitStart hgroup hstart hcall => exact h.calls hcall houtcome (by simp [Action.post?]) rfl
  | postCancel hcall => exact h.made hcall houtcome rfl rfl rfl
  | stopReturns hcall hstopped => exact h.calls hcall houtcome (by simp [Action.post?]) rfl
  | stopReads hcall hopen => exact h.calls hcall houtcome (by simp [Action.post?]) rfl
  | stopPost hcall => exact h.calls hcall houtcome (by simp [Action.post?]) rfl
  | _ => exact h.keep houtcome rfl (by simp [Action.post?])

/-- Every step makes the posts it is to make, and threads begin the ones to come. -/
theorem step (h : s.PostsPending) (hacts : s.Acts l s₁ done added)
    (houtcome : Outcome s s₁ done added s') :
    s'.PostsPending := by
  cases hacts with
  | @addListener config hopen =>
    intro i x hx post
    rw [houtcome.listeners] at hx
    have hcount := houtcome.countP (Action.makes i post)
    rcases Nat.lt_trichotomy i s.listeners.length with hlt | rfl | hgt
    · have hold := h i x ((List.getElem?_append_left hlt).symm.trans hx) post
      simp only [List.countP_nil] at hcount
      omega
    · obtain rfl := Option.some.inj (List.getElem?_concat_length.symm.trans hx)
      obtain ⟨endpoint, hcore⟩ := Listener.create_core (s.listeners.length + 1) config
      simp [hcore, ListenerCore.posts]
    · have hnone : (s.addListener config).listeners[i]? = none := by
        refine List.getElem?_eq_none ?_
        simp only [addListener, List.length_append, List.length_singleton]
        omega
      simp [hnone] at hx
  | listenerStart hcall => exact h.calls hcall houtcome (by simp) rfl
  | listenerCancelStart hcall => exact h.calls hcall houtcome (by simp) rfl
  | listenerWait hcall =>
    exact h.promised hcall houtcome (by simp) (List.Subset.refl _) (by simp [StepKind.promises]) rfl
      (List.mem_singleton_self _)
  | listenerCancelWait hcall hw huser =>
    refine h.promised hcall houtcome (by simp) ?_ ?_ rfl (List.mem_singleton_self _)
    · rw [StepKind.promises]
      split <;> simp
    · rw [StepKind.promises]
      split <;> simp
  | proceed hnext hperforms => exact h.performs hperforms houtcome
  | internal hx hstep hinternal hstrand hkind =>
    exact h.quiet houtcome hx hstep rfl (by simp) (Listener.isInternal_promises hstep hinternal)
  | delivers hx hstep hinternal hstrand hkind hhandler hgroup =>
    exact h.quiet houtcome hx hstep rfl (by simp) (Listener.isInternal_promises hstep hinternal)
  | _ => exact h.keep houtcome rfl (by simp)

end PostsPending

/-- What a step carries out is an action that has its effect. -/
theorem Acts.performs (h : s.Acts l s₁ done added) {a : Action} (ha : a ∈ done) :
    done = [a] ∧ ∃ threw, s.Performs threw a s₁ added := by
  cases h with
  | proceed hnext hperforms =>
    obtain rfl := List.mem_singleton.mp ha
    exact ⟨rfl, _, hperforms⟩
  | _ => simp at ha

/-- A child's wait is connected by its initiation, after which its operation looks for a
cancellation. -/
theorem Acts.connected (h : s.Acts l s₁ done added) (hy : s₁.listeners[i]? = some y)
    (hw : w ∈ y.core.connectedWaits) (hhandler : w.handler = .child key i) :
    (∃ x, s.listeners[i]? = some x ∧ w ∈ x.core.connectedWaits ∧
      x.core.cancelled ⊆ y.core.cancelled) ∨
      done = [.waitChild key i] ∧ .checkCancelled key i ∈ added := by
  cases h.effect i with
  | same hsame => exact Or.inl ⟨y, hsame ▸ hy, hw, List.Subset.refl _⟩
  | @created config hnone hnew =>
    obtain rfl := Option.some.inj (hy.symm.trans hnew)
    obtain ⟨endpoint, hcore⟩ := Listener.create_core (i + 1) config
    simp [hcore, ListenerCore.connectedWaits] at hw
  | @stepped x y' k hx hy' hstep horigin =>
    obtain rfl := Option.some.inj (hy.symm.trans hy')
    have hcore := Listener.step_core hstep
    rcases hcore.connected hw with hold | hkind
    · exact Or.inl ⟨x, hx, hold, hcore.marks⟩
    · cases horigin with
      | @waitChild key' hdone =>
        rw [Listener.kind_off, hhandler] at hkind
        obtain ⟨rfl, -⟩ :=
          CompletionHandler.child.inj (CoreLabel.beginWait.inj (StepKind.off.inj hkind))
        obtain ⟨-, threw, hperforms⟩ := h.performs (hdone ▸ List.mem_singleton_self _)
        cases hperforms with
        | waitThrows hgroup => exact Or.inl ⟨y, hy, hw, List.Subset.refl _⟩
        | waitsChild hgroup hcall =>
          exact Or.inr ⟨hdone, List.mem_cons_of_mem _ (List.mem_singleton_self _)⟩
      | startChild | listenerStart | stopRead | stopPost => simp at hkind
      | listenerWait => simp [hhandler] at hkind
      | quiet hquiet =>
        rw [Listener.kind_off] at hkind
        obtain rfl := StepKind.off.inj hkind
        contradiction
      | internal hl hinternal =>
        have hnone := Listener.isInternal_initiated hstep hinternal
        rw [hkind] at hnone
        contradiction

/-- An operation that is marked as cancelled was so before, or signals are pending for its
children. -/
theorem Acts.cancelled (h : s.Acts l s₁ done added) {group' : OperationGroup}
    (hgroup' : s₁.groups key = some group') (hcancelled : group'.cancelled ≠ 0) :
    (∃ group, s.groups key = some group ∧ group.cancelled ≠ 0) ∨
      done = [] ∧ (List.range group'.size).map (Action.emit key) ⊆ added := by
  have hset {k : ℕ} {group new : OperationGroup} (hgroup : s.groups k = some group)
      (hset : (if key = k then some new else s.groups key) = some group')
      (hsame : new.cancelled = group.cancelled) :
      (∃ group, s.groups key = some group ∧ group.cancelled ≠ 0) ∨
        done = [] ∧ (List.range group'.size).map (Action.emit key) ⊆ added := by
    split at hset
    · rename_i hk
      obtain rfl := Option.some.inj hset
      exact Or.inl ⟨group, hk ▸ hgroup, hsame ▸ hcancelled⟩
    · exact Or.inl ⟨group', hset, hcancelled⟩
  have hnew {k n : ℕ} {wait : Bool}
      (hset : (if key = k then some (OperationGroup.create wait n) else s.groups key) =
        some group') :
      (∃ group, s.groups key = some group ∧ group.cancelled ≠ 0) ∨
        done = [] ∧ (List.range group'.size).map (Action.emit key) ⊆ added := by
    split at hset
    · obtain rfl := Option.some.inj hset
      contradiction
    · exact Or.inl ⟨group', hset, hcancelled⟩
  cases h with
  | asyncStart hnone hopen => exact hnew hgroup'
  | asyncWait hnone hopen => exact hnew hgroup'
  | @cancel t k type group hgroup hconnected htype =>
    change (if key = k then some _ else s.groups key) = some group' at hgroup'
    split at hgroup'
    · rename_i hk
      subst hk
      obtain rfl := Option.some.inj hgroup'
      exact Or.inr ⟨rfl, List.Subset.refl _⟩
    · exact Or.inl ⟨group', hgroup', hcancelled⟩
  | delivers hx hstep hinternal hstrand hkind hhandler hgroup => exact hset hgroup hgroup' rfl
  | proceed hnext hperforms =>
    cases hperforms with
    | rejects hgroup hcontrol => exact hset hgroup hgroup' rfl
    | startThrows hgroup => exact hset hgroup hgroup' rfl
    | waitThrows hgroup => exact hset hgroup hgroup' rfl
    | reports hgroup hec hfailed => exact hset hgroup hgroup' rfl
    | finishStart hgroup hstart hcontrol => exact hset hgroup hgroup' rfl
    | finishWait hgroup hwait hcontrol => exact hset hgroup hgroup' rfl
    | _ => exact Or.inl ⟨group', hgroup', hcancelled⟩
  | _ => exact Or.inl ⟨group', hgroup', hcancelled⟩

/-- Each connected child of a cancelled wait is marked, or a signal to it is pending. -/
def MarksAhead (s : Server) (key : ℕ) : Prop :=
  ∀ group, s.groups key = some group → group.wait = true → group.cancelled ≠ 0 →
    ∀ i x, s.listeners[i]? = some x →
    ∀ w ∈ x.core.connectedWaits, w.handler = .child key i →
      w.id ∈ x.core.cancelled ∨ .emit key i ∈ s.actions ∨ .checkCancelled key i ∈ s.actions

/-- The operation of a child belongs to a group, and its listener to the snapshot of the group. -/
theorem Sound.child_lt (h : s.Sound) (hx : s.listeners[i]? = some x) {o : Operation}
    (ho : o ∈ x.core.operations) (hhandler : o.handler = .child key i) :
    ∃ group, s.groups key = some group ∧ i < group.size := by
  have hpos : 0 < s.tallyAt i key i := by
    simp only [tallyAt, countAt, hx, Option.map_some, Option.getD_some, tally_eq_countP]
    exact List.countP_pos_iff.mpr ⟨o, ho, decide_eq_true hhandler⟩
  have htally : (s.ledger key).tally i = s.tallyAt i key i := rfl
  have haccounted := h.accounted key
  cases hgroup : s.groups key with
  | none =>
    rw [Accounted, hgroup] at haccounted
    have hnone := haccounted.tally i
    omega
  | some group =>
    have hchild := (haccounted.begun_of_tally hgroup hpos).child i
    refine ⟨group, rfl, ?_⟩
    split at hchild
    · assumption
    · omega

/-- A signal marks the child, if it is connected. -/
theorem Sound.emit (h : s.Sound) {threw : Option FailingException}
    (hperforms : s.Performs threw (.emit key i) s₁ added) {group : OperationGroup}
    (hgroup : s.groups key = some group) (hwait : group.wait = true) (hx : s.listeners[i]? = some x)
    (hw : w ∈ x.core.connectedWaits) (hhandler : w.handler = .child key i)
    (hy : s₁.listeners[i]? = some y) :
    w.id ∈ y.core.cancelled := by
  cases hperforms with
  | emitGone hgroup' hwait' hgone =>
    rw [childWait?, hx, Option.bind_some] at hgone
    exact absurd (decide_eq_true hhandler) (List.find?_eq_none.mp hgone w hw)
  | @emitWait _ _ _ _ v x' y' hgroup' hwait' hv hcall =>
    obtain rfl := Option.some.inj (hx.symm.trans hcall.found)
    have hlt : i < s.listeners.length := (List.getElem?_eq_some_iff.mp hx).1
    obtain rfl := Option.some.inj ((List.getElem?_set_self hlt).symm.trans hy)
    rw [childWait?, hx, Option.bind_some] at hv
    have hmem := List.mem_of_find?_eq_some hv
    have hid := h.child_unique hx hw hmem hhandler (by simpa using List.find?_some hv)
    have hcore := Listener.step_core hcall.step
    rw [Listener.kind_off] at hcore
    generalize y'.core = b at hcore ⊢
    cases hcore with
    | off alive halive hcancel =>
      cases hcancel with
      | cancelWait hconnected => exact hid ▸ List.mem_append_right _ (List.mem_singleton_self _)
      | cancelGone hgone => exact absurd rfl (hgone v hmem)
  | emitStart hgroup' hstart hcall =>
    obtain rfl := Option.some.inj (hgroup.symm.trans hgroup')
    simp [hwait] at hstart

/-- Every step marks the children of a cancelled wait, or leaves a signal to them pending. -/
theorem MarksAhead.step (h : s.MarksAhead key) (hsound : s.Sound) (hsound' : s'.Sound)
    (hacts : s.Acts l s₁ done added) (houtcome : Outcome s s₁ done added s') :
    s'.MarksAhead key := by
  intro group' hgroup' hwait' hcancelled i y hy w hw hhandler
  rcases hacts.cancelled (houtcome.groups ▸ hgroup') hcancelled with
    ⟨group, hgroup, hold⟩ | ⟨rfl, hemits⟩
  · obtain ⟨group₁, hgroup₁, hsame, -⟩ := hacts.groups hgroup
    obtain rfl := Option.some.inj (hgroup₁.symm.trans (houtcome.groups ▸ hgroup'))
    have hwait : group.wait = true := hsame ▸ hwait'
    rw [houtcome.listeners] at hy
    rcases hacts.connected hy hw hhandler with ⟨x, hx, hconnected, hmarks⟩ | ⟨hdone, hadded⟩
    · rcases h group hgroup hwait hold i x hx w hconnected hhandler with hmarked | hemit | hcheck
      · exact Or.inl (hmarks hmarked)
      · by_cases hdone : .emit key i ∈ done
        · obtain ⟨-, threw, hperforms⟩ := hacts.performs hdone
          exact Or.inl (hsound.emit hperforms hgroup hwait hx hconnected hhandler hy)
        · exact Or.inr (Or.inl (houtcome.mem_of (Or.inl hemit) hdone))
      · by_cases hdone : .checkCancelled key i ∈ done
        · obtain ⟨rfl, threw, hperforms⟩ := hacts.performs hdone
          cases hperforms with
          | checkCancelled hgroup₀ =>
            obtain rfl := Option.some.inj (hgroup.symm.trans hgroup₀)
            refine Or.inr (Or.inl (houtcome.mem_of (Or.inr ?_) (by simp)))
            rw [if_neg hold]
            exact List.mem_singleton_self _
        · exact Or.inr (Or.inr (houtcome.mem_of (Or.inl hcheck) hdone))
    · exact Or.inr (Or.inr (houtcome.mem_of (Or.inr hadded) (by simp [hdone])))
  · obtain ⟨group, hgroup, hlt⟩ := hsound'.child_lt hy (connected_mem hw) hhandler
    obtain rfl := Option.some.inj (hgroup'.symm.trans hgroup)
    have hemit := hemits (List.mem_map_of_mem (List.mem_range.mpr hlt))
    exact Or.inr (Or.inl (houtcome.mem_of (Or.inr hemit) (by simp)))

/-- What is still to come for the cancelled waits of a server and its listeners. -/
structure CancelsComing (s : Server) : Prop where
  posts : s.PostsPending
  marks : ∀ key, s.MarksAhead key
  cancels : ∀ x ∈ s.listeners, CancelsAhead x.core

/-- In every state that a server can reach, the cancellations of waits are still to come. -/
theorem cancelsComing_of_reachable (h : Reachable step {} s) : s.CancelsComing := by
  refine (h.invariant (fun s => Reachable step {} s ∧ s.CancelsComing)
    (fun a l b ha hstep => ⟨ha.1.tail hstep, ?_⟩)
    ⟨.refl _, by simp [PostsPending], fun key group hgroup => by contradiction, by simp⟩).2
  obtain ⟨hreached, hcoming⟩ := ha
  obtain ⟨a₁, done, added, hacts, houtcome⟩ := step_cases hstep
  refine ⟨hcoming.posts.step hacts houtcome, fun key => (hcoming.marks key).step
    (sound_of_reachable hreached)
    (sound_of_reachable (hreached.tail hstep)) hacts houtcome, fun y hy => ?_⟩
  obtain ⟨i, hi⟩ := List.getElem?_of_mem hy
  cases (hacts.effect i).outcome houtcome with
  | same heq => exact hcoming.cancels y (List.mem_of_getElem? (heq ▸ hi))
  | @created config hnone heq =>
    obtain rfl := Option.some.inj (hi.symm.trans heq)
    obtain ⟨endpoint, hcore⟩ := Listener.create_core (i + 1) config
    simp [hcore, CancelsAhead]
  | @stepped x y' k hx hy' hlstep horigin =>
    obtain rfl := Option.some.inj (hi.symm.trans hy')
    have hmem := List.mem_of_getElem? hx
    obtain ⟨id, config, ls, hrun⟩ := listeners_reached hreached x hmem
    exact (hcoming.cancels x hmem).step (run_waitsOnce (create_waits id config).1 hrun)
      (handles_pos hreached x hmem) (Listener.step_core hlstep)

/-- When nothing is left to be done, the children of a cancelled wait have been delivered. -/
theorem CancelsComing.delivered (h : s.CancelsComing) (hquiescent : s.Quiescent)
    {group : OperationGroup} (hgroup : s.groups key = some group) (hwait : group.wait = true)
    (hcancelled : group.cancelled ≠ 0) (hx : s.listeners[i]? = some x) :
    s.tallyAt i key i = s.deliveredAt i key i := by
  have hstrand : x.core.strand = [] := hquiescent.2 x (List.mem_of_getElem? hx)
  have hposts (post : CoreLabel) : post ∉ x.core.posts := by
    have hle := h.posts i x hx post
    rw [hquiescent.actions_eq] at hle
    exact List.count_eq_zero.mp (Nat.le_zero.mp hle)
  have hconnected (w : WaitOperation) (hw : w ∈ x.core.connectedWaits) :
      w.handler ≠ .child key i := by
    intro hhandler
    have hmarked := h.marks key group hgroup hwait hcancelled i x hx w hw hhandler
    simp only [hquiescent.actions_eq, List.not_mem_nil, or_false] at hmarked
    simp only [ListenerCore.connectedWaits, hstrand, List.filterMap_nil, List.append_nil,
      List.mem_append] at hw
    rcases hw with hw | hw
    · exact hposts _ (List.mem_append_left _ (List.mem_map_of_mem hw))
    · rcases h.cancels x (List.mem_of_getElem? hx) w hw hmarked with hcancelling | hposted
      · exact hposts _ (List.mem_append_right _ (List.mem_map_of_mem hcancelling))
      · simp [hstrand] at hposted
  have hnone {ws : List WaitOperation} (hws : ws ⊆ x.core.connectedWaits) :
      ws.countP (fun w => withHandler (.child key i) w.operation) = 0 :=
    List.countP_eq_zero.mpr fun w hw hhandler => hconnected w (hws hw) (of_decide_eq_true hhandler)
  simp only [tallyAt, countAt, deliveredAt, hx, Option.map_some, Option.getD_some, tally,
    deliveries, hstrand, List.filterMap_nil, List.countP_nil]
  rw [hnone fun w hw => by simp [ListenerCore.connectedWaits, hw], hnone fun w hw =>
    by simp [ListenerCore.connectedWaits, hw]]
  simp only [Nat.zero_add]
  rfl

/-- A wait with children has begun. -/
theorem wait_begun (h : Reachable step {} s) :
    ∀ key group, s.groups key = some group → group.wait = true → 0 < group.size →
    group.Begun (s.ledger key) := by
  refine (h.invariant (fun s => Reachable step {} s ∧
    ∀ key group, s.groups key = some group → group.wait = true →
    0 < group.size → group.Begun (s.ledger key))
    (fun a l b ha hstep => ⟨ha.1.tail hstep, fun key group' hgroup' hwait' hsize => ?_⟩)
    ⟨.refl _, by simp⟩).2
  obtain ⟨hreached, hbegun⟩ := ha
  obtain ⟨a₁, done, added, hacts, houtcome⟩ := step_cases hstep
  have haccounted := (sound_of_reachable (hreached.tail hstep)).accounted key
  rw [Accounted, hgroup'] at haccounted
  rw [houtcome.groups] at hgroup'
  rcases haccounted with hunbegun | hrejected | hbegun'
  · have hstart : group'.wait = false := congrArg OperationGroup.wait hunbegun.fresh
    simp [hwait'] at hstart
  · have hresults := hrejected.results
    have hreports := hrejected.reported
    exfalso
    cases hgroup : a.groups key with
    | none =>
      obtain ⟨wait, rfl⟩ := hacts.groups_new hgroup hgroup'
      contradiction
    | some group =>
      obtain ⟨group₁, hgroup₁, hgroupStep⟩ := hacts.group_step hgroup
      obtain rfl := Option.some.inj (hgroup₁.symm.trans hgroup')
      have hopen (hwait : group.wait = true) (hsize : 0 < group.size)
          (hreports : group.reports = []) : (a.ledger key).finishes = 0 ∧ group.results = [] := by
        have hbegun := hbegun key group hgroup hwait hsize
        refine hbegun.unfinished ?_
        have hremaining := hbegun.remaining
        rw [hreports, List.length_nil] at hremaining
        omega
      cases hgroupStep with
      | same => simp [(hopen hwait' hsize hreports).2] at hresults
      | cancelled type => simp [(hopen hwait' hsize hreports).2] at hresults
      | threw ecs => simp [(hopen hwait' hsize hreports).2] at hresults
      | rejected hdone =>
        obtain ⟨group₀, hgroup₀, hstart⟩ := (sound_of_reachable hreached).placed.fits _
          (hacts.mem_done (hdone ▸ List.mem_singleton_self _))
        obtain rfl := Option.some.inj (hgroup.symm.trans hgroup₀)
        have hwait : group.wait = true := hwait'
        simp [hwait] at hstart
      | told hmade hadded hdone => simp [OperationGroup.one] at hreports
      | finishedStart hdone hstart hcontrol =>
        have hwait : group.wait = true := hwait'
        simp [hwait] at hstart
      | @finishedWait result hdone hwait =>
        have hmem := hacts.mem_done (hdone ▸ List.mem_singleton_self _)
        have hpos : 0 < (a.ledger key).finishes :=
          List.countP_pos_iff.mpr ⟨.finish key result, hmem, decide_eq_true rfl⟩
        have hzero := (hopen hwait hsize hreports).1
        omega
  · exact hbegun'

/-- When nothing is left to be done, a cancelled wait has been completed once. -/
theorem cancelled_completed (h : Reachable step {} s) (hquiescent : s.Quiescent)
    {group : OperationGroup} (hgroup : s.groups key = some group) (hwait : group.wait = true)
    (hsize : 0 < group.size) (hcancelled : group.cancelled ≠ 0) :
    ∃ result, group.results = [result] := by
  refine (completed_of_delivered hquiescent.actions_eq
    (wait_begun h key group hgroup hwait hsize) fun i hi => ?_).2
  have hlt : i < s.listeners.length :=
    hi.trans_le ((sound_of_reachable h).placed.sized key group hgroup)
  exact (cancelsComing_of_reachable h).delivered hquiescent hgroup hwait hcancelled
    (List.getElem?_eq_getElem hlt)

end Server

end Serveza
