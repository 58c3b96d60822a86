import Serveza.ServerCancels

/-!
# The posts that threads are to make have been begun

A wait and a cancellation are posted in two pieces, with the post left to the thread that made
the call. Every such piece that a thread has left is known to the listener, so that the post
can be made when its turn comes.
-/

namespace Serveza

open Foundation

/-- An internal step of a listener makes no post for a wait. -/
theorem Listener.isInternal_posts {x y : Listener} {l : ListenerLabel} (hstep : x.step l = some y)
    (h : l.isInternal = true) :
    (x.kind l).posts = [] := by
  cases hkind : x.kind l with
  | off call =>
    have hoff := (Listener.kind_eq_off hstep call).mp hkind
    cases l with
    | acceptor l =>
      cases l with
      | core l =>
        obtain rfl := Option.some.inj hoff
        cases l <;> first | rfl | contradiction
      | _ => contradiction
    | socket l =>
      cases l with
      | core l =>
        obtain rfl := Option.some.inj hoff
        cases l <;> first | rfl | contradiction
      | _ => contradiction
  | deliver | cancelWait | force | handler => rfl

namespace Server

variable {s s₁ s' : Server} {l : ServerLabel} {done added : List Action} {j : ℕ} {x y : Listener}
  {a : Action}

/-- The posts that calls on waits have begun to make on a listener. -/
def postsAt (s : Server) (i : ℕ) : List CoreLabel :=
  ((s.listeners[i]?).map fun x => x.core.posts).getD []

/-- Every post that a thread is to make has been begun. -/
def PostsBegun (s : Server) : Prop :=
  ∀ i post, s.actions.countP (Action.makes i post) ≤ (s.postsAt i).count post

namespace PostsBegun

/-- A step that leaves the posts alone and adds none. -/
theorem keep (h : s.PostsBegun) (houtcome : Outcome s s₁ done added s')
    (hposts : ∀ i, s₁.postsAt i = s.postsAt i) (hadded : ∀ a ∈ added, a.post? = none) :
    s'.PostsBegun := by
  intro i post
  have hcount := houtcome.countP (Action.makes i post)
  have hnone : added.countP (Action.makes i post) = 0 :=
    List.countP_eq_zero.mpr fun a ha hmakes => by simp [Action.makes, hadded a ha] at hmakes
  have hold := h i post
  have hsame : s'.postsAt i = s.postsAt i := by
    rw [← hposts i, postsAt, postsAt, houtcome.listeners]
  rw [hsame]
  omega

/-- A step of a listener whose thread makes the post it makes and is to make the posts it begins. -/
theorem setListener (h : s.PostsBegun) (houtcome : Outcome s s₁ done added s') {k : ListenerLabel}
    (hx : s.listeners[j]? = some x) (hstep : x.step k = some y)
    (hlisteners : s₁.listeners = s.listeners.set j y)
    (hadded : ∀ i post, added.countP (Action.makes i post) ≤ if i =
      j then ((x.kind k).promises x.core).count post else 0)
    (hdone : ∀ post, (x.kind k).posts.count post ≤ done.countP (Action.makes j post)) :
    s'.PostsBegun := by
  have hlt : j < s.listeners.length := (List.getElem?_eq_some_iff.mp hx).1
  intro i post
  have hcount := houtcome.countP (Action.makes i post)
  have hnew := hadded i post
  have hold := h i post
  rw [postsAt, houtcome.listeners, hlisteners]
  by_cases hi : i = j
  · subst hi
    have hperm := (Listener.step_core hstep).posts.count_eq post
    have hmade := hdone post
    rw [List.getElem?_set_self hlt]
    simp only [List.count_append] at hperm
    simp only [postsAt, hx, Option.map_some, Option.getD_some] at hold ⊢
    rw [if_pos rfl] at hnew
    omega
  · rw [List.getElem?_set_ne (Ne.symm hi)]
    rw [if_neg hi] at hnew
    unfold postsAt at hold
    omega

/-- A call on a listener that makes no post and begins none. -/
theorem calls (h : s.PostsBegun) {call : CoreLabel} (hcall : s.Calls j call x y)
    (houtcome : Outcome s (s.setListener j y) done added s') (hadded : ∀ a ∈ added, a.post? = none)
    (hposts : (StepKind.off call).posts = []) : s'.PostsBegun := by
  refine h.setListener houtcome hcall.found hcall.step rfl (fun i post => ?_) fun post => ?_
  · rw [List.countP_eq_zero.mpr fun a ha hmakes => by simp [Action.makes, hadded a ha] at hmakes]
    exact Nat.zero_le _
  · rw [Listener.kind_off, hposts]
    exact Nat.zero_le _

/-- A call on a listener that begins a post, which its thread is to make. -/
theorem promised (h : s.PostsBegun) {call post : CoreLabel} {more : List Action}
    (hcall : s.Calls j call x y) (houtcome : Outcome s (s.setListener j y) done (a :: more) s')
    (ha : a.post? = some (j, post)) (hmore : ∀ b ∈ more, b.post? = none)
    (hposts : (StepKind.off call).posts = [])
    (hpromises : (StepKind.off call).promises x.core = [post]) : s'.PostsBegun := by
  refine h.setListener houtcome hcall.found hcall.step rfl (fun i post' => ?_) fun post => ?_
  · have hnone : more.countP (Action.makes i post') = 0 :=
      List.countP_eq_zero.mpr fun b hb hmakes => by simp [Action.makes, hmore b hb] at hmakes
    rw [Listener.kind_off, hpromises, List.countP_cons, hnone]
    by_cases hmakes : a.makes i post' = true
    · obtain ⟨rfl, rfl⟩ := Prod.mk.inj (Option.some.inj (ha.symm.trans (of_decide_eq_true hmakes)))
      simp [hmakes]
    · simp [hmakes]
  · rw [Listener.kind_off, hposts]
    exact Nat.zero_le _

/-- A call on a listener that makes a post. -/
theorem made (h : s.PostsBegun) {call : CoreLabel} (hcall : s.Calls j call x y)
    (houtcome : Outcome s (s.setListener j y) [a] [] s') (ha : a.post? = some (j, call))
    (hposts : (StepKind.off call).posts = [call]) : s'.PostsBegun := by
  refine h.setListener houtcome hcall.found hcall.step rfl
    (fun i post => Nat.zero_le _) fun post => ?_
  rw [Listener.kind_off, hposts]
  by_cases hpost : call = post
  · subst hpost
    simp [Action.makes, ha]
  · simp [hpost]

/-- An action makes a post that was begun, and is to make the ones it begins. -/
theorem performs (h : s.PostsBegun) {threw : Option FailingException}
    (hperforms : s.Performs threw a s₁ added) (houtcome : Outcome s s₁ [a] added s') :
    s'.PostsBegun := by
  cases hperforms with
  | startsChild hgroup hcall => exact h.calls hcall houtcome (by simp [Action.post?]) rfl
  | waitsChild hgroup hcall => exact h.promised hcall houtcome rfl (by simp [Action.post?]) rfl rfl
  | postWait hcall => exact h.made hcall houtcome rfl rfl
  | @emitWait _ key i group w x y hgroup hwait hw hcall =>
    have hconnected : ∃ v ∈ x.core.connectedWaits, v.id = w.id := by
      rw [childWait?, hcall.found, Option.bind_some] at hw
      exact ⟨w, List.mem_of_find?_eq_some hw, rfl⟩
    exact h.promised hcall houtcome rfl (by simp) rfl (if_pos hconnected)
  | emitStart hgroup hstart hcall => exact h.calls hcall houtcome (by simp) rfl
  | postCancel hcall => exact h.made hcall houtcome rfl rfl
  | stopReturns hcall hstopped => exact h.calls hcall houtcome (by simp) rfl
  | stopReads hcall hopen => exact h.calls hcall houtcome (by simp [Action.post?]) rfl
  | stopPost hcall => exact h.calls hcall houtcome (by simp) rfl
  | begins hgroup hcontrol =>
    refine h.keep houtcome (fun _ => rfl) fun a ha => ?_
    split at ha
    · rw [List.mem_singleton.mp ha]
      rfl
    · rcases List.mem_append.mp ha with ha | ha
      · rcases OperationGroup.start_mem ha with ⟨i, -, -, rfl⟩ | ⟨i, -, -, rfl⟩ | ⟨i, -, rfl⟩ <;>
          rfl
      · rw [List.mem_singleton.mp ha]
        rfl
  | reports hgroup hec hfailed =>
    refine h.keep houtcome (fun _ => rfl) fun a ha => ?_
    rcases OperationGroup.one_mem ha with ⟨i, rfl⟩ | ⟨result, rfl⟩ <;> rfl
  | checkCancelled hgroup => exact h.keep houtcome (fun _ => rfl) (by split <;> simp [Action.post?])
  | recheck hgroup =>
    exact h.keep houtcome (fun _ => rfl)
      (by split <;> simp [Action.post?, OperationGroup.requestStop])
  | _ => exact h.keep houtcome (fun _ => rfl) (by simp)

/-- A step that a listener takes by itself makes no post. -/
theorem internal (h : s.PostsBegun) {k : ListenerLabel} (houtcome : Outcome s s₁ [] added s')
    (hx : s.listeners[j]? = some x) (hstep : x.step k = some y) (hinternal : k.isInternal = true)
    (hlisteners : s₁.listeners = s.listeners.set j y) (hadded : ∀ a ∈ added, a.post? = none) :
    s'.PostsBegun := by
  refine h.setListener houtcome hx hstep hlisteners (fun i post => ?_) fun post => ?_
  · rw [List.countP_eq_zero.mpr fun a ha hmakes => by simp [Action.makes, hadded a ha] at hmakes]
    exact Nat.zero_le _
  · rw [Listener.isInternal_posts hstep hinternal]
    exact Nat.zero_le _

/-- A new listener has no posts to make. -/
theorem postsAt_addListener (s : Server) (config : ListenerConfig) (i : ℕ) :
    (s.addListener config).postsAt i = s.postsAt i := by
  unfold postsAt addListener
  rcases Nat.lt_trichotomy i s.listeners.length with hlt | rfl | hgt
  · rw [List.getElem?_append_left hlt]
  · obtain ⟨endpoint, hcore⟩ := Listener.create_core (s.listeners.length + 1) config
    simp [hcore, ListenerCore.posts]
  · rw [List.getElem?_eq_none (by simp; omega), List.getElem?_eq_none (by omega)]

/-- Every step makes posts that were begun, and threads are to make the ones it begins. -/
theorem step (h : s.PostsBegun) (hacts : s.Acts l s₁ done added)
    (houtcome : Outcome s s₁ done added s') :
    s'.PostsBegun := by
  cases hacts with
  | addListener hopen => exact h.keep houtcome (postsAt_addListener s _) (by simp)
  | asyncStart hnone hopen => exact h.keep houtcome (fun _ => rfl) (by simp [Action.post?])
  | asyncWait hnone hopen =>
    refine h.keep houtcome (fun _ => rfl) fun a ha => ?_
    split at ha
    · rw [List.mem_singleton.mp ha]
      rfl
    · rcases OperationGroup.start_mem ha with ⟨i, -, -, rfl⟩ | ⟨i, -, -, rfl⟩ | ⟨i, -, rfl⟩ <;> rfl
  | requestStop hopen =>
    refine h.keep houtcome (fun _ => rfl) fun a ha => ?_
    rcases List.mem_append.mp ha with ha | ha
    · obtain ⟨i, -, rfl⟩ := List.mem_map.mp ha
      rfl
    · rw [List.mem_singleton.mp ha]
      rfl
  | cancelNone hgroup hconnected => exact h.keep houtcome (fun _ => rfl) (by simp)
  | cancel hgroup hconnected htype => exact h.keep houtcome (fun _ => rfl) (by simp [Action.post?])
  | listenerStart hcall => exact h.calls hcall houtcome (by simp) rfl
  | listenerCancelStart hcall => exact h.calls hcall houtcome (by simp) rfl
  | listenerWait hcall => exact h.promised hcall houtcome rfl (by simp) rfl rfl
  | @listenerCancelWait _ _ id x y w tag hcall hw huser =>
    have hconnected : ∃ v ∈ x.core.connectedWaits, v.id = id :=
      ⟨w, List.mem_of_find?_eq_some hw, by simpa using List.find?_some hw⟩
    exact h.promised hcall houtcome rfl (by simp) rfl (if_pos hconnected)
  | listenerStop hlistener => exact h.keep houtcome (fun _ => rfl) (by simp [Action.post?])
  | proceed hnext hperforms => exact h.performs hperforms houtcome
  | internal hx hstep hinternal hstrand hkind =>
    exact h.internal houtcome hx hstep hinternal rfl (by simp)
  | delivers hx hstep hinternal hstrand hkind hhandler hgroup =>
    refine h.internal houtcome hx hstep hinternal rfl fun a ha => ?_
    unfold onStrand at ha
    split at ha
    · simp at ha
    · rcases List.mem_append.mp ha with ha | ha
      · rcases OperationGroup.one_mem ha with ⟨i, rfl⟩ | ⟨result, rfl⟩ <;> rfl
      · rw [List.mem_singleton.mp ha]
        rfl

end PostsBegun

end Server

end Serveza
