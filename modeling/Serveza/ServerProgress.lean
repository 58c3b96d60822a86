import Serveza.ServerPosts
import Serveza.ServerStops
import Serveza.ServerWork

/-!
# A server can always go on

Nothing a server has in progress waits for anything but its turn: what a thread is to do next
can be done, and the strand of a listener is held only by a thread that can go on. This needs
the actions to name operations and listeners that exist, and the posts and stop requests they
are to make to have been begun.
-/

namespace Serveza

open Foundation

/-- What an action refers to exists: its operation, a child of it, or a listener. -/
def Action.InRange (groups : ℕ → Option OperationGroup) (listeners : ℕ) : Action → Prop
  | .beginStart key | .recheck key | .finish key _ => ∃ group, groups key = some group
  | .startChild key i | .waitChild key i | .checkCancelled key i | .emit key i
  | .reportInitiation key i =>
    ∃ group, groups key = some group ∧ i < group.size
  | .postWait i _ | .postCancel i _ | .stopRead i | .stopPost i => i < listeners
  | .unlock | .release _ => True

namespace Server

variable {s s₁ s' : Server} {l : ServerLabel} {done added : List Action} {key i j : ℕ}
  {x y : Listener} {a : Action} {group : OperationGroup}

/-- What an action refers to still exists when operations and listeners have moved on. -/
theorem inRange_mono {groups groups' : ℕ → Option OperationGroup} {n n' : ℕ}
    (h : a.InRange groups n)
    (hgroups : ∀ key group, groups key = some group → ∃ group', groups' key = some group' ∧
      group'.wait = group.wait ∧ group'.size = group.size)
    (hle : n ≤ n') : a.InRange groups' n' := by
  have hkept {key : ℕ} (h : ∃ group, groups key = some group) : ∃ group,
      groups' key = some group := by
    obtain ⟨group, hgroup⟩ := h
    obtain ⟨group', hgroup', -⟩ := hgroups key group hgroup
    exact ⟨group', hgroup'⟩
  have hchild {key i : ℕ} (h : ∃ group, groups key = some group ∧ i < group.size) :
      ∃ group, groups' key = some group ∧ i < group.size := by
    obtain ⟨group, hgroup, hi⟩ := h
    obtain ⟨group', hgroup', -, hsize⟩ := hgroups key group hgroup
    exact ⟨group', hgroup', hsize ▸ hi⟩
  cases a with
  | beginStart key => exact hkept h
  | recheck key => exact hkept h
  | finish key result => exact hkept h
  | startChild key i => exact hchild h
  | waitChild key i => exact hchild h
  | checkCancelled key i => exact hchild h
  | emit key i => exact hchild h
  | reportInitiation key i => exact hchild h
  | postWait i id => exact Nat.lt_of_lt_of_le h hle
  | postCancel i id => exact Nat.lt_of_lt_of_le h hle
  | stopRead i => exact Nat.lt_of_lt_of_le h hle
  | stopPost i => exact Nat.lt_of_lt_of_le h hle
  | unlock => trivial
  | release i => trivial

section InRange

variable {groups : ℕ → Option OperationGroup} {n : ℕ}

/-- The loops of an operation stay within its snapshot. -/
theorem start_inRange {group' : OperationGroup} (hgroup : groups key = some group')
    (hsize : group'.size = group.size) :
    ∀ a ∈ group.start key, a.InRange groups n := by
  intro a ha
  rcases OperationGroup.start_mem ha with ⟨i, hi, -, rfl⟩ | ⟨i, hi, -, rfl⟩ | ⟨i, hi, rfl⟩ <;>
    exact ⟨group', hgroup, hsize ▸ hi⟩

/-- The stop requests of an operation stay within its snapshot. -/
theorem requestStop_inRange (hle : group.size ≤ n) :
    ∀ a ∈ group.requestStop, a.InRange groups n := by
  intro a ha
  obtain ⟨i, hi, rfl⟩ := List.mem_map.mp ha
  exact (List.mem_range.mp hi).trans_le hle

/-- What a report leaves stays within the snapshot of its operation. -/
theorem one_inRange (hgroup : ∃ group', groups key = some group') (hle : group.size ≤ n)
    (report : Report) :
    ∀ a ∈ (group.one key report).2, a.InRange groups n := by
  intro a ha
  rcases List.mem_append.mp ha with ha | ha
  · split at ha
    · exact requestStop_inRange hle a ha
    · simp at ha
  · split at ha
    · rw [List.mem_singleton.mp ha]
      exact hgroup
    · simp at ha

end InRange

/-- What a step adds refers to what exists. -/
theorem Acts.inRange (h : s.Acts l s₁ done added)
    (hsized : ∀ key group, s.groups key = some group → group.size ≤ s.listeners.length)
    (hdone : ∀ a ∈ done, a.InRange s.groups s.listeners.length) :
    ∀ a ∈ added, a.InRange s₁.groups s₁.listeners.length := by
  have hself {key : ℕ} {group : OperationGroup} {server : Server} :
      ∃ group', (server.setGroup key group).groups key = some group' := ⟨group, if_pos rfl⟩
  cases h with
  | asyncStart hnone hopen => simpa [Action.InRange] using hself
  | @asyncWait _ key hnone hopen =>
    split
    · simpa [Action.InRange] using hself
    · exact start_inRange (if_pos rfl) rfl
  | requestStop hopen =>
    intro a ha
    rcases List.mem_append.mp ha with ha | ha
    · obtain ⟨i, hi, rfl⟩ := List.mem_map.mp ha
      exact List.mem_range.mp hi
    · rw [List.mem_singleton.mp ha]
      trivial
  | @cancel _ key type group hgroup hconnected htype =>
    intro a ha
    obtain ⟨i, hi, rfl⟩ := List.mem_map.mp ha
    exact ⟨_, if_pos rfl, List.mem_range.mp hi⟩
  | listenerWait hcall =>
    have hlt := (List.getElem?_eq_some_iff.mp hcall.found).1
    simpa [Action.InRange, setListener] using hlt
  | listenerCancelWait hcall hw huser =>
    have hlt := (List.getElem?_eq_some_iff.mp hcall.found).1
    simpa [Action.InRange, setListener] using hlt
  | listenerStop hlistener => simpa [Action.InRange] using hlistener
  | @delivers _ listener _ x y completion key index group hx hstep hinternal hstrand
    hkind hhandler hgroup =>
    have hle : group.size ≤ (s.listeners.set listener y).length := by
      rw [List.length_set]
      exact hsized key group hgroup
    intro a ha
    unfold onStrand at ha
    split at ha
    · simp at ha
    · rcases List.mem_append.mp ha with ha | ha
      · exact one_inRange hself hle _ a ha
      · rw [List.mem_singleton.mp ha]
        trivial
  | proceed hnext hperforms =>
    have hpending := hdone _ (List.mem_singleton_self _)
    cases hperforms with
    | @begins _ key group control hgroup hcontrol =>
      split
      · simpa [Action.InRange] using hpending
      · intro a ha
        rcases List.mem_append.mp ha with ha | ha
        · exact start_inRange hgroup rfl a ha
        · rw [List.mem_singleton.mp ha]
          exact hpending
    | startsChild hgroup hcall =>
      intro a ha
      rw [List.mem_singleton.mp ha]
      exact hpending
    | @waitsChild key index group x y hgroup hcall =>
      have hlt := (List.getElem?_eq_some_iff.mp hcall.found).1
      intro a ha
      rcases List.mem_cons.mp ha with rfl | ha
      · simpa [Action.InRange, setListener] using hlt
      · rw [List.mem_singleton.mp ha]
        exact hpending
    | checkCancelled hgroup =>
      split
      · simp
      · simpa [Action.InRange] using hpending
    | emitWait hgroup hwait hw hcall =>
      have hlt := (List.getElem?_eq_some_iff.mp hcall.found).1
      simpa [Action.InRange, setListener] using hlt
    | reports hgroup hec hfailed => exact one_inRange hself (hsized _ _ hgroup) _
    | recheck hgroup =>
      split
      · exact requestStop_inRange (hsized _ _ hgroup)
      · simp
    | stopReads hcall hopen =>
      have hlt := (List.getElem?_eq_some_iff.mp hcall.found).1
      simpa [Action.InRange, setListener] using hlt
    | _ => simp
  | _ => simp

/-- A step leaves the threads alone, or lets one of them go on. -/
theorem step_resumes (h : s.step l = some s') :
    s'.threads = s.threads ∨ ∃ (s₁ : Server) (t : ℕ) (actions : List Action), s' =
      s₁.resume t actions ∧ s₁.threads = s.threads := by
  cases l with
  | addListener config =>
    obtain ⟨-, h⟩ := Option.ite_none_left_eq_some.mp h
    exact Or.inl (Option.some.inj h ▸ rfl)
  | asyncStart t key =>
    obtain ⟨-, h⟩ := Option.ite_none_right_eq_some.mp h
    exact Or.inr ⟨_, t, _, (Option.some.inj h).symm, rfl⟩
  | asyncWait t key =>
    obtain ⟨-, h⟩ := Option.ite_none_right_eq_some.mp h
    exact Or.inr ⟨_, t, _, (Option.some.inj h).symm, rfl⟩
  | requestStop t =>
    obtain ⟨-, h⟩ := Option.ite_none_right_eq_some.mp h
    exact Or.inr ⟨_, t, _, (Option.some.inj h).symm, rfl⟩
  | cancel t key type =>
    obtain ⟨-, h⟩ := Option.ite_none_right_eq_some.mp h
    obtain ⟨group, -, h⟩ := Option.bind_eq_some_iff.mp h
    obtain ⟨-, h⟩ := Option.ite_none_right_eq_some.mp h
    obtain rfl := Option.some.inj h
    split
    · exact Or.inl rfl
    · exact Or.inr ⟨_, t, _, rfl, rfl⟩
  | listenerStart listener tag =>
    obtain ⟨x, y, -, rfl⟩ := onListener_cases h
    exact Or.inl rfl
  | listenerCancelStart listener tag =>
    obtain ⟨x, y, -, rfl⟩ := onListener_cases h
    exact Or.inl rfl
  | listenerWait t listener tag =>
    obtain ⟨-, h⟩ := Option.ite_none_right_eq_some.mp h
    obtain ⟨x, -, h⟩ := Option.bind_eq_some_iff.mp h
    obtain ⟨s₁, hs₁, rfl⟩ := Option.map_eq_some_iff.mp h
    obtain ⟨x, y, -, rfl⟩ := onListener_cases hs₁
    exact Or.inr ⟨_, t, _, rfl, rfl⟩
  | listenerCancelWait t listener id =>
    obtain ⟨-, h⟩ := Option.ite_none_right_eq_some.mp h
    obtain ⟨x, -, h⟩ := Option.bind_eq_some_iff.mp h
    obtain ⟨w, -, h⟩ := Option.bind_eq_some_iff.mp h
    split at h
    · obtain ⟨s₁, hs₁, rfl⟩ := Option.map_eq_some_iff.mp h
      obtain ⟨x, y, -, rfl⟩ := onListener_cases hs₁
      exact Or.inr ⟨_, t, _, rfl, rfl⟩
    · contradiction
  | listenerStop t listener =>
    obtain ⟨-, h⟩ := Option.ite_none_right_eq_some.mp h
    exact Or.inr ⟨_, t, _, (Option.some.inj h).symm, rfl⟩
  | proceed t threw =>
    obtain ⟨e, -, h⟩ := Option.bind_eq_some_iff.mp h
    split at h
    · contradiction
    · obtain ⟨⟨s₁, first⟩, hperform, rfl⟩ := Option.map_eq_some_iff.mp h
      exact Or.inr ⟨s₁, t, _, rfl, perform_threads hperform⟩
  | listener t listener l =>
    obtain ⟨-, h⟩ := Option.ite_none_right_eq_some.mp h
    obtain ⟨x, -, h⟩ := Option.bind_eq_some_iff.mp h
    obtain ⟨s₁, hs₁, rfl⟩ := Option.map_eq_some_iff.mp h
    obtain ⟨x, -, hs₁⟩ := Option.bind_eq_some_iff.mp hs₁
    obtain ⟨y, -, rfl⟩ := Option.map_eq_some_iff.mp hs₁
    split
    · unfold delivered
      split
      · exact Or.inl rfl
      · split
        · exact Or.inl rfl
        · exact Or.inr ⟨_, t, _, rfl, rfl⟩
    · exact Or.inl rfl

/-- A thread that is in the middle of a call has something to do. -/
theorem busy_of_reachable (h : Reachable step {} s) : ∀ e ∈ s.threads, e.2 ≠ [] := by
  refine h.invariant (fun s => ∀ e ∈ s.threads, e.2 ≠ []) (fun a l b ha hstep e he => ?_) (by simp)
  rcases step_resumes hstep with hsame | ⟨s₁, t, actions, rfl, hthreads⟩
  · exact ha e (hsame ▸ he)
  · rcases List.mem_append.mp he with he | he
    · split at he
      · simp at he
      · rename_i hactions
        rw [List.mem_singleton.mp he]
        exact hactions
    · exact ha e (hthreads ▸ List.mem_of_mem_eraseP he)

/-- What the next actions of the threads rely on. -/
structure Ready (s : Server) : Prop where
  inRange : ∀ a ∈ s.actions, a.InRange s.groups s.listeners.length
  sized : ∀ key group, s.groups key = some group → group.size ≤ s.listeners.length
  posts : s.PostsBegun
  stops : s.StopsCounted
  handles : ∀ x ∈ s.listeners, 0 < x.core.handles
  busy : ∀ e ∈ s.threads, e.2 ≠ []

/-- What the threads are to do refers to what exists. -/
theorem inRange_of_reachable (h : Reachable step {} s) :
    ∀ a ∈ s.actions, a.InRange s.groups s.listeners.length := by
  refine (h.invariant (fun s => Reachable step {} s ∧
    ∀ a ∈ s.actions, a.InRange s.groups s.listeners.length)
    (fun s l s' hs hstep => ⟨hs.1.tail hstep, fun a ha => ?_⟩) ⟨.refl _, by simp [actions]⟩).2
  obtain ⟨hreached, hrange⟩ := hs
  obtain ⟨s₁, done, added, hacts, houtcome⟩ := step_cases hstep
  rw [houtcome.groups, houtcome.listeners]
  rcases houtcome.mem ha with ha | ha
  · exact inRange_mono (hrange a ha) (fun key group => hacts.groups) hacts.length_le
  · exact hacts.inRange (sound_of_reachable hreached).placed.sized
      (fun b hb => hrange b (hacts.mem_done hb)) a ha

/-- In every state that a server can reach its threads can go on. -/
theorem ready_of_reachable (h : Reachable step {} s) : s.Ready where
  inRange := inRange_of_reachable h
  sized := (sound_of_reachable h).placed.sized
  posts := h.invariant PostsBegun (fun _ _ _ hs hstep => by
    obtain ⟨s₁, done, added, hacts, houtcome⟩ := step_cases hstep
    exact hs.step hacts houtcome) fun _ _ => Nat.zero_le _
  stops := stopsCounted_of_reachable h
  handles := handles_pos h
  busy := busy_of_reachable h

/-- A call that the shared part of a listener takes can be made on the listener. -/
theorem onListener_isSome {call : CoreLabel} (hi : i < s.listeners.length)
    (h : ∀ x, s.listeners[i]? = some x → ∀ alive, (x.core.call alive call).isSome = true) :
    (s.onListener i call).isSome = true := by
  obtain ⟨x, hx⟩ : ∃ x, s.listeners[i]? = some x := ⟨_, List.getElem?_eq_getElem hi⟩
  have hcall := h x hx
  rw [onListener, stepListener, hx, Option.bind_some, Option.isSome_map]
  cases x with
  | acceptor x =>
    simpa [Listener.off, Listener.step, AcceptorListener.step, Listener.core] using hcall x.alive
  | socket x =>
    simpa [Listener.off, Listener.step, SocketListener.step, Listener.core] using hcall x.alive

namespace Ready

/-- A post that a thread is to make has been begun. -/
theorem mem_posts (h : s.Ready) {post : CoreLabel} (ha : a ∈ s.actions)
    (hpost : a.post? = some (i, post)) (hx : s.listeners[i]? = some x) : post ∈ x.core.posts := by
  have hle := h.posts i post
  have hpos : 0 < s.actions.countP (Action.makes i post) :=
    List.countP_pos_iff.mpr ⟨a, ha, decide_eq_true hpost⟩
  rw [postsAt, hx] at hle
  exact List.count_pos_iff.mp (hpos.trans_le hle)

/-- What a thread is to do next can be done. -/
theorem perform (h : s.Ready) (ha : a ∈ s.actions) : (s.perform none a).isSome = true := by
  have hrange := h.inRange a ha
  cases a with
  | beginStart key =>
    obtain ⟨group, hgroup⟩ := hrange
    simp [Server.perform, hgroup]
  | startChild key i =>
    obtain ⟨group, hgroup, hi⟩ := hrange
    have hcall : (s.onListener i (.asyncStart (.child key i))).isSome = true :=
      onListener_isSome (hi.trans_le (h.sized key group hgroup)) fun x hx alive => by
        simp [ListenerCore.call, h.handles x (List.mem_of_getElem? hx)]
    simpa [Server.perform, hgroup] using hcall
  | waitChild key i =>
    obtain ⟨group, hgroup, hi⟩ := hrange
    have hlt := hi.trans_le (h.sized key group hgroup)
    have hcall : (s.onListener i (.beginWait (.child key i))).isSome = true :=
      onListener_isSome hlt fun x hx alive => by
      simp [ListenerCore.call, h.handles x (List.mem_of_getElem? hx)]
    simpa [Server.perform, hgroup, List.getElem?_eq_getElem hlt] using hcall
  | postWait i id =>
    have hcall : (s.onListener i (.postWait id)).isSome = true :=
      onListener_isSome hrange fun x hx alive => by
      have hmem := h.mem_posts ha rfl hx
      have hfound : ∃ w ∈ x.core.initiating, w.id = id := by simpa [ListenerCore.posts] using hmem
      simpa [ListenerCore.call] using hfound
    simpa [Server.perform] using hcall
  | checkCancelled key i =>
    obtain ⟨group, hgroup, hi⟩ := hrange
    simp [Server.perform, hgroup]
  | emit key i =>
    obtain ⟨group, hgroup, hi⟩ := hrange
    have hlt := hi.trans_le (h.sized key group hgroup)
    have hcancel (id : ℕ) : (s.onListener i (.cancelWait id)).isSome = true :=
      onListener_isSome hlt fun x hx alive => by
      rw [ListenerCore.call]
      split <;> rfl
    have hstart : (s.onListener i (.cancelStart (.child key i))).isSome = true :=
      onListener_isSome hlt fun x hx alive => rfl
    cases hwait : group.wait with
    | false => simpa [Server.perform, hgroup, hwait] using hstart
    | true =>
      cases hchild : s.childWait? key i with
      | none => simp [Server.perform, hgroup, hwait, hchild]
      | some w => simpa [Server.perform, hgroup, hwait, hchild] using hcancel w.id
  | postCancel i id =>
    have hcall : (s.onListener i (.postCancel id)).isSome = true :=
      onListener_isSome hrange fun x hx alive => by
      have hmem := h.mem_posts ha rfl hx
      have hfound : id ∈ x.core.cancelling := by simpa [ListenerCore.posts] using hmem
      simp [ListenerCore.call, hfound]
    simpa [Server.perform] using hcall
  | reportInitiation key i =>
    obtain ⟨group, hgroup, hi⟩ := hrange
    simp [Server.perform, hgroup]
  | recheck key =>
    obtain ⟨group, hgroup⟩ := hrange
    simp [Server.perform, hgroup]
  | stopRead i =>
    have hcall : (s.onListener i .stopRead).isSome = true :=
      onListener_isSome hrange fun x hx alive => by
      simp [ListenerCore.call, h.handles x (List.mem_of_getElem? hx)]
    simpa [Server.perform, List.getElem?_eq_getElem hrange] using hcall
  | stopPost i =>
    have hcall : (s.onListener i .stopPost).isSome = true :=
      onListener_isSome hrange fun x hx alive => by
      have hcounted := h.stops i
      have hpos : 0 < s.actions.count (.stopPost i) := List.count_pos_iff.mpr ha
      rw [stoppingAt_found hx] at hcounted
      simp [ListenerCore.call, hcounted, hpos]
    simpa [Server.perform] using hcall
  | finish key result =>
    obtain ⟨group, hgroup⟩ := hrange
    simp [Server.perform, hgroup]
  | unlock => rfl
  | release i => rfl

/-- As long as something is in progress, some of it can be carried on. -/
theorem progress (h : s.Ready) (hopen : ¬ s.Quiescent) :
    ∃ l, l.drains = true ∧ (s.step l).isSome = true := by
  cases hthreads : s.threads with
  | cons e rest =>
    obtain ⟨t, actions⟩ := e
    have hmem : (t, actions) ∈ s.threads := hthreads ▸ List.mem_cons_self
    cases actions with
    | nil => exact absurd rfl (h.busy _ hmem)
    | cons action actions =>
      have hperform :=
        h.perform (List.mem_flatMap.mpr ⟨_, hmem, List.mem_cons_self⟩ : action ∈ s.actions)
      refine ⟨.proceed t none, rfl, ?_⟩
      simpa [Server.step, hthreads] using hperform
  | nil =>
    have hactions : s.actions = [] := by rw [Server.actions, hthreads]; rfl
    obtain ⟨x, hx, hstrand⟩ : ∃ x ∈ s.listeners, x.core.strand ≠ [] := by
      by_contra hnone
      refine hopen ⟨hthreads, fun x hx => ?_⟩
      by_contra hstrand
      exact hnone ⟨x, hx, hstrand⟩
    obtain ⟨i, hi⟩ := List.getElem?_of_mem hx
    obtain ⟨k, hrun, hinternal, hstep⟩ := Listener.exists_run hstrand
    refine ⟨.listener 0 i k, hrun, ?_⟩
    simpa [Server.step, isFree, hthreads, hactions, hinternal, hi, stepListener] using hstep

end Ready

end Server

end Serveza
