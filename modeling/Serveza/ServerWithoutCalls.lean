import Serveza.ServerWithoutActions

/-!
# Calls on a server without one of its waits

What the threads still have to do without the wait, and the calls that begin something: each is
made without the wait as well, or it is a call on the operation.
-/

namespace Serveza

open Foundation

/-- A listener without a gap gets one with a number that no action refers to. -/
def Renumbers (gaps gaps' : ℕ → Option ℕ) (actions : List Action) : Prop :=
  ∀ i, gaps' i = gaps i ∨ gaps i = none ∧ ∀ a ∈ actions, ∀ n, a.number? = some (i, n) →
    closeGap (gaps' i) n = some n

/-- What is carried out for the wait is still so. -/
theorem Action.OfWait.renumber {key : ℕ} {gaps gaps' : ℕ → Option ℕ} {actions : List Action}
    {a : Action} (h : a.OfWait key gaps) (hgaps : Renumbers gaps gaps' actions) :
    a.OfWait key gaps' := by
  cases a with
  | postWait i n | postCancel i n =>
    rcases hgaps i with hsame | ⟨hnone, -⟩
    · exact hsame.trans h
    · exact absurd (hnone.symm.trans h) (by simp)
  | _ => exact h

namespace ThreadsWithout

variable {key u : ℕ} {gaps gaps' : ℕ → Option ℕ} {threads threads' : List (ℕ × List Action)}
  {actions actions' : List Action}

/-- The actions that are left are those of the server that stay. -/
theorem mem_actions (h : ThreadsWithout key gaps threads threads') {a' : Action}
    (ha : a' ∈ threads'.flatMap Prod.snd) :
    ∃ a ∈ threads.flatMap Prod.snd, a.Stays key gaps a' := by
  obtain ⟨e, he, ha⟩ := List.mem_flatMap.mp ha
  obtain ⟨actions, hmem, hstays⟩ := h.mem he
  obtain ⟨a, hmem', hstay⟩ := exists_of_forall₂ hstays ha
  exact ⟨a, List.mem_flatMap.mpr ⟨_, hmem, hmem'⟩, hstay⟩

/-- A thread that carries on with something else is there. -/
theorem resume (h : ThreadsWithout key gaps threads threads')
    (hactions : List.Forall₂ (Action.Stays key gaps) actions actions') :
    ThreadsWithout key gaps ((if actions = [] then [] else [(u, actions)]) ++ threads)
      ((if actions' = [] then [] else [(u, actions')]) ++ threads') := by
  cases hactions with
  | nil => exact h
  | cons hhead htail => exact .stays (.cons hhead htail) h

/-- A thread that carries on with the wait is not there. -/
theorem resume_own (h : ThreadsWithout key gaps threads threads')
    (hown : ∀ a ∈ actions, a.OfWait key gaps) :
    ThreadsWithout key gaps ((if actions = [] then [] else [(u, actions)]) ++ threads)
      threads' := by
  split
  · exact h
  · exact .goes hown h

/-- When a wait gets a number that no action refers to, what goes and stays is the same. -/
theorem renumber (h : ThreadsWithout key gaps threads threads')
    (hgaps : Renumbers gaps gaps' (threads.flatMap Prod.snd)) :
    ThreadsWithout key gaps' threads threads' := by
  refine h.mono (fun e he a ha hown => hown.renumber hgaps)
    fun e he a ha a' hstays => ⟨hstays.1, ?_⟩
  have hkept {i n : ℕ} (hnumber : a.number? = some (i, n)) : closeGap (gaps' i) n =
      closeGap (gaps i) n := by
    rcases hgaps i with hsame | ⟨hnone, hnew⟩
    · rw [hsame]
    · rw [hnew a (List.mem_flatMap.mpr ⟨e, he, ha⟩) n hnumber, hnone]
      rfl
  cases a with
  | postWait i n | postCancel i n => exact (congrArg (Option.map _) (hkept rfl)).trans hstays.2
  | _ => exact hstays.2

end ThreadsWithout

namespace Server

/-- The server would be the other one if one of its waits had not been called. -/
structure Without (key : ℕ) (s s' : Server) : Prop where
  agrees : Agrees key (s.gap key) s s'
  threads : ThreadsWithout key (s.gap key) s.threads s'.threads

variable {s s₁ s₁' s' t : Server} {l : ServerLabel} {key k u i : ℕ} {a : Action}
  {actions actions' : List Action} {x y : Listener}

/-- A step that initiates no child of an operation keeps the waits that it has made. -/
theorem Waits.gap_eq (hs : s.Waits key) (ht : t.Waits key) (hstep : s.step l = some t)
    (hother : ∀ u threw, l = .proceed u threw → s.next u ≠ some (.waitChild key i)) :
    t.gap key i = s.gap key i := by
  obtain ⟨s₁, done, added, hacts, houtcome⟩ := step_cases hstep
  refine gap_step (sound_of_reachable hs.reachable) (sound_of_reachable ht.reachable)
    ((hacts.effect i).outcome houtcome) ?_
  rintro rfl
  cases hacts with
  | proceed hnext hperforms => exact hother _ _ rfl hnext

namespace Without

/-- A thread that is free is so without the wait. -/
theorem free (h : Without key s s') (hfree : s.isFree u = true) : s'.isFree u = true := by
  refine List.all_eq_true.mpr fun e he => ?_
  obtain ⟨actions, hmem, -⟩ := h.threads.mem he
  exact List.all_eq_true.mp hfree (e.1, actions) hmem

/-- Without the wait nothing else is to be done. -/
theorem not_mem (h : Without key s s') (hnumber : a.number? = none) (hopen : a ∉ s.actions) :
    a ∉ s'.actions := by
  intro hmem
  obtain ⟨b, hb, hstays⟩ := h.threads.mem_actions hmem
  exact hopen (hstays.eq hnumber ▸ hb)

/-- A step that no thread carries on. -/
theorem direct (h : Without key s s') (hagrees : Agrees key (s.gap key) t t')
    (hgap : t.gap key = s.gap key) (hthreads : t.threads = s.threads)
    (hthreads' : t'.threads = s'.threads) : Without key t t' := by
  refine ⟨?_, ?_⟩
  · rw [hgap]
    exact hagrees
  · rw [hgap, hthreads, hthreads']
    exact h.threads

/-- A call on a free thread that is made without the wait as well. -/
theorem called (h : Without key s s') (hfree : s.isFree u = true)
    (hagrees : Agrees key (s.gap key) s₁ s₁') (hgap : s₁.gap key = s.gap key)
    (hthreads : s₁.threads = s.threads) (hthreads' : s₁'.threads = s'.threads)
    (hactions : List.Forall₂ (Action.Stays key (s.gap key)) actions actions') :
    Without key (s₁.resume u actions) (s₁'.resume u actions') := by
  have herase {r : Server} (hr : r.isFree u = true) :
      (r.threads.eraseP fun e => e.1 = u) = r.threads :=
    List.eraseP_of_forall_not fun e he => by simpa using List.all_eq_true.mp hr e he
  refine ⟨?_, ?_⟩
  · change Agrees key (s₁.gap key) _ _
    rw [hgap]
    exact ⟨hagrees.control, hagrees.groups, hagrees.listeners⟩
  · change ThreadsWithout key (s₁.gap key) _ _
    rw [hgap, resume, resume, hthreads, hthreads', herase hfree, herase (h.free hfree)]
    exact h.threads.resume hactions

/-- A call on a free thread that is made for the wait. -/
theorem called_own (h : Without key s s') (hfree : s.isFree u = true)
    (hagrees : Agrees key (s.gap key) s₁ s') (hgap : s₁.gap key = s.gap key)
    (hthreads : s₁.threads = s.threads) (hown : ∀ a ∈ actions, a.OfWait key (s.gap key)) :
    Without key (s₁.resume u actions) s' := by
  have herase : (s.threads.eraseP fun e => e.1 = u) = s.threads :=
    List.eraseP_of_forall_not fun e he => by simpa using List.all_eq_true.mp hfree e he
  refine ⟨?_, ?_⟩
  · change Agrees key (s₁.gap key) _ _
    rw [hgap]
    exact ⟨hagrees.control, hagrees.groups, hagrees.listeners⟩
  · change ThreadsWithout key (s₁.gap key) _ _
    rw [hgap, resume, hthreads, herase]
    exact h.threads.resume_own hown

/-- A call on a listener that a user makes is made without the wait. -/
theorem calls (h : Without key s s') (hs : s.Waits key) {call call' : CoreLabel}
    (hcall : s.Calls i call x y) (hl : call.without (s.gap key i) = some call') :
    s'.onListener i call' = some (s'.setListener i (y.without (s.gap key i))) :=
  h.agrees.call hcall (hs.handles hcall.found) (hs.given hcall.found) hl

/-- A call of `async_start` is made without the wait. -/
theorem asyncStart (h : Without key s s') (ht : t.Waits key) (hgap : t.gap key = s.gap key)
    (hstep : s.step (.asyncStart u k) = some t) :
    ∃ t', s'.step (.asyncStart u k) = some t' ∧ Without key t t' := by
  obtain ⟨⟨hfree, hnone, hopen⟩, heq⟩ := Option.ite_none_right_eq_some.mp hstep
  obtain rfl := Option.some.inj heq
  have hk : k ≠ key := by
    rintro rfl
    have hwait := ht.wait (.create false s.listeners.length) (if_pos rfl)
    contradiction
  refine ⟨_, if_pos ⟨h.free hfree, (h.agrees.group hk).trans hnone, h.not_mem rfl hopen⟩, ?_⟩
  rw [h.agrees.length]
  exact h.called hfree (h.agrees.setGroup hk _) hgap rfl rfl
    (Action.forall_stays_self (by simp [Action.group?, Action.number?, hk]))

/-- A call of `async_wait` is made without the wait, unless it is the wait. -/
theorem asyncWait (h : Without key s s') (hgap : t.gap key = s.gap key)
    (hstep : s.step (.asyncWait u k) = some t) :
    Without key t s' ∨ ∃ t', s'.step (.asyncWait u k) = some t' ∧ Without key t t' := by
  obtain ⟨⟨hfree, hnone, hopen⟩, heq⟩ := Option.ite_none_right_eq_some.mp hstep
  obtain rfl := Option.some.inj heq
  by_cases hk : k = key
  · subst hk
    refine Or.inl (h.called_own hfree (h.agrees.setOwn _) hgap rfl fun a ha => ?_)
    split at ha
    · rw [List.mem_singleton.mp ha]
      exact rfl
    · rcases OperationGroup.start_mem ha with ⟨i, -, hstart, -⟩ | ⟨i, -, -, rfl⟩ | ⟨i, -, rfl⟩
      · contradiction
      · exact rfl
      · exact rfl
  · refine Or.inr ⟨_, if_pos ⟨h.free hfree, (h.agrees.group hk).trans hnone, h.not_mem rfl hopen⟩,
      ?_⟩
    rw [h.agrees.length]
    refine h.called hfree (h.agrees.setGroup hk _) hgap rfl rfl (Action.forall_stays_self ?_)
    split
    · simp [Action.group?, Action.number?, hk]
    · exact start_stays hk _

/-- A call of `request_stop` is made without the wait. -/
theorem requestStop (h : Without key s s') (hgap : t.gap key = s.gap key)
    (hstep : s.step (.requestStop u) = some t) :
    ∃ t', s'.step (.requestStop u) = some t' ∧ Without key t t' := by
  obtain ⟨⟨hfree, hopen⟩, heq⟩ := Option.ite_none_right_eq_some.mp hstep
  obtain rfl := Option.some.inj heq
  refine ⟨_, if_pos ⟨h.free hfree, h.not_mem rfl hopen⟩, ?_⟩
  rw [h.agrees.length, h.agrees.statuses, h.agrees.control]
  refine h.called hfree (h.agrees.setControl _) hgap rfl rfl
    (Action.forall_stays_self fun a ha => ?_)
  rcases List.mem_append.mp ha with ha | ha
  · obtain ⟨j, -, rfl⟩ := List.mem_map.mp ha
    exact ⟨by simp [Action.group?], rfl⟩
  · rw [List.mem_singleton.mp ha]
    exact ⟨by simp [Action.group?], rfl⟩

/-- A cancellation is made without the wait, unless it is one of the wait. -/
theorem cancel (h : Without key s s') (hgap : t.gap key = s.gap key)
    (hstep : s.step (.cancel u k type) = some t) :
    Without key t s' ∨ ∃ t', s'.step (.cancel u k type) = some t' ∧ Without key t t' := by
  obtain ⟨hfree, heq⟩ := Option.ite_none_right_eq_some.mp hstep
  obtain ⟨group, hgroup, heq⟩ := Option.bind_eq_some_iff.mp heq
  obtain ⟨hconnected, heq⟩ := Option.ite_none_right_eq_some.mp heq
  obtain rfl := Option.some.inj heq
  by_cases hk : k = key
  · subst hk
    refine Or.inl ?_
    split
    · exact h
    · rename_i htype
      rw [if_neg htype] at hgap
      exact h.called_own hfree (h.agrees.setOwn _) hgap rfl (by simp [Action.OfWait])
  · refine Or.inr ⟨_, (if_pos (h.free hfree)).trans (Option.bind_eq_some_iff.mpr
      ⟨group, (h.agrees.group hk).trans hgroup, if_pos hconnected⟩), ?_⟩
    split
    · exact h
    · rename_i htype
      rw [if_neg htype] at hgap
      exact h.called hfree (h.agrees.setGroup hk _) hgap rfl rfl
        (Action.forall_stays_self (by simp [Action.group?, Action.number?, hk]))

/-- A wait that a user makes on a listener is made without the wait. -/
theorem listenerWait (h : Without key s s') (hs : s.Waits key) (hgap : t.gap key = s.gap key)
    (hstep : s.step (.listenerWait u i tag) = some t) :
    ∃ t', s'.step (.listenerWait u i tag) = some t' ∧ Without key t t' := by
  obtain ⟨hfree, heq⟩ := Option.ite_none_right_eq_some.mp hstep
  obtain ⟨x', hx', heq⟩ := Option.bind_eq_some_iff.mp heq
  obtain ⟨s₁, hs₁, rfl⟩ := Option.map_eq_some_iff.mp heq
  obtain ⟨x, y, hcall, rfl⟩ := onListener_cases hs₁
  obtain rfl := Option.some.inj (hx'.symm.trans hcall.found)
  have hnumber := closeGap_next (hs.given hcall.found)
  refine ⟨_, (if_pos (h.free hfree)).trans
    (Option.bind_eq_some_iff.mpr ⟨_, h.agrees.found hcall.found,
    Option.map_eq_some_iff.mpr ⟨_, h.calls hs hcall rfl, rfl⟩⟩), ?_⟩
  refine h.called hfree (h.agrees.setListener i y) hgap rfl rfl
    (.cons ⟨by simp [Action.group?], ?_⟩ .nil)
  rw [Action.without, hnumber, Listener.without_core]
  rfl

/-- A cancellation of a wait on a listener is made without the wait, maybe under another number. -/
theorem listenerCancelWait {id : ℕ} (h : Without key s s') (hs : s.Waits key)
    (hgap : t.gap key = s.gap key) (hstep : s.step (.listenerCancelWait u i id) = some t) :
    ∃ number t', s'.step (.listenerCancelWait u i number) = some t' ∧ Without key t t' := by
  obtain ⟨hfree, heq⟩ := Option.ite_none_right_eq_some.mp hstep
  obtain ⟨x', hx', heq⟩ := Option.bind_eq_some_iff.mp heq
  obtain ⟨w, hw, heq⟩ := Option.bind_eq_some_iff.mp heq
  split at heq
  · rename_i tag huser
    obtain ⟨s₁, hs₁, rfl⟩ := Option.map_eq_some_iff.mp heq
    obtain ⟨x, y, hcall, rfl⟩ := onListener_cases hs₁
    obtain rfl := Option.some.inj (hx'.symm.trans hcall.found)
    have hid : w.id = id := by simpa using List.find?_some hw
    obtain ⟨number, hnumber⟩ : ∃ number, closeGap (s.gap key i) id = some number := by
      refine Option.ne_none_iff_exists'.mp fun hnone => ?_
      obtain ⟨j, hj⟩ :=
        (hs.gap_iff hx' (List.mem_of_find?_eq_some hw)).mp (hid ▸ closeGap_eq_none.mp hnone)
      simp [huser] at hj
    have hfound : ((x'.without (s.gap key i)).core.connectedWaits.find? fun w => w.id = number) =
        some { w with id := number } := by
      rw [Listener.without_core, ListenerCore.without_connectedWaits,
        find?_translate fun w _ => WaitOperation.without_any hnumber w, hw, Option.bind_some,
        WaitOperation.without, hid, hnumber]
      rfl
    have hcancel := h.calls hs hcall (Option.map_eq_some_iff.mpr ⟨number, hnumber, rfl⟩)
    have hposted : (Action.postCancel i id).without (s.gap key) = some (.postCancel i number) := by
      rw [Action.without, hnumber, Option.map_some]
    refine ⟨number, _, ?_,
      h.called hfree (h.agrees.setListener i y) hgap rfl rfl
      (.cons ⟨by simp [Action.group?], hposted⟩ .nil)⟩
    simp only [Server.step, h.free hfree, if_true, h.agrees.found hx', Option.bind_some, hfound,
      huser, hcancel, Option.map_some]
  · contradiction

end Without

end Server

end Serveza
