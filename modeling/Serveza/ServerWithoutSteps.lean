import Serveza.ServerWithoutCalls

/-!
# Steps of a server without one of its waits

Each step of a server is a step of the server without the wait, under the same label but for the
numbers of waits, or it is none.
-/

namespace Serveza

open Foundation

/-- The label without the number of a wait. -/
def ServerLabel.unnumbered : ServerLabel → ServerLabel
  | .listenerCancelWait t i _ => .listenerCancelWait t i 0
  | l => l

namespace Server

variable {s s₁ s₁' s' t : Server} {l : ServerLabel} {key k u i : ℕ} {a : Action}
  {actions actions' : List Action} {x y : Listener}

/-- The wait that is made on a listener gets a number that no action refers to. -/
theorem Waits.renumbers (hs : s.Waits key) {threw : Option FailingException} {first : List Action}
    (ht : (s₁.resume u actions).Waits key) (hmem : .waitChild key i ∈ s.actions)
    (hperform : s.perform threw (.waitChild key i) = some (s₁, first)) :
    s₁.gap key i = s.gap key i ∨
      s.gap key i = none ∧ ∀ a ∈ s.actions, ∀ n, a.number? = some (i, n) →
      closeGap (s₁.gap key i) n = some n := by
  cases perform_cases hperform with
  | waitThrows hgroup => exact Or.inl rfl
  | @waitsChild _ _ group x y hgroup hcall =>
    have hlt : i < s.listeners.length := (List.getElem?_eq_some_iff.mp hcall.found).1
    have hnew := ht.gap_begun (List.getElem?_set_self hlt) (hs.handles hcall.found) hcall.step
    refine Or.inr ⟨(sound_of_reachable hs.reachable).gap_fresh hmem, fun a ha n hn => ?_⟩
    obtain ⟨x', hx', hle⟩ := numbersGiven_of_reachable hs.reachable a ha i n hn
    obtain rfl := Option.some.inj (hcall.found.symm.trans hx')
    have hnew : (s.setListener i y).gap key i = _ := hnew
    rw [hnew]
    exact closeGap_below (Nat.lt_succ_of_le hle)

/-- The completion of a wait is the one of the operation exactly if it has a handler of the
operation. -/
theorem Waits.completion_iff (hs : s.Waits key) (hx : s.listeners[i]? = some x) {q : Completion}
    (hq : q ∈ x.core.completed) :
    q.without (s.gap key i) = none ↔ ∃ index, q.handler = .child key index := by
  have hsound := sound_of_reachable hs.reachable
  have hmem : q.operation ∈ x.core.operations := by
    simp only [ListenerCore.operations, List.mem_append]
    rcases List.mem_append.mp hq with hq | hq
    · exact Or.inr (List.mem_map_of_mem hq)
    · obtain ⟨m, hm, hcompletion⟩ := List.mem_filterMap.mp hq
      refine Or.inl (Or.inl (Or.inr (List.mem_filterMap.mpr ⟨m, hm, ?_⟩)))
      cases m with
      | complete r => exact congrArg (fun r => some r.operation) (Option.some.inj hcompletion)
      | _ => contradiction
  have hgap {n : ℕ} (hwait : q.wait = some n) : q.without (s.gap key i) = none ↔
      s.gap key i = some n := by
    rw [Completion.without, hwait]
    exact Option.map_eq_none_iff.trans closeGap_eq_none
  cases hwait : q.wait with
  | none =>
    refine ⟨fun hnone => ?_, fun hchild => ?_⟩
    · simp [Completion.without, hwait] at hnone
    · obtain ⟨index, hhandler⟩ := hchild
      have hsome := (hsound.placed.child_wait hs.wait hx hmem hhandler).2
      simp [Completion.operation, hwait] at hsome
  | some n =>
    rw [hgap hwait]
    exact hsound.gap_iff (listeners_reached hs.reachable) hs.wait hx hmem hwait

/-- What is left to do after a step of a listener: the handler of a completion is called. -/
def settle (s : Server) (thread listener : ℕ) : StepKind → Server
  | .deliver completion => s.delivered thread listener completion
  | _ => s

/-- A step that delivers nothing leaves nothing to do. -/
theorem settle_eq {kind : StepKind} (h : ∀ q, kind ≠ .deliver q) : s.settle u i kind = s := by
  cases kind with
  | deliver q => exact absurd rfl (h q)
  | _ => rfl

/-- A step of a listener as a step of its server. -/
theorem step_listener {l : ListenerLabel} : s.step (.listener u i l) = some t ↔
    s.isFree u = true ∧ l.isInternal = true ∧ (l.isOnStrand = true → .release i ∉ s.actions) ∧
      ∃ x y, s.listeners[i]? = some x ∧ x.step l = some y ∧
      (s.setListener i y).settle u i (x.kind l) = t := by
  constructor
  · intro h
    obtain ⟨⟨hfree, hinternal, hstrand⟩, h⟩ := Option.ite_none_right_eq_some.mp h
    obtain ⟨x, hx, h⟩ := Option.bind_eq_some_iff.mp h
    obtain ⟨r, hr, h⟩ := Option.map_eq_some_iff.mp h
    obtain ⟨x', hx', hr⟩ := Option.bind_eq_some_iff.mp hr
    obtain rfl := Option.some.inj (hx.symm.trans hx')
    obtain ⟨y, hy, rfl⟩ := Option.map_eq_some_iff.mp hr
    refine ⟨hfree, hinternal, hstrand, x, y, hx, hy, h ▸ ?_⟩
    cases x.kind l <;> rfl
  · rintro ⟨hfree, hinternal, hstrand, x, y, hx, hy, rfl⟩
    refine Option.ite_none_right_eq_some.mpr
      ⟨⟨hfree, hinternal, hstrand⟩, Option.bind_eq_some_iff.mpr ⟨x, hx, ?_⟩⟩
    refine Option.map_eq_some_iff.mpr
      ⟨_, Option.bind_eq_some_iff.mpr ⟨x, hx, Option.map_eq_some_iff.mpr ⟨y, hy, rfl⟩⟩, ?_⟩
    cases x.kind l <;> rfl

namespace Without

/-- The next action of a thread is carried out without the wait, or it is one of the wait. -/
theorem proceed (h : Without key s s') (hs : s.Waits key) (ht : t.Waits key)
    {threw : Option FailingException}
    (hfinish : ∀ result, s.next u = some (.finish key result) → s.control.state = .stopped)
    (hstep : s.step (.proceed u threw) = some t) :
    Without key t s' ∨ ∃ t', s'.step (.proceed u threw) = some t' ∧ Without key t t' := by
  have hkept (j : ℕ) (hne : s.next u ≠ some (.waitChild key j)) : t.gap key j = s.gap key j := by
    refine hs.gap_eq ht hstep fun u' threw' hl => ?_
    obtain ⟨rfl, -⟩ := ServerLabel.proceed.inj hl
    exact hne
  obtain ⟨⟨u', actions⟩, hfind, hrest⟩ := Option.bind_eq_some_iff.mp hstep
  obtain rfl : u' = u := by simpa using List.find?_some hfind
  cases actions with
  | nil => contradiction
  | cons a rest =>
    obtain ⟨⟨s₁, first⟩, hperform, rfl⟩ := Option.map_eq_some_iff.mp hrest
    have hnext : s.next u' = some a := by rw [next, hfind]; rfl
    have hmem : a ∈ s.actions :=
      List.mem_flatMap.mpr ⟨_, List.mem_of_find?_eq_some hfind, List.mem_cons_self⟩
    have hthreads₁ := perform_threads hperform
    have hgaps (j : ℕ) (hne : a ≠ .waitChild key j) : s₁.gap key j = s.gap key j :=
      hkept j fun hwait => hne (Option.some.inj (hnext.symm.trans hwait))
    rcases h.threads.find hfind with ⟨hown, hthreads⟩ | ⟨actions', hactions, hfind', hthreads⟩
    · have hnew : Renumbers (s.gap key) (s₁.gap key) s.actions := by
        intro j
        by_cases hwait : a = .waitChild key j
        · subst hwait
          exact hs.renumbers ht hmem hperform
        · exact Or.inl (hgaps j hwait)
      obtain ⟨hagrees, hfirst⟩ := h.agrees.perform_own hs hmem (hown a List.mem_cons_self)
        (fun result hresult => hfinish result (hresult ▸ hnext)) hperform ht hgaps
      refine Or.inl ⟨⟨hagrees.control, hagrees.groups, hagrees.listeners⟩, ?_⟩
      change ThreadsWithout key (s₁.gap key) (s₁.resume u' (first ++ rest)).threads _
      rw [resume, hthreads₁]
      have hothers : Renumbers (s.gap key) (s₁.gap key)
          ((s.threads.eraseP fun e => e.1 = u').flatMap Prod.snd) := by
        refine fun j => (hnew j).imp_right fun hj => ⟨hj.1, fun a ha => hj.2 a ?_⟩
        obtain ⟨e, he, hmem⟩ := List.mem_flatMap.mp ha
        exact List.mem_flatMap.mpr ⟨e, List.mem_of_mem_eraseP he, hmem⟩
      refine (hthreads.renumber hothers).resume_own fun a ha => ?_
      rcases List.mem_append.mp ha with ha | ha
      · exact hfirst a ha
      · exact (hown a (List.mem_cons_of_mem _ ha)).renumber hnew
    · cases hactions with
      | @cons _ a' _ rest' hstays hrest =>
        have hgap : s₁.gap key = s.gap key := by
          refine funext fun j => hgaps j ?_
          rintro rfl
          exact hstays.1 rfl
        obtain ⟨s₁', first', hperform', hagrees, hfirst⟩ := h.agrees.perform hs hstays hperform
        refine Or.inr ⟨s₁'.resume u' (first' ++ rest'), ?_, ?_, ?_⟩
        · simp only [Server.step, hfind', Option.bind_some, hperform', Option.map_some]
        · change Agrees key (s₁.gap key) _ _
          rw [hgap]
          exact ⟨hagrees.control, hagrees.groups, hagrees.listeners⟩
        · change ThreadsWithout key (s₁.gap key) (s₁.resume u' (first ++ rest)).threads _
          rw [hgap, resume, resume, hthreads₁, perform_threads hperform']
          exact hthreads.resume (List.rel_append hfirst hrest)

/-- The handler of a child of the wait is called. -/
theorem delivers_own (h : Without key s s') (hs : s.Waits key) (hfree : s.isFree u = true)
    {r : Server} {q : Completion} {index : ℕ} (hr : Agrees key (s.gap key) r s')
    (hgap : (r.delivered u i q).gap key = s.gap key) (hthreads : r.threads = s.threads)
    (hgroups : r.groups = s.groups) (hhandler : q.handler = .child key index) :
    Without key (r.delivered u i q) s' := by
  unfold delivered at hgap ⊢
  rw [hhandler] at hgap ⊢
  dsimp only at hgap ⊢
  cases hgroup : r.groups key with
  | none =>
    rw [hgroup] at hgap
    refine ⟨?_, ?_⟩
    · rw [hgap]
      exact hr
    · rw [hgap, hthreads]
      exact h.threads
  | some group =>
    rw [hgroup] at hgap
    refine h.called_own hfree (hr.setOwn _) hgap hthreads fun a ha => ?_
    have hwait := hs.wait _ (hgroups ▸ hgroup)
    split at ha
    · simp at ha
    · rcases List.mem_append.mp ha with ha | ha
      · simp only [one, OperationGroup.one, hwait, Bool.not_true, Bool.and_false,
          Bool.false_eq_true, if_false, List.nil_append] at ha
        split at ha
        · rw [List.mem_singleton.mp ha]
          exact rfl
        · simp at ha
      · rw [List.mem_singleton.mp ha]
        trivial

/-- The handler of another operation is called. -/
theorem delivers (h : Without key s s') (hfree : s.isFree u = true) {r r' : Server}
    {q q' : Completion} (hr : Agrees key (s.gap key) r r')
    (hgap : (r.delivered u i q).gap key = s.gap key) (hthreads : r.threads = s.threads)
    (hthreads' : r'.threads = s'.threads) (hhandler : ∀ index, q.handler ≠ .child key index)
    (hsame : q'.handler = q.handler ∧ q'.error = q.error ∧ q'.cause = q.cause) :
    Without key (r.delivered u i q) (r'.delivered u i q') := by
  obtain ⟨hsame, herror, hcause⟩ := hsame
  unfold delivered at hgap ⊢
  rw [hsame, herror, hcause]
  cases hq : q.handler with
  | user tag =>
    rw [hq] at hgap
    exact h.direct hr hgap hthreads hthreads'
  | child k index =>
    rw [hq] at hgap
    have hk : k ≠ key := fun hk => hhandler index (hk ▸ hq)
    dsimp only at hgap ⊢
    rw [hr.group hk]
    cases hgroup : r.groups k with
    | none =>
      rw [hgroup] at hgap
      exact h.direct hr hgap hthreads hthreads'
    | some group =>
      rw [hgroup] at hgap
      refine h.called hfree (hr.setGroup hk _) hgap hthreads hthreads' (Action.forall_stays_self ?_)
      split
      · simp
      · intro a ha
        rcases List.mem_append.mp ha with ha | ha
        · exact one_stays hk group _ a ha
        · rw [List.mem_singleton.mp ha]
          exact ⟨by simp [Action.group?], rfl⟩

/-- A step of a listener is one without the wait, or it is about the wait. -/
theorem internal (h : Without key s s') (hs : s.Waits key) (ht : t.Waits key) {l : ListenerLabel}
    (hstep : s.step (.listener u i l) = some t) :
    Without key t s' ∨ ∃ t', s'.step (.listener u i l) = some t' ∧ Without key t t' := by
  have hgap : t.gap key = s.gap key := funext fun j => hs.gap_eq ht hstep (by simp)
  obtain ⟨hfree, hinternal, hstrand, x, y, hx, hlstep, rfl⟩ := step_listener.mp hstep
  have hrun {t' : Server} (hlstep' : (x.without (s.gap key i)).step l =
      some (y.without (s.gap key i)))
      (ht' : (s'.setListener i (y.without (s.gap key i))).settle u i
        ((x.without (s.gap key i)).kind l) = t') :
      s'.step (.listener u i l) = some t' :=
    step_listener.mpr ⟨h.free hfree, hinternal, fun hl => h.not_mem rfl (hstrand hl), _, _,
      h.agrees.found hx, hlstep', ht'⟩
  cases Listener.without_internal (hs.handles hx) (hs.given hx) hinternal hlstep with
  | goes heq hkind =>
    have hagrees := h.agrees.setListener_same hx heq
    refine Or.inl ?_
    cases hdeliver : x.kind l with
    | deliver q =>
      rw [hdeliver] at hgap
      obtain ⟨index, hhandler⟩ :=
        (hs.completion_iff hx (delivered_mem hlstep hdeliver)).mp (hkind q hdeliver)
      exact h.delivers_own hs hfree hagrees hgap rfl rfl hhandler
    | off | cancelWait | force | handler =>
      rw [hdeliver] at hgap
      exact h.direct hagrees hgap rfl rfl
  | @delivers q q' hkind hq hkind' hlstep' =>
    rw [hkind] at hgap ⊢
    refine Or.inr ⟨_, hrun hlstep' rfl, ?_⟩
    rw [hkind']
    refine h.delivers hfree (h.agrees.setListener i y) hgap rfl rfl (fun index hhandler => ?_) ?_
    · have hnone := (hs.completion_iff hx (delivered_mem hlstep hkind)).mpr ⟨index, hhandler⟩
      simp [hnone] at hq
    · unfold Completion.without at hq
      split at hq
      · obtain rfl := Option.some.inj hq
        exact ⟨rfl, rfl, rfl⟩
      · obtain ⟨number, -, rfl⟩ := Option.map_eq_some_iff.mp hq
        exact ⟨rfl, rfl, rfl⟩
  | stays hkind hkind' hlstep' =>
    rw [settle_eq hkind] at hgap ⊢
    exact Or.inr ⟨_, hrun hlstep' (settle_eq hkind'),
      h.direct (h.agrees.setListener i y) hgap rfl rfl⟩

/-- Each step is one without the wait, under the same label but for the number of a wait, or
none. -/
theorem step (h : Without key s s') (hs : s.Waits key) (ht : t.Waits key)
    (hfinish : ∀ u threw result, l = .proceed u threw → s.next u = some (.finish key result) →
      s.control.state = .stopped)
    (hstep : s.step l = some t) :
    Without key t s' ∨ ∃ l' t', s'.step l' = some t' ∧ l'.unnumbered = l.unnumbered ∧
    Without key t t' := by
  have hsame (hl : Without key t s' ∨ ∃ t', s'.step l = some t' ∧ Without key t t') :
      Without key t s' ∨ ∃ l' t', s'.step l' = some t' ∧
      l'.unnumbered = l.unnumbered ∧ Without key t t' :=
    hl.imp_right fun ⟨t', hstep', ht'⟩ => ⟨l, t', hstep', rfl, ht'⟩
  have hgap (hl : ∀ u threw, l ≠ .proceed u threw) : t.gap key = s.gap key :=
    funext fun j => hs.gap_eq ht hstep fun u threw h => absurd h (hl u threw)
  cases l with
  | addListener config =>
    have hgap := hgap (by simp)
    obtain ⟨hopen, heq⟩ := Option.ite_none_left_eq_some.mp hstep
    obtain rfl := Option.some.inj heq
    have hnew : s.gap key s.listeners.length = none := by
      rw [gap, List.getElem?_eq_none le_rfl, Option.bind_none]
    refine hsame (Or.inr ⟨s'.addListener config, if_neg (h.not_mem rfl hopen), ?_⟩)
    exact h.direct (h.agrees.addListener config hnew) hgap rfl rfl
  | asyncStart u k => exact hsame (.inr (h.asyncStart ht (hgap (by simp)) hstep))
  | asyncWait u k => exact hsame (h.asyncWait (hgap (by simp)) hstep)
  | requestStop u => exact hsame (.inr (h.requestStop (hgap (by simp)) hstep))
  | cancel u k type => exact hsame (h.cancel (hgap (by simp)) hstep)
  | listenerStart i tag =>
    have hgap := hgap (by simp)
    obtain ⟨x, y, hcall, rfl⟩ := onListener_cases hstep
    exact hsame (Or.inr ⟨_, h.calls hs hcall rfl, h.direct (h.agrees.setListener i y) hgap rfl rfl⟩)
  | listenerCancelStart i tag =>
    have hgap := hgap (by simp)
    obtain ⟨x, y, hcall, rfl⟩ := onListener_cases hstep
    exact hsame (Or.inr ⟨_, h.calls hs hcall rfl, h.direct (h.agrees.setListener i y) hgap rfl rfl⟩)
  | listenerWait u i tag => exact hsame (.inr (h.listenerWait hs (hgap (by simp)) hstep))
  | listenerCancelWait u i id =>
    obtain ⟨number, t', hstep', ht'⟩ := h.listenerCancelWait hs (hgap (by simp)) hstep
    exact Or.inr ⟨.listenerCancelWait u i number, t', hstep', rfl, ht'⟩
  | listenerStop u i =>
    have hgap := hgap (by simp)
    obtain ⟨⟨hfree, hlt⟩, heq⟩ := Option.ite_none_right_eq_some.mp hstep
    obtain rfl := Option.some.inj heq
    refine hsame (Or.inr ⟨_, if_pos ⟨h.free hfree, h.agrees.length ▸ hlt⟩, ?_⟩)
    exact h.called hfree h.agrees hgap rfl rfl
      (Action.forall_stays_self (by simp [Action.group?, Action.number?]))
  | proceed u threw =>
    exact hsame (h.proceed hs ht (fun result hnext => hfinish u threw result rfl hnext) hstep)
  | listener u i l => exact hsame (h.internal hs ht hstep)

end Without

end Server

end Serveza
