import Serveza.ServerWithout

/-!
# Actions of a server without one of its waits

An action that is carried out for something else has the same effect on the server without the
wait. An action that is carried out for the wait changes nothing there, if the wait finds the server
stopped at its end.
-/

namespace Serveza

open Foundation

namespace Server

variable {s s₁ s' : Server} {key k i index : ℕ} {gaps : ℕ → Option ℕ}
  {threw : Option FailingException} {a a' : Action} {first : List Action} {x y : Listener}
  {group : OperationGroup}

/-- A server that can be reached and in which a key stands for a wait, if it stands for anything. -/
structure Waits (s : Server) (key : ℕ) : Prop where
  reachable : Reachable step {} s
  wait : ∀ group, s.groups key = some group → group.wait = true

namespace Waits

/-- Somebody holds each listener. -/
theorem handles (hs : s.Waits key) (hx : s.listeners[i]? = some x) : 0 < x.core.handles :=
  handles_pos hs.reachable x (List.mem_of_getElem? hx)

/-- The number of the wait has been given out. -/
theorem given (hs : s.Waits key) (hx : s.listeners[i]? = some x) :
    ∀ n ∈ s.gap key i, 0 < n ∧ n ≤ x.core.nextWaiterId :=
  fun _ hn => gap_given (listeners_reached hs.reachable) hx hn

/-- A wait of a listener is the one of the operation exactly if it has a handler of the
operation. -/
theorem gap_iff (hs : s.Waits key) (hx : s.listeners[i]? = some x) {w : WaitOperation}
    (hw : w ∈ x.core.connectedWaits) :
    s.gap key i = some w.id ↔ ∃ index, w.handler = .child key index :=
  (sound_of_reachable hs.reachable).gap_iff (listeners_reached hs.reachable) hs.wait hx
    (connected_mem hw) rfl

end Waits

/-- The connected wait of a child is one of its listener, with its handler. -/
theorem childWait?_found {w : WaitOperation} (hw : s.childWait? k index = some w)
    (hx : s.listeners[index]? = some x) :
    w ∈ x.core.connectedWaits ∧ w.handler = .child k index := by
  rw [childWait?, hx, Option.bind_some] at hw
  exact ⟨List.mem_of_find?_eq_some hw, by simpa using List.find?_some hw⟩

/-- The wait of another child is found without the wait. -/
theorem Agrees.childWait (h : Agrees key (s.gap key) s s') (hs : s.Waits key) (hk : k ≠ key) :
    s'.childWait? k index = (s.childWait? k index).bind
      (WaitOperation.without (s.gap key index)) := by
  unfold childWait?
  rw [h.listeners]
  cases hx : s.listeners[index]? with
  | none => rfl
  | some x =>
    simp only [Option.map_some, Option.bind_some, Listener.without_core,
      ListenerCore.without_connectedWaits]
    refine find?_translate fun w hw => ?_
    cases hstays : closeGap (s.gap key index) w.id with
    | none =>
      obtain ⟨j, hj⟩ := (hs.gap_iff hx hw).mp (closeGap_eq_none.mp hstays)
      simp [WaitOperation.without, hstays, hj, Ne.symm hk]
    | some number => simp [WaitOperation.without, hstays]

/-- The actions that begin another operation's work stay. -/
theorem start_stays (hk : k ≠ key) (group : OperationGroup) :
    ∀ a ∈ group.start k, a.group? ≠ some key ∧ a.number? = none := by
  intro a ha
  refine ⟨?_, start_number group k a ha⟩
  rcases OperationGroup.start_mem ha with ⟨i, -, -, rfl⟩ | ⟨i, -, -, rfl⟩ | ⟨i, -, rfl⟩ <;>
    simpa [Action.group?] using hk

/-- The actions that a report leaves to another operation stay. -/
theorem one_stays (hk : k ≠ key) (group : OperationGroup) (report : Report) :
    ∀ a ∈ (group.one k report).2, a.group? ≠ some key ∧ a.number? = none := by
  intro a ha
  refine ⟨?_, one_number group k report a ha⟩
  rcases OperationGroup.one_mem ha with ⟨i, rfl⟩ | ⟨result, rfl⟩ <;> simp [Action.group?, hk]

/-- An action that is carried out for something else has the same effect. -/
theorem Agrees.perform (h : Agrees key (s.gap key) s s') (hs : s.Waits key)
    (hstays : a.Stays key (s.gap key) a') (hperform : s.perform threw a = some (s₁, first)) :
    ∃ s₁' first', s'.perform threw a' = some (s₁', first') ∧ Agrees key (s.gap key) s₁ s₁' ∧
      List.Forall₂ (Action.Stays key (s.gap key)) first first' := by
  have hother {k : ℕ} (hgroup : a.group? = some k) : k ≠ key :=
    fun hk => hstays.1 (hgroup.trans (congrArg some hk))
  have hcalled {i : ℕ} {call call' : CoreLabel} {x y : Listener} (hcall : s.Calls i call x y)
      (hl : call.without (s.gap key i) = some call') :
      s'.onListener i call' = some (s'.setListener i (y.without (s.gap key i))) :=
    h.call hcall (hs.handles hcall.found) (hs.given hcall.found) hl
  cases perform_cases hperform with
  | @begins _ k group control hgroup hcontrol =>
    obtain rfl := Option.some.inj hstays.2
    have hk := hother rfl
    refine ⟨{ s' with control := control }, _, ?_, h.setControl control,
      Action.forall_stays_self ?_⟩
    · simp only [Server.perform, h.group hk, hgroup, Option.map_some, h.control,
        h.statuses, hcontrol]
    · split
      · simp [Action.group?, Action.number?, hk]
      · intro a ha
        rcases List.mem_append.mp ha with ha | ha
        · exact start_stays hk group a ha
        · rw [List.mem_singleton.mp ha]
          exact ⟨by simpa [Action.group?] using hk, rfl⟩
  | @rejects _ k group control hgroup hcontrol =>
    obtain rfl := Option.some.inj hstays.2
    have hk := hother rfl
    refine ⟨_, [], ?_, (h.setControl control).setGroup hk _, .nil⟩
    simp only [Server.perform, h.group hk, hgroup, Option.map_some, h.control, h.statuses, hcontrol]
  | @startThrows e k index group hgroup =>
    obtain rfl := Option.some.inj hstays.2
    have hk := hother rfl
    refine ⟨_, [], ?_, h.setGroup hk _, .nil⟩
    simp only [Server.perform, h.group hk, hgroup, Option.bind_some]
  | @startsChild k index group x y hgroup hcall =>
    obtain rfl := Option.some.inj hstays.2
    have hk := hother rfl
    refine ⟨_, _, ?_, h.setListener index y,
      Action.forall_stays_self (by simp [Action.group?, Action.number?, hk])⟩
    simp only [Server.perform, h.group hk, hgroup, Option.bind_some,
      hcalled hcall rfl, Option.map_some]
  | @waitThrows e k index group hgroup =>
    obtain rfl := Option.some.inj hstays.2
    have hk := hother rfl
    refine ⟨_, [], ?_, h.setGroup hk _, .nil⟩
    simp only [Server.perform, h.group hk, hgroup, Option.bind_some]
  | @waitsChild k index group x y hgroup hcall =>
    obtain rfl := Option.some.inj hstays.2
    have hk := hother rfl
    have hnumber := closeGap_next (hs.given hcall.found)
    refine ⟨_, [.postWait index ((x.without (s.gap key index)).core.nextWaiterId + 1),
      .checkCancelled k index], ?_,
      h.setListener index y, .cons ⟨by simp [Action.group?], ?_⟩
      (.cons (Action.stays_self (by simpa [Action.group?] using hk) rfl) .nil)⟩
    · simp only [Server.perform, h.group hk, hgroup, Option.bind_some, h.found hcall.found,
        hcalled hcall rfl, Option.map_some]
    · rw [Action.without, hnumber, Listener.without_core]
      rfl
  | @postWait _ i id x y hcall =>
    obtain ⟨number, hnumber, rfl⟩ := Option.map_eq_some_iff.mp hstays.2
    refine ⟨_, [], ?_, h.setListener i y, .nil⟩
    rw [Server.perform, hcalled hcall (Option.map_eq_some_iff.mpr ⟨number, hnumber, rfl⟩),
      Option.map_some]
  | @checkCancelled _ k index group hgroup =>
    obtain rfl := Option.some.inj hstays.2
    have hk := hother rfl
    refine ⟨s', _, ?_, h, Action.forall_stays_self ?_⟩
    · simp only [Server.perform, h.group hk, hgroup, Option.map_some]
    · split <;> simp [Action.group?, Action.number?, hk]
  | @emitGone _ k index group hgroup hwait hgone =>
    obtain rfl := Option.some.inj hstays.2
    have hk := hother rfl
    refine ⟨s', [], ?_, h, .nil⟩
    simp only [Server.perform, h.group hk, hgroup, Option.bind_some, hwait, if_true,
      h.childWait hs hk, hgone, Option.bind_none]
  | @emitWait _ k index group w x y hgroup hwait hw hcall =>
    obtain rfl := Option.some.inj hstays.2
    have hk := hother rfl
    obtain ⟨hmem, hhandler⟩ := childWait?_found hw hcall.found
    obtain ⟨number, hnumber⟩ : ∃ number, closeGap (s.gap key index) w.id = some number := by
      refine Option.ne_none_iff_exists'.mp fun hnone => ?_
      obtain ⟨j, hj⟩ := (hs.gap_iff hcall.found hmem).mp (closeGap_eq_none.mp hnone)
      exact hk (CompletionHandler.child.inj (hhandler.symm.trans hj)).1
    have hstays : w.without (s.gap key index) = some { w with id := number } := by
      rw [WaitOperation.without, hnumber, Option.map_some]
    refine ⟨_, [.postCancel index number], ?_, h.setListener index y,
      .cons ⟨by simp [Action.group?], ?_⟩ .nil⟩
    · simp only [Server.perform, h.group hk, hgroup, Option.bind_some, hwait, if_true,
        h.childWait hs hk, hw, hstays,
        hcalled hcall (Option.map_eq_some_iff.mpr ⟨number, hnumber, rfl⟩), Option.map_some]
    · rw [Action.without, hnumber, Option.map_some]
  | @emitStart _ k index group x y hgroup hstart hcall =>
    obtain rfl := Option.some.inj hstays.2
    have hk := hother rfl
    refine ⟨_, [], ?_, h.setListener index y, .nil⟩
    simp only [Server.perform, h.group hk, hgroup, Option.bind_some, hstart, Bool.false_eq_true,
      if_false, hcalled hcall rfl, Option.map_some]
  | @postCancel _ i id x y hcall =>
    obtain ⟨number, hnumber, rfl⟩ := Option.map_eq_some_iff.mp hstays.2
    refine ⟨_, [], ?_, h.setListener i y, .nil⟩
    rw [Server.perform, hcalled hcall (Option.map_eq_some_iff.mpr ⟨number, hnumber, rfl⟩),
      Option.map_some]
  | @reports _ k index group ec hgroup hec hfailed =>
    obtain rfl := Option.some.inj hstays.2
    have hk := hother rfl
    refine ⟨_, _, ?_, h.setGroup hk _, Action.forall_stays_self (one_stays hk group _)⟩
    simp only [Server.perform, h.group hk, hgroup, Option.map_some, hec, Option.getD_some,
      hfailed, if_true, one]
  | @initiated _ k index group hgroup hec =>
    obtain rfl := Option.some.inj hstays.2
    have hk := hother rfl
    have hnone : ((group.initiationEcs[index]?).getD .success).failed = false := by
      cases hfound : group.initiationEcs[index]? with
      | none => rfl
      | some ec => exact hec ec hfound
    refine ⟨s', [], ?_, h, .nil⟩
    simp only [Server.perform, h.group hk, hgroup, Option.map_some, hnone,
      Bool.false_eq_true, if_false]
  | @recheck _ k group hgroup =>
    obtain rfl := Option.some.inj hstays.2
    have hk := hother rfl
    refine ⟨s', _, ?_, h, Action.forall_stays_self ?_⟩
    · simp only [Server.perform, h.group hk, hgroup, Option.map_some, h.control]
    · split <;> simp [OperationGroup.requestStop, Action.group?, Action.number?]
  | @stopReturns _ i x y hcall hstopped =>
    obtain rfl := Option.some.inj hstays.2
    have hstate : (x.without (s.gap key i)).core.state = .stopped := by
      rw [Listener.without_core]; exact hstopped
    refine ⟨_, [], ?_, h.setListener i y, .nil⟩
    simp only [Server.perform, h.found hcall.found, Option.bind_some, hcalled hcall rfl,
      Option.map_some, hstate, if_true]
  | @stopReads _ i x y hcall hopen =>
    obtain rfl := Option.some.inj hstays.2
    have hstate : (x.without (s.gap key i)).core.state ≠ .stopped := by
      rw [Listener.without_core]; exact hopen
    refine ⟨_, [.stopPost i], ?_, h.setListener i y,
      Action.forall_stays_self (by simp [Action.group?, Action.number?])⟩
    simp only [Server.perform, h.found hcall.found, Option.bind_some, hcalled hcall rfl,
      Option.map_some, hstate, if_false]
  | @stopPost _ i x y hcall =>
    obtain rfl := Option.some.inj hstays.2
    refine ⟨_, [], ?_, h.setListener i y, .nil⟩
    rw [Server.perform, hcalled hcall rfl, Option.map_some]
  | @finishStart _ k result group ec control hgroup hstart hcontrol =>
    obtain rfl := Option.some.inj hstays.2
    have hk := hother rfl
    refine ⟨_, [], ?_, (h.setControl control).setGroup hk _, .nil⟩
    simp only [Server.perform, h.group hk, hgroup, Option.map_some, hstart, Bool.false_eq_true,
      if_false, h.control, h.statuses, hcontrol]
  | @finishWait _ k result group ec control hgroup hwait hcontrol =>
    obtain rfl := Option.some.inj hstays.2
    have hk := hother rfl
    refine ⟨_, [], ?_, (h.setControl control).setGroup hk _, .nil⟩
    simp only [Server.perform, h.group hk, hgroup, Option.map_some, hwait, if_true, h.control,
      h.statuses, hcontrol]
  | unlock =>
    obtain rfl := Option.some.inj hstays.2
    exact ⟨s', [], rfl, h, .nil⟩
  | release =>
    obtain rfl := Option.some.inj hstays.2
    exact ⟨s', [], rfl, h, .nil⟩

/-- The wait that a listener has just made for the operation is the one it has. -/
theorem Waits.gap_begun (ht : s₁.Waits key) (hy : s₁.listeners[i]? = some y)
    (hpos : 0 < x.core.handles) (hstep : x.step (x.off (.beginWait (.child key i))) = some y) :
    s₁.gap key i = some (x.core.nextWaiterId + 1) := by
  obtain ⟨c, hc, rfl⟩ := (Listener.step_off_iff hpos).mp hstep
  obtain rfl : _ = c := Option.some.inj ((if_pos hpos).symm.trans hc)
  have hcore (x : Listener) (c : ListenerCore) : (x.withCore c).core = c := by cases x <;> rfl
  refine (ht.gap_iff hy (w := ⟨x.core.nextWaiterId + 1, .child key i⟩) ?_).mpr ⟨i, rfl⟩
  rw [hcore]
  simp [ListenerCore.connectedWaits]

/-- A child of the wait is initiated, and without the wait nothing is. -/
theorem Agrees.initiate (h : Agrees key (s.gap key) s s') (hs : s.Waits key)
    (hmem : .waitChild key index ∈ s.actions)
    (hcall : s.Calls index (.beginWait (.child key index)) x y) {gaps : ℕ → Option ℕ}
    (hnew : gaps index = some (x.core.nextWaiterId + 1))
    (hold : ∀ j, j ≠ index → gaps j = s.gap key j) :
    Agrees key gaps (s.setListener index y) s' := by
  have hfresh := (sound_of_reachable hs.reachable).gap_fresh hmem
  have hlt : index < s.listeners.length := (List.getElem?_eq_some_iff.mp hcall.found).1
  refine ⟨h.control, h.groups, fun j => (h.listeners j).trans ?_⟩
  change _ = ((s.listeners.set index y)[j]?).map _
  by_cases hj : j = index
  · subst hj
    have hnumbered := (listeners_reached hs.reachable x (List.mem_of_getElem? hcall.found)).numbered
    rw [List.getElem?_set_self hlt, hcall.found, hfresh, hnew, Option.map_some, Option.map_some,
      Listener.without_none, Listener.without_begun hnumbered (hs.handles hcall.found) hcall.step]
  · rw [List.getElem?_set_ne (Ne.symm hj), hold j hj]

/-- An action that is carried out for the wait changes nothing else, if the wait finds the server
stopped at its end. -/
theorem Agrees.perform_own (h : Agrees key (s.gap key) s s') (hs : s.Waits key)
    (hmem : a ∈ s.actions) (hown : a.OfWait key (s.gap key))
    (hstopped : ∀ result, a = .finish key result → s.control.state = .stopped)
    (hperform : s.perform threw a = some (s₁, first)) {u : ℕ} {actions : List Action}
    (ht : (s₁.resume u actions).Waits key)
    (hgaps : ∀ j, a ≠ .waitChild key j → s₁.gap key j = s.gap key j) :
    Agrees key (s₁.gap key) s₁ s' ∧ ∀ a ∈ first, a.OfWait key (s₁.gap key) := by
  have hgone {i : ℕ} {call : CoreLabel} {x y : Listener} (hcall : s.Calls i call x y)
      (hl : call.without (s.gap key i) = none) : Agrees key (s.gap key) (s.setListener i y) s' :=
    h.setListener_same hcall.found (Listener.without_off_gap (hs.handles hcall.found) hl hcall.step)
  cases perform_cases hperform with
  | waitThrows hgroup =>
    obtain rfl := hown
    exact ⟨h.setOwn _, by simp⟩
  | @waitsChild k index group x y hgroup hcall =>
    obtain rfl := hown
    have hlt : index < s.listeners.length := (List.getElem?_eq_some_iff.mp hcall.found).1
    have hnew := ht.gap_begun (List.getElem?_set_self hlt) (hs.handles hcall.found) hcall.step
    refine ⟨h.initiate hs hmem hcall hnew fun j hj => hgaps j ?_, ?_⟩
    · simpa using Ne.symm hj
    · intro a ha
      rcases List.mem_cons.mp ha with rfl | ha
      · exact hnew
      · rw [List.mem_singleton.mp ha]
        exact rfl
  | startThrows | startsChild | begins | rejects | recheck | stopReturns | stopReads | stopPost
  | unlock => contradiction
  | @postWait _ i id x y hcall =>
    rw [funext fun j => hgaps j (by simp)]
    exact ⟨hgone hcall (Option.map_eq_none_iff.mpr (closeGap_eq_none.mpr hown)), by simp⟩
  | @postCancel _ i id x y hcall =>
    rw [funext fun j => hgaps j (by simp)]
    exact ⟨hgone hcall (Option.map_eq_none_iff.mpr (closeGap_eq_none.mpr hown)), by simp⟩
  | checkCancelled hgroup =>
    obtain rfl := hown
    refine ⟨h, ?_⟩
    split <;> simp [Action.OfWait]
  | emitGone hgroup hwait hgone => exact ⟨h, by simp⟩
  | @emitWait _ k index group w x y hgroup hwait hw hcall =>
    obtain rfl := hown
    obtain ⟨hconnected, hhandler⟩ := childWait?_found hw hcall.found
    have hgap := (hs.gap_iff hcall.found hconnected).mpr ⟨index, hhandler⟩
    rw [funext fun j => hgaps j (by simp)]
    refine ⟨hgone hcall (Option.map_eq_none_iff.mpr (closeGap_eq_none.mpr hgap)), fun a ha => ?_⟩
    rw [List.mem_singleton.mp ha]
    exact hgap
  | emitStart hgroup hstart hcall =>
    obtain rfl := hown
    simp [hs.wait _ hgroup] at hstart
  | @reports _ k index group ec hgroup hec hfailed =>
    obtain rfl := hown
    refine ⟨h.setOwn _, fun a ha => ?_⟩
    have hwait := hs.wait _ hgroup
    simp only [OperationGroup.one, hwait, Bool.not_true, Bool.and_false, Bool.false_eq_true,
      if_false, List.nil_append] at ha
    split at ha
    · rw [List.mem_singleton.mp ha]
      exact rfl
    · simp at ha
  | initiated => exact ⟨h, by simp⟩
  | finishStart hgroup hstart hcontrol =>
    obtain rfl := hown
    simp [hs.wait _ hgroup] at hstart
  | finishWait hgroup hwait hcontrol =>
    obtain rfl := hown
    obtain ⟨-, rfl⟩ := Prod.mk.inj hcontrol
    have hstate := hstopped _ rfl
    refine ⟨?_, by simp⟩
    rw [if_pos hstate]
    exact h.setOwn _
  | release => exact ⟨h, by simp⟩

end Server

end Serveza
