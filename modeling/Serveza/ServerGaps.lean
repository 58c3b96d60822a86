import Serveza.LastReference
import Serveza.ServerReports
import Serveza.WaitNumbers

/-!
# The waits that one operation has made

A wait of a server makes one wait on each listener of its snapshot. Its number is found among the
operations of the listener, where it stays; it is the only one with its handler, and no other wait
of the listener has that number.
-/

namespace Serveza

open Foundation

/-- The operations of a listener, in all the places they can be. -/
def ListenerCore.operations (c : ListenerCore) : List Operation :=
  c.initiating.map WaitOperation.operation ++ c.strand.filterMap Message.operation? ++
    c.waiters.map WaitOperation.operation ++ c.delivered.map Completion.operation

/-- The number of the wait with a given handler. -/
def ListenerCore.waitNumber (c : ListenerCore) (handler : CompletionHandler) : Option ℕ :=
  c.operations.findSome? fun o => if o.handler = handler then o.wait else none

/-- The operations of a description are counted among all. -/
theorem tally_eq_countP (p : Operation → Bool) (c : ListenerCore) :
    tally p c = c.operations.countP p := by
  simp only [tally, ListenerCore.operations, List.countP_append, List.countP_map, Function.comp_def]

/-- A connected wait is an operation. -/
theorem connected_mem {c : ListenerCore} {w : WaitOperation} (hw : w ∈ c.connectedWaits) :
    w.operation ∈ c.operations := by
  simp only [ListenerCore.connectedWaits, List.mem_append] at hw
  simp only [ListenerCore.operations, List.mem_append]
  rcases hw with (hw | hw) | hw
  · exact Or.inl (Or.inl (Or.inl (List.mem_map_of_mem hw)))
  · obtain ⟨m, hm, hwait⟩ := List.mem_filterMap.mp hw
    refine Or.inl (Or.inl (Or.inr (List.mem_filterMap.mpr ⟨m, hm, ?_⟩)))
    cases m with
    | wait v => exact congrArg (fun w => some w.operation) (Option.some.inj hwait)
    | _ => contradiction
  · exact Or.inl (Or.inr (List.mem_map_of_mem hw))

/-- Of the entries counted once there is one. -/
theorem eq_of_countP_le_one {α : Type} {p : α → Bool} {l : List α} (h : l.countP p ≤ 1) {a b : α}
    (ha : a ∈ l) (hb : b ∈ l) (hpa : p a = true) (hpb : p b = true) : a = b := by
  rw [List.countP_eq_length_filter] at h
  have ha := List.mem_filter.mpr ⟨ha, hpa⟩
  have hb := List.mem_filter.mpr ⟨hb, hpb⟩
  cases hfilter : l.filter p with
  | nil => simp [hfilter] at ha
  | cons x rest =>
    obtain rfl : rest = [] := by simpa [hfilter] using h
    rw [hfilter] at ha hb
    exact (List.mem_singleton.mp ha).trans (List.mem_singleton.mp hb).symm

/-- The number of a wait belongs to an operation with its handler. -/
theorem waitNumber_mem {c : ListenerCore} {handler : CompletionHandler} {n : ℕ}
    (h : c.waitNumber handler = some n) :
    ⟨handler, some n⟩ ∈ c.operations := by
  obtain ⟨o, ho, heq⟩ := List.exists_of_findSome?_eq_some h
  obtain ⟨rfl, hwait⟩ := Option.ite_none_right_eq_some.mp heq
  rwa [← hwait]

/-- The number of the only wait with a handler is found. -/
theorem waitNumber_eq_some {c : ListenerCore} {handler : CompletionHandler} {n : ℕ}
    (hunique : tally (withHandler handler) c ≤ 1) :
    c.waitNumber handler = some n ↔ ⟨handler, some n⟩ ∈ c.operations := by
  refine ⟨waitNumber_mem, fun hmem => ?_⟩
  cases hnumber : c.waitNumber handler with
  | none =>
    have hnone := List.findSome?_eq_none_iff.mp hnumber _ hmem
    simp at hnone
  | some m =>
    rw [tally_eq_countP] at hunique
    have hsame := eq_of_countP_le_one hunique (waitNumber_mem hnumber) hmem (decide_eq_true rfl)
      (decide_eq_true rfl)
    injection hsame

namespace Server

variable {s s₁ t : Server} {l : ServerLabel} {done added : List Action} {key i n : ℕ}
  {x y : Listener}

/-- The number of the wait that an operation has made on a listener. -/
def gap (s : Server) (key i : ℕ) : Option ℕ :=
  (s.listeners[i]?).bind fun x => x.core.waitNumber (.child key i)

/-- An operation has at most one child on a listener. -/
theorem Sound.tallyAt_le (h : s.Sound) (key i : ℕ) : s.tallyAt i key i ≤ 1 := by
  have haccounted := h.accounted key
  unfold Accounted at haccounted
  split at haccounted
  · exact (haccounted.tally i).le.trans (Nat.zero_le 1)
  · rcases haccounted with hunbegun | hrejected | hbegun
    · exact (hunbegun.tally i).le.trans (Nat.zero_le 1)
    · exact (hrejected.blank.tally i).le.trans (Nat.zero_le 1)
    · have hchild : s.tallyAt i key i ≤ if i < _ then 1 else 0 :=
        (Nat.le_add_left _ _).trans ((Nat.le_add_right _ _).trans_eq (hbegun.child i))
      split at hchild <;> omega

/-- The connected waits of one child are the same. -/
theorem Sound.child_unique (h : s.Sound) (hx : s.listeners[i]? = some x) {v w : WaitOperation}
    (hv : v ∈ x.core.connectedWaits) (hw : w ∈ x.core.connectedWaits)
    (hvh : v.handler = .child key i) (hwh : w.handler = .child key i) : v.id = w.id := by
  have hunique := h.tallyAt_le key i
  simp only [tallyAt, countAt, hx, Option.map_some, Option.getD_some, tally_eq_countP] at hunique
  have hsame := eq_of_countP_le_one hunique (connected_mem hv) (connected_mem hw)
    (decide_eq_true hvh) (decide_eq_true hwh)
  exact Option.some.inj (congrArg Operation.wait hsame)

/-- The number of the wait that an operation has made on a listener belongs to one of its
operations. -/
theorem Sound.gap_eq_some (h : s.Sound) :
    s.gap key i = some n ↔ 0 < s.countAt i fun o => o = ⟨.child key i, some n⟩ := by
  have hunique := h.tallyAt_le key i
  unfold gap tallyAt countAt at *
  cases hx : s.listeners[i]? with
  | none => simp
  | some x =>
    simp only [hx, Option.map_some, Option.getD_some, Option.bind_some] at hunique ⊢
    rw [waitNumber_eq_some hunique, tally_eq_countP, List.countP_pos_iff]
    simp

/-- An operation keeps the wait it has made on a listener. -/
theorem gap_step (hs : s.Sound) (ht : t.Sound) (heffect : Effect s l done t i)
    (hdone : done ≠ [.waitChild key i]) :
    t.gap key i = s.gap key i := by
  refine Option.ext fun n => ?_
  have hcount : (t.countAt i fun o => o = ⟨.child key i, some n⟩) = s.countAt i fun o => o =
      ⟨.child key i, some n⟩ := by
    refine heffect.countAt (fun tag wait => by simp) (fun k _ => by simp) fun k id hk => ?_
    have hne : k ≠ key := by
      rintro rfl
      exact hdone hk
    simp [hne]
  rw [ht.gap_eq_some, hs.gap_eq_some, hcount]

/-- An operation of a listener with the handler of a child is a wait of that child, if its
operation is a wait. -/
theorem Placed.child_wait (h : s.Placed)
    (hkey : ∀ group, s.groups key = some group → group.wait = true) (hx : s.listeners[i]? = some x)
    {o : Operation} (ho : o ∈ x.core.operations) {index : ℕ}
    (hhandler : o.handler = .child key index) : index = i ∧ o.wait.isSome = true := by
  have hnone := h.misplaced key i true hkey
  simp only [countAt, hx, Option.map_some, Option.getD_some, tally_eq_countP] at hnone
  have hplaced := List.countP_eq_zero.mp hnone o ho
  simpa [Operation.isMisplaced, hhandler, Option.isSome_iff_ne_none] using hplaced

/-- The wait of a listener with the number of an operation's wait is that wait. -/
theorem Sound.gap_iff (h : s.Sound) (hreached : ∀ x ∈ s.listeners, x.Reached)
    (hkey : ∀ group, s.groups key = some group → group.wait = true) (hx : s.listeners[i]? = some x)
    {o : Operation} (ho : o ∈ x.core.operations) (hwait : o.wait = some n) :
    s.gap key i = some n ↔ ∃ index, o.handler = .child key index := by
  have hgap : s.gap key i = some n ↔ ⟨.child key i, some n⟩ ∈ x.core.operations := by
    have hunique := h.tallyAt_le key i
    simp only [tallyAt, countAt, hx, Option.map_some, Option.getD_some] at hunique
    simp only [gap, hx, Option.bind_some, waitNumber_eq_some hunique]
  rw [hgap]
  constructor
  · intro hmem
    obtain ⟨id, config, ls, hrun⟩ := hreached x (List.mem_of_getElem? hx)
    have honce := run_waitsOnce (create_waits id config).1 hrun n
    rw [← tally_wait, tally_eq_countP] at honce
    have hle : (x.core.operations.countP fun o => o.wait = some n) ≤ 1 := by
      rw [honce]
      split <;> omega
    obtain rfl := eq_of_countP_le_one hle ho hmem (by simp [hwait]) (by simp)
    exact ⟨i, rfl⟩
  · rintro ⟨index, hhandler⟩
    obtain ⟨rfl, -⟩ := h.placed.child_wait hkey hx ho hhandler
    rwa [← hhandler, ← hwait]

/-- The number of an operation's wait has been given out. -/
theorem gap_given (hreached : ∀ x ∈ s.listeners, x.Reached) (hx : s.listeners[i]? = some x)
    (hgap : s.gap key i = some n) : 0 < n ∧ n ≤ x.core.nextWaiterId := by
  obtain ⟨id, config, ls, hrun⟩ := hreached x (List.mem_of_getElem? hx)
  have honce := run_waitsOnce (create_waits id config).1 hrun
  refine honce.given ?_
  rw [← tally_wait, tally_eq_countP]
  simp only [gap, hx, Option.bind_some] at hgap
  exact List.countP_pos_iff.mpr ⟨_, waitNumber_mem hgap, by simp⟩

/-- A child that is still to be initiated has made no wait. -/
theorem Sound.gap_fresh (h : s.Sound) (hmem : .waitChild key i ∈ s.actions) :
    s.gap key i = none := by
  obtain ⟨group, hgroup, -⟩ := h.placed.fits _ hmem
  have hbegun := (h.accounted key).begun hgroup hmem rfl (by simp)
  have hinitiates : 0 < (s.ledger key).initiates i :=
    List.countP_pos_iff.mpr ⟨_, hmem, by simp [Action.initiates]⟩
  have hchild := hbegun.child i
  have htally : s.tallyAt i key i = 0 := by
    have hle : (s.ledger key).initiates i + s.tallyAt i key i ≤ if i < group.size then 1 else 0 :=
      (Nat.le_add_right _ _).trans_eq hchild
    split at hle <;> omega
  by_contra hsome
  obtain ⟨n, hn⟩ := Option.ne_none_iff_exists'.mp hsome
  have hcount := h.gap_eq_some.mp hn
  have hle := countAt_mono (fun o ho => by simp [withHandler, of_decide_eq_true ho]) s i
    (p := fun o => o = ⟨.child key i, some n⟩) (q := withHandler (.child key i))
  unfold tallyAt at htally
  omega

/-- Every step leaves a handle to each listener. -/
theorem handles_pos (h : Reachable step {} s) : ∀ x ∈ s.listeners, 0 < x.core.handles := by
  refine h.invariant (fun s => ∀ x ∈ s.listeners, 0 < x.core.handles)
    (fun a l b ha hstep y hy => ?_) (by simp)
  obtain ⟨a₁, done, added, hacts, houtcome⟩ := step_cases hstep
  obtain ⟨i, hi⟩ := List.getElem?_of_mem hy
  cases (hacts.effect i).outcome houtcome with
  | same heq => exact ha y (List.mem_of_getElem? (heq ▸ hi))
  | @created config hnone heq =>
    obtain rfl := Option.some.inj (hi.symm.trans heq)
    obtain ⟨endpoint, hcore⟩ := Listener.create_core (i + 1) config
    simp [hcore]
  | @stepped x y' k hx hy' hlstep horigin =>
    obtain rfl := Option.some.inj (hi.symm.trans hy')
    have hpos := ha x (List.mem_of_getElem? hx)
    by_contra hzero
    obtain ⟨hkind, -⟩ := (Listener.step_core hlstep).last_handle (by omega) (by omega)
    cases horigin with
    | startChild | waitChild | listenerStart | listenerWait | stopRead | stopPost => simp at hkind
    | quiet hquiet =>
      rw [Listener.kind_off] at hkind
      obtain rfl := StepKind.off.inj hkind
      contradiction
    | internal hl hinternal =>
      have hoff := (Listener.kind_eq_off hlstep _).mp hkind
      cases k with
      | acceptor k =>
        cases k with
        | core k =>
          obtain rfl := Option.some.inj hoff
          contradiction
        | _ => contradiction
      | socket k =>
        cases k with
        | core k =>
          obtain rfl := Option.some.inj hoff
          contradiction
        | _ => contradiction

end Server

/-- The number of a wait that an action refers to, with its listener. -/
def Action.number? : Action → Option (ℕ × ℕ)
  | .postWait listener id | .postCancel listener id => some (listener, id)
  | _ => none

namespace Server

variable {s s₁ t : Server} {l : ServerLabel} {done added : List Action} {key i n : ℕ}
  {x y : Listener}

/-- The numbers that pending actions refer to have been given out. -/
def NumbersGiven (s : Server) : Prop :=
  ∀ a ∈ s.actions, ∀ i n, a.number? = some (i, n) → ∃ x, s.listeners[i]? = some x ∧
    n ≤ x.core.nextWaiterId

/-- A step gives out numbers and takes none back. -/
theorem Effect.nextWaiterId_le (h : Effect s l done t i) (hx : s.listeners[i]? = some x) :
    ∃ y, t.listeners[i]? = some y ∧ x.core.nextWaiterId ≤ y.core.nextWaiterId := by
  cases h with
  | same heq => exact ⟨x, heq.trans hx, le_rfl⟩
  | created hnone heq => simp [hnone] at hx
  | @stepped x' y k hx' hy hstep horigin =>
    obtain rfl := Option.some.inj (hx.symm.trans hx')
    refine ⟨y, hy, ?_⟩
    rw [(Listener.step_core hstep).nextWaiterId]
    exact Nat.le_add_right _ _

/-- A connected wait of a listener has a number that was given out. -/
theorem connected_given (hreached : ∀ x ∈ s.listeners, x.Reached) (hx : s.listeners[i]? = some x)
    {w : WaitOperation} (hw : w ∈ x.core.connectedWaits) : w.id ≤ x.core.nextWaiterId :=
  ((hreached x (List.mem_of_getElem? hx)).numbered.waits w hw).2

/-- The actions that begin an operation's work refer to no wait. -/
theorem start_number (group : OperationGroup) (key : ℕ) :
    ∀ a ∈ group.start key, a.number? = none := by
  intro a ha
  rcases OperationGroup.start_mem ha with ⟨i, -, -, rfl⟩ | ⟨i, -, -, rfl⟩ | ⟨i, -, rfl⟩ <;> rfl

/-- The actions a report leaves refer to no wait. -/
theorem one_number (group : OperationGroup) (key : ℕ) (report : Report) :
    ∀ a ∈ (group.one key report).2, a.number? = none := by
  intro a ha
  rcases OperationGroup.one_mem ha with ⟨i, rfl⟩ | ⟨result, rfl⟩ <;> rfl

/-- The numbers that the added actions of a step refer to have been given out. -/
theorem Acts.numbers (h : s.Acts l s₁ done added) (hreached : ∀ x ∈ s.listeners, x.Reached) :
    ∀ a ∈ added, ∀ i n, a.number? = some (i, n) → ∃ y, s₁.listeners[i]? = some y ∧
    n ≤ y.core.nextWaiterId := by
  have hnone (hadded : ∀ a ∈ added, a.number? = none) :
      ∀ a ∈ added, ∀ i n, a.number? = some (i, n) → ∃ y, s₁.listeners[i]? = some y ∧
      n ≤ y.core.nextWaiterId :=
    fun a ha i n hn => by simp [hadded a ha] at hn
  have hcalled {j m : ℕ} {x y : Listener} {call : CoreLabel} (hcall : s.Calls j call x y)
      (hm : m ≤ y.core.nextWaiterId) :
      ∃ z, (s.setListener j y).listeners[j]? = some z ∧ m ≤ z.core.nextWaiterId := by
    have hlt : j < s.listeners.length := (List.getElem?_eq_some_iff.mp hcall.found).1
    exact ⟨y, List.getElem?_set_self hlt, hm⟩
  have hbegun {j : ℕ} {x y : Listener} {handler : CompletionHandler}
      (hcall : s.Calls j (.beginWait handler) x y) :
      x.core.nextWaiterId + 1 ≤ y.core.nextWaiterId := by
    rw [(Listener.step_core hcall.step).nextWaiterId, Listener.kind_off]
    exact le_rfl
  have hwaits {j : ℕ} {x y : Listener} {w : WaitOperation} {call : CoreLabel}
      (hcall : s.Calls j call x y)
      (hw : w ∈ x.core.connectedWaits) : w.id ≤ y.core.nextWaiterId := by
    refine (connected_given hreached hcall.found hw).trans ?_
    rw [(Listener.step_core hcall.step).nextWaiterId]
    exact Nat.le_add_right _ _
  cases h with
  | addListener | cancelNone | listenerStart | listenerCancelStart | internal => exact nofun
  | asyncStart | listenerStop | cancel => exact hnone (by simp [Action.number?])
  | requestStop hopen =>
    refine hnone fun a ha => ?_
    rcases List.mem_append.mp ha with ha | ha
    · obtain ⟨i, -, rfl⟩ := List.mem_map.mp ha
      rfl
    · rw [List.mem_singleton.mp ha]
      rfl
  | asyncWait hnew hopen =>
    refine hnone ?_
    split
    · simp [Action.number?]
    · exact start_number _ _
  | listenerWait hcall =>
    intro a ha i n hn
    obtain rfl := List.mem_singleton.mp ha
    obtain ⟨rfl, rfl⟩ := Prod.mk.inj (Option.some.inj hn)
    exact hcalled hcall (hbegun hcall)
  | listenerCancelWait hcall hw huser =>
    intro a ha i n hn
    obtain rfl := List.mem_singleton.mp ha
    obtain ⟨rfl, rfl⟩ := Prod.mk.inj (Option.some.inj hn)
    have hid := List.find?_some hw
    rw [← of_decide_eq_true hid]
    exact hcalled hcall (hwaits hcall (List.mem_of_find?_eq_some hw))
  | delivers hx hstep hinternal hstrand hkind hhandler hgroup =>
    refine hnone fun a ha => ?_
    unfold onStrand at ha
    split at ha
    · simp at ha
    · rcases List.mem_append.mp ha with ha | ha
      · exact one_number _ _ _ a ha
      · rw [List.mem_singleton.mp ha]
        rfl
  | proceed hnext h =>
    cases h with
    | begins hgroup hcontrol =>
      refine hnone ?_
      split
      · simp [Action.number?]
      · intro a ha
        rcases List.mem_append.mp ha with ha | ha
        · exact start_number _ _ a ha
        · rw [List.mem_singleton.mp ha]
          rfl
    | waitsChild hgroup hcall =>
      intro a ha i n hn
      rcases List.mem_cons.mp ha with rfl | ha
      · obtain ⟨rfl, rfl⟩ := Prod.mk.inj (Option.some.inj hn)
        exact hcalled hcall (hbegun hcall)
      · rw [List.mem_singleton.mp ha] at hn
        contradiction
    | emitWait hgroup hwait hw hcall =>
      intro a ha i n hn
      obtain rfl := List.mem_singleton.mp ha
      obtain ⟨rfl, rfl⟩ := Prod.mk.inj (Option.some.inj hn)
      obtain ⟨x, hx, hfind⟩ := Option.bind_eq_some_iff.mp hw
      obtain rfl := Option.some.inj (hx.symm.trans hcall.found)
      exact hcalled hcall (hwaits hcall (List.mem_of_find?_eq_some hfind))
    | checkCancelled hgroup =>
      refine hnone ?_
      split <;> simp [Action.number?]
    | reports hgroup hec hfailed => exact hnone (one_number _ _ _)
    | recheck hgroup =>
      refine hnone ?_
      split <;> simp [Action.number?, OperationGroup.requestStop]
    | _ => exact hnone (by simp [Action.number?])

/-- The numbers that pending actions of a server refer to have been given out. -/
theorem numbersGiven_of_reachable (h : Reachable step {} s) : s.NumbersGiven := by
  refine (h.invariant (fun s => Reachable step {} s ∧ s.NumbersGiven)
    (fun a l b ha hstep => ⟨ha.1.tail hstep, ?_⟩) ⟨.refl _, by simp [NumbersGiven, actions]⟩).2
  obtain ⟨a₁, done, added, hacts, houtcome⟩ := step_cases hstep
  intro action haction i n hn
  rcases houtcome.mem haction with hold | hadded
  · obtain ⟨x, hx, hle⟩ := ha.2 action hold i n hn
    obtain ⟨y, hy, hnext⟩ := ((hacts.effect i).outcome houtcome).nextWaiterId_le hx
    exact ⟨y, hy, hle.trans hnext⟩
  · obtain ⟨y, hy, hle⟩ := hacts.numbers (listeners_reached ha.1) action hadded i n hn
    exact ⟨y, houtcome.listeners ▸ hy, hle⟩

end Server

end Serveza
