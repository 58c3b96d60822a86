import Serveza.ServerListeners
import Serveza.ServerOrder

/-!
# Every operation stays accounted for

A step that does nothing for an operation leaves its accounts alone. The steps that do
something for it are the call, the beginning, the initiation of a child, the report of a
child and the completion, and each of them is booked.
-/

namespace Serveza

open Foundation

/-- There are at most as many operations of a narrower description. -/
theorem tally_mono {p q : Operation → Bool} (h : ∀ o, p o = true → q o = true) (c : ListenerCore) :
    tally p c ≤ tally q c := by
  unfold tally
  have hinitiating := List.countP_mono_left (l := c.initiating) fun w _ => h w.operation
  have hstrand := List.countP_mono_left (l := c.strand.filterMap Message.operation?) fun o _ => h o
  have hwaiters := List.countP_mono_left (l := c.waiters) fun w _ => h w.operation
  have hdelivered := List.countP_mono_left (l := c.delivered) fun q _ => h q.operation
  omega

namespace Server

variable {s s₁ s' : Server} {l : ServerLabel} {done added : List Action} {listener key index : ℕ}

/-- There are at most as many operations of a narrower description on a listener. -/
theorem countAt_mono {p q : Operation → Bool} (h : ∀ o, p o = true → q o = true) (s : Server)
    (listener : ℕ) :
    s.countAt listener p ≤ s.countAt listener q := by
  unfold countAt
  cases s.listeners[listener]? with
  | none => exact le_rfl
  | some x => exact tally_mono h x.core

/-- A child is not on the listener of another child. -/
theorem Placed.tallyAt_ne (h : s.Placed) (hne : listener ≠ index) :
    s.tallyAt listener key index = 0 := by
  have hmono (wait : Bool) : s.tallyAt listener key index ≤
      s.countAt listener (Operation.isMisplaced key listener wait) := by
    refine countAt_mono (fun o ho => ?_) s listener
    simp [Operation.isMisplaced, of_decide_eq_true ho, hne.symm]
  cases hgroup : s.groups key with
  | none =>
    exact Nat.eq_zero_of_le_zero
      ((hmono true).trans_eq (h.misplaced key listener true (by simp [hgroup])))
  | some group =>
    exact Nat.eq_zero_of_le_zero
      ((hmono group.wait).trans_eq (h.misplaced key listener group.wait (by simp [hgroup])))

/-- A step that carries out nothing for an operation initiates none of its children. -/
theorem Effect.tallyAt_eq (h : Effect s l done s' listener)
    (hdone : ∀ a ∈ done, a.owner? ≠ some key) :
    s'.tallyAt listener key index = s.tallyAt listener key index := by
  refine h.countAt (fun tag wait => rfl) (fun k hk => ?_) fun k id hk => ?_
  · have hkey : k ≠ key :=
      fun hkey => hdone (.startChild k listener) (by simp [hk]) (congrArg some hkey)
    simp [withHandler, hkey]
  · have hkey : k ≠ key :=
      fun hkey => hdone (.waitChild k listener) (by simp [hk]) (congrArg some hkey)
    simp [withHandler, hkey]

/-- A step that does not call the handler of a child delivers nothing to it. -/
theorem Effect.deliveredAt_eq (h : Effect s l done s' listener)
    (hkind : ∀ t k x y completion, l = .listener t listener k → s.listeners[listener]? = some x →
      x.step k = some y → x.kind k = .deliver completion → completion.handler ≠ .child key index) :
    s'.deliveredAt listener key index = s.deliveredAt listener key index := by
  cases h with
  | same h => rw [deliveredAt, deliveredAt, h]
  | @created config hnone h =>
    obtain ⟨endpoint, hcore⟩ := Listener.create_core (listener + 1) config
    simp [deliveredAt, h, hnone, hcore, deliveries]
  | @stepped x y k hx hy hstep horigin =>
    have hdelivered := (Listener.step_core hstep).delivered
    have hnone : (x.kind k).delivered?.toList.countP
        (fun q => q.handler = .child key index) = 0 := by
      cases horigin with
      | @internal t _ hl hinternal =>
        cases hcompletion : x.kind k with
        | deliver completion =>
          simpa [StepKind.delivered?] using hkind t k x y completion hl hx hstep hcompletion
        | _ => rfl
      | _ => rw [Listener.kind_off]; rfl
    simp only [deliveredAt, hx, hy, Option.map_some, Option.getD_some, deliveries, hdelivered,
      List.countP_append, hnone, Nat.add_zero]

/-- The handler of a child is called while the child is on the listener. -/
theorem deliveredAt_lt {x y : Listener} {k : ListenerLabel} {completion : Completion}
    (hx : s.listeners[listener]? = some x) (hstep : x.step k = some y)
    (hkind : x.kind k = .deliver completion) (hhandler : completion.handler = .child key index) :
    s.deliveredAt listener key index < s.tallyAt listener key index := by
  have htally := tallyAt_setListener hx hstep listener key index
  have hdelivered := deliveredAt_setListener hx hstep listener key index
  have hle := deliveredAt_le_tallyAt (s.setListener listener y) listener key index
  simp only [hkind, StepKind.initiated?, StepKind.delivered?, hhandler, if_true,
    Option.toList_none, Option.toList_some,
    List.count_nil, List.countP_singleton, decide_true] at htally hdelivered
  omega

/-- Accounts that a step does not touch still hold. -/
theorem Accounted.frame (h : s.Accounted key) (houtcome : Outcome s s₁ done added s')
    (heffect : ∀ listener, Effect s l done s₁ listener) (hgroups : s₁.groups key = s.groups key)
    (hdone : ∀ a ∈ done, a.owner? ≠ some key) (hadded : ∀ a ∈ added, a.owner? ≠ some key)
    (hkind : ∀ t listener k x y completion index, l = .listener t listener k →
      s.listeners[listener]? = some x → x.step k = some y → x.kind k = .deliver completion →
      completion.handler ≠ .child key index) :
    s'.Accounted key := by
  have hledger : s'.ledger key = s.ledger key :=
    houtcome.ledger_eq hdone hadded (fun index => (heffect index).tallyAt_eq hdone)
      fun index => (heffect index).deliveredAt_eq fun t k x y completion =>
      hkind t index k x y completion index
  rw [Accounted, houtcome.groups, hgroups, hledger]
  exact h


variable {group : OperationGroup}

/-- A step that leaves the listeners alone leaves the children where they are. -/
theorem Outcome.ledger_children (h : Outcome s s₁ done added s')
    (hlisteners : s₁.listeners = s.listeners) (key : ℕ) :
    (s'.ledger key).tally = (s.ledger key).tally ∧
    (s'.ledger key).delivered = (s.ledger key).delivered := by
  have hsame : s'.listeners = s.listeners := h.listeners.trans hlisteners
  constructor
  · funext index
    simp only [ledger, tallyAt, Server.countAt, hsame]
  · funext index
    simp only [ledger, Server.deliveredAt, hsame]

/-- An operation with a `begin_start` to come has not begun. -/
theorem Accounted.unbegun (h : s.Accounted key) (hgroup : s.groups key = some group)
    (hmem : .beginStart key ∈ s.actions) : group.Unbegun (s.ledger key) := by
  have hpos : 0 < (s.ledger key).begins := List.count_pos_iff.mpr hmem
  rw [Accounted, hgroup] at h
  rcases h with h | h | h
  · exact h
  · exact absurd h.blank.begins (by omega)
  · exact absurd h.begins (by omega)

/-- A pending action counts in the ledger of its operation. -/
theorem ledger_pos {a : Action} (ha : a ∈ s.actions) (howner : a.owner? = some key)
    (hbegin : a ≠ .beginStart key) :
    (∃ index, 0 < (s.ledger key).initiates index) ∨ (∃ index, 0 < (s.ledger key).reports index) ∨
      0 < (s.ledger key).finishes := by
  cases a with
  | beginStart k => exact absurd (congrArg _ (Option.some.inj howner)) hbegin
  | startChild k index =>
    obtain rfl := Option.some.inj howner
    exact Or.inl ⟨index, List.countP_pos_iff.mpr ⟨_, ha, by simp [Action.initiates]⟩⟩
  | waitChild k index =>
    obtain rfl := Option.some.inj howner
    exact Or.inl ⟨index, List.countP_pos_iff.mpr ⟨_, ha, by simp [Action.initiates]⟩⟩
  | reportInitiation k index =>
    obtain rfl := Option.some.inj howner
    exact Or.inr (Or.inl ⟨index, List.count_pos_iff.mpr ha⟩)
  | finish k result =>
    obtain rfl := Option.some.inj howner
    exact Or.inr (Or.inr (List.countP_pos_iff.mpr ⟨_, ha, by simp [Action.finishes]⟩))
  | _ => contradiction

/-- An operation with any other action to come has begun. -/
theorem Accounted.begun (h : s.Accounted key) (hgroup : s.groups key = some group) {a : Action}
    (ha : a ∈ s.actions) (howner : a.owner? = some key) (hbegin : a ≠ .beginStart key) :
    group.Begun (s.ledger key) := by
  have hpos := ledger_pos ha howner hbegin
  rw [Accounted, hgroup] at h
  rcases h with h | h | h
  · rcases hpos with ⟨i, hi⟩ | ⟨i, hi⟩ | hi
    · exact absurd (h.initiates i) (by omega)
    · exact absurd (h.reports i) (by omega)
    · exact absurd h.finishes (by omega)
  · rcases hpos with ⟨i, hi⟩ | ⟨i, hi⟩ | hi
    · exact absurd (h.blank.initiates i) (by omega)
    · exact absurd (h.blank.reports i) (by omega)
    · exact absurd h.blank.finishes (by omega)
  · exact h

/-- An operation with a child on a listener has begun. -/
theorem Accounted.begun_of_tally (h : s.Accounted key) (hgroup : s.groups key = some group)
    (hpos : 0 < s.tallyAt index key index) : group.Begun (s.ledger key) := by
  have hpos : 0 < (s.ledger key).tally index := hpos
  rw [Accounted, hgroup] at h
  rcases h with h | h | h
  · exact absurd (h.tally index) (by omega)
  · exact absurd (h.blank.tally index) (by omega)
  · exact h

/-- Numbers below a bound are counted once. -/
theorem countP_range (n index : ℕ) :
    (List.range n).countP (fun i => i = index) = if index < n then 1 else 0 := by
  have hcount := (List.nodup_range (n := n)).count (a := index)
  simpa only [List.count_eq_countP, List.mem_range, beq_eq_decide] using hcount

/-- The loops of an operation initiate each child once. -/
theorem start_initiates (group : OperationGroup) (key index : ℕ) :
    (group.start key).countP (Action.initiates key index) = if index <
    group.size then 1 else 0 := by
  rw [← countP_range, OperationGroup.start, List.countP_append, List.countP_map, List.countP_map]
  cases group.wait <;> simp [Function.comp_def, Action.initiates]

/-- The loops of an operation look for the failure of each child once. -/
theorem start_reports (group : OperationGroup) (key index : ℕ) :
    (group.start key).count (.reportInitiation key index) = if index <
    group.size then 1 else 0 := by
  rw [← countP_range, OperationGroup.start, List.count_eq_countP, List.countP_append,
    List.countP_map, List.countP_map]
  cases group.wait <;> simp [Function.comp_def, beq_eq_decide]

/-- The loops of an operation do not complete it. -/
theorem start_quiet (group : OperationGroup) (key : ℕ) {a : Action} (ha : a ∈ group.start key) :
    a.finishes key = false ∧ a ≠ .beginStart key ∧ ∀ result, a ≠ .finish key result := by
  rcases OperationGroup.start_mem ha with ⟨i, -, -, rfl⟩ | ⟨i, -, -, rfl⟩ | ⟨i, -, rfl⟩ <;>
    simp [Action.finishes]

/-- What is not an action of an operation is none of those that are counted. -/
theorem countP_unowned {p : Action → Bool} {actions : List Action}
    (h : ∀ a ∈ actions, a.owner? = none) (hp : ∀ a, p a = true → a.owner? = some key) :
    actions.countP p = 0 :=
  List.countP_eq_zero.mpr fun a ha hpa => by simpa [h a ha] using hp a hpa

/-- What an operation begins with: all its children to be initiated, or its completion. -/
def launches (group : OperationGroup) (key : ℕ) (tail : List Action) : List Action :=
  if group.size = 0 then [.finish key .success] else group.start key ++ tail

/-- The numbers of the actions an operation begins with. -/
theorem launches_counts (group : OperationGroup) (key : ℕ) {tail : List Action}
    (htail : ∀ a ∈ tail, a.owner? = none) :
    (launches group key tail).count (.beginStart key) = 0 ∧
    (∀ index, (launches group key tail).countP (Action.initiates key index) = if index <
      group.size then 1 else 0) ∧
    (∀ index, (launches group key tail).count (.reportInitiation key index) = if index <
      group.size then 1 else 0) ∧
    (launches group key tail).countP (Action.finishes key) = (if group.size = 0 then 1 else 0) ∧
    ∀ result, 0 < (launches group key tail).count (.finish key result) → result = .success := by
  have hcount {a : Action} (howner : a.owner? = some key) : tail.count a = 0 :=
    countP_unowned htail fun b hb => by rw [eq_of_beq hb, howner]
  unfold launches
  split
  · rename_i hsize
    refine ⟨rfl, by simp [hsize, Action.initiates], by simp [hsize], by simp [Action.finishes], ?_⟩
    intro result hpos
    have hmem := List.mem_singleton.mp (List.count_pos_iff.mp hpos)
    exact (Action.finish.inj hmem).2
  · rename_i hsize
    refine ⟨?_, fun index => ?_, fun index => ?_, ?_, fun result hpos => ?_⟩
    · rw [List.count_append, hcount rfl]
      exact List.count_eq_zero.mpr fun ha => (start_quiet group key ha).2.1 rfl
    · rw [List.countP_append, countP_unowned htail fun a => Action.owner?_of_initiates,
        start_initiates, Nat.add_zero]
    · rw [List.count_append, hcount rfl, start_reports, Nat.add_zero]
    · rw [List.countP_append, countP_unowned htail fun a => Action.owner?_of_finishes]
      exact List.countP_eq_zero.mpr fun a ha hfinish => by
        simp [(start_quiet group key ha).1] at hfinish
    · rw [List.count_append, hcount rfl, Nat.add_zero] at hpos
      exact absurd rfl ((start_quiet group key (List.count_pos_iff.mp hpos)).2.2 result)

/-- An operation that begins is accounted for. -/
theorem accounted_launch {wait : Bool} (tail : List Action)
    (houtcome : Outcome s s₁ done (launches group key tail) s')
    (hgroup : s₁.groups key = some group) (hlisteners : s₁.listeners = s.listeners)
    (hfresh : { group with cancelled := 0 } = .create wait group.size)
    (htail : ∀ a ∈ tail, a.owner? = none) (htally : ∀ index, (s.ledger key).tally index = 0)
    (hinitiates : ∀ index, (s.ledger key).initiates index = 0)
    (hreports : ∀ index, (s.ledger key).reports index = 0) (hfinishes : (s.ledger key).finishes = 0)
    (hbegins : (s.ledger key).begins = done.count (.beginStart key))
    (hdone : ∀ a ∈ done, a = .beginStart key) :
    s'.Accounted key := by
  obtain ⟨hnewBegins, hnewInitiates, hnewReports, hnewFinishes, hnewFinish⟩ :=
    launches_counts group key htail
  obtain ⟨hsameTally, hsameDelivered⟩ := houtcome.ledger_children hlisteners key
  obtain ⟨hbegins', hinitiates', hreports', hfinishes', hfinish'⟩ := houtcome.balance key
  have hquiet {p : Action → Bool} (hp : p (.beginStart key) = false) : done.countP p = 0 :=
    List.countP_eq_zero.mpr fun a ha => by simp [hdone a ha, hp]
  refine .of_begun (by rw [houtcome.groups, hgroup])
    (.launch hfresh ?_ (fun i => ?_) (fun i => ?_) ?_ (fun result hpos => ?_) (fun i => ?_) fun i =>
      deliveredAt_le_tallyAt s' i key i)
  · omega
  · rw [← hnewInitiates, ← Nat.zero_add (List.countP _ _), ← hinitiates i, ← hinitiates',
      hquiet rfl, Nat.add_zero]
  · rw [← hnewReports, ← Nat.zero_add (List.count _ _), ← hreports i, ← hreports',
      List.count_eq_countP, hquiet (by simp), Nat.add_zero]
  · rw [← hnewFinishes, ← Nat.zero_add (List.countP _ _), ← hfinishes, ← hfinishes',
      hquiet rfl, Nat.add_zero]
  · have hle := ledger_finish_le s key result
    have hcount := hfinish' result
    exact hnewFinish result (by omega)
  · rw [hsameTally]
    exact htally i

/-- The action that initiates a child counts as that and as nothing else. -/
theorem initiating_counts {a : Action} (ha : a = .startChild key index ∨ a = .waitChild key index) :
    [a].count (.beginStart key) = 0 ∧
    (∀ i, [a].countP (Action.initiates key i) = if i = index then 1 else 0) ∧
    (∀ i, [a].count (.reportInitiation key i) = 0) ∧ [a].countP (Action.finishes key) = 0 ∧
    ∀ result, [a].count (.finish key result) = 0 := by
  rcases ha with rfl | rfl <;>
    simp [Action.initiates, Action.finishes, List.countP_singleton, eq_comm]

/-- A child whose initiation throws is accounted for. -/
theorem accounted_fail {a : Action} {ec : ErrorCode} (h : group.Begun (s.ledger key))
    (hec : ec.failed = true) (ha : a = .startChild key index ∨ a = .waitChild key index)
    (houtcome :
      Outcome s (s.setGroup key { group with initiationEcs := group.initiationEcs.set index ec })
        [a] [] s') :
    s'.Accounted key := by
  obtain ⟨holdBegins, holdInitiates, holdReports, holdFinishes, holdFinish⟩ := initiating_counts ha
  obtain ⟨hbegins, hinitiates, hreports, hfinishes, hfinish⟩ := houtcome.balance key
  obtain ⟨htally, hdelivered⟩ := houtcome.ledger_children rfl key
  refine .of_begun (by rw [houtcome.groups]; exact if_pos rfl)
    (h.fail index hec ?_ (fun i => ?_) (funext fun i => ?_) ?_
      (funext fun r => ?_) htally hdelivered)
  · rwa [holdBegins] at hbegins
  · have hcount := hinitiates i
    rwa [holdInitiates] at hcount
  · have hcount := hreports i
    rwa [holdReports] at hcount
  · rwa [holdFinishes] at hfinishes
  · have hcount := hfinish r
    rwa [holdFinish] at hcount

/-- A child that is initiated is accounted for. -/
theorem accounted_child {a : Action} {call : CoreLabel} {x y : Listener}
    (h : group.Begun (s.ledger key)) (hgroup : s.groups key = some group)
    (ha : a = .startChild key index ∨ a = .waitChild key index) (hcall : s.Calls index call x y)
    (hinitiated : (StepKind.off call).initiated? = some (.child key index))
    (hadded : ∀ b ∈ added, b.owner? = none)
    (houtcome : Outcome s (s.setListener index y) [a] added s') :
    s'.Accounted key := by
  obtain ⟨holdBegins, holdInitiates, holdReports, holdFinishes, holdFinish⟩ := initiating_counts ha
  obtain ⟨hbegins, hinitiates, hreports, hfinishes, hfinish⟩ := houtcome.balance key
  have hnew {p : Action → Bool} (hp : ∀ a, p a = true → a.owner? = some key) : added.countP p = 0 :=
    countP_unowned hadded hp
  have hnewCount {b : Action} (hb : b.owner? = some key) : added.count b = 0 :=
    hnew fun c hc => by rw [eq_of_beq hc, hb]
  refine .of_begun (by rw [houtcome.groups]; exact hgroup)
    (h.initiate index ?_ (fun i => ?_) (funext fun i => ?_) ?_ (funext fun r => ?_) (fun i => ?_)
      (funext fun i => ?_))
  · rwa [holdBegins, hnewCount rfl] at hbegins
  · have hcount := hinitiates i
    rwa [holdInitiates, hnew fun a => Action.owner?_of_initiates] at hcount
  · have hcount := hreports i
    rwa [holdReports, hnewCount rfl] at hcount
  · rwa [holdFinishes, hnew fun a => Action.owner?_of_finishes] at hfinishes
  · have hcount := hfinish r
    rwa [holdFinish, hnewCount rfl] at hcount
  · have hcount := tallyAt_setListener hcall.found hcall.step i key i
    rw [Listener.kind_off, hinitiated] at hcount
    change s'.tallyAt i key i = s.tallyAt i key i + _
    rw [tallyAt, houtcome.countAt]
    refine hcount.trans ?_
    by_cases hi : i = index
    · subst hi
      simp
    · simp [hi]
  · have hcount := deliveredAt_setListener hcall.found hcall.step i key i
    rw [Listener.kind_off] at hcount
    change s'.deliveredAt i key i = s.deliveredAt i key i
    rw [houtcome.deliveredAt]
    exact hcount.trans (by split <;> rfl)

/-- The number of completions a report leads to. -/
theorem one_counts (group : OperationGroup) (key : ℕ) (report : Report) :
    (group.one key report).2.count (.beginStart key) = 0 ∧
    (∀ index, (group.one key report).2.countP (Action.initiates key index) = 0) ∧
    (∀ index, (group.one key report).2.count (.reportInitiation key index) = 0) ∧
    (group.one key report).2.countP (Action.finishes key) = (if group.remaining = 1 then 1 else 0) ∧
    ∀ result, 0 < (group.one key report).2.count (.finish key result) →
    result = (group.one key report).1.firstEc := by
  have hstops {p : Action → Bool} (hp : ∀ listener, p (.stopRead listener) = false) (b : Bool) :
      (if b = true then group.requestStop else []).countP p = 0 := by
    refine List.countP_eq_zero.mpr fun a ha => ?_
    split at ha
    · obtain ⟨i, -, rfl⟩ := List.mem_map.mp ha
      simp [hp]
    · simp at ha
  unfold OperationGroup.one
  simp only [List.count_eq_countP, List.countP_append, decide_eq_true_eq]
  refine ⟨?_, fun index => ?_, fun index => ?_, ?_, fun result hpos => ?_⟩
  · rw [hstops fun listener => by simp]
    split <;> rfl
  · rw [hstops fun listener => rfl]
    split <;> rfl
  · rw [hstops fun listener => by simp]
    split <;> rfl
  · rw [hstops fun listener => rfl]
    split <;> simp [Action.finishes]
  · rw [hstops fun listener => by simp] at hpos
    split at hpos
    · rw [Nat.zero_add] at hpos
      obtain ⟨a, ha, heq⟩ := List.countP_pos_iff.mp hpos
      rw [List.mem_singleton.mp ha] at heq
      exact (Action.finish.inj (eq_of_beq heq)).2.symm
    · simp at hpos

/-- The end of the handler on the strand is not counted. -/
theorem onStrand_countP {p : Action → Bool} (hp : p (.release listener) = false)
    (actions : List Action) :
    (onStrand listener actions).countP p = actions.countP p := by
  unfold onStrand
  split
  · rename_i hnil
    rw [hnil]
  · rw [List.countP_append, List.countP_singleton, hp]
    rfl

/-- A child that is reported is accounted for, provided that the report is booked. -/
theorem accounted_one {report : Report} (h : group.Begun (s.ledger key))
    (hindex : report.index < group.size) (hopen : group.reported report.index = 0)
    (houtcome : Outcome s s₁ done added s') (hgroup : s₁.groups key = some (group.one key report).1)
    (hdone : ∀ a ∈ done, a = .reportInitiation key report.index)
    (hadded : ∀ p : Action → Bool, p (.release report.index) = false →
      added.countP p = (group.one key report).2.countP p)
    (htally : (s'.ledger key).tally = (s.ledger key).tally)
    (hpending : ∀ i, (s.ledger key).initiates i ≤ (s'.ledger key).reports i)
    (hbooked : ∀ i, (group.reported i + if report.index = i then 1 else 0) +
      group.failures i * (s'.ledger key).reports i =
        (s'.ledger key).delivered i + group.failures i) :
    s'.Accounted key := by
  obtain ⟨hnewBegins, hnewInitiates, hnewReports, hnewFinishes, hnewFinish⟩ :=
    one_counts group key report
  obtain ⟨hbegins, hinitiates, hreports, hfinishes, hfinish⟩ := houtcome.balance key
  have hquiet {p : Action → Bool} (hp : p (.reportInitiation key report.index) = false) :
      done.countP p = 0 :=
    List.countP_eq_zero.mpr fun a ha => by simp [hdone a ha, hp]
  obtain ⟨hnone, -⟩ := h.unfinished (h.remaining_pos hindex hopen)
  refine .of_begun (by rw [houtcome.groups, hgroup])
    (h.one key report hindex hopen ?_ (funext fun i => ?_) htally
    (fun i => ⟨hpending i, ?_⟩) hbooked (fun i => deliveredAt_le_tallyAt s' i key i) ?_
      fun result hpos => ?_)
  · rwa [List.count_eq_countP, hquiet (by simp), List.count_eq_countP, hadded _ (by simp),
      ← List.count_eq_countP, hnewBegins] at hbegins
  · have hcount := hinitiates i
    rwa [hquiet rfl, hadded _ rfl, hnewInitiates] at hcount
  · have hcount := hreports i
    have hle := h.reports i
    rw [List.count_eq_countP (l := added), hadded _ (by simp), ← List.count_eq_countP,
      hnewReports] at hcount
    omega
  · rwa [hquiet rfl, hadded _ rfl, hnewFinishes] at hfinishes
  · have hcount := hfinish result
    have hle := ledger_finish_le s key result
    rw [List.count_eq_countP (l := added), hadded _ (by simp), ← List.count_eq_countP] at hcount
    exact hnewFinish result (by omega)

/-- A child whose completion is delivered is accounted for. -/
theorem accounted_deliver {x y : Listener} {k : ListenerLabel} {completion : Completion}
    (h : s.Accounted key) (hplaced : s.Placed) (hx : s.listeners[listener]? = some x)
    (hstep : x.step k = some y) (hkind : x.kind k = .deliver completion)
    (hhandler : completion.handler = .child key index) (hgroup : s.groups key = some group)
    (houtcome :
      Outcome s ((s.setListener listener y).setGroup key
        (group.one key ⟨index, completion.error, some completion.cause⟩).1) []
        (onStrand listener (group.one key ⟨index, completion.error, some completion.cause⟩).2) s') :
    s'.Accounted key := by
  have hlt := deliveredAt_lt (s := s) hx hstep hkind hhandler
  obtain rfl : listener = index := by
    by_contra hne
    rw [hplaced.tallyAt_ne hne] at hlt
    omega
  have hbegun := h.begun_of_tally hgroup (show 0 < s.tallyAt listener key listener by omega)
  have hlt : (s.ledger key).delivered listener < (s.ledger key).tally listener := hlt
  have hchild := hbegun.child listener
  have hreported := hbegun.reported listener
  have hindex : listener < group.size := by
    by_contra hge
    rw [if_neg hge] at hchild
    omega
  rw [if_pos hindex] at hchild
  have hfailures : group.failures listener = 0 := by omega
  rw [hfailures] at hreported
  have hopen : group.reported listener = 0 := by omega
  have hreports (i : ℕ) : (s'.ledger key).reports i = (s.ledger key).reports i := by
    have hcount := (houtcome.balance key).2.2.1 i
    rwa [List.count_nil, List.count_eq_countP, onStrand_countP (by simp), ← List.count_eq_countP,
      (one_counts group key _).2.2.1] at hcount
  refine accounted_one hbegun hindex hopen houtcome (if_pos rfl) (by simp)
    (fun p hp => onStrand_countP hp _) (funext fun i => ?_) (fun i => ?_) fun i => ?_
  · have hcount := tallyAt_setListener hx hstep i key i
    change s'.countAt i _ = s.tallyAt i key i
    rw [houtcome.countAt]
    refine hcount.trans ?_
    simp [hkind, StepKind.initiated?]
  · rw [hreports]
    exact hbegun.initiates i
  · have hcount := deliveredAt_setListener hx hstep i key i
    have hdelivered : (s'.ledger key).delivered i = (s.ledger key).delivered i + if listener =
        i then 1 else 0 := by
      change s'.deliveredAt i key i = _
      rw [houtcome.deliveredAt]
      refine hcount.trans ?_
      by_cases hi : i = listener
      · subst hi
        simp [hkind, StepKind.delivered?, hhandler, ledger]
      · simp [hi, Ne.symm hi, ledger]
    have hbooked := hbegun.reported i
    rw [hreports, hdelivered]
    change (group.reported i + if listener = i then 1 else 0) + _ = _
    omega

/-- A child whose initiation failed and that is reported is accounted for. -/
theorem accounted_report {ec : ErrorCode} (h : group.Begun (s.ledger key))
    (hpos : 0 < (s.ledger key).reports index) (hec : group.initiationEcs[index]? = some ec)
    (hfailed : ec.failed = true)
    (houtcome : Outcome s (s.setGroup key (group.one key ⟨index, ec, none⟩).1)
      [.reportInitiation key index] (group.one key ⟨index, ec, none⟩).2 s') :
    s'.Accounted key := by
  have hfailures : group.failures index = 1 := by simp [OperationGroup.failures, hec, hfailed]
  have hchild := h.child index
  have hreported := h.reported index
  have hdelivered := h.delivered index
  have hone := h.reports index
  rw [hfailures] at hchild hreported
  have hindex : index < group.size := by
    by_contra hge
    rw [if_neg hge] at hchild
    omega
  rw [if_pos hindex] at hchild
  have hopen : group.reported index = 0 := by omega
  obtain ⟨hsameTally, hsameDelivered⟩ := houtcome.ledger_children rfl key
  have hreports (i : ℕ) : ((s'.ledger key).reports i + if index = i then 1 else 0) =
      (s.ledger key).reports i := by
    have hcount := (houtcome.balance key).2.2.1 i
    rw [(one_counts group key _).2.2.1, List.count_singleton] at hcount
    simpa using hcount
  refine accounted_one h hindex hopen houtcome (if_pos rfl) (by simp) (fun p hp => rfl)
    hsameTally (fun i => ?_)
    fun i => ?_
  · have hle := h.initiates i
    have hcount := hreports i
    by_cases hi : index = i
    · subst hi
      omega
    · rw [if_neg hi] at hcount
      omega
  · have hbooked := h.reported i
    have hcount := hreports i
    rw [hsameDelivered]
    by_cases hi : index = i
    · subst hi
      rw [hfailures, if_pos rfl]
      rw [if_pos rfl] at hcount
      omega
    · rw [if_neg hi, Nat.add_zero] at hcount ⊢
      rw [hcount]
      exact hbooked

end Server

end Serveza
