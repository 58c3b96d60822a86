import Serveza.ServerAccounts

/-!
# What a step of a server does to one listener

Seen from one of its listeners, a step of a server does nothing, creates the listener, or is
one step of the listener. What the listener is called with depends on the action that is
carried out, or on the label of the step. Operations stay with the listener they were
initiated on, and the starts and waits of a child are those of its group.
-/

namespace Serveza

open Foundation

/-- The actions of a start belong to a start and those of a wait to a wait. -/
def Action.Fits (groups : ℕ → Option OperationGroup) : Action → Prop
  | .beginStart key | .startChild key _ | .recheck key =>
    ∃ group, groups key = some group ∧ group.wait = false
  | .waitChild key _ => ∃ group, groups key = some group ∧ group.wait = true
  | _ => True

/-- An operation of a group that is on another listener than its own, or of the other kind. -/
def Operation.isMisplaced (key listener : ℕ) (wait : Bool) (operation : Operation) : Bool :=
  match operation.handler with
  | .user _ => false
  | .child k index => k = key && !(index = listener && operation.wait.isSome = wait)

/-- The call moves a wait or a cancellation along. -/
def CoreLabel.isQuiet : CoreLabel → Bool
  | .cancelStart _ | .postWait _ | .cancelWait _ | .postCancel _ => true
  | _ => false

namespace Server

/-- A wait of a listener that is to be marked as cancelled is the wait of a user, or of the child
that the cancellation of an operation is signalled to. -/
def Marks (done : List Action) (listener : ℕ) (x : Listener) (n : ℕ) : Prop :=
  ∃ w ∈ x.core.connectedWaits, w.id = n ∧
    ((∃ tag, w.handler = .user tag) ∨ ∃ key, done = [.emit key listener] ∧
      w.handler = .child key listener)

/-- Where a step of a listener comes from. -/
inductive Origin (l : ServerLabel) (done : List Action) (listener : ℕ) (x : Listener) :
    ListenerLabel → Prop where
  | startChild {key} (h : done = [.startChild key listener]) :
    Origin l done listener x (x.off (.asyncStart (.child key listener)))
  | waitChild {key} (h : done = [.waitChild key listener]) :
    Origin l done listener x (x.off (.beginWait (.child key listener)))
  | listenerStart {tag} (h : l = .listenerStart listener tag) :
    Origin l done listener x (x.off (.asyncStart (.user tag)))
  | listenerWait {t tag} (h : l = .listenerWait t listener tag) :
    Origin l done listener x (x.off (.beginWait (.user tag)))
  | stopRead (h : done = [.stopRead listener]) : Origin l done listener x (x.off .stopRead)
  | stopPost (h : done = [.stopPost listener]) : Origin l done listener x (x.off .stopPost)
  | quiet {call} (h : call.isQuiet = true)
    (hmarks : ∀ n, call = .cancelWait n → Marks done listener x n) :
    Origin l done listener x (x.off call)
  | internal {t k} (hl : l = .listener t listener k) (h : k.isInternal = true) :
    Origin l done listener x k

/-- What a step does to one listener. -/
inductive Effect (s : Server) (l : ServerLabel) (done : List Action) (s' : Server) (listener : ℕ) :
    Prop where
  | same (h : s'.listeners[listener]? = s.listeners[listener]?)
  | created {config} (hnone : s.listeners[listener]? = none)
    (h : s'.listeners[listener]? = some (.create (listener + 1) config))
  | stepped {x y k} (hx : s.listeners[listener]? = some x) (hy : s'.listeners[listener]? = some y)
    (hstep : x.step k = some y) (horigin : Origin l done listener x k)

variable {s s₁ s' : Server} {l : ServerLabel} {done added : List Action}

/-- A step of one listener is what it is for that listener, and nothing for the others. -/
theorem effect_setListener {listener : ℕ} {x y : Listener} {k : ListenerLabel}
    (hx : s.listeners[listener]? = some x) (hstep : x.step k = some y)
    (horigin : Origin l done listener x k) (hlisteners : s₁.listeners = s.listeners.set listener y)
    (other : ℕ) : Effect s l done s₁ other := by
  have hlt : listener < s.listeners.length := (List.getElem?_eq_some_iff.mp hx).1
  by_cases hother : listener = other
  · subst hother
    exact .stepped hx (by rw [hlisteners, List.getElem?_set_self hlt]) hstep horigin
  · exact .same (by rw [hlisteners, List.getElem?_set_ne hother])

/-- A call is what it is for the listener that is called. -/
theorem effect_calls {listener : ℕ} {call : CoreLabel} {x y : Listener}
    (hcall : s.Calls listener call x y) (horigin : Origin l done listener x (x.off call))
    (other : ℕ) :
    Effect s l done (s.setListener listener y) other :=
  effect_setListener hcall.found hcall.step horigin rfl other

/-- An action does one of the listed things to a listener. -/
theorem Performs.effect {threw : Option FailingException} {action : Action} {first : List Action}
    (h : s.Performs threw action s₁ first) (listener : ℕ) : Effect s l [action] s₁ listener := by
  cases h with
  | startsChild hgroup hcall => exact effect_calls hcall (.startChild rfl) listener
  | waitsChild hgroup hcall => exact effect_calls hcall (.waitChild rfl) listener
  | postWait hcall => exact effect_calls hcall (.quiet rfl (by simp)) listener
  | @emitWait _ key index group w x y hgroup hwait hw hcall =>
    refine effect_calls hcall (.quiet rfl fun n hn => ?_) listener
    rw [childWait?, hcall.found, Option.bind_some] at hw
    exact ⟨w, List.mem_of_find?_eq_some hw, CoreLabel.cancelWait.inj hn,
      Or.inr ⟨key, rfl, by simpa using List.find?_some hw⟩⟩
  | emitStart hgroup hstart hcall => exact effect_calls hcall (.quiet rfl (by simp)) listener
  | postCancel hcall => exact effect_calls hcall (.quiet rfl (by simp)) listener
  | stopReturns hcall hstopped => exact effect_calls hcall (.stopRead rfl) listener
  | stopReads hcall hopen => exact effect_calls hcall (.stopRead rfl) listener
  | stopPost hcall => exact effect_calls hcall (.stopPost rfl) listener
  | _ => exact .same rfl

/-- A step does one of the listed things to a listener. -/
theorem Acts.effect (h : s.Acts l s₁ done added) (listener : ℕ) : Effect s l done s₁ listener := by
  cases h with
  | @addListener config hopen =>
    rcases Nat.lt_trichotomy listener s.listeners.length with hlt | heq | hgt
    · exact .same (List.getElem?_append_left hlt)
    · subst heq
      exact .created (List.getElem?_eq_none le_rfl) List.getElem?_concat_length
    · refine .same ?_
      rw [List.getElem?_eq_none hgt.le, List.getElem?_eq_none]
      rw [Server.addListener, List.length_append]
      exact hgt
  | listenerStart hcall => exact effect_calls hcall (.listenerStart rfl) listener
  | listenerCancelStart hcall => exact effect_calls hcall (.quiet rfl (by simp)) listener
  | listenerWait hcall => exact effect_calls hcall (.listenerWait rfl) listener
  | @listenerCancelWait _ _ id x y w tag hcall hw huser =>
    refine effect_calls hcall (.quiet rfl fun n hn => ?_) listener
    obtain rfl := CoreLabel.cancelWait.inj hn
    exact ⟨w, List.mem_of_find?_eq_some hw, by simpa using List.find?_some hw, Or.inl ⟨tag, huser⟩⟩
  | proceed hnext h => exact h.effect listener
  | internal hx hstep hinternal hstrand hkind =>
    exact effect_setListener hx hstep (.internal rfl hinternal) rfl listener
  | delivers hx hstep hinternal hstrand hkind hhandler hgroup =>
    exact effect_setListener hx hstep (.internal rfl hinternal) rfl listener
  | _ => exact .same rfl

/-- The server after a step has the listeners of its outcome. -/
theorem Effect.outcome {listener : ℕ} (h : Effect s l done s₁ listener)
    (houtcome : Outcome s s₁ done added s') :
    Effect s l done s' listener := by
  cases h with
  | same h => exact .same (by rw [houtcome.listeners, h])
  | created hnone h => exact .created hnone (by rw [houtcome.listeners, h])
  | stepped hx hy hstep horigin => exact .stepped hx (by rw [houtcome.listeners, hy]) hstep horigin

/-- A step counts the operations it initiates, and no others. -/
theorem Effect.countAt {listener : ℕ} (h : Effect s l done s' listener) {p : Operation → Bool}
    (huser : ∀ tag wait, p ⟨.user tag, wait⟩ = false)
    (hstart : ∀ key, done = [.startChild key listener] → p ⟨.child key listener, none⟩ = false)
    (hwait : ∀ key id, done = [.waitChild key listener] →
      p ⟨.child key listener, some id⟩ = false) :
    s'.countAt listener p = s.countAt listener p := by
  cases h with
  | same h => rw [Server.countAt, Server.countAt, h]
  | @created config hnone h =>
    obtain ⟨endpoint, hcore⟩ := Listener.create_core (listener + 1) config
    simp [Server.countAt, h, hnone, hcore, tally]
  | @stepped x y k hx hy hstep horigin =>
    have hcount : tally p y.core = tally p x.core +
        ((x.kind k).initiates x.core.nextWaiterId).countP p :=
      (Listener.step_core hstep).tally
    have hnone : ((x.kind k).initiates x.core.nextWaiterId).countP p = 0 := by
      cases horigin with
      | startChild h => simp [StepKind.initiates, hstart _ h]
      | waitChild h => simp [StepKind.initiates, hwait _ _ h]
      | listenerStart h => simp [StepKind.initiates, huser]
      | listenerWait h => simp [StepKind.initiates, huser]
      | stopRead h => simp [StepKind.initiates]
      | stopPost h => simp [StepKind.initiates]
      | @quiet call h =>
        rw [Listener.kind_off]
        cases call <;> first | rfl | contradiction
      | internal hl h =>
        rw [StepKind.initiates_of_initiated (Listener.isInternal_initiated hstep h)]
        rfl
    rw [Server.countAt, Server.countAt, hx, hy, Option.map_some, Option.map_some,
      Option.getD_some, Option.getD_some, hcount, hnone, Nat.add_zero]

/-- A report is made of a failed initiation, or of a completion that a listener delivers. -/
inductive Made (s : Server) (key : ℕ) (report : Report) : Prop where
  | initiation {group : OperationGroup} (hgroup : s.groups key = some group)
    (hec : group.initiationEcs[report.index]? = some report.error) (hcause : report.cause = none)
    (hfailed : report.error.failed = true)
  | delivery {listener : ℕ} {x y : Listener} {k : ListenerLabel} {completion : Completion}
    (hx : s.listeners[listener]? = some x) (hstep : x.step k = some y)
    (hkind : x.kind k = .deliver completion)
    (hhandler : completion.handler = .child key report.index)
      (herror : report.error = completion.error)
    (hcause : report.cause = some completion.cause)

/-- What a step does to one operation. -/
inductive GroupStep (s : Server) (key : ℕ) (done added : List Action) (group : OperationGroup) :
    OperationGroup → Prop where
  | same : GroupStep s key done added group group
  | cancelled (type : ℕ) (htype : type ≠ 0) :
    GroupStep s key done added group { group with cancelled := group.cancelled ||| type }
  | rejected (hdone : done = [.beginStart key]) : GroupStep s key done added group
    (group.reject .operationAborted)
  | threw (index : ℕ) (e : FailingException) :
    GroupStep s key done added group { group with
    initiationEcs := group.initiationEcs.set index e.error }
  | told {report} (hmade : s.Made key report) (hadded : (group.one key report).2 ⊆ added)
    (hdone : ∀ a ∈ done, a.owner? = some key) : GroupStep s key done added group
    (group.one key report).1
  | finishedStart {result ec control} (hdone : done = [.finish key result])
    (hstart : group.wait = false)
    (hcontrol : s.control.finishStart (s.statuses group.size) result = (ec, control)) :
    GroupStep s key done added group (group.complete ec)
  | finishedWait {result} (hdone : done = [.finish key result]) (hwait : group.wait = true) :
    GroupStep s key done added group (group.complete result)

/-- A step does one of the listed things to an operation. -/
theorem Acts.group_step (h : s.Acts l s₁ done added) {key : ℕ} {group : OperationGroup}
    (hgroup : s.groups key = some group) :
    ∃ group', s₁.groups key = some group' ∧ GroupStep s key done added group group' := by
  have hset {key' : ℕ} {old new : OperationGroup} (hold : s.groups key' = some old)
      (hgroups : s₁.groups = fun k => if k = key' then some new else s.groups k)
      (hstep : GroupStep s key' done added old new) : ∃ group', s₁.groups key = some group' ∧
        GroupStep s key done added group group' := by
    rw [hgroups]
    by_cases hkey : key = key'
    · subst hkey
      obtain rfl := Option.some.inj (hgroup.symm.trans hold)
      exact ⟨new, if_pos rfl, hstep⟩
    · exact ⟨group, (if_neg hkey).trans hgroup, .same⟩
  have hnew {key' : ℕ} {new : OperationGroup} (hnone : s.groups key' = none)
      (hgroups : s₁.groups = fun k => if k = key' then some new else s.groups k) :
      ∃ group', s₁.groups key = some group' ∧ GroupStep s key done added group group' := by
    refine ⟨group, ?_, .same⟩
    rw [hgroups]
    refine (if_neg ?_).trans hgroup
    rintro rfl
    simp [hgroup] at hnone
  cases h with
  | asyncStart hnone hopen => exact hnew hnone rfl
  | asyncWait hnone hopen => exact hnew hnone rfl
  | cancel hold hconnected htype => exact hset hold rfl (.cancelled _ htype)
  | delivers hx hstep hinternal hstrand hkind hhandler hold =>
    refine hset hold rfl (.told (.delivery hx hstep hkind hhandler rfl rfl)
      (fun a ha => ?_) (by simp))
    rw [onStrand, if_neg (List.ne_nil_of_mem ha)]
    exact List.mem_append_left _ ha
  | proceed hnext h =>
    cases h with
    | rejects hold hcontrol => exact hset hold rfl (.rejected rfl)
    | startThrows hold => exact hset hold rfl (.threw _ _)
    | waitThrows hold => exact hset hold rfl (.threw _ _)
    | reports hold hec hfailed =>
      exact hset hold rfl (.told (.initiation hold hec rfl hfailed) (List.Subset.refl _)
        (by simp [Action.owner?]))
    | finishStart hold hstart hcontrol => exact hset hold rfl (.finishedStart rfl hstart hcontrol)
    | finishWait hold hwait hcontrol =>
      obtain ⟨rfl, -⟩ := Prod.mk.inj hcontrol
      exact hset hold rfl (.finishedWait rfl hwait)
    | _ => exact ⟨group, hgroup, .same⟩
  | _ => exact ⟨group, hgroup, .same⟩

/-- An operation keeps its kind and its snapshot. -/
theorem Acts.groups (h : s.Acts l s₁ done added) {key : ℕ} {group : OperationGroup}
    (hgroup : s.groups key = some group) :
    ∃ group', s₁.groups key = some group' ∧ group'.wait = group.wait ∧
    group'.size = group.size := by
  obtain ⟨group', hgroup', hstep⟩ := h.group_step hgroup
  refine ⟨group', hgroup', ?_⟩
  cases hstep <;> exact ⟨rfl, rfl⟩

/-- A new operation has all the listeners in its snapshot. -/
theorem Acts.groups_new (h : s.Acts l s₁ done added) {key : ℕ} {group : OperationGroup}
    (hnone : s.groups key = none) (hgroup : s₁.groups key = some group) :
    ∃ wait, group = .create wait s.listeners.length := by
  have hset {key' : ℕ} {old new : OperationGroup} (hold : s.groups key' = some old)
      (hgroup : (if key = key' then some new else s.groups key) = some group) :
      ∃ wait, group = .create wait s.listeners.length := by
    rw [if_neg, hnone] at hgroup
    · contradiction
    · rintro rfl
      simp [hnone] at hold
  have hnew {key' : ℕ} {wait : Bool}
      (hgroup : (if key = key' then some (OperationGroup.create wait s.listeners.length)
      else s.groups key) = some group) : ∃ wait, group = .create wait s.listeners.length := by
    split at hgroup
    · exact ⟨wait, (Option.some.inj hgroup).symm⟩
    · simp [hnone] at hgroup
  have hsame (hgroup : s.groups key = some group) : ∃ wait, group =
      .create wait s.listeners.length := by
    simp [hnone] at hgroup
  cases h with
  | asyncStart hnone hopen => exact hnew hgroup
  | asyncWait hnone hopen => exact hnew hgroup
  | cancel hold hconnected htype => exact hset hold hgroup
  | delivers hx hstep hinternal hstrand hkind hhandler hold => exact hset hold hgroup
  | proceed hnext h =>
    cases h with
    | rejects hold hcontrol => exact hset hold hgroup
    | startThrows hold => exact hset hold hgroup
    | waitThrows hold => exact hset hold hgroup
    | reports hold hec hfailed => exact hset hold hgroup
    | finishStart hold hstart hcontrol => exact hset hold hgroup
    | finishWait hold hwait hcontrol => exact hset hold hgroup
    | _ => exact hsame hgroup
  | _ => exact hsame hgroup

/-- Listeners are only ever added. -/
theorem Acts.length_le (h : s.Acts l s₁ done added) : s.listeners.length ≤ s₁.listeners.length := by
  by_contra hlt
  have hshort : s₁.listeners.length < s.listeners.length := by omega
  have hsome := List.getElem?_eq_getElem hshort
  cases h.effect s₁.listeners.length with
  | same h => simp [hsome] at h
  | created hnone' h => simp at h
  | stepped hx hy hstep horigin => simp at hy

/-- Actions and operations are where they belong, and there is a listener for each child. -/
structure Placed (s : Server) : Prop where
  fits : ∀ a ∈ s.actions, a.Fits s.groups
  misplaced : ∀ key listener wait, (∀ group, s.groups key = some group → group.wait = wait) →
    s.countAt listener (Operation.isMisplaced key listener wait) = 0
  sized : ∀ key group, s.groups key = some group → group.size ≤ s.listeners.length

/-- What is pending after a step was pending before or has been added. -/
theorem Outcome.mem (h : Outcome s s₁ done added s') {a : Action} (ha : a ∈ s'.actions) :
    a ∈ s.actions ∨ a ∈ added := by
  have hmem := h.actions.subset (List.mem_append_left done ha)
  exact List.mem_append.mp hmem

/-- What has been added is pending after a step unless it has been carried out. -/
theorem Outcome.mem_of (h : Outcome s s₁ done added s') {a : Action}
    (ha : a ∈ s.actions ∨ a ∈ added) (hdone : a ∉ done) :
    a ∈ s'.actions := by
  have hmem := h.actions.symm.subset (List.mem_append.mpr ha)
  exact (List.mem_append.mp hmem).resolve_right hdone

/-- What a step carries out was pending. -/
theorem Acts.mem_done (h : s.Acts l s₁ done added) {a : Action} (ha : a ∈ done) :
    a ∈ s.actions := by
  cases h with
  | proceed hnext h =>
    obtain ⟨e, he, hhead⟩ := Option.bind_eq_some_iff.mp hnext
    rw [List.mem_singleton.mp ha]
    exact List.mem_flatMap.mpr ⟨e, List.mem_of_find?_eq_some he, List.mem_of_mem_head? hhead⟩
  | _ => simp at ha

/-- The actions that begin a group's work fit the group. -/
theorem start_fits {groups : ℕ → Option OperationGroup} {key : ℕ} {group : OperationGroup}
    (group' : OperationGroup) (hgroup : groups key = some group')
    (hwait : group'.wait = group.wait) :
    ∀ a ∈ group.start key, a.Fits groups := by
  intro a ha
  rcases OperationGroup.start_mem ha with ⟨i, -, hkind, rfl⟩ | ⟨i, -, hkind, rfl⟩ | ⟨i, -, rfl⟩
  · exact ⟨group', hgroup, hwait.trans hkind⟩
  · exact ⟨group', hgroup, hwait.trans hkind⟩
  · trivial

/-- The actions a report leaves fit anything. -/
theorem one_fits {groups : ℕ → Option OperationGroup} (group : OperationGroup) (key : ℕ)
    (report : Report) :
    ∀ a ∈ (group.one key report).2, a.Fits groups := by
  intro a ha
  rcases OperationGroup.one_mem ha with ⟨i, rfl⟩ | ⟨result, rfl⟩ <;> trivial

/-- What a step adds fits. -/
theorem Acts.fits (h : s.Acts l s₁ done added) (hdone : ∀ a ∈ done, a.Fits s.groups) :
    ∀ a ∈ added, a.Fits s₁.groups := by
  have hstops {n : ℕ} : ∀ a ∈ (List.range n).map Action.stopRead, a.Fits s₁.groups := by
    simp [Action.Fits]
  cases h with
  | asyncStart hnone hopen => simp [Action.Fits, setGroup, OperationGroup.create]
  | @asyncWait _ key hnone hopen =>
    split
    · simp [Action.Fits]
    · exact start_fits (.create true s.listeners.length) (by simp [setGroup]) rfl
  | requestStop hopen =>
    intro a ha
    rcases List.mem_append.mp ha with ha | ha
    · exact hstops a ha
    · rw [List.mem_singleton.mp ha]
      trivial
  | cancel hold hconnected htype => simp [Action.Fits]
  | delivers hx hstep hinternal hstrand hkind hhandler hold =>
    intro a ha
    unfold onStrand at ha
    split at ha
    · simp at ha
    · rcases List.mem_append.mp ha with ha | ha
      · exact one_fits _ _ _ a ha
      · rw [List.mem_singleton.mp ha]
        trivial
  | proceed hnext h =>
    cases h with
    | begins hold hcontrol =>
      obtain ⟨g, hg, hwait⟩ := hdone _ (List.mem_singleton_self _)
      obtain rfl := Option.some.inj (hg.symm.trans hold)
      split
      · simp [Action.Fits]
      · intro a ha
        rcases List.mem_append.mp ha with ha | ha
        · exact start_fits _ hold rfl a ha
        · rw [List.mem_singleton.mp ha]
          exact ⟨g, hold, hwait⟩
    | reports hold hec hfailed => exact one_fits _ _ _
    | checkCancelled hold => split <;> simp [Action.Fits]
    | recheck hold =>
      split
      · exact hstops
      · simp
    | _ => simp [Action.Fits]
  | _ => simp [Action.Fits]

/-- A pending action still fits when the groups have moved on. -/
theorem fits_mono {groups groups' : ℕ → Option OperationGroup} {a : Action} (h : a.Fits groups)
    (hgroups : ∀ key group, groups key = some group → ∃ group', groups' key = some group' ∧
      group'.wait = group.wait ∧ group'.size = group.size) :
    a.Fits groups' := by
  have hkept {key : ℕ} {wait : Bool} (h : ∃ group, groups key = some group ∧ group.wait = wait) :
      ∃ group, groups' key = some group ∧ group.wait = wait := by
    obtain ⟨group, hgroup, hwait⟩ := h
    obtain ⟨group', hgroup', hwait', -⟩ := hgroups key group hgroup
    exact ⟨group', hgroup', hwait'.trans hwait⟩
  cases a with
  | beginStart key => exact hkept h
  | startChild key index => exact hkept h
  | recheck key => exact hkept h
  | waitChild key index => exact hkept h
  | _ => trivial

/-- A step keeps everything where it belongs. -/
theorem Placed.step (h : s.Placed) (hacts : s.Acts l s₁ done added)
    (houtcome : Outcome s s₁ done added s') :
    s'.Placed := by
  have hdone : ∀ a ∈ done, a.Fits s.groups := fun a ha => h.fits a (hacts.mem_done ha)
  refine ⟨fun a ha => ?_, fun key listener wait hwait => ?_, fun key group hgroup => ?_⟩
  · rw [houtcome.groups]
    rcases houtcome.mem ha with ha | ha
    · exact fits_mono (h.fits a ha) fun key group => hacts.groups
    · exact hacts.fits hdone a ha
  · have hold : ∀ group, s.groups key = some group → group.wait = wait := by
      intro group hgroup
      obtain ⟨group', hgroup', hsame, -⟩ := hacts.groups hgroup
      rw [← hsame]
      exact hwait group' (by rw [houtcome.groups, hgroup'])
    rw [← h.misplaced key listener wait hold]
    refine ((hacts.effect listener).outcome houtcome).countAt (fun tag id => rfl)
      (fun k hk => ?_) fun k id hk => ?_
    · obtain ⟨group, hgroup, hstart⟩ := hdone (.startChild k listener) (by simp [hk])
      by_cases hkey : k = key
      · subst hkey
        simp [Operation.isMisplaced, ← hold group hgroup, hstart]
      · simp [Operation.isMisplaced, hkey]
    · obtain ⟨group, hgroup, hstart⟩ := hdone (.waitChild k listener) (by simp [hk])
      by_cases hkey : k = key
      · subst hkey
        simp [Operation.isMisplaced, ← hold group hgroup, hstart]
      · simp [Operation.isMisplaced, hkey]
  · rw [houtcome.groups] at hgroup
    rw [houtcome.listeners]
    refine le_trans ?_ hacts.length_le
    cases hold : s.groups key with
    | none =>
      obtain ⟨wait, rfl⟩ := hacts.groups_new hold hgroup
      exact le_rfl
    | some old =>
      obtain ⟨group', hgroup', -, hsize⟩ := hacts.groups hold
      obtain rfl := Option.some.inj (hgroup.symm.trans hgroup')
      exact hsize.trans_le (h.sized key old hold)

end Server

end Serveza
