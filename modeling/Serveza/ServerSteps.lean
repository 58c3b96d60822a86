import Serveza.Foundation.Registry
import Serveza.Server

/-!
# What a step of a server does

A step changes the control word, the listeners and the operations, and it turns the bag of
actions that calls still have to carry out into another one. `Performs` and `Acts` list
every case; results about servers are proved from them and look at neither the threads nor
the step function.
-/

namespace Serveza

open Foundation

namespace Server

/-- A call on a listener, or a piece of it, leads to another server. -/
structure Calls (s : Server) (listener : ℕ) (call : CoreLabel) (x y : Listener) : Prop where
  found : s.listeners[listener]? = some x
  step : x.step (x.off call) = some y

/-- What one action does, and what it leaves to be done first. -/
inductive Performs (s : Server) :
    Option FailingException → Action → Server → List Action → Prop where
  | begins {threw key group control} (hgroup : s.groups key = some group)
    (hcontrol : s.control.beginStart (s.statuses group.size) = (true, control)) :
    Performs s threw (.beginStart key) { s with control := control }
      (if group.size = 0 then [.finish key .success] else group.start key ++ [.recheck key])
  | rejects {threw key group control} (hgroup : s.groups key = some group)
    (hcontrol : s.control.beginStart (s.statuses group.size) = (false, control)) :
    Performs s threw (.beginStart key)
      ({ s with control := control }.setGroup key (group.reject .operationAborted)) []
  | startThrows {e key index group} (hgroup : s.groups key = some group) :
    Performs s (some e) (.startChild key index)
      (s.setGroup key { group with initiationEcs := group.initiationEcs.set index e.error }) []
  | startsChild {key index group x y} (hgroup : s.groups key = some group)
    (hcall : s.Calls index (.asyncStart (.child key index)) x y) :
    Performs s none (.startChild key index) (s.setListener index y) [.checkCancelled key index]
  | waitThrows {e key index group} (hgroup : s.groups key = some group) :
    Performs s (some e) (.waitChild key index)
      (s.setGroup key { group with initiationEcs := group.initiationEcs.set index e.error }) []
  | waitsChild {key index group x y} (hgroup : s.groups key = some group)
    (hcall : s.Calls index (.beginWait (.child key index)) x y) :
    Performs s none (.waitChild key index) (s.setListener index y)
      [.postWait index (x.core.nextWaiterId + 1), .checkCancelled key index]
  | postWait {threw listener id x y} (hcall : s.Calls listener (.postWait id) x y) :
    Performs s threw (.postWait listener id) (s.setListener listener y) []
  | checkCancelled {threw key index group} (hgroup : s.groups key = some group) :
    Performs s threw (.checkCancelled key index) s
    (if group.cancelled = 0 then [] else [.emit key index])
  | emitGone {threw key index group} (hgroup : s.groups key = some group)
    (hwait : group.wait = true)
    (hgone : s.childWait? key index = none) : Performs s threw (.emit key index) s []
  | emitWait {threw key index group w x y} (hgroup : s.groups key = some group)
    (hwait : group.wait = true)
    (hw : s.childWait? key index = some w) (hcall : s.Calls index (.cancelWait w.id) x y) :
    Performs s threw (.emit key index) (s.setListener index y) [.postCancel index w.id]
  | emitStart {threw key index group x y} (hgroup : s.groups key = some group)
    (hstart : group.wait = false) (hcall : s.Calls index (.cancelStart (.child key index)) x y) :
    Performs s threw (.emit key index) (s.setListener index y) []
  | postCancel {threw listener id x y} (hcall : s.Calls listener (.postCancel id) x y) :
    Performs s threw (.postCancel listener id) (s.setListener listener y) []
  | reports {threw key index group ec} (hgroup : s.groups key = some group)
    (hec : group.initiationEcs[index]? = some ec) (hfailed : ec.failed = true) :
    Performs s threw (.reportInitiation key index)
      (s.setGroup key (group.one key ⟨index, ec, none⟩).1) (group.one key ⟨index, ec, none⟩).2
  | initiated {threw key index group} (hgroup : s.groups key = some group)
    (hec : ∀ ec, group.initiationEcs[index]? = some ec → ec.failed = false) :
    Performs s threw (.reportInitiation key index) s []
  | recheck {threw key group} (hgroup : s.groups key = some group) :
    Performs s threw (.recheck key) s (if s.control.stopRequested then group.requestStop else [])
  | stopReturns {threw listener x y} (hcall : s.Calls listener .stopRead x y)
    (hstopped : x.core.state = .stopped) :
    Performs s threw (.stopRead listener) (s.setListener listener y) []
  | stopReads {threw listener x y} (hcall : s.Calls listener .stopRead x y)
    (hopen : x.core.state ≠ .stopped) :
    Performs s threw (.stopRead listener) (s.setListener listener y) [.stopPost listener]
  | stopPost {threw listener x y} (hcall : s.Calls listener .stopPost x y) :
    Performs s threw (.stopPost listener) (s.setListener listener y) []
  | finishStart {threw key result group ec control} (hgroup : s.groups key = some group)
    (hstart : group.wait = false)
    (hcontrol : s.control.finishStart (s.statuses group.size) result = (ec, control)) :
    Performs s threw (.finish key result)
      ({ s with control := control }.setGroup key (group.complete ec)) []
  | finishWait {threw key result group ec control} (hgroup : s.groups key = some group)
    (hwait : group.wait = true)
    (hcontrol : s.control.finishWait (s.statuses group.size) result = (ec, control)) :
    Performs s threw (.finish key result)
      ({ s with control := control }.setGroup key (group.complete ec)) []
  | unlock {threw} : Performs s threw .unlock s []
  | release {threw listener} : Performs s threw (.release listener) s []

/-- A call on a listener has the effect of its pieces. -/
theorem onListener_cases {s s' : Server} {listener : ℕ} {call : CoreLabel}
    (h : s.onListener listener call = some s') :
    ∃ x y, s.Calls listener call x y ∧ s' = s.setListener listener y := by
  obtain ⟨x, hx, hrest⟩ := Option.bind_eq_some_iff.mp h
  obtain ⟨y, hy, rfl⟩ := Option.map_eq_some_iff.mp hrest
  exact ⟨x, y, ⟨hx, hy⟩, rfl⟩

/-- An action that makes one call on a listener has the effect of that call. -/
theorem onListener_map_cases {s s' : Server} {listener : ℕ} {call : CoreLabel}
    {first first' : List Action}
    (h : (s.onListener listener call).map (fun s => (s, first)) = some (s', first')) :
    first' = first ∧ ∃ x y, s.Calls listener call x y ∧ s' = s.setListener listener y := by
  obtain ⟨t, ht, heq⟩ := Option.map_eq_some_iff.mp h
  obtain ⟨rfl, rfl⟩ := Prod.mk.inj heq
  exact ⟨rfl, onListener_cases ht⟩

/-- Every action has one of the listed effects. -/
theorem perform_cases {s s' : Server} {threw : Option FailingException} {action : Action}
    {first : List Action} (h : s.perform threw action = some (s', first)) :
    s.Performs threw action s' first := by
  cases action with
  | beginStart key =>
    obtain ⟨group, hgroup, h⟩ := Option.map_eq_some_iff.mp h
    cases hcontrol : s.control.beginStart (s.statuses group.size) with
    | mk answer control =>
      rw [hcontrol] at h
      cases answer with
      | true =>
        obtain ⟨rfl, rfl⟩ := Prod.mk.inj h
        exact .begins hgroup hcontrol
      | false =>
        obtain ⟨rfl, rfl⟩ := Prod.mk.inj h
        exact .rejects hgroup hcontrol
  | startChild key index =>
    obtain ⟨group, hgroup, h⟩ := Option.bind_eq_some_iff.mp h
    cases threw with
    | some e =>
      obtain ⟨rfl, rfl⟩ := Prod.mk.inj (Option.some.inj h)
      exact .startThrows hgroup
    | none =>
      obtain ⟨rfl, x, y, hcall, rfl⟩ := onListener_map_cases h
      exact .startsChild hgroup hcall
  | waitChild key index =>
    obtain ⟨group, hgroup, h⟩ := Option.bind_eq_some_iff.mp h
    cases threw with
    | some e =>
      obtain ⟨rfl, rfl⟩ := Prod.mk.inj (Option.some.inj h)
      exact .waitThrows hgroup
    | none =>
      obtain ⟨x', hx', h⟩ := Option.bind_eq_some_iff.mp h
      obtain ⟨rfl, x, y, hcall, rfl⟩ := onListener_map_cases h
      obtain rfl : x' = x := Option.some.inj (hx'.symm.trans hcall.found)
      exact .waitsChild hgroup hcall
  | postWait listener id =>
    obtain ⟨rfl, x, y, hcall, rfl⟩ := onListener_map_cases h
    exact .postWait hcall
  | checkCancelled key index =>
    obtain ⟨group, hgroup, h⟩ := Option.map_eq_some_iff.mp h
    obtain ⟨rfl, rfl⟩ := Prod.mk.inj h
    exact .checkCancelled hgroup
  | emit key index =>
    obtain ⟨group, hgroup, h⟩ := Option.bind_eq_some_iff.mp h
    split at h
    · rename_i hwait
      split at h
      · rename_i hgone
        obtain ⟨rfl, rfl⟩ := Prod.mk.inj (Option.some.inj h)
        exact .emitGone hgroup hwait hgone
      · rename_i w hw
        obtain ⟨rfl, x, y, hcall, rfl⟩ := onListener_map_cases h
        exact .emitWait hgroup hwait hw hcall
    · rename_i hstart
      obtain ⟨rfl, x, y, hcall, rfl⟩ := onListener_map_cases h
      exact .emitStart hgroup (by simpa using hstart) hcall
  | postCancel listener id =>
    obtain ⟨rfl, x, y, hcall, rfl⟩ := onListener_map_cases h
    exact .postCancel hcall
  | reportInitiation key index =>
    obtain ⟨group, hgroup, h⟩ := Option.map_eq_some_iff.mp h
    cases hec : group.initiationEcs[index]? with
    | none =>
      have heq : (s, ([] : List Action)) = (s', first) := by simpa [hec] using h
      obtain ⟨rfl, rfl⟩ := Prod.mk.inj heq
      exact .initiated hgroup (by simp [hec])
    | some ec =>
      by_cases hfailed : ec.failed = true
      · have heq : s.one key group ⟨index, ec, none⟩ = (s', first) := by
          simpa [hec, hfailed] using h
        obtain ⟨rfl, rfl⟩ := Prod.mk.inj heq
        exact .reports hgroup hec hfailed
      · have heq : (s, ([] : List Action)) = (s', first) := by simpa [hec, hfailed] using h
        obtain ⟨rfl, rfl⟩ := Prod.mk.inj heq
        exact .initiated hgroup (by simpa [hec] using hfailed)
  | recheck key =>
    obtain ⟨group, hgroup, h⟩ := Option.map_eq_some_iff.mp h
    obtain ⟨rfl, rfl⟩ := Prod.mk.inj h
    exact .recheck hgroup
  | stopRead listener =>
    obtain ⟨x', hx', h⟩ := Option.bind_eq_some_iff.mp h
    obtain ⟨rfl, x, y, hcall, rfl⟩ := onListener_map_cases h
    obtain rfl : x' = x := Option.some.inj (hx'.symm.trans hcall.found)
    split
    · exact .stopReturns hcall ‹_›
    · exact .stopReads hcall ‹_›
  | stopPost listener =>
    obtain ⟨rfl, x, y, hcall, rfl⟩ := onListener_map_cases h
    exact .stopPost hcall
  | finish key result =>
    obtain ⟨group, hgroup, h⟩ := Option.map_eq_some_iff.mp h
    cases hwait : group.wait with
    | true =>
      obtain ⟨rfl, rfl⟩ := Prod.mk.inj (by simpa only [hwait, if_true] using h)
      exact .finishWait hgroup hwait rfl
    | false =>
      obtain ⟨rfl, rfl⟩ := Prod.mk.inj (by simpa only [hwait, Bool.false_eq_true, if_false] using h)
      exact .finishStart hgroup hwait rfl
  | unlock =>
    obtain ⟨rfl, rfl⟩ := Prod.mk.inj (Option.some.inj h)
    exact .unlock
  | release listener =>
    obtain ⟨rfl, rfl⟩ := Prod.mk.inj (Option.some.inj h)
    exact .release

/-- An action leaves the threads alone. -/
theorem perform_threads {s s' : Server} {threw : Option FailingException} {action : Action}
    {first : List Action} (h : s.perform threw action = some (s', first)) :
    s'.threads = s.threads := by
  cases perform_cases h <;> rfl

/-- The actions the handler of a child leaves on the strand of its listener. -/
def onStrand (listener : ℕ) (actions : List Action) : List Action :=
  if actions = [] then [] else actions ++ [.release listener]

/-- What one step does: the control word, the listeners and the operations become those of
another server, and some actions are carried out and some are added. -/
inductive Acts (s : Server) : ServerLabel → Server → List Action → List Action → Prop where
  | addListener {config} (hopen : .unlock ∉ s.actions) :
    Acts s (.addListener config) (s.addListener config) [] []
  | asyncStart {t key} (hnew : s.groups key = none) (hopen : .unlock ∉ s.actions) :
    Acts s (.asyncStart t key) (s.setGroup key (.create false s.listeners.length))
    [] [.beginStart key]
  | asyncWait {t key} (hnew : s.groups key = none) (hopen : .unlock ∉ s.actions) :
    Acts s (.asyncWait t key) (s.setGroup key (.create true s.listeners.length)) []
      (if s.listeners.length = 0 then [.finish key .success]
        else (OperationGroup.create true s.listeners.length).start key)
  | requestStop {t} (hopen : .unlock ∉ s.actions) :
    Acts s (.requestStop t) { s with
    control := s.control.requestStop (s.statuses s.listeners.length) } []
      ((List.range s.listeners.length).map Action.stopRead ++ [Action.unlock])
  | cancelNone {t key group} (hgroup : s.groups key = some group)
    (hconnected : group.connected = true) : Acts s (.cancel t key 0) s [] []
  | cancel {t key type group} (hgroup : s.groups key = some group)
    (hconnected : group.connected = true) (htype : type ≠ 0) :
    Acts s (.cancel t key type)
      (s.setGroup key { group with cancelled := group.cancelled ||| type }) []
      ((List.range group.size).map (Action.emit key))
  | listenerStart {listener tag x y} (hcall : s.Calls listener (.asyncStart (.user tag)) x y) :
    Acts s (.listenerStart listener tag) (s.setListener listener y) [] []
  | listenerCancelStart {listener tag x y}
    (hcall : s.Calls listener (.cancelStart (.user tag)) x y) :
    Acts s (.listenerCancelStart listener tag) (s.setListener listener y) [] []
  | listenerWait {t listener tag x y} (hcall : s.Calls listener (.beginWait (.user tag)) x y) :
    Acts s (.listenerWait t listener tag) (s.setListener listener y) []
    [.postWait listener (x.core.nextWaiterId + 1)]
  | listenerCancelWait {t listener id x y w tag} (hcall : s.Calls listener (.cancelWait id) x y)
    (hw : x.core.connectedWaits.find? (fun w => w.id = id) = some w)
    (huser : w.handler = .user tag) :
    Acts s (.listenerCancelWait t listener id) (s.setListener listener y) []
      [.postCancel listener id]
  | listenerStop {t listener} (hlistener : listener < s.listeners.length) :
    Acts s (.listenerStop t listener) s [] [.stopRead listener]
  | proceed {t threw action s' first} (hnext : s.next t = some action)
    (h : s.Performs threw action s' first) : Acts s (.proceed t threw) s' [action] first
  | internal {t listener l x y} (hx : s.listeners[listener]? = some x) (hstep : x.step l = some y)
    (hinternal : l.isInternal = true)
    (hstrand : l.isOnStrand = true → .release listener ∉ s.actions)
    (hkind : ∀ completion key index, x.kind l = .deliver completion →
      completion.handler = .child key index →
      s.groups key = none) : Acts s (.listener t listener l) (s.setListener listener y) [] []
  | delivers {t listener l x y completion key index group} (hx : s.listeners[listener]? = some x)
    (hstep : x.step l = some y) (hinternal : l.isInternal = true)
    (hstrand : l.isOnStrand = true → .release listener ∉ s.actions)
      (hkind : x.kind l = .deliver completion)
    (hhandler : completion.handler = .child key index) (hgroup : s.groups key = some group) :
    Acts s (.listener t listener l)
      ((s.setListener listener y).setGroup key
        (group.one key ⟨index, completion.error, some completion.cause⟩).1) []
      (onStrand listener (group.one key ⟨index, completion.error, some completion.cause⟩).2)

/-- The server after a step agrees with the outcome of the step, and a thread goes on with the
actions that have been added, if there are any. -/
structure Outcome (s s₁ : Server) (done added : List Action) (s' : Server) : Prop where
  control : s'.control = s₁.control
  listeners : s'.listeners = s₁.listeners
  groups : s'.groups = s₁.groups
  actions : (s'.actions ++ done).Perm (s.actions ++ added)
  threads : ∀ e ∈ s'.threads, e ∈ s.threads ∨ ∃ rest, e.2 = added ++ rest ∧
    (rest = [] ∨ ∃ e₀ ∈ s.threads, e₀.2 = done ++ rest)

/-- A free thread takes up a call with its actions. -/
theorem resume_free {s : Server} {t : ℕ} (h : s.isFree t = true) (actions : List Action) :
    (s.resume t actions).actions = actions ++ s.actions := by
  have herase : (s.threads.eraseP fun e => e.1 = t) = s.threads :=
    List.eraseP_of_forall_not fun e he => by simpa using List.all_eq_true.mp h e he
  rw [Server.actions, resume, herase]
  split
  · rename_i hnil
    rw [hnil]
    rfl
  · rfl

/-- A thread that goes on does so with the actions it has left, and the others are as before. -/
theorem resume_threads {s : Server} {t : ℕ} {actions : List Action} {e : ℕ × List Action}
    (he : e ∈ (s.resume t actions).threads) : e ∈ s.threads ∨ e.2 = actions := by
  rcases List.mem_append.mp he with he | he
  · split at he
    · simp at he
    · exact Or.inr (congrArg Prod.snd (List.mem_singleton.mp he))
  · exact Or.inl (List.mem_of_mem_eraseP he)

/-- A thread that carries out its next action goes on with what the action leaves first. -/
theorem resume_next {s : Server} {t t' : ℕ} {action : Action} {rest : List Action}
    (h : (s.threads.find? fun e => e.1 = t) = some (t', action :: rest)) (first : List Action) :
    ((s.resume t (first ++ rest)).actions ++ [action]).Perm (s.actions ++ first) := by
  have hperm : s.actions.Perm
      (action :: (rest ++ (s.threads.eraseP fun e => e.1 = t).flatMap Prod.snd)) :=
    (perm_of_find? h).flatMap_right Prod.snd
  have hresume : (s.resume t (first ++ rest)).actions =
      first ++ rest ++ (s.threads.eraseP fun e => e.1 = t).flatMap Prod.snd := by
    rw [Server.actions, resume]
    split
    · rename_i hnil
      rw [hnil]
      rfl
    · rfl
  rw [hresume, List.append_assoc first]
  refine List.perm_append_comm.trans ?_
  refine List.Perm.trans ?_ (hperm.append_right first).symm
  rw [List.singleton_append, List.cons_append]
  exact List.perm_append_comm.cons action

/-- Every step has one of the listed effects. -/
theorem step_cases {s s' : Server} {l : ServerLabel} (h : s.step l = some s') :
    ∃ s₁ done added, s.Acts l s₁ done added ∧ Outcome s s₁ done added s' := by
  have hcalled {s₁ : Server} {t : ℕ} {added : List Action} (hfree : s.isFree t = true)
      (hs' : s' = s₁.resume t added)
      (hacts : s.Acts l s₁ [] added) (hthreads : s₁.threads = s.threads) :
      ∃ s₁ done added, s.Acts l s₁ done added ∧ Outcome s s₁ done added s' := by
    refine ⟨s₁, [], added, hacts, ?_⟩
    have hactions : (s₁.resume t added).actions = added ++ s₁.actions :=
      resume_free (by rw [isFree, hthreads]; exact hfree) added
    have hsame : s₁.actions = s.actions := by rw [Server.actions, Server.actions, hthreads]
    rw [hs']
    refine ⟨rfl, rfl, rfl, ?_, fun e he => (resume_threads he).imp
      (fun he => hthreads ▸ he) fun he => ?_⟩
    · rw [hactions, hsame, List.append_nil]
      exact List.perm_append_comm
    · exact ⟨[], by rw [he, List.append_nil], Or.inl rfl⟩
  have hdirect (hacts : s.Acts l s' [] []) (hthreads : s'.threads = s.threads) :
      ∃ s₁ done added, s.Acts l s₁ done added ∧ Outcome s s₁ done added s' := by
    refine ⟨s', [], [], hacts, rfl, rfl, rfl, ?_, fun e he => Or.inl (hthreads ▸ he)⟩
    rw [Server.actions, Server.actions, hthreads]
  cases l with
  | addListener config =>
    obtain ⟨hopen, h⟩ := Option.ite_none_left_eq_some.mp h
    obtain rfl := Option.some.inj h
    exact hdirect (.addListener hopen) rfl
  | asyncStart t key =>
    obtain ⟨⟨hfree, hnew, hopen⟩, h⟩ := Option.ite_none_right_eq_some.mp h
    obtain rfl := Option.some.inj h
    exact hcalled hfree rfl (.asyncStart hnew hopen) rfl
  | asyncWait t key =>
    obtain ⟨⟨hfree, hnew, hopen⟩, h⟩ := Option.ite_none_right_eq_some.mp h
    obtain rfl := Option.some.inj h
    exact hcalled hfree rfl (.asyncWait hnew hopen) rfl
  | requestStop t =>
    obtain ⟨⟨hfree, hopen⟩, h⟩ := Option.ite_none_right_eq_some.mp h
    obtain rfl := Option.some.inj h
    exact hcalled hfree rfl (.requestStop hopen) rfl
  | cancel t key type =>
    obtain ⟨hfree, h⟩ := Option.ite_none_right_eq_some.mp h
    obtain ⟨group, hgroup, h⟩ := Option.bind_eq_some_iff.mp h
    obtain ⟨hconnected, h⟩ := Option.ite_none_right_eq_some.mp h
    obtain rfl := Option.some.inj h
    by_cases htype : type = 0
    · subst htype
      exact hdirect (.cancelNone hgroup hconnected) rfl
    · rw [if_neg htype] at hcalled ⊢
      exact hcalled hfree rfl (.cancel hgroup hconnected htype) rfl
  | listenerStart listener tag =>
    obtain ⟨x, y, hcall, rfl⟩ := onListener_cases h
    exact hdirect (.listenerStart hcall) rfl
  | listenerCancelStart listener tag =>
    obtain ⟨x, y, hcall, rfl⟩ := onListener_cases h
    exact hdirect (.listenerCancelStart hcall) rfl
  | listenerWait t listener tag =>
    obtain ⟨hfree, h⟩ := Option.ite_none_right_eq_some.mp h
    obtain ⟨x', hx', h⟩ := Option.bind_eq_some_iff.mp h
    obtain ⟨s₁, hs₁, rfl⟩ := Option.map_eq_some_iff.mp h
    obtain ⟨x, y, hcall, rfl⟩ := onListener_cases hs₁
    obtain rfl : x' = x := Option.some.inj (hx'.symm.trans hcall.found)
    exact hcalled hfree rfl (.listenerWait hcall) rfl
  | listenerCancelWait t listener id =>
    obtain ⟨hfree, h⟩ := Option.ite_none_right_eq_some.mp h
    obtain ⟨x', hx', h⟩ := Option.bind_eq_some_iff.mp h
    obtain ⟨w, hw, h⟩ := Option.bind_eq_some_iff.mp h
    split at h
    · rename_i tag huser
      obtain ⟨s₁, hs₁, rfl⟩ := Option.map_eq_some_iff.mp h
      obtain ⟨x, y, hcall, rfl⟩ := onListener_cases hs₁
      obtain rfl : x' = x := Option.some.inj (hx'.symm.trans hcall.found)
      exact hcalled hfree rfl (.listenerCancelWait hcall hw huser) rfl
    · contradiction
  | listenerStop t listener =>
    obtain ⟨⟨hfree, hlistener⟩, h⟩ := Option.ite_none_right_eq_some.mp h
    obtain rfl := Option.some.inj h
    exact hcalled hfree rfl (.listenerStop hlistener) rfl
  | proceed t threw =>
    obtain ⟨⟨t', actions⟩, hfind, h⟩ := Option.bind_eq_some_iff.mp h
    cases actions with
    | nil => contradiction
    | cons action rest =>
      obtain ⟨⟨s₁, first⟩, hperform, rfl⟩ := Option.map_eq_some_iff.mp h
      have hthreads := perform_threads hperform
      have hnext : s.next t = some action := by rw [next, hfind]; rfl
      refine ⟨s₁, [action], first, .proceed hnext (perform_cases hperform), rfl, rfl, rfl, ?_,
        fun e he => (resume_threads he).imp (fun he => hthreads ▸ he) fun he => ?_⟩
      · have hperm := resume_next (s := s₁) (by rw [hthreads]; exact hfind) first
        have hsame : s₁.actions = s.actions := by rw [Server.actions, Server.actions, hthreads]
        rwa [hsame] at hperm
      · exact ⟨rest, he, Or.inr ⟨(t', action :: rest), List.mem_of_find?_eq_some hfind, rfl⟩⟩
  | listener t listener l =>
    obtain ⟨⟨hfree, hinternal, hstrand⟩, h⟩ := Option.ite_none_right_eq_some.mp h
    obtain ⟨x', hx', h⟩ := Option.bind_eq_some_iff.mp h
    obtain ⟨s₁, hs₁, h⟩ := Option.map_eq_some_iff.mp h
    obtain ⟨x, hx, hs₁⟩ := Option.bind_eq_some_iff.mp hs₁
    obtain ⟨y, hstep, rfl⟩ := Option.map_eq_some_iff.mp hs₁
    obtain rfl : x' = x := Option.some.inj (hx'.symm.trans hx)
    cases hkind : x'.kind l with
    | deliver completion =>
      have hs' : (s.setListener listener y).delivered t listener completion = s' := by
        simpa only [hkind] using h
      unfold delivered at hs'
      split at hs'
      · rename_i tag huser
        obtain rfl := hs'
        refine hdirect (.internal hx hstep hinternal hstrand
          fun completion' key index hdeliver hchild => ?_) rfl
        obtain rfl : completion = completion' := StepKind.deliver.inj (hkind.symm.trans hdeliver)
        rw [huser] at hchild
        contradiction
      · rename_i key index hchild
        split at hs'
        · rename_i hgroup
          obtain rfl := hs'
          refine hdirect (.internal hx hstep hinternal hstrand
            fun completion' key' index' hdeliver hchild' => ?_) rfl
          obtain rfl : completion = completion' := StepKind.deliver.inj (hkind.symm.trans hdeliver)
          rw [hchild] at hchild'
          obtain ⟨rfl, rfl⟩ := CompletionHandler.child.inj hchild'
          exact hgroup
        · rename_i group hgroup
          exact hcalled hfree hs'.symm
            (.delivers hx hstep hinternal hstrand hkind hchild hgroup) rfl
    | off call =>
      obtain rfl : s.setListener listener y = s' := by simpa only [hkind] using h
      exact hdirect (.internal hx hstep hinternal hstrand (by simp [hkind])) rfl
    | cancelWait id =>
      obtain rfl : s.setListener listener y = s' := by simpa only [hkind] using h
      exact hdirect (.internal hx hstep hinternal hstrand (by simp [hkind])) rfl
    | force arming =>
      obtain rfl : s.setListener listener y = s' := by simpa only [hkind] using h
      exact hdirect (.internal hx hstep hinternal hstrand (by simp [hkind])) rfl
    | handler =>
      obtain rfl : s.setListener listener y = s' := by simpa only [hkind] using h
      exact hdirect (.internal hx hstep hinternal hstrand (by simp [hkind])) rfl

end Server

end Serveza
