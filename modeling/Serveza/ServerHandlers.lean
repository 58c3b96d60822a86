import Serveza.ServerDrain

/-!
# The handlers that users pass to a server

A start or a wait of the server, or of one of its listeners, takes a handler. The server's own
operations hand theirs to `complete_on` when they end, and a listener does so when it delivers
a completion. Each step is traced as far as these handlers are concerned: which one it takes
over, and which one it hands over to be completed.
-/

namespace Serveza

open Foundation

/-- A handler that a user passed to an operation of the server, or to a listener. -/
inductive UserHandler where
  | operation (key : ℕ)
  | listener (index tag : ℕ)
  deriving DecidableEq, Repr

/-- The name of a handler that a user passed to a listener. -/
def CompletionHandler.user? : CompletionHandler → Option ℕ
  | .user tag => some tag
  | .child _ _ => none

/-- The handler that a call takes over. -/
def ServerLabel.taken? : ServerLabel → Option UserHandler
  | .asyncStart _ key | .asyncWait _ key => some (.operation key)
  | .listenerStart index tag | .listenerWait _ index tag => some (.listener index tag)
  | _ => none

namespace Server

variable (s : Server)

/-- The handler and the error that an action passes to `complete_on`. -/
def answer? : Action → Option (UserHandler × ErrorCode)
  | .beginStart key => (s.groups key).bind fun group =>
    if (s.control.beginStart (s.statuses group.size)).1 then none
    else some (.operation key, .operationAborted)
  | .finish key result => (s.groups key).map fun group =>
    (.operation key, if group.wait then (s.control.finishWait (s.statuses group.size) result).1
      else (s.control.finishStart (s.statuses group.size) result).1)
  | _ => none

/-- The handler that a step hands over, and the error it is to be called with. -/
def handing? : ServerLabel → Option (UserHandler × ErrorCode)
  | .proceed t _ => (s.next t).bind s.answer?
  | .listener _ index l => (s.listeners[index]?).bind fun x => (x.kind l).delivered?.bind fun q =>
      q.handler.user?.map fun tag => (.listener index tag, q.error)
  | _ => none

/-- How often a handler has been passed to the server. -/
def taken : UserHandler → ℕ
  | .operation key => if (s.groups key).isSome then 1 else 0
  | .listener index tag => s.countAt index (withHandler (.user tag))

/-- The errors with which a handler has been handed over. -/
def handed : UserHandler → List ErrorCode
  | .operation key => ((s.groups key).map (·.results)).getD []
  | .listener index tag => ((s.listeners[index]?).map fun x =>
      (x.core.delivered.filter fun q => q.handler = .user tag).map (·.error)).getD []

/-- A step takes over one handler at most, and hands over one at most. -/
structure Handles (s s₁ : Server) (took : Option UserHandler)
    (gave : Option (UserHandler × ErrorCode)) : Prop where
  taken : ∀ h, s₁.taken h = s.taken h + took.toList.count h
  handed : ∀ h, s₁.handed h = s.handed h ++ (gave.toList.filter (·.1 = h)).map (·.2)

variable {s} {s₁ s' : Server} {l : ServerLabel} {done added : List Action}

/-- Nothing happens to the handlers if operations and listeners are as before. -/
theorem handles_none (hgroups : s₁.groups = s.groups) (hlisteners : s₁.listeners = s.listeners) :
    s.Handles s₁ none none := by
  constructor <;> intro h <;> cases h <;>
    simp [Server.taken, Server.handed, countAt, hgroups, hlisteners]

/-- Nothing more happens to the handlers. -/
theorem Handles.quiet {took : Option UserHandler} {gave : Option (UserHandler × ErrorCode)}
    (h : s.Handles s₁ took gave) (h' : s₁.Handles s' none none) : s.Handles s' took gave := by
  refine ⟨fun c => (h'.taken c).trans (h.taken c), fun c => ?_⟩
  have hsame : s'.handed c = s₁.handed c := (h'.handed c).trans (List.append_nil _)
  exact hsame.trans (h.handed c)

/-- An operation that goes on hands its handler over with the results it adds. -/
theorem handles_setGroup {key : ℕ} {group : OperationGroup} (hgroup : s.groups key = some group)
    (new : OperationGroup) (result : Option ErrorCode)
    (hresults : new.results = group.results ++ result.toList) :
    s.Handles (s.setGroup key new) none (result.map fun ec => (.operation key, ec)) := by
  constructor <;> intro h
  · cases h with
    | operation other =>
      simp only [Server.taken, setGroup]
      by_cases hother : other = key
      · simp [hother, hgroup]
      · simp [hother]
    | listener index tag => simp [Server.taken, countAt, setGroup]
  · cases h with
    | operation other =>
      simp only [Server.handed, setGroup]
      by_cases hother : other = key
      · subst hother
        cases result <;> simp [hgroup, hresults]
      · have hne : key ≠ other := fun h => hother h.symm
        cases result <;> simp [hother, hne]
    | listener index tag => cases result <;> simp [Server.handed, setGroup]

/-- A step of a listener takes over the handler it is called with, and hands over the one it
delivers to. -/
theorem handles_setListener {index : ℕ} {x y : Listener} {k : ListenerLabel}
    (hx : s.listeners[index]? = some x) (hstep : x.step k = some y) (hgroups : s₁.groups = s.groups)
    (hlisteners : s₁.listeners = s.listeners.set index y) :
    s.Handles s₁ (((x.kind k).initiated?.bind CompletionHandler.user?).map (.listener index))
      ((x.kind k).delivered?.bind fun q => q.handler.user?.map fun tag =>
        (.listener index tag, q.error)) := by
  have hlt : index < s.listeners.length := (List.getElem?_eq_some_iff.mp hx).1
  have hself : s₁.listeners[index]? = some y := by rw [hlisteners, List.getElem?_set_self hlt]
  have hothers {other : ℕ} (hother : index ≠ other) : s₁.listeners[other]? =
      s.listeners[other]? := by
    rw [hlisteners, List.getElem?_set_ne hother]
  constructor <;> intro h
  · cases h with
    | operation key =>
      cases (x.kind k).initiated?.bind CompletionHandler.user? <;> simp [Server.taken, hgroups]
    | listener other tag =>
      simp only [Server.taken, countAt]
      by_cases hother : index = other
      · subst hother
        rw [hself, hx, Option.map_some, Option.map_some, Option.getD_some, Option.getD_some,
          (Listener.step_core hstep).tally_handler]
        rcases (x.kind k).initiated? with _ | ⟨tag'⟩ | ⟨key, i⟩ <;>
          simp [CompletionHandler.user?, List.count_singleton]
      · rw [hothers hother]
        cases (x.kind k).initiated?.bind CompletionHandler.user? <;> simp [hother]
  · cases h with
    | operation key =>
      rcases (x.kind k).delivered? with _ | q
      · simp [Server.handed, hgroups]
      · cases hq : q.handler <;> simp [Server.handed, hgroups, hq, CompletionHandler.user?]
    | listener other tag =>
      simp only [Server.handed]
      by_cases hother : index = other
      · subst hother
        rw [hself, hx, Option.map_some, Option.map_some, Option.getD_some, Option.getD_some,
          (Listener.step_core hstep).delivered, List.filter_append, List.map_append]
        rcases (x.kind k).delivered? with _ | q
        · simp
        · cases hq : q.handler with
          | child key i => simp [hq, CompletionHandler.user?]
          | user tag' => by_cases htag : tag' = tag <;> simp [hq, CompletionHandler.user?, htag]
      · rw [hothers hother]
        rcases (x.kind k).delivered? with _ | q
        · simp
        · cases hq : q.handler <;> simp [hq, CompletionHandler.user?, hother]

/-- A call on a listener takes over the handler that a user passes with it. -/
theorem handles_calls {index : ℕ} {call : CoreLabel} {x y : Listener}
    (hcall : s.Calls index call x y) :
    s.Handles (s.setListener index y)
      (((StepKind.off call).initiated?.bind CompletionHandler.user?).map (.listener index))
      none := by
  have h : s.Handles (s.setListener index y) _ _ :=
    handles_setListener hcall.found hcall.step rfl rfl
  rwa [Listener.kind_off] at h

/-- An action takes over no handler, and hands over the one it completes. -/
theorem Performs.handles {threw : Option FailingException} {action : Action} {first : List Action}
    (h : s.Performs threw action s₁ first) : s.Handles s₁ none (s.answer? action) := by
  cases h with
  | begins hgroup hcontrol =>
    rw [answer?, hgroup, Option.bind_some, hcontrol]
    exact handles_none rfl rfl
  | @rejects _ _ group _ hgroup hcontrol =>
    rw [answer?, hgroup, Option.bind_some, hcontrol]
    have h := handles_setGroup hgroup (group.reject .operationAborted) (some .operationAborted) rfl
    exact ⟨h.taken, h.handed⟩
  | startThrows hgroup => exact handles_setGroup hgroup _ none (List.append_nil _).symm
  | waitThrows hgroup => exact handles_setGroup hgroup _ none (List.append_nil _).symm
  | reports hgroup hec hfailed => exact handles_setGroup hgroup _ none (List.append_nil _).symm
  | @finishStart _ _ _ group ec _ hgroup hstart hcontrol =>
    rw [answer?, hgroup, Option.map_some, hstart, hcontrol]
    have h := handles_setGroup hgroup (group.complete ec) (some ec) rfl
    exact ⟨h.taken, h.handed⟩
  | @finishWait _ _ _ group ec _ hgroup hwait hcontrol =>
    rw [answer?, hgroup, Option.map_some, hwait, hcontrol]
    have h := handles_setGroup hgroup (group.complete ec) (some ec) rfl
    exact ⟨h.taken, h.handed⟩
  | startsChild hgroup hcall => exact handles_calls hcall
  | waitsChild hgroup hcall => exact handles_calls hcall
  | postWait hcall => exact handles_calls hcall
  | emitWait hgroup hwait hw hcall => exact handles_calls hcall
  | emitStart hgroup hstart hcall => exact handles_calls hcall
  | postCancel hcall => exact handles_calls hcall
  | stopReturns hcall hstopped => exact handles_calls hcall
  | stopReads hcall hopen => exact handles_calls hcall
  | stopPost hcall => exact handles_calls hcall
  | _ => exact handles_none rfl rfl

/-- A new operation takes over its handler. -/
theorem handles_create {key : ℕ} (hnew : s.groups key = none) (wait : Bool) (size : ℕ) :
    s.Handles (s.setGroup key (.create wait size)) (some (.operation key)) none := by
  constructor <;> intro h
  · cases h with
    | operation other =>
      by_cases hother : other = key
      · simp [Server.taken, setGroup, hother, hnew]
      · have hne : key ≠ other := fun h => hother h.symm
        simp [Server.taken, setGroup, hother, hne]
    | listener index tag => simp [Server.taken, countAt, setGroup]
  · cases h with
    | operation other =>
      by_cases hother : other = key
      · simp [Server.handed, setGroup, hother, hnew, OperationGroup.create]
      · simp [Server.handed, setGroup, hother]
    | listener index tag => simp [Server.handed, setGroup]

/-- A new listener has no handler. -/
theorem handles_addListener (s : Server) (config : ListenerConfig) :
    s.Handles (s.addListener config) none none := by
  obtain ⟨endpoint, hcore⟩ := Listener.create_core (s.listeners.length + 1) config
  have hadded (index : ℕ) : (s.addListener config).listeners[index]? = s.listeners[index]? ∨
      s.listeners[index]? = none ∧
      (s.addListener config).listeners[index]? =
      some (.create (s.listeners.length + 1) config) := by
    rcases Nat.lt_trichotomy index s.listeners.length with hlt | rfl | hgt
    · exact Or.inl (List.getElem?_append_left hlt)
    · exact Or.inr ⟨List.getElem?_eq_none le_rfl, List.getElem?_concat_length⟩
    · refine Or.inl ?_
      rw [List.getElem?_eq_none hgt.le, List.getElem?_eq_none]
      rw [Server.addListener, List.length_append]
      exact hgt
  constructor <;> intro h
  · cases h with
    | operation key => rfl
    | listener index tag =>
      rcases hadded index with h | ⟨hnone, h⟩ <;> simp [Server.taken, countAt, *, tally]
  · cases h with
    | operation key => simp [Server.handed, Server.addListener]
    | listener index tag => rcases hadded index with h | ⟨hnone, h⟩ <;> simp [Server.handed, *]

/-- A step takes over the handler that its label passes, and hands over the one it completes. -/
theorem Acts.handles (h : s.Acts l s₁ done added) : s.Handles s₁ l.taken? (s.handing? l) := by
  cases h with
  | addListener hopen => exact handles_addListener s _
  | asyncStart hnew hopen => exact handles_create hnew _ _
  | asyncWait hnew hopen => exact handles_create hnew _ _
  | cancel hgroup hconnected htype => exact handles_setGroup hgroup _ none (List.append_nil _).symm
  | listenerStart hcall => exact handles_calls hcall
  | listenerCancelStart hcall => exact handles_calls hcall
  | listenerWait hcall => exact handles_calls hcall
  | listenerCancelWait hcall hw huser => exact handles_calls hcall
  | proceed hnext h =>
    have hanswer := h.handles
    rwa [← Option.bind_some (f := s.answer?), ← hnext] at hanswer
  | @internal t index k x y hx hstep hinternal hstrand hkind =>
    have h : s.Handles (s.setListener index y) _ _ := handles_setListener hx hstep rfl rfl
    rw [Listener.isInternal_initiated hstep hinternal] at h
    rw [handing?, hx]
    exact h
  | @delivers t index k x y completion key i group hx hstep hinternal hstrand
    hkind hhandler hgroup =>
    have h : s.Handles (s.setListener index y) _ _ := handles_setListener hx hstep rfl rfl
    rw [Listener.isInternal_initiated hstep hinternal] at h
    rw [handing?, hx]
    have hgroup' : (s.setListener index y).groups key = some group := hgroup
    exact h.quiet (handles_setGroup hgroup' _ none (List.append_nil _).symm)
  | _ => exact handles_none rfl rfl

/-- A step takes over the handler that its label passes, and hands over the one it completes. -/
theorem step_handles (h : s.step l = some s') : s.Handles s' l.taken? (s.handing? l) := by
  obtain ⟨s₁, done, added, hacts, houtcome⟩ := step_cases h
  exact hacts.handles.quiet (handles_none houtcome.groups houtcome.listeners)

/-- A handler is handed over at most as often as it has been taken over. -/
theorem handed_le (h : Reachable step {} s) (handler : UserHandler) :
    (s.handed handler).length ≤ s.taken handler := by
  cases handler with
  | operation key =>
    cases hgroup : s.groups key with
    | none => simp [Server.handed, hgroup]
    | some group =>
      simpa [Server.handed, Server.taken, hgroup] using (sound_of_reachable h).results_le hgroup
  | listener index tag =>
    cases hx : s.listeners[index]? with
    | none => simp [Server.handed, hx]
    | some y =>
      have hle := deliveries_le_tally (.user tag) y.core
      simpa [Server.handed, Server.taken, countAt, hx, deliveries, List.countP_eq_length_filter]
        using hle

end Server

end Serveza
