import Serveza.Moves

/-!
# What a step of a listener can be

`CoreStep` says what one step of a listener of either kind does to the shared part: a piece
of a call, a posted message, or the handler of an asynchronous operation. Facts about the
lifecycle, the waits and the shutdown timer are proved once, about these steps.
-/

namespace Serveza

open Foundation ListenerCore

/-- A completion of a start with a given handler, with the error its cause stands for. A
start that fails completes with the error of the call that failed. -/
def Completion.EndsStart (completion : Completion) (handler : CompletionHandler) : Prop :=
  completion.handler = handler ∧ completion.wait = none ∧
    match completion.cause with
    | .cancelled | .rejected => completion.error = .operationAborted
    | .joined | .started => completion.error = .success
    | .startupFailed => True
    | .stopped => False

/-- What a step of a listener is, as far as its control plane is concerned. -/
inductive StepKind where
  | off (l : CoreLabel)
  | deliver (completion : Completion)
  | cancelWait (id : ℕ)
  | force (arming : Arming)
  | handler
  deriving DecidableEq, Repr

/-- The kind of the step that runs a posted message. -/
def Message.kind : Message → StepKind
  | .complete completion => .deliver completion
  | .cancelWait waiter => .cancelWait waiter
  | _ => .handler

/-- The kind of the step that runs the handler of a wait on the shutdown timer. -/
def graceKind (w : TimerWait Arming) : StepKind :=
  match w.status with
  | .aborted => .handler
  | _ => .force w.tag

/-- The effect of one step off the strand. -/
inductive CallStep (alive : Bool) : CoreLabel → ListenerCore → ListenerCore → Prop where
  | asyncStart {a handler} (h : 0 < a.handles) :
    CallStep alive (.asyncStart handler) a (a.post (.start handler false))
  | cancelStart {a handler} :
    CallStep alive (.cancelStart handler) a { a with
    strand := a.strand.map (Message.cancelStart handler) }
  | beginWait {a handler} (h : 0 < a.handles) :
    CallStep alive (.beginWait handler) a { a with
      nextWaiterId := a.nextWaiterId + 1
      initiating := a.initiating ++ [⟨a.nextWaiterId + 1, handler⟩] }
  | postWait {a waiter w} (h : a.initiating.find? (fun w => w.id = waiter) = some w) :
    CallStep alive (.postWait waiter) a
      ({ a with initiating := a.initiating.eraseP fun w => w.id = waiter }.post (.wait w))
  | cancelWait {a waiter} (h : ∃ w ∈ a.connectedWaits, w.id = waiter) :
    CallStep alive (.cancelWait waiter) a
      { a with cancelled := a.cancelled ++ [waiter], cancelling := a.cancelling ++ [waiter] }
  | cancelGone {a waiter} (h : ∀ w ∈ a.connectedWaits, w.id ≠ waiter) : CallStep alive
    (.cancelWait waiter) a a
  | postCancel {a waiter} (h : waiter ∈ a.cancelling) (halive : alive = true) :
    CallStep alive (.postCancel waiter) a
      ({ a with cancelling := a.cancelling.erase waiter }.post (.cancelWait waiter))
  | dropCancel {a waiter} (h : waiter ∈ a.cancelling) (halive : alive = false) :
    CallStep alive (.postCancel waiter) a { a with cancelling := a.cancelling.erase waiter }
  | stopReturns {a} (h : 0 < a.handles) (hs : a.state = .stopped) : CallStep alive .stopRead a a
  | stopRead {a} (h : 0 < a.handles) (hs : a.state ≠ .stopped) :
    CallStep alive .stopRead a { a with stopping := a.stopping + 1 }
  | stopPost {a} (h : 0 < a.stopping) :
    CallStep alive .stopPost a ({ a with stopping := a.stopping - 1 }.post .stop)
  | graceExpires {a k timer} (h : a.shutdownTimer.expire k = some timer) :
    CallStep alive (.graceExpires k) a { a with shutdownTimer := timer }
  | session {a key l x x' report} (hx : a.session? key = some x)
    (hstep : x.step l = some (x', report)) : CallStep alive (.session key l) a { a with
      heap := a.replaceSession key x'
      strand := a.strand ++ if alive then report.toList.map .sessionFinished else [] }
  | cloneHandle {a} (h : 0 < a.handles) : CallStep alive .cloneHandle a { a with
    handles := a.handles + 1 }
  | dropHandle {a} (h : 0 < a.handles) : CallStep alive .dropHandle a { a with
    handles := a.handles - 1 }

/-- The effect of one step of a listener on the shared part. -/
inductive CoreStep : StepKind → ListenerCore → ListenerCore → Prop where
  | off {a b l} (alive : Bool) (halive : 0 < a.handles → alive = true) (h : CallStep alive l a b) :
    CoreStep (.off l) a b
  | deliver {a completion rest} (h : a.strand = .complete completion :: rest) :
    CoreStep (.deliver completion) a ({ a with strand := rest }.deliver completion)
  | settleStart {a handler cancelled rest} (h : a.strand = .start handler cancelled :: rest)
    (completion : Completion) (hc : completion.EndsStart handler) :
    CoreStep .handler a ({ a with strand := rest }.completeOn completion)
  | start {a m b handler rest} (h : a.strand = .start handler false :: rest)
    (hs : a.state = .idle ∨ a.state = .stopped) (completion : Completion)
    (hc : completion.EndsStart handler)
      (hbefore : Moves { a with strand := rest }.beginGeneration m)
    (hafter : Moves (m.completeOn completion) b) : CoreStep .handler a b
  | wait {a w rest} (h : a.strand = .wait w :: rest) :
    CoreStep .handler a ({ a with strand := rest }.registerWait w)
  | cancelWait {a id rest} (h : a.strand = .cancelWait id :: rest) :
    CoreStep (.cancelWait id) a ({ a with strand := rest }.cancelWait id)
  | stop {a b rest} (h : a.strand = .stop :: rest) (hm : Moves { a with strand := rest } b)
    (hb : b.state.Halted) : CoreStep .handler a b
  | report {a b rest report} (h : a.strand = .sessionFinished report :: rest)
    (hm : Moves { a with strand := rest } b) : CoreStep .handler a b
  | asynchronous {a b} (hm : Moves a b) : CoreStep .handler a b
  | graceAborted {a k w timer} (h : a.shutdownTimer.take k = some (w, timer))
    (hw : w.status = .aborted) : CoreStep .handler a { a with shutdownTimer := timer }
  | force {a k w timer} (h : a.shutdownTimer.take k = some (w, timer)) (hw : w.status = .expired)
    (keys : List ℕ) : CoreStep (.force w.tag) a
    ({ a with shutdownTimer := timer }.forceShutdown keys)

/-- A step off the strand has the effect of its label. -/
theorem call_cases {a b : ListenerCore} {alive : Bool} {l : CoreLabel}
    (h : a.call alive l = some b) :
    CallStep alive l a b := by
  cases l with
  | asyncStart handler =>
    obtain ⟨hpos, h⟩ := Option.ite_none_right_eq_some.mp h
    obtain rfl := Option.some.inj h
    exact .asyncStart hpos
  | cancelStart handler =>
    obtain rfl := Option.some.inj h
    exact .cancelStart
  | beginWait handler =>
    obtain ⟨hpos, h⟩ := Option.ite_none_right_eq_some.mp h
    obtain rfl := Option.some.inj h
    exact .beginWait hpos
  | postWait waiter =>
    obtain ⟨w, hw, rfl⟩ := Option.map_eq_some_iff.mp h
    exact .postWait hw
  | cancelWait waiter =>
    by_cases hconnected : ∃ w ∈ a.connectedWaits, w.id = waiter
    · obtain rfl : _ = b := by simpa [ListenerCore.call, hconnected] using h
      exact .cancelWait hconnected
    · obtain rfl : a = b := by simpa [ListenerCore.call, hconnected] using h
      exact .cancelGone fun w hw he => hconnected ⟨w, hw, he⟩
  | postCancel waiter =>
    obtain ⟨hmem, h⟩ := Option.ite_none_right_eq_some.mp h
    obtain rfl := Option.some.inj h
    cases halive : alive with
    | true => exact .postCancel hmem rfl
    | false => exact .dropCancel hmem rfl
  | stopRead =>
    obtain ⟨hpos, h⟩ := Option.ite_none_right_eq_some.mp h
    obtain rfl := Option.some.inj h
    split
    · exact .stopReturns hpos ‹_›
    · exact .stopRead hpos ‹_›
  | stopPost =>
    obtain ⟨hpos, h⟩ := Option.ite_none_right_eq_some.mp h
    obtain rfl := Option.some.inj h
    exact .stopPost hpos
  | graceExpires k =>
    obtain ⟨timer, htimer, rfl⟩ := Option.map_eq_some_iff.mp h
    exact .graceExpires htimer
  | session key l =>
    obtain ⟨x, hx, hrest⟩ := Option.bind_eq_some_iff.mp h
    obtain ⟨⟨x', report⟩, hstep, rfl⟩ := Option.map_eq_some_iff.mp hrest
    exact .session hx hstep
  | cloneHandle =>
    obtain ⟨hpos, h⟩ := Option.ite_none_right_eq_some.mp h
    obtain rfl := Option.some.inj h
    exact .cloneHandle hpos
  | dropHandle =>
    obtain ⟨hpos, h⟩ := Option.ite_none_right_eq_some.mp h
    obtain rfl := Option.some.inj h
    exact .dropHandle hpos

/-- A step off the strand changes neither the lifecycle nor the number of sessions. -/
theorem CallStep.frame {a b : ListenerCore} {alive : Bool} {l : CoreLabel}
    (h : CallStep alive l a b) :
    b.state = a.state ∧ b.generation = a.generation ∧ b.activeSessions = a.activeSessions ∧
    b.events = a.events := by
  cases h <;> exact ⟨rfl, rfl, rfl, rfl⟩

/-- Only a step off the strand touches the calls in progress. -/
theorem CoreStep.sameCalls {k : StepKind} {a b : ListenerCore} (h : CoreStep k a b)
    (hk : ∀ l, k ≠ .off l) :
    SameCalls a b := by
  cases h with
  | off alive halive hcall => exact absurd rfl (hk _)
  | deliver hstrand => exact ⟨rfl, rfl, rfl, rfl, rfl, rfl⟩
  | settleStart hstrand completion hc => exact ⟨rfl, rfl, rfl, rfl, rfl, rfl⟩
  | start hstrand hs completion hc hbefore hafter =>
    have hbegun := ((sameCalls_pop a _).trans (sameCalls_beginGeneration _)).trans
      (moves_sameGeneration hbefore).toSameCalls
    exact (hbegun.trans (completeOn_waitsOnly _ _).toSameCalls).trans
      (moves_sameGeneration hafter).toSameCalls
  | wait hstrand => exact (sameCalls_pop a _).trans (registerWait_waitsOnly _ _).toSameCalls
  | cancelWait hstrand => exact (sameCalls_pop a _).trans (cancelWait_waitsOnly _ _).toSameCalls
  | stop hstrand hm hb => exact (sameCalls_pop a _).trans (moves_sameGeneration hm).toSameCalls
  | report hstrand hm => exact (sameCalls_pop a _).trans (moves_sameGeneration hm).toSameCalls
  | asynchronous hm => exact (moves_sameGeneration hm).toSameCalls
  | graceAborted htake hw => exact ⟨rfl, rfl, rfl, rfl, rfl, rfl⟩
  | force htake hw keys => exact ⟨rfl, rfl, rfl, rfl, rfl, rfl⟩

end Serveza
