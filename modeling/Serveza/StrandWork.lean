import Serveza.Foundation.Potential
import Serveza.Foundation.Registry
import Serveza.Lifecycle
import Serveza.Server

/-!
# The work on the strand of a listener

Running a posted message may post others: a start and a wait are completed, and a generation
that ends completes every registered wait. `Handles` says what each message does to the shared
part, and the work of a listener weighs what is posted, registered or about to be posted, so
that running a message always leaves less of it. What the handler of a completed operation
does is worth what `burst` says.
-/

namespace Serveza

open Foundation ListenerCore

/-- What running a posted message does to the shared part, once it has been taken off the strand. -/
inductive Handles : Message → ListenerCore → ListenerCore → Prop where
  | settled {a handler cancelled} (completion : Completion) (hc : completion.EndsStart handler) :
    Handles (.start handler cancelled) a (a.completeOn completion)
  | begun {a m b handler} (completion : Completion) (hc : completion.EndsStart handler)
    (hbefore : Moves a.beginGeneration m) (hafter : Moves (m.completeOn completion) b) :
    Handles (.start handler false) a b
  | wait {a w} : Handles (.wait w) a (a.registerWait w)
  | cancelWait {a id} : Handles (.cancelWait id) a (a.cancelWait id)
  | stop {a b} (hm : Moves a b) : Handles .stop a b
  | report {a b report} (hm : Moves a b) : Handles (.sessionFinished report) a b
  | complete {a completion} : Handles (.complete completion) a (a.deliver completion)

/-- The accepting listener handles its messages. -/
theorem AcceptorListener.handle_handles (s : AcceptorListener) (answers : AcceptorAnswers)
    (message : Message) :
    Handles message s.core (s.handle answers message).core := by
  cases message with
  | start handler cancelled =>
    cases cancelled with
    | true => exact .settled ⟨handler, none, .operationAborted, .cancelled⟩ ⟨rfl, rfl, rfl⟩
    | false =>
      obtain ⟨completion, hends, hsettled | ⟨-, m, hbefore, hafter⟩⟩ :=
        s.startOnStrand_core answers handler
      · simp only [handle, Bool.false_eq_true, if_false, hsettled]
        exact .settled completion hends
      · exact .begun completion hends hbefore hafter
  | wait w => exact .wait
  | cancelWait id => exact .cancelWait
  | stop => exact .stop (s.beginStop_moves answers _ _ .refl)
  | sessionFinished report => exact .report (s.sessionFinished_moves answers report .refl)
  | complete completion => exact .complete

/-- The bound-socket listener handles its messages. -/
theorem SocketListener.handle_handles (s : SocketListener) (answers : SocketAnswers)
    (message : Message) :
    Handles message s.core (s.handle answers message).core := by
  cases message with
  | start handler cancelled =>
    cases cancelled with
    | true => exact .settled ⟨handler, none, .operationAborted, .cancelled⟩ ⟨rfl, rfl, rfl⟩
    | false =>
      obtain ⟨completion, hends, hsettled | ⟨-, m, hbefore, hafter⟩⟩ :=
        s.startOnStrand_core answers handler
      · simp only [handle, Bool.false_eq_true, if_false, hsettled]
        exact .settled completion hends
      · exact .begun completion hends hbefore hafter
  | wait w => exact .wait
  | cancelWait id => exact .cancelWait
  | stop => exact .stop s.stopOnStrand_moves
  | sessionFinished report => exact .report (s.sessionFinished_moves report)
  | complete completion => exact .complete

/-- Running the oldest message takes it off the strand and handles it. -/
theorem Listener.run_handles {x y : Listener} {l : ListenerLabel} (h : x.step l = some y)
    (hrun : l.isRun = true) :
    ∃ message rest, x.core.strand = message :: rest ∧ x.kind l = message.kind ∧
      Handles message { x.core with strand := rest } y.core := by
  cases l with
  | acceptor l =>
    cases x with
    | socket s => contradiction
    | acceptor s =>
      obtain ⟨t, ht, rfl⟩ := Option.map_eq_some_iff.mp h
      cases s.step_cases ht with
      | @run answers message rest hstrand =>
        exact ⟨message, rest, hstrand, by simp [kind, AcceptorListener.kind, hstrand],
          (s.mapCore fun c => { c with strand := rest }).handle_handles answers message⟩
      | _ => contradiction
  | socket l =>
    cases x with
    | acceptor s => contradiction
    | socket s =>
      obtain ⟨t, ht, rfl⟩ := Option.map_eq_some_iff.mp h
      cases l with
      | run answers =>
        cases hstrand : s.core.strand with
        | nil => simp [SocketListener.step, hstrand] at ht
        | cons message rest =>
          obtain rfl : _ = t := by simpa [SocketListener.step, hstrand] using ht
          exact ⟨message, rest, hstrand, by simp [kind, SocketListener.kind, hstrand],
            (s.mapCore fun c => { c with strand := rest }).handle_handles answers message⟩
      | _ => contradiction

/-- A listener with a message on its strand can run it. -/
theorem Listener.exists_run {x : Listener} (h : x.core.strand ≠ []) :
    ∃ l, l.isRun = true ∧ l.isInternal = true ∧ (x.step l).isSome = true := by
  cases x with
  | acceptor s =>
    cases hstrand : s.core.strand with
    | nil => exact absurd hstrand h
    | cons message rest =>
      exact ⟨.acceptor (.run {}), rfl, rfl, by simp [step, AcceptorListener.step, hstrand]⟩
  | socket s =>
    cases hstrand : s.core.strand with
    | nil => exact absurd hstrand h
    | cons message rest =>
      exact ⟨.socket (.run {}), rfl, rfl, by simp [step, SocketListener.step, hstrand]⟩

section Work

variable (burst : CompletionHandler → ℕ)

/-- What running a message may come to, with everything it posts. -/
def Message.work : Message → ℕ
  | .start handler _ => burst handler + 2
  | .wait w => burst w.handler + 3
  | .cancelWait _ => 1
  | .stop => 1
  | .sessionFinished _ => 1
  | .complete completion => burst completion.handler + 1

/-- What the handler that a message calls is worth. -/
def Message.called : Message → ℕ
  | .complete completion => burst completion.handler
  | _ => 0

/-- What is posted, registered or about to be posted, weighed by what it may come to. -/
def ListenerCore.work (c : ListenerCore) : ℕ :=
  (c.strand.map (Message.work burst)).sum + (c.waiters.map fun w => burst w.handler + 2).sum +
    (c.initiating.map fun w => burst w.handler + 4).sum

variable {a b : ListenerCore}

/-- The work depends on the strand and the waits only. -/
theorem work_congr (hstrand : b.strand = a.strand) (hwaiters : b.waiters = a.waiters)
    (hinitiating : b.initiating = a.initiating) :
    b.work burst = a.work burst := by
  rw [ListenerCore.work, hstrand, hwaiters, hinitiating]
  rfl

/-- Posting a message adds its work. -/
theorem work_post (a : ListenerCore) (message : Message) :
    (a.post message).work burst = a.work burst + message.work burst := by
  simp only [ListenerCore.work, post, List.map_append, List.sum_append,
    List.map_singleton, List.sum_singleton]
  omega

/-- Taking a message off the strand takes its work off. -/
theorem work_pop {message : Message} {rest : List Message} (h : a.strand = message :: rest) :
    a.work burst = { a with strand := rest }.work burst + message.work burst := by
  simp only [ListenerCore.work, h, List.map_cons, List.sum_cons]
  omega

/-- Completing the registered waits costs less than keeping them. -/
theorem work_finish (a : ListenerCore) (ec : ErrorCode) (reason : ListenerStopReason) :
    (a.finish ec reason).work burst ≤ a.work burst := by
  by_cases hs : a.state = .stopped
  · rw [finish, if_pos hs]
  · obtain ⟨hstrand, -, hwaiters, -⟩ := finish_eq a ec reason hs
    have hinitiating := (finish_sameGeneration a ec reason).initiating
    have hcheaper : (a.waiters.map fun w => burst w.handler + 1).sum ≤
        (a.waiters.map fun w => burst w.handler + 2).sum :=
      List.sum_le_sum fun w _ => Nat.le_succ _
    simp only [ListenerCore.work, hstrand, hwaiters, hinitiating, List.map_append,
      List.sum_append, List.map_map, Function.comp_def, Message.work, List.map_nil, List.sum_nil]
    omega

/-- A move makes no work. -/
theorem Move.work_le (h : Move a b) : b.work burst ≤ a.work burst := by
  cases h with
  | quiet hq => exact (work_congr burst hq.strand hq.waiters hq.initiating).le
  | running hs => exact (work_congr burst rfl rfl rfl).le
  | stopping hs ht => exact (work_congr burst rfl rfl rfl).le
  | finish ec reason hs => exact work_finish burst a ec reason

/-- Moves make no work. -/
theorem moves_work_le (h : Moves a b) : b.work burst ≤ a.work burst := by
  induction h with
  | refl => exact le_rfl
  | tail _ hmove ih => exact (hmove.work_le burst).trans ih

/-- Registering a wait makes less work than the wait was worth. -/
theorem work_registerWait (a : ListenerCore) (w : WaitOperation) :
    (a.registerWait w).work burst + 1 ≤ a.work burst + (Message.wait w).work burst := by
  unfold registerWait
  split
  · rw [completeOn, work_post]
    simp only [Message.work]
    omega
  · split
    · rw [completeOn, work_post]
      simp only [Message.work]
      omega
    · simp only [ListenerCore.work, List.map_append, List.sum_append, List.map_singleton,
        List.sum_singleton, Message.work]
      omega

/-- Cancelling a wait makes no work. -/
theorem work_cancelWait (a : ListenerCore) (id : ℕ) :
    (a.cancelWait id).work burst ≤ a.work burst := by
  unfold cancelWait
  split
  · exact le_rfl
  · rename_i w hfind
    have hsum := ((perm_of_find? hfind).map fun w => burst w.handler + 2).sum_eq
    rw [List.map_cons, List.sum_cons] at hsum
    rw [completeOn, work_post]
    simp only [ListenerCore.work, Message.work]
    omega

/-- Running a message leaves less work, and what the handler it calls is worth is not part of it. -/
theorem Handles.work_lt {message : Message} (h : Handles message a b) :
    b.work burst + message.called burst < a.work burst + message.work burst := by
  have hends {completion : Completion} {handler : CompletionHandler}
      (hc : completion.EndsStart handler) :
      (Message.complete completion).work burst < burst handler + 2 := by
    simp [Message.work, hc.1]
  cases h with
  | settled completion hc =>
    have hless := hends hc
    rw [completeOn, work_post]
    exact Nat.add_lt_add_left hless _
  | @begun _ m _ handler completion hc hbefore hafter =>
    have hless := hends hc
    have hbegun : m.work burst ≤ a.work burst :=
      (moves_work_le burst hbefore).trans (work_congr burst rfl rfl rfl).le
    have hended := moves_work_le burst hafter
    rw [completeOn, work_post] at hended
    simp only [Message.called, Message.work] at hless ⊢
    simp only [Message.work] at hended
    omega
  | @wait _ w =>
    have hless := work_registerWait burst a w
    simp only [Message.called]
    omega
  | @cancelWait _ id =>
    have hless := work_cancelWait burst a id
    simp only [Message.called, Message.work]
    omega
  | stop hm => exact Nat.lt_succ_of_le (moves_work_le burst hm)
  | report hm => exact Nat.lt_succ_of_le (moves_work_le burst hm)
  | @complete _ completion =>
    have hsame : (a.deliver completion).work burst = a.work burst := work_congr burst rfl rfl rfl
    simp only [Message.called, Message.work, hsame]
    omega

/-- What a call on a listener may post or leave to be posted. -/
def CoreLabel.work : CoreLabel → ℕ
  | .asyncStart handler => burst handler + 2
  | .beginWait handler => burst handler + 4
  | .postCancel _ => 1
  | .stopPost => 1
  | .session _ _ => 1
  | _ => 0

/-- Cancelling a queued start leaves its work. -/
theorem work_cancelStart (message : Message) (handler : CompletionHandler) :
    (message.cancelStart handler).work burst = message.work burst := by
  cases message <;> rfl

/-- A call on a listener makes the work its label says, at most. -/
theorem CallStep.work_le {alive : Bool} {l : CoreLabel} (h : CallStep alive l a b) :
    b.work burst ≤ a.work burst + l.work burst := by
  cases h with
  | asyncStart hpos => exact (work_post burst _ _).le
  | @cancelStart _ handler =>
    have hsame : (a.strand.map (Message.cancelStart handler)).map (Message.work burst) =
        a.strand.map (Message.work burst) := by
      rw [List.map_map]
      exact List.map_congr_left fun m _ => work_cancelStart burst m handler
    simp only [ListenerCore.work, hsame, CoreLabel.work]
    omega
  | beginWait hpos =>
    simp only [ListenerCore.work, List.map_append, List.sum_append, List.map_singleton,
      List.sum_singleton, CoreLabel.work]
    omega
  | postWait hfind =>
    have hsum := ((perm_of_find? hfind).map fun w => burst w.handler + 4).sum_eq
    rw [List.map_cons, List.sum_cons] at hsum
    rw [work_post]
    simp only [ListenerCore.work, Message.work, CoreLabel.work]
    omega
  | postCancel hmem halive => exact (work_post burst _ _).le
  | stopPost hpos => exact (work_post burst _ _).le
  | @session _ key l x x' report hx hstep =>
    have hposted :
        ((if alive then report.toList.map Message.sessionFinished else []).map
          (Message.work burst)).sum ≤ 1 := by
      cases alive <;> cases report <;> simp [Message.work]
    simp only [ListenerCore.work, List.map_append, List.sum_append, CoreLabel.work]
    omega
  | _ => exact le_add_right (work_congr burst rfl rfl rfl).le

end Work

end Serveza
