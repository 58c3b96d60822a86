import Serveza.BoundSession
import Serveza.SessionEvents
import Serveza.Shutdown
import Serveza.StrandWork

/-!
# The work of a listener that winds down

A listener that has been asked to stop and has no start queued only finishes what it has
begun: it runs what is posted, the remaining accept and the waits on its timers complete, and
its sessions run what was posted to them. All of this is weighed, so that each step leaves
less, and what the user's sessions do meanwhile adds nothing.
-/

namespace Serveza

open Foundation ListenerCore

/-- The listener has been asked to stop, nobody starts it again, and somebody keeps it alive. -/
structure WindingDown (c : ListenerCore) : Prop where
  halted : c.state.Halted
  starts : ∀ m ∈ c.strand, m.isStart = false
  handles : 0 < c.handles

instance (c : ListenerCore) : Decidable (WindingDown c) :=
  decidable_of_iff (_ ∧ _ ∧ _)
    ⟨fun h => ⟨h.1, h.2.1, h.2.2⟩, fun h => ⟨h.halted, h.starts, h.handles⟩⟩

/-- What a session still has to run, and its report. -/
def Session.work (x : Session) : ℕ := x.strand.length + if x.finished then 0 else 1

/-- What a wait on the shutdown timer may come to: it is decided, its handler runs, and the
handler closes the sessions. -/
def graceWork (sessions : ℕ) : WaitStatus → ℕ
  | .pending => sessions + 2
  | .expired => sessions + 1
  | .aborted => 1

/-- What the sessions and the grace period have left. -/
def ListenerCore.spare (c : ListenerCore) : ℕ :=
  (c.heap.map Session.work).sum + c.shutdownTimer.weight (graceWork c.heap.length)

/-- What the shared part of a listener that winds down has left, if a handler is worth what `burst`
says. -/
def ListenerCore.remainder (burst : CompletionHandler → ℕ) (c : ListenerCore) : ℕ :=
  c.work burst + c.spare

/-- The step is due: it ends a call in progress, lets the grace period pass, or runs what was
posted to a session. -/
def CoreLabel.isDue : CoreLabel → Bool
  | .postWait _ | .postCancel _ | .stopPost | .graceExpires _ | .session _ .run => true
  | _ => false

/-- The step is made by the user's session. -/
def CoreLabel.isSession : CoreLabel → Bool
  | .session _ _ => true
  | _ => false

/-- The step is made by a session or lets the grace period pass; the others are pieces of calls. -/
def CoreLabel.isBeside : CoreLabel → Bool
  | .session _ _ | .graceExpires _ => true
  | _ => false

section Remainder

variable {a b : ListenerCore} (burst : CompletionHandler → ℕ)

/-- The remainder depends on the strand, the waits, the sessions and the timer. -/
theorem remainder_congr (hstrand : b.strand = a.strand) (hwaiters : b.waiters = a.waiters)
    (hinitiating : b.initiating = a.initiating) (hheap : b.heap = a.heap)
    (htimer : b.shutdownTimer = a.shutdownTimer) :
    b.remainder burst = a.remainder burst := by
  rw [remainder, remainder, work_congr _ hstrand hwaiters hinitiating, spare, spare, hheap, htimer]

/-- The bookkeeping of waits changes the remainder by the work it makes. -/
theorem remainder_waitsOnly (h : WaitsOnly a b) :
    b.remainder burst + a.work burst = a.remainder burst + b.work burst := by
  rw [remainder, remainder, spare, spare, h.heap, h.shutdownTimer]
  omega

/-- Taking a message off the strand takes its work off. -/
theorem remainder_pop {message : Message} {rest : List Message} (h : a.strand = message :: rest) :
    { a with strand := rest }.remainder burst + message.work burst = a.remainder burst := by
  have hpop := work_pop burst h
  simp only [remainder, spare] at hpop ⊢
  omega

/-- Finishing a generation leaves no more than there was. -/
theorem remainder_finish (a : ListenerCore) (ec : ErrorCode) (reason : ListenerStopReason) :
    (a.finish ec reason).remainder burst ≤ a.remainder burst := by
  have hwork := work_finish burst a ec reason
  have htimer : (a.finish ec reason).shutdownTimer.weight (graceWork a.heap.length) ≤
      a.shutdownTimer.weight (graceWork a.heap.length) := by
    unfold ListenerCore.finish
    split
    · exact le_rfl
    · exact a.shutdownTimer.weight_cancel_le (by simp [graceWork])
  rw [remainder, remainder, spare, spare, finish_heap]
  omega

end Remainder

variable {a b : ListenerCore}

/-- Closing sessions posts one message to each of them at most. -/
theorem sessionsWork_postTo (a : ListenerCore) (keys : List ℕ) (message : SessionMessage) :
    ((a.postTo keys message).heap.map Session.work).sum ≤
    (a.heap.map Session.work).sum + a.heap.length := by
  rw [postTo, List.map_map]
  induction a.heap with
  | nil => simp
  | cons x heap ih =>
    have hx : Session.work (if x.info.id ∈ keys then x.post message else x) ≤ x.work + 1 := by
      split
      · cases hfinished : x.finished <;> simp [Session.work, Session.post, hfinished]
      · exact Nat.le_succ _
    simp only [List.map_cons, List.sum_cons, Function.comp_apply, List.length_cons] at ih ⊢
    omega

/-- A step of a session and the report it makes come to no more than the session was worth, and to
less if the session runs what was posted to it. -/
theorem Session.step_work {x x' : Session} {l : SessionLabel} {report : Option SessionReport}
    (h : x.step l = some (x', report)) :
    x'.work + report.toList.length + (if l = .run then 1 else 0) ≤ x.work := by
  have hfinish {y : Session} (ec : ErrorCode) (ep : Option ThrownException) :
      (y.finish ec ep).1.work + (y.finish ec ep).2.toList.length = y.work := by
    unfold Session.finish
    cases hy : y.finished <;> simp [Session.work, hy]
  cases l with
  | run =>
    cases hs : x.strand with
    | nil => simp [Session.step, hs] at h
    | cons message rest =>
      have hpop : x.work = { x with strand := rest }.work + 1 := by
        simp only [Session.work, hs, List.length_cons]
        omega
      simp only [Session.step, hs, Option.some.injEq] at h
      rw [if_pos rfl, hpop]
      cases message with
      | start =>
        obtain ⟨rfl, rfl⟩ := Prod.mk.inj h
        exact le_rfl
      | requestStop =>
        obtain ⟨rfl, rfl⟩ := Prod.mk.inj h
        exact le_rfl
      | forceClose =>
        have heq : { x with strand := rest }.finish .operationAborted none = (x', report) := h
        have hended := hfinish (y := { x with strand := rest }) .operationAborted none
        rw [heq] at hended
        exact (congrArg (· + 1) hended).le
  | complete ec =>
    obtain ⟨-, h⟩ := Option.ite_none_right_eq_some.mp h
    have hended := hfinish (y := { x with exception := none }) ec x.exception
    rw [Option.some.inj h] at hended
    exact hended.le
  | throws e =>
    obtain ⟨-, h⟩ := Option.ite_none_right_eq_some.mp h
    have hended := hfinish (y := x) (exceptionToError (some e)) (some e)
    rw [Option.some.inj h] at hended
    exact hended.le
  | report e =>
    obtain ⟨-, h⟩ := Option.ite_none_right_eq_some.mp h
    obtain ⟨rfl, rfl⟩ := Prod.mk.inj (Option.some.inj h)
    exact le_rfl

/-- The end of the grace period and a step of a session leave less, or nothing more. -/
theorem CallStep.remainder_le {alive : Bool} {l : CoreLabel} (h : CallStep alive l a b)
    (hdistinct : (a.heap.map (·.info.id)).Nodup) (hl : l.isBeside = true)
    (burst : CompletionHandler → ℕ) :
    b.remainder burst + (if l.isDue then 1 else 0) ≤ a.remainder burst := by
  cases h with
  | graceExpires hexpire =>
    have hweight := Timer.weight_expire (f := graceWork a.heap.length) hexpire
    simp only [graceWork] at hweight
    simp only [remainder, spare, ListenerCore.work, CoreLabel.isDue, if_true] at hweight ⊢
    omega
  | @session _ key l x x' report hx hstep =>
    have hwork := Session.step_work hstep
    have hsum := sum_map_replace (fun y : Session => y.info.id) Session.work x' hdistinct hx
    have hdue : (CoreLabel.session key l).isDue = true ↔ l = .run := by
      cases l <;> simp [CoreLabel.isDue]
    have hposted :
        ((if alive then report.toList.map Message.sessionFinished else []).map
          (Message.work burst)).sum ≤
        report.toList.length := by
      cases alive <;> cases report <;> simp [Message.work]
    simp only [remainder, spare, ListenerCore.work, replaceSession, List.map_append,
      List.sum_append, List.length_map, hdue]
    omega
  | _ => contradiction

/-- A call leaves the sessions and the grace period alone. -/
theorem CallStep.spare_eq {alive : Bool} {l : CoreLabel} (h : CallStep alive l a b)
    (hl : l.isBeside = false) :
    b.spare = a.spare := by
  cases h <;> first | rfl | contradiction

/-- A session and the grace period leave the calls alone. -/
theorem CallStep.sameCalls {alive : Bool} {l : CoreLabel} (h : CallStep alive l a b)
    (hl : l.isBeside = true) :
    SameCalls a b := by
  cases h <;> first | exact ⟨rfl, rfl, rfl, rfl, rfl, rfl⟩ | contradiction

/-- A post that a caller makes leaves less. -/
theorem CallStep.post_work {alive : Bool} {l : CoreLabel} (h : CallStep alive l a b)
    (hl : l.isBeside = false) (hdue : l.isDue = true) :
    b.work (fun _ => 0) + 2 * b.cancelling.length + 2 * b.stopping + 1 ≤
      a.work (fun _ => 0) + 2 * a.cancelling.length + 2 * a.stopping := by
  cases h with
  | @postWait _ waiter w hfind =>
    have hsum := ((perm_of_find? hfind).map fun _ => 4).sum_eq
    rw [List.map_cons, List.sum_cons] at hsum
    simp only [ListenerCore.work, post, List.map_append, List.sum_append,
      List.map_singleton, List.sum_singleton, Message.work, Nat.zero_add] at hsum ⊢
    omega
  | postCancel hmem halive =>
    have hlength := List.length_erase_of_mem hmem
    have hpos := List.length_pos_of_mem hmem
    simp only [ListenerCore.work, post, List.map_append, List.sum_append,
      List.map_singleton, List.sum_singleton, Message.work] at hlength ⊢
    omega
  | dropCancel hmem halive =>
    have hlength := List.length_erase_of_mem hmem
    have hpos := List.length_pos_of_mem hmem
    simp only [ListenerCore.work] at hlength ⊢
    omega
  | stopPost hpos =>
    simp only [ListenerCore.work, post, List.map_append, List.sum_append,
      List.map_singleton, List.sum_singleton, Message.work]
    omega
  | _ => contradiction

/-- A listener keeps winding down as long as nobody starts it or gives it up. -/
theorem WindingDown.step {k : StepKind} (h : WindingDown a) (hstep : CoreStep k a b)
    (hstart : ∀ handler, k ≠ .off (.asyncStart handler)) (hdrop : k ≠ .off .dropHandle) :
    WindingDown b := by
  have hpop {m : Message} {rest : List Message} (hstrand : a.strand = m :: rest) :
      WindingDown { a with strand := rest } :=
    ⟨h.halted, fun m' hm' => h.starts m' (hstrand ▸ List.mem_cons_of_mem m hm'), h.handles⟩
  have hmoves {c : ListenerCore} (hc : WindingDown c) (hm : Moves c b) : WindingDown b := by
    obtain ⟨cs, hcs⟩ := moves_strand hm
    refine ⟨moves_halted hm hc.halted, fun m hmem => ?_,
      by rw [(moves_sameGeneration hm).handles]; exact hc.handles⟩
    rw [hcs] at hmem
    rcases List.mem_append.mp hmem with hmem | hmem
    · exact hc.starts m hmem
    · obtain ⟨completion, -, rfl⟩ := List.mem_map.mp hmem
      rfl
  have hwaits {c : ListenerCore} (hc : WindingDown c) (hw : WaitsOnly c b) : WindingDown b := by
    obtain ⟨cs, hcs⟩ := hw.strand
    refine ⟨hw.state ▸ hc.halted, fun m hmem => ?_, hw.handles ▸ hc.handles⟩
    rw [hcs] at hmem
    rcases List.mem_append.mp hmem with hmem | hmem
    · exact hc.starts m hmem
    · obtain ⟨completion, -, rfl⟩ := List.mem_map.mp hmem
      rfl
  cases hstep with
  | off alive halive hcall =>
    have hextend {strand more : List Message} (hbefore : a.strand = strand)
        (hmore : ∀ m ∈ more, m.isStart = false) : ∀ m ∈ strand ++ more, m.isStart = false := by
      intro m hm
      rcases List.mem_append.mp hm with hm | hm
      · exact h.starts m (hbefore ▸ hm)
      · exact hmore m hm
    cases hcall with
    | asyncStart hpos => exact absurd rfl (hstart _)
    | dropHandle hpos => exact absurd rfl hdrop
    | @cancelStart _ handler =>
      refine ⟨h.halted, fun m hm => ?_, h.handles⟩
      obtain ⟨m', hm', rfl⟩ := List.mem_map.mp hm
      have hstart := h.starts m' hm'
      cases m' <;> first | rfl | contradiction
    | postWait hfind => exact ⟨h.halted, hextend rfl (by simp [Message.isStart]), h.handles⟩
    | postCancel hmem halive => exact ⟨h.halted, hextend rfl (by simp [Message.isStart]), h.handles⟩
    | stopPost hpos => exact ⟨h.halted, hextend rfl (by simp [Message.isStart]), h.handles⟩
    | @session _ key l x x' report hx hstep =>
      refine ⟨h.halted, hextend rfl fun m hm => ?_, h.handles⟩
      split at hm
      · obtain ⟨r, -, rfl⟩ := List.mem_map.mp hm
        rfl
      · simp at hm
    | cloneHandle hpos => exact ⟨h.halted, h.starts, Nat.succ_pos _⟩
    | _ => exact ⟨h.halted, h.starts, h.handles⟩
  | deliver hstrand => exact ⟨(hpop hstrand).halted, (hpop hstrand).starts, h.handles⟩
  | settleStart hstrand completion hc =>
    exact absurd (h.starts _ (hstrand ▸ List.mem_cons_self)) (by simp [Message.isStart])
  | start hstrand hs completion hc hbefore hafter =>
    exact absurd (h.starts _ (hstrand ▸ List.mem_cons_self)) (by simp [Message.isStart])
  | wait hstrand => exact hwaits (hpop hstrand) (registerWait_waitsOnly _ _)
  | cancelWait hstrand => exact hwaits (hpop hstrand) (cancelWait_waitsOnly _ _)
  | stop hstrand hm hb => exact hmoves (hpop hstrand) hm
  | report hstrand hm => exact hmoves (hpop hstrand) hm
  | asynchronous hm => exact hmoves h hm
  | graceAborted htake hw => exact ⟨h.halted, h.starts, h.handles⟩
  | force htake hw keys => exact ⟨h.halted, h.starts, h.handles⟩

end Serveza
