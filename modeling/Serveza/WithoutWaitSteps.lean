import Serveza.Server
import Serveza.WithoutWait

/-!
# The steps of a listener without one of its waits

A step of a listener is a step of the listener without the wait, unless it is about the wait, and
then it is none. What is delivered is delivered in both, under its own number.
-/

namespace Serveza

open Foundation

variable {gap : Option ℕ}

namespace AcceptorListener

/-- An accepting listener without one of its waits. -/
def without (gap : Option ℕ) (s : AcceptorListener) : AcceptorListener :=
  s.reshape (Bookkeeping.without gap)

variable {s t : AcceptorListener} {answers : AcceptorAnswers}

/-- A message about waits is run by the shared part. -/
theorem handle_aboutWaits {m : Message} (h : m.isAboutWaits = true) :
    s.handle answers m = s.mapCore (·.aboutWaits m) := by
  cases m with
  | wait | cancelWait | complete => rfl
  | start | stop | sessionFinished => contradiction

/-- Running a message that stays. -/
theorem without_handle {m m' : Message} (h : m.without gap = some m') :
    (s.without gap).handle answers m' = (s.handle answers m).without gap := by
  cases hwaits : m.isAboutWaits with
  | true =>
    rw [handle_aboutWaits ((Message.without_isAboutWaits h).trans hwaits), handle_aboutWaits hwaits]
    exact congrArg (fun c => { s with core := c }) (s.core.without_aboutWaits h)
  | false =>
    obtain rfl := Message.without_eq hwaits h
    exact s.reshape_handle answers Bookkeeping.without_neutral hwaits

/-- Running a message that goes. -/
theorem without_handle_gap {m : Message} (h : m.without gap = none) :
    (s.handle answers m).without gap = s.without gap := by
  have hwaits : m.isAboutWaits = true := by
    cases m with
    | wait | cancelWait | complete => rfl
    | start | stop | sessionFinished => contradiction
  rw [handle_aboutWaits hwaits]
  exact congrArg (fun c => { s with core := c }) (s.core.without_aboutWaits_gap h)

/-- Running the next message of a strand that has it without the wait as well. -/
theorem without_run {m m' : Message} {rest : List Message} (hstrand : s.core.strand = m :: rest)
    (h : m.without gap = some m') :
    (s.without gap).step (.run answers) =
      some (((s.mapCore fun c => { c with strand := rest }).handle answers m).without gap) := by
  have hhead : (s.without gap).core.strand = _ := ListenerCore.without_strand hstrand h
  rw [step, hhead, ← without_handle h]
  rfl

/-- Running the next message of a strand that does not have it without the wait. -/
theorem without_run_gap {m : Message} {rest : List Message} (hstrand : s.core.strand = m :: rest)
    (h : m.without gap = none) :
    ((s.mapCore fun c => { c with strand := rest }).handle answers m).without
    gap = s.without gap := by
  rw [without_handle_gap h]
  exact congrArg (fun c => { s with core := c }) (ListenerCore.without_pop_gap hstrand h)

end AcceptorListener

namespace SocketListener

/-- A bound-socket listener without one of its waits. -/
def without (gap : Option ℕ) (s : SocketListener) : SocketListener :=
  s.reshape (Bookkeeping.without gap)

variable {s t : SocketListener} {answers : SocketAnswers}

/-- A message about waits is run by the shared part. -/
theorem handle_aboutWaits {m : Message} (h : m.isAboutWaits = true) :
    s.handle answers m = s.mapCore (·.aboutWaits m) := by
  cases m with
  | wait | cancelWait | complete => rfl
  | start | stop | sessionFinished => contradiction

/-- Running a message that stays. -/
theorem without_handle {m m' : Message} (h : m.without gap = some m') :
    (s.without gap).handle answers m' = (s.handle answers m).without gap := by
  cases hwaits : m.isAboutWaits with
  | true =>
    rw [handle_aboutWaits ((Message.without_isAboutWaits h).trans hwaits), handle_aboutWaits hwaits]
    exact congrArg (fun c => { s with core := c }) (s.core.without_aboutWaits h)
  | false =>
    obtain rfl := Message.without_eq hwaits h
    exact s.reshape_handle answers Bookkeeping.without_neutral hwaits

/-- Running a message that goes. -/
theorem without_handle_gap {m : Message} (h : m.without gap = none) :
    (s.handle answers m).without gap = s.without gap := by
  have hwaits : m.isAboutWaits = true := by
    cases m with
    | wait | cancelWait | complete => rfl
    | start | stop | sessionFinished => contradiction
  rw [handle_aboutWaits hwaits]
  exact congrArg (fun c => { s with core := c }) (s.core.without_aboutWaits_gap h)

/-- Running the next message of a strand that has it without the wait as well. -/
theorem without_run {m m' : Message} {rest : List Message} (hstrand : s.core.strand = m :: rest)
    (h : m.without gap = some m') :
    (s.without gap).step (.run answers) =
      some (((s.mapCore fun c => { c with strand := rest }).handle answers m).without gap) := by
  have hhead : (s.without gap).core.strand = _ := ListenerCore.without_strand hstrand h
  rw [step, hhead, ← without_handle h]
  rfl

/-- Running the next message of a strand that does not have it without the wait. -/
theorem without_run_gap {m : Message} {rest : List Message} (hstrand : s.core.strand = m :: rest)
    (h : m.without gap = none) :
    ((s.mapCore fun c => { c with strand := rest }).handle answers m).without
    gap = s.without gap := by
  rw [without_handle_gap h]
  exact congrArg (fun c => { s with core := c }) (ListenerCore.without_pop_gap hstrand h)

end SocketListener

namespace Listener

/-- A listener without one of its waits. -/
def without (gap : Option ℕ) : Listener → Listener
  | .acceptor s => .acceptor (s.without gap)
  | .socket s => .socket (s.without gap)

variable {x y : Listener} {l : ListenerLabel}

/-- The shared part of a listener without a wait. -/
theorem without_core (x : Listener) : (x.without gap).core = x.core.without gap := by
  cases x <;> rfl

/-- A wait is invisible in the snapshot of its listener. -/
theorem without_status (x : Listener) : (x.without gap).core.status = x.core.status := by
  cases x <;> rfl

/-- The listener with another shared part. -/
def withCore : Listener → ListenerCore → Listener
  | .acceptor s, c => .acceptor { s with core := c }
  | .socket s, c => .socket { s with core := c }

/-- The wait is taken out of the shared part. -/
theorem without_eq (x : Listener) : x.without gap = x.withCore (x.core.without gap) := by
  cases x <;> rfl

/-- Nothing is taken out where there is no gap. -/
theorem without_none (x : Listener) : x.without none = x := by
  rw [without_eq, ListenerCore.without_none]
  cases x <;> rfl

/-- What is called on a listener that somebody holds. -/
theorem step_off_iff (hpos : 0 < x.core.handles) {call : CoreLabel} :
    x.step (x.off call) = some y ↔ ∃ c, x.core.call true call = some c ∧ x.withCore c = y := by
  have hreferenced : x.core.referenced = true := by simp [ListenerCore.referenced, hpos]
  cases x with
  | acceptor s =>
    have halive : s.alive = true := by
      simp [AcceptorListener.alive, show s.core.referenced = true from hreferenced]
    simp [step, off, AcceptorListener.step, halive, core, withCore]
  | socket s =>
    have halive : s.alive = true := hreferenced
    simp [step, off, SocketListener.step, halive, core, withCore]

/-- A call that stays has the same effect. -/
theorem without_off (hpos : 0 < x.core.handles) (hgap : ∀ n ∈ gap, 0 < n ∧ n ≤ x.core.nextWaiterId)
    {call call' : CoreLabel} (h : call.without gap = some call')
    (hstep : x.step (x.off call) = some y) :
    (x.without gap).step ((x.without gap).off call') = some (y.without gap) := by
  obtain ⟨c, hc, rfl⟩ := (step_off_iff hpos).mp hstep
  refine (step_off_iff (by cases x <;> exact hpos)).mpr ⟨c.without gap, ?_, ?_⟩
  · rw [without_core]
    exact ListenerCore.without_call hgap hc h
  · cases x <;> rfl

/-- A call about the wait that goes changes nothing else. -/
theorem without_off_gap (hpos : 0 < x.core.handles) {call : CoreLabel} (h : call.without gap = none)
    (hstep : x.step (x.off call) = some y) : y.without gap = x.without gap := by
  obtain ⟨c, hc, rfl⟩ := (step_off_iff hpos).mp hstep
  have hcore := ListenerCore.without_call_gap hc h
  cases x with
  | acceptor s => exact congrArg (fun c => Listener.acceptor { s with core := c }) hcore
  | socket s => exact congrArg (fun c => Listener.socket { s with core := c }) hcore

/-- The handler of a wait on the shutdown timer delivers nothing. -/
theorem graceKind_ne_deliver (taken : Option (TimerWait Arming × Timer Arming)) (q : Completion) :
    (taken.map fun (w, _) => graceKind w).getD .handler ≠ .deliver q := by
  cases taken with
  | none => simp
  | some w =>
    simp only [Option.map_some, Option.getD_some, graceKind]
    split <;> simp

/-- What a step of a listener is without a wait: none, the delivery of the same completion, or a
step that delivers nothing. -/
inductive StepWithout (gap : Option ℕ) (x : Listener) (l : ListenerLabel) (y : Listener) :
    Prop where
  | goes (heq : y.without gap = x.without gap)
    (hkind : ∀ q, x.kind l = .deliver q → q.without gap = none)
  | delivers {q q'} (hkind : x.kind l = .deliver q) (hq : q.without gap = some q')
    (hkind' : (x.without gap).kind l = .deliver q')
    (hstep : (x.without gap).step l = some (y.without gap))
  | stays (hkind : ∀ q, x.kind l ≠ .deliver q) (hkind' : ∀ q, (x.without gap).kind l ≠ .deliver q)
    (hstep : (x.without gap).step l = some (y.without gap))

/-- Running a message, by what it is without the wait. -/
theorem StepWithout.of_run {m : Message} {rest : List Message} (hstrand : x.core.strand = m :: rest)
    (hkind : x.kind l = m.kind) (hgoes : m.without gap = none → y.without gap = x.without gap)
    (hstays : ∀ m', m.without gap = some m' → (x.without gap).step l = some (y.without gap) ∧
      (x.without gap).kind l = m'.kind) :
    StepWithout gap x l y := by
  cases hm : m.without gap with
  | none =>
    refine .goes (hgoes hm) fun q hq => ?_
    cases m with
    | complete q' =>
      obtain rfl := StepKind.deliver.inj (hkind.symm.trans hq)
      exact Option.map_eq_none_iff.mp hm
    | wait | cancelWait | start | stop | sessionFinished => rw [hkind] at hq; contradiction
  | some m' =>
    obtain ⟨hstep, hkind'⟩ := hstays m' hm
    cases m with
    | complete q =>
      obtain ⟨q', hq, rfl⟩ := Option.map_eq_some_iff.mp hm
      exact .delivers hkind hq hkind' hstep
    | wait | cancelWait =>
      obtain ⟨_, -, rfl⟩ := Option.map_eq_some_iff.mp hm
      exact .stays (fun q hq => nomatch hkind.symm.trans hq)
        (fun q hq => nomatch hkind'.symm.trans hq) hstep
    | start | stop | sessionFinished =>
      obtain rfl := Option.some.inj hm
      exact .stays (fun q hq => nomatch hkind.symm.trans hq)
        (fun q hq => nomatch hkind'.symm.trans hq) hstep

/-- An internal step of a listener is one without the wait as well, unless it is about the wait. -/
theorem without_internal (hpos : 0 < x.core.handles)
    (hgap : ∀ n ∈ gap, 0 < n ∧ n ≤ x.core.nextWaiterId) (hinternal : l.isInternal = true)
    (hstep : x.step l = some y) : StepWithout gap x l y := by
  have hcall {call : CoreLabel} (hl : l = x.off call) (hcall : call.without gap = some call) :
      StepWithout gap x l y := by
    subst hl
    have hoff := without_off hpos hgap hcall hstep
    have hsame : (x.without gap).off call = x.off call := by cases x <;> rfl
    rw [hsame] at hoff
    refine .stays (fun q hq => ?_) (fun q hq => ?_) hoff
    · rw [kind_off] at hq
      contradiction
    · rw [← hsame, kind_off] at hq
      contradiction
  cases x with
  | acceptor s =>
    cases l with
    | socket l => contradiction
    | acceptor l =>
      obtain ⟨t, ht, rfl⟩ := Option.map_eq_some_iff.mp hstep
      cases l with
      | core l =>
        refine hcall rfl ?_
        cases l <;> first | rfl | contradiction
      | run answers =>
        cases hstrand : s.core.strand with
        | nil => simp [AcceptorListener.step, hstrand] at ht
        | cons m rest =>
          obtain rfl : _ = t := by simpa [AcceptorListener.step, hstrand] using ht
          refine .of_run (x := .acceptor s) hstrand (by simp [kind, AcceptorListener.kind, hstrand])
            (fun hm => ?_) fun m' hm => ⟨?_, ?_⟩
          · exact congrArg Listener.acceptor (AcceptorListener.without_run_gap hstrand hm)
          · exact Option.map_eq_some_iff.mpr ⟨_, AcceptorListener.without_run hstrand hm, rfl⟩
          · change ((s.core.without gap).strand.head?.map Message.kind).getD .handler = _
            rw [ListenerCore.without_strand hstrand hm]
            rfl
      | accepted | retryExpires | retryHandler =>
        have hasync := AcceptorListener.reshape_step (f := Bookkeeping.without gap)
          Bookkeeping.without_neutral (by simp) (by simp) ht
        exact .stays (by simp [kind, AcceptorListener.kind])
          (by simp [kind, without, AcceptorListener.kind])
          (Option.map_eq_some_iff.mpr ⟨_, hasync, rfl⟩)
      | graceHandler k =>
        have hasync := AcceptorListener.reshape_step (f := Bookkeeping.without gap)
          Bookkeeping.without_neutral (by simp) (by simp) ht
        exact .stays (graceKind_ne_deliver _) (graceKind_ne_deliver _)
          (Option.map_eq_some_iff.mpr ⟨_, hasync, rfl⟩)
  | socket s =>
    cases l with
    | acceptor l => contradiction
    | socket l =>
      obtain ⟨t, ht, rfl⟩ := Option.map_eq_some_iff.mp hstep
      cases l with
      | core l =>
        refine hcall rfl ?_
        cases l <;> first | rfl | contradiction
      | run answers =>
        cases hstrand : s.core.strand with
        | nil => simp [SocketListener.step, hstrand] at ht
        | cons m rest =>
          obtain rfl : _ = t := by simpa [SocketListener.step, hstrand] using ht
          refine .of_run (x := .socket s) hstrand (by simp [kind, SocketListener.kind, hstrand])
            (fun hm => ?_) fun m' hm => ⟨?_, ?_⟩
          · exact congrArg Listener.socket (SocketListener.without_run_gap hstrand hm)
          · exact Option.map_eq_some_iff.mpr ⟨_, SocketListener.without_run hstrand hm, rfl⟩
          · change ((s.core.without gap).strand.head?.map Message.kind).getD .handler = _
            rw [ListenerCore.without_strand hstrand hm]
            rfl
      | graceHandler k =>
        have hasync :=
          SocketListener.reshape_step (f := Bookkeeping.without gap) (by simp) (by simp) ht
        exact .stays (graceKind_ne_deliver _) (graceKind_ne_deliver _)
          (Option.map_eq_some_iff.mpr ⟨_, hasync, rfl⟩)

end Listener

end Serveza
