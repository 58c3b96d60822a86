import Serveza.AcceptorOwned
import Serveza.SessionEvents
import Serveza.SocketEvents
import Serveza.SocketOwned
import Serveza.Waits

/-!
# Shutdown owns the listener

A listener exists as long as somebody refers to it: a handle (of a caller or of the registry of
a server), a call in progress, work queued on its strand, or an operation it has started. The
sessions refer to it weakly. So once the last handle is gone a listener lives from what its
shutdown has under way, and it should live until it has stopped.

There is a gap in the chain. The message that closes a session by force holds the session only.
When the grace period ends and nothing else refers to the listener, it is destroyed while its
sessions are still to be closed: they have nobody left to report to, and the waits are dropped.
-/

namespace Serveza

open Foundation ListenerCore

namespace Listener

variable {x y : Listener} {l : ListenerLabel}

/-- The listener without the reference that a step uses up. -/
def spend : Listener → ListenerLabel → Listener
  | .acceptor s, .acceptor l => .acceptor (s.spend l)
  | .socket s, .socket l => .socket (s.spend l)
  | x, _ => x

/-- The step closes the sessions by force. -/
def forces : Listener → ListenerLabel → Prop
  | .acceptor s, .acceptor l => s.forces l
  | .socket s, .socket l => s.forces l
  | _, _ => False

/-- The last handle goes only after the listener was asked to stop, as a server does that is
destroyed. -/
def Asked (x : Listener) (l : ListenerLabel) : Prop :=
  l.off? = some .dropHandle → x.core.handles = 1 → Settling x.core

/-- The listener was asked to stop when its last handle goes, and its last reference of all does not
go while a session that has not ended is being closed by force. -/
structure Guarded (x : Listener) (l : ListenerLabel) : Prop where
  asked : x.Asked l
  unforced : (x.spend l).alive = false → ¬ x.forces l ∧
    ∀ key ∈ x.held, ∀ session ∈ x.core.session? key, session.finished = false →
    .forceClose ∉ session.strand

instance (x : Listener) (l : ListenerLabel) : Decidable (x.forces l) := by
  unfold forces
  split <;> infer_instance

instance (x : Listener) (l : ListenerLabel) : Decidable (x.Asked l) :=
  inferInstanceAs (Decidable (_ → _ → _))

instance (x : Listener) (l : ListenerLabel) : Decidable (x.Guarded l) :=
  decidable_of_iff (_ ∧ _) ⟨fun h => ⟨h.1, h.2⟩, fun h => ⟨h.asked, h.unforced⟩⟩

/-- What is known of a listener while it exists, and that it has stopped when it does not. -/
structure Owned (x : Listener) : Prop where
  kept : x.Kept
  lent : x.alive = true → x.lend.Kept
  settling : x.alive = true → x.core.handles = 0 → Settling x.core
  gone : x.alive = false → x.core.state = .stopped

/-- A listener with other references to it stays alive. -/
theorem alive_step (h : (x.spend l).alive = true) (hstep : x.step l = some y) : y.alive = true := by
  cases x with
  | acceptor s =>
    cases l with
    | socket l => contradiction
    | acceptor l =>
      obtain ⟨t, ht, rfl⟩ := Option.map_eq_some_iff.mp hstep
      exact AcceptorListener.alive_step h ht
  | socket s =>
    cases l with
    | acceptor l => contradiction
    | socket l =>
      obtain ⟨t, ht, rfl⟩ := Option.map_eq_some_iff.mp hstep
      exact SocketListener.alive_step h ht

/-- A listener that is gone stays gone, in the state it had. -/
theorem gone_step (h : x.alive = false) (hstep : x.step l = some y) :
    y.alive = false ∧ y.core.state = x.core.state := by
  cases x with
  | acceptor s =>
    cases l with
    | socket l => contradiction
    | acceptor l =>
      obtain ⟨t, ht, rfl⟩ := Option.map_eq_some_iff.mp hstep
      exact AcceptorListener.gone_step h ht
  | socket s =>
    cases l with
    | acceptor l => contradiction
    | socket l =>
      obtain ⟨t, ht, rfl⟩ := Option.map_eq_some_iff.mp hstep
      exact SocketListener.gone_step h ht

/-- Nothing refers to a listener that is gone. -/
theorem unreferenced_of_gone (h : x.alive = false) : x.core.referenced = false := by
  cases x with
  | acceptor s =>
    have hall : s.core.referenced = false ∧ s.acceptor.accepts = 0 ∧ s.retryTimer.waits = [] := by
      simpa [alive, AcceptorListener.alive, and_assoc] using h
    exact hall.1
  | socket s => exact h

/-- A guarded step that takes the last reference away finds the listener stopped, or stops it. -/
theorem stopped_of_last (h : x.Owned) (halive : x.alive = true) (hguarded : x.Guarded l)
    (hstep : x.step l = some y) (hdead : y.alive = false) (hhalted : y.core.state.Halted) :
    y.core.state = .stopped := by
  have hspent : (x.spend l).alive = false := by
    by_contra hne
    simp [alive_step (by simpa using hne) hstep] at hdead
  obtain ⟨hforces, hforced⟩ := hguarded.unforced hspent
  have hsettling := h.settling halive
  have hlent := h.lent halive
  cases x with
  | acceptor s =>
    cases l with
    | socket l => contradiction
    | acceptor l =>
      obtain ⟨t, ht, rfl⟩ := Option.map_eq_some_iff.mp hstep
      obtain ⟨options, hbooks, hrest, -⟩ := h.kept
      obtain ⟨-, -, -, htended⟩ := hlent
      exact AcceptorListener.stopped_of_last hbooks hrest htended hsettling hspent hforces
        hforced ht hdead hhalted
  | socket s =>
    cases l with
    | acceptor l => contradiction
    | socket l =>
      obtain ⟨t, ht, rfl⟩ := Option.map_eq_some_iff.mp hstep
      exact SocketListener.stopped_of_last hlent hsettling hspent hforces hforced ht hdead hhalted

/-- A guarded step keeps the listener owned until it has stopped. -/
theorem Owned.step (h : x.Owned) (hguarded : x.Guarded l) (hstep : x.step l = some y) :
    y.Owned := by
  cases halive : x.alive with
  | false =>
    obtain ⟨hdead, hstate⟩ := gone_step halive hstep
    refine ⟨h.kept.step hstep, fun hy => ?_, fun hy => ?_, fun _ => hstate.trans (h.gone halive)⟩
    · simp [hdead] at hy
    · simp [hdead] at hy
  | true =>
    have hcore := step_core hstep
    have hsettling (hzero : y.core.handles = 0) : Settling y.core := by
      by_cases hx : x.core.handles = 0
      · exact (h.settling halive hx).step_unhandled hx hcore
      · obtain ⟨hk, hone⟩ := hcore.last_handle hx hzero
        have hasked := hguarded.asked ((kind_eq_off hstep _).mp hk) hone
        exact hasked.step (by simp [hk]) hcore
    refine ⟨h.kept.step hstep, fun _ => (h.lent halive).lend_step halive hstep, fun _ =>
      hsettling, fun hdead => ?_⟩
    obtain ⟨hzero, hcalls, -, hstrand, -⟩ := unreferenced (unreferenced_of_gone hdead)
    exact stopped_of_last h halive hguarded hstep hdead ((hsettling hzero).unowned hcalls hstrand).2

/-- A new listener is owned by the handle it is returned as. -/
theorem Owned.create (id : ℕ) (config : ListenerConfig) : (create id config).Owned := by
  obtain ⟨endpoint, hcore⟩ := create_core id config
  have halive : (Listener.create id config).alive = true := by cases config <;> rfl
  have hlent : (Listener.create id config).lend.Kept := by
    have hsame : (Listener.create id config).lend = .create id config := by cases config <;> rfl
    rw [hsame]
    exact .create id config
  refine ⟨.create id config, fun _ => hlent, fun _ hzero => ?_, fun hdead => ?_⟩
  · simp [hcore] at hzero
  · simp [halive] at hdead

/-- The sessions of a listener of either kind are announced as they should be. -/
def Announces : Listener → Prop
  | .acceptor s => SessionsPaired s
  | .socket s => SocketPaired s ∧ Bound s

/-- Every step announces sessions as it should. -/
theorem Announces.step (h : x.Announces) (hkept : x.Kept) (hstep : x.step l = some y) :
    y.Announces := by
  cases x with
  | acceptor s =>
    cases l with
    | socket l => contradiction
    | acceptor l =>
      obtain ⟨t, ht, rfl⟩ := Option.map_eq_some_iff.mp hstep
      obtain ⟨options, hbooks, -, -⟩ := hkept
      exact SessionsPaired.step h hbooks ht
  | socket s =>
    cases l with
    | acceptor l => contradiction
    | socket l =>
      obtain ⟨t, ht, rfl⟩ := Option.map_eq_some_iff.mp hstep
      exact ⟨h.1.step hkept h.2 ht, h.2.step hkept ht⟩

/-- A new listener has announced nothing. -/
theorem Announces.create (id : ℕ) (config : ListenerConfig) : (create id config).Announces := by
  cases config with
  | acceptor endpoint options => exact SessionsPaired.create id endpoint options
  | socket endpoint options => exact ⟨.create id endpoint options, .create id endpoint options⟩

/-- A stopped listener has announced the end of every session it has announced. -/
theorem Announces.stopped (h : x.Announces) (hkept : x.Kept) (hs : x.core.state = .stopped) :
    x.core.events.countP (·.starts) = x.core.events.countP (·.ends) ∧
      ∀ before e after, x.core.events = before ++ e :: after → e.starts = true →
        ∃ stop ∈ after, stop.ends = true ∧ stop.connection = e.connection := by
  cases x with
  | acceptor s =>
    obtain ⟨options, hbooks, -, -⟩ := hkept
    have hpaired : SessionsPaired s := h
    have hactive : s.core.activeSessions = 0 := by
      rw [hbooks.counted, (hbooks.released (Or.inr hs)).1, List.length_nil]
    refine ⟨?_, fun before e after hsplit hstarts => hpaired.followed hactive hsplit hstarts⟩
    have hcounted := hpaired.counted
    rw [hactive, Nat.zero_add] at hcounted
    exact hcounted.symm
  | socket s =>
    have hsession : s.session = none := SocketTended.released hkept (Or.inr hs)
    refine ⟨?_, fun before e after hsplit hstarts => h.1.followed hsession hsplit hstarts⟩
    have hcounted := h.1.counted
    rw [hsession, Option.toList_none, List.length_nil, Nat.zero_add] at hcounted
    exact hcounted.symm

/-- An owned listener that is stopping has something left that drives it on. -/
theorem Owned.draining (h : x.Owned) (halive : x.alive = true) (hs : x.core.state = .stopping) :
    x.Draining := by
  cases x with
  | acceptor s => exact ((h.lent halive).draining Nat.one_pos).2 hs
  | socket s => exact ((h.lent halive).draining Nat.one_pos).2 hs

end Listener

/-- When nothing refers to a stopped listener any more, each of its waits has been completed. -/
theorem waits_completed {c : ListenerCore} (honce : WaitsOnce c) (hreleased : Released c)
    (hgone : c.referenced = false) (hs : c.state = .stopped) {waiter : ℕ} (hpos : 0 < waiter)
    (hle : waiter ≤ c.nextWaiterId) : c.completions waiter = 1 := by
  obtain ⟨-, -, hinitiating, hstrand, -⟩ := unreferenced hgone
  have hcounted := honce waiter
  have hunposted : c.strand.filterMap Message.wait? = [] := by
    refine List.filterMap_eq_nil_iff.mpr fun m hm => ?_
    have howns := hstrand m hm
    cases m <;> simp_all [Message.wait?, Message.ownsListener]
  have hposted : c.initiations waiter = 0 := by simp [initiations, hinitiating, hunposted]
  rw [if_pos ⟨hpos, hle⟩, hposted] at hcounted
  simpa [registrations, hreleased hs] using hcounted

/-- Shutdown owns the listener until it is stopped. In a run whose steps are guarded a listener of
either kind that is stopping has something left that drives it on as long as it exists, and when
it does not exist any more it has stopped, each of its waits has been completed exactly once, and
every session it has announced was then announced as stopped. -/
theorem shutdown_ownsListener {id : ℕ} {config : ListenerConfig} {ls : List ListenerLabel}
    {x : Listener} (hguarded : Along Listener.step Listener.Guarded (.create id config) ls)
    (hrun : run Listener.step (.create id config) ls = some x) :
    (x.alive = true → x.core.state = .stopping → x.Draining) ∧
    (x.alive = false → x.core.state = .stopped ∧
      (∀ waiter, 0 < waiter → waiter ≤ x.core.nextWaiterId → x.core.completions waiter = 1) ∧
      x.core.events.countP (·.starts) = x.core.events.countP (·.ends) ∧
      ∀ before e after, x.core.events = before ++ e :: after → e.starts = true →
        ∃ stop ∈ after, stop.ends = true ∧ stop.connection = e.connection) := by
  have howned : x.Owned :=
    run_invariant_along Listener.Owned (fun _ _ _ h hl hstep => h.step hl hstep)
    (.create id config) hguarded hrun
  have hannounces : x.Kept ∧ x.Announces := run_invariant (fun x => x.Kept ∧ x.Announces)
    (fun _ _ _ h hstep => ⟨h.1.step hstep, h.2.step h.1 hstep⟩)
    ⟨.create id config, .create id config⟩ hrun
  have hreleased := run_invariant (fun x => Released x.core)
    (fun _ _ _ hr hstep => Released.step hr (Listener.step_core hstep)) (by
      obtain ⟨endpoint, hcore⟩ := Listener.create_core id config
      simp [Released, hcore]) hrun
  have honce := run_waitsOnce (create_waits id config).1 hrun
  refine ⟨howned.draining, fun hdead => ?_⟩
  have hstopped := howned.gone hdead
  refine ⟨hstopped, fun waiter hpos hle => ?_, hannounces.2.stopped hannounces.1 hstopped⟩
  exact waits_completed honce hreleased (Listener.unreferenced_of_gone hdead) hstopped hpos hle

/-- A listener accepts a connection and somebody waits for it; a server is destroyed, which asks
the listener to stop and drops its last handle; the stop runs and the accept is aborted. -/
def unownedStop : List ListenerLabel :=
  [.acceptor (.core (.asyncStart (.user 0))), .acceptor (.run {}), .acceptor (.run {}),
    .acceptor (.accepted {} {}),
    .acceptor (.core (.session 1 .run)), .acceptor (.core (.beginWait (.user 1))),
    .acceptor (.core (.postWait 1)),
    .acceptor (.run {}), .acceptor (.core .stopRead), .acceptor (.core .stopPost),
    .acceptor (.core .dropHandle),
    .acceptor (.run {}), .acceptor (.accepted { error := .operationAborted } {})]

/-- The session ends within the grace period. -/
def unownedDrain : List ListenerLabel :=
  unownedStop ++ [.acceptor (.core (.session 1 .run)),
    .acceptor (.core (.session 1 (.complete .success))),
    .acceptor (.run {}), .acceptor (.graceHandler 0), .acceptor (.run {})]

/-- In that run the listener is destroyed after it has stopped, and the wait has been completed. -/
theorem shutdown_ownsListener_drained : ∃ x,
    run Listener.step (.create 1 defaultAcceptor) unownedDrain = some x ∧ x.alive = false ∧
    x.core.state = .stopped ∧
      x.core.completions 1 = 1 ∧ x.core.events.countP (·.starts) = 1 ∧
      x.core.events.countP (·.ends) = 1 := by
  have h : run Listener.step (.create 1 defaultAcceptor) unownedDrain = some _ := rfl
  obtain ⟨hstopped, hwaits, hcounted, -⟩ := (shutdown_ownsListener (by decide) h).2 (by decide)
  exact ⟨_, h, by decide, hstopped, hwaits 1 (by decide) (by decide), by decide,
    hcounted.symm.trans (by decide)⟩

/-- The listener has been destroyed before it stopped: nothing is in flight any more, a wait is
still registered, and a session was announced whose end was not. -/
structure Listener.Lost (x : Listener) : Prop where
  gone : x.alive = false
  state : x.core.state = .stopping
  silent : x.Silent
  waiters : x.core.waiters ≠ []
  unpaired : x.core.events.countP (·.ends) < x.core.events.countP (·.starts)

/-- The session ignores its cancellation; the grace period ends, and the session is closed by
force. -/
def unownedForce : List ListenerLabel :=
  unownedStop ++ [.acceptor (.core (.graceExpires 0)), .acceptor (.graceHandler 0),
    .acceptor (.core (.session 1 .run)), .acceptor (.core (.session 1 .run))]

/-- The same with a bound socket. -/
def unownedForceSocket : List ListenerLabel :=
  [.socket (.core (.asyncStart (.user 0))), .socket (.run {}), .socket (.run {}),
    .socket (.core (.session 1 .run)),
    .socket (.core (.beginWait (.user 1))), .socket (.core (.postWait 1)), .socket (.run {}),
    .socket (.core .stopRead),
    .socket (.core .stopPost), .socket (.core .dropHandle), .socket (.run {}),
    .socket (.core (.graceExpires 0)),
    .socket (.graceHandler 0), .socket (.core (.session 1 .run)), .socket (.core (.session 1 .run))]

/-- Shutdown does not own a listener of either kind whose sessions it closes by force, although the
listener was asked to stop before its last handle was dropped. -/
theorem shutdown_losesListener :
    (Along Listener.step Listener.Asked (.create 1 defaultAcceptor) unownedForce ∧
      ∃ x, run Listener.step (.create 1 defaultAcceptor) unownedForce = some x ∧ x.Lost) ∧
    (Along Listener.step Listener.Asked (.create 1 defaultSocket) unownedForceSocket ∧
      ∃ x, run Listener.step (.create 1 defaultSocket) unownedForceSocket = some x ∧ x.Lost) := by
  refine ⟨⟨by decide, _, rfl, ?_⟩, by decide, _, rfl, ?_⟩
  · exact ⟨rfl, rfl, ⟨rfl, by decide, rfl, rfl⟩, by decide, by decide⟩
  · exact ⟨rfl, rfl, ⟨rfl, by decide, rfl, rfl⟩, by decide, by decide⟩

end Serveza
