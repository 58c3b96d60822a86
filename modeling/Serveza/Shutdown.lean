import Serveza.AcceptorTending
import Serveza.Listener
import Serveza.SocketTending

/-!
# Shutdown cannot get stuck

A listener that somebody keeps alive never rests in a transition. Something is always left
that will drive a stopping listener to `stopped`: an outstanding accept, the grace period, or
the end of every session it holds. A stopped listener holds no wait back.

The shutdown timer of a bound socket is taken to be armed. An exception out of `expires_after` or
`async_wait` in its `stop_on_strand`, which would leave the strand without a grace period, is not
covered; the accepting listener catches such an exception and closes its sessions at once.
-/

namespace Serveza

open Foundation ListenerCore

namespace Listener

/-- The sessions a listener holds. -/
def held : Listener → List ℕ
  | .acceptor s => s.sessions
  | .socket s => s.session.toList

/-- The accepts that are outstanding. -/
def accepts : Listener → ℕ
  | .acceptor s => s.acceptor.accepts
  | .socket _ => 0

/-- No message is in flight to the listener or to a session, no accept and no wait on the
shutdown timer is outstanding. -/
structure Silent (x : Listener) : Prop where
  strand : x.core.strand = []
  sessions : ∀ y ∈ x.core.heap, y.strand = []
  accepts : x.accepts = 0
  shutdownTimer : x.core.shutdownTimer.waits = []

/-- Something is left that drives a stopping listener on. -/
def Draining (x : Listener) : Prop :=
  0 < x.accepts ∨ x.core.shutdownTimer.HasLive ∨ x.held ≠ [] ∧ ∀ key ∈ x.held, Closing x.core key

/-- A silent listener has nothing left that drives it on. -/
theorem Silent.not_draining {x : Listener} (h : x.Silent) : ¬ x.Draining := by
  rintro (haccept | ⟨w, hw, -⟩ | ⟨hheld, hclosing⟩)
  · simp [h.accepts] at haccept
  · simp [h.shutdownTimer] at hw
  · obtain ⟨key, hkey⟩ := List.exists_mem_of_ne_nil _ hheld
    rcases hclosing key hkey with ⟨y, hy, hmem⟩ | ⟨report, hmem, -⟩
    · simp [h.sessions y (List.mem_of_find?_eq_some hy)] at hmem
    · simp [h.strand] at hmem

/-- What a listener of either kind keeps between its steps. -/
def Kept : Listener → Prop
  | .acceptor s => ∃ options, Books options s ∧ Rest s ∧ Tended s
  | .socket s => SocketTended s

variable {x y : Listener} {l : ListenerLabel}

/-- A new listener is kept. -/
theorem Kept.create (id : ℕ) (config : ListenerConfig) : (create id config).Kept := by
  cases config with
  | acceptor endpoint options =>
    exact ⟨options, .create id endpoint options, rest_create id endpoint options,
      .create id endpoint options⟩
  | socket endpoint options => exact SocketTended.create id endpoint options

/-- Every step keeps the listener. -/
theorem Kept.step (h : x.Kept) (hstep : x.step l = some y) : y.Kept := by
  cases x with
  | acceptor s =>
    cases l with
    | socket l => contradiction
    | acceptor l =>
      obtain ⟨t, ht, rfl⟩ := Option.map_eq_some_iff.mp hstep
      obtain ⟨options, hbooks, hrest, htended⟩ := h
      exact ⟨options, hbooks.step ht, hrest.step ht, htended.step hbooks ht⟩
  | socket s =>
    cases l with
    | acceptor l => contradiction
    | socket l =>
      obtain ⟨t, ht, rfl⟩ := Option.map_eq_some_iff.mp hstep
      exact SocketTended.step h ht

/-- A kept listener that somebody keeps alive is not starting, and if it is stopping then
something drives it on. -/
theorem Kept.draining (h : x.Kept) (hpos : 0 < x.core.handles) :
    x.core.state ≠ .starting ∧ (x.core.state = .stopping → x.Draining) := by
  cases x with
  | acceptor s =>
    obtain ⟨options, hbooks, hrest, htended⟩ := h
    refine ⟨hrest.started, fun hstopping => ?_⟩
    cases hpending : s.acceptPending with
    | true =>
      refine Or.inl ?_
      change 0 < s.acceptor.accepts
      rw [hbooks.pending, hpending]
      exact Nat.one_pos
    | false =>
      have hheld : s.sessions ≠ [] := (hrest.drains hstopping).resolve_left (by simp [hpending])
      exact Or.inr ((htended.graced hstopping hpos).imp_right fun hclosing => ⟨hheld, hclosing⟩)
  | socket s =>
    have htended : SocketTended s := h
    refine ⟨htended.started, fun hstopping =>
      Or.inr ((htended.graced hstopping hpos).imp_right fun hclosing => ?_)⟩
    have hheld : s.session.toList ≠ [] := by simpa using htended.drains hstopping
    exact ⟨hheld, hclosing⟩

end Listener

/-- A stopped listener holds no wait back. -/
def Released (c : ListenerCore) : Prop := c.state = .stopped → c.waiters = []

variable {a b : ListenerCore}

/-- Moves hold no wait back. -/
theorem Released.moves (h : Released a) (hm : Moves a b) : Released b := by
  induction hm with
  | refl => exact h
  | tail _ hmove ih =>
    cases hmove with
    | quiet hq => exact fun hs => hq.waiters.trans (ih (hq.state ▸ hs))
    | running => exact nofun
    | stopping => exact nofun
    | finish ec reason hs =>
      exact fun _ => (finish_eq _ ec reason (by rcases hs with hs | hs <;> simp [hs])).2.2.1

/-- No step holds a wait back from a stopped listener. -/
theorem Released.step {k : StepKind} (h : Released a) (hstep : CoreStep k a b) : Released b := by
  cases hstep with
  | off alive halive hcall => cases hcall <;> exact h
  | deliver hstrand => exact h
  | settleStart hstrand completion hc => exact h
  | @start _ m _ _ rest hstrand hs completion hc hbefore hafter =>
    have hbegun : Released { a with strand := rest }.beginGeneration := nofun
    have hbefore : Released m := hbegun.moves hbefore
    exact Released.moves (a := m.completeOn completion) hbefore hafter
  | wait hstrand =>
    unfold ListenerCore.registerWait
    split
    · exact h
    · split
      · exact h
      · rename_i hstate
        exact fun hs => absurd hs hstate
  | cancelWait hstrand =>
    unfold ListenerCore.cancelWait
    split
    · exact h
    · rename_i hfind
      exact fun hs => by simp [h hs] at hfind
  | @stop _ _ rest hstrand hm hb => exact Released.moves (a := { a with strand := rest }) h hm
  | @report _ _ rest _ hstrand hm => exact Released.moves (a := { a with strand := rest }) h hm
  | asynchronous hm => exact h.moves hm
  | graceAborted htake hw => exact h
  | force htake hw keys => exact h

/-- Shutdown cannot get stuck. A listener that somebody keeps alive is in no transition once
nothing is in flight; in every reachable state of a stopping listener something is left that
drives it on; and a stopped listener has no waiters. For a bound socket the shutdown timer is taken
to be armed without an exception. -/
theorem listener_drains {x : Listener} (h : x.Reached) (hpos : 0 < x.core.handles) :
    (x.Silent → x.core.state ≠ .starting ∧ x.core.state ≠ .stopping) ∧
      (x.core.state = .stopping → x.Draining) ∧
      (x.core.state = .stopped → x.core.waiters = []) := by
  obtain ⟨id, config, hreachable⟩ := h
  have hkept :=
    hreachable.invariant Listener.Kept (fun _ _ _ hk hstep => hk.step hstep) (.create id config)
  have hreleased := hreachable.invariant (fun x => Released x.core)
    (fun _ _ _ hr hstep => Released.step hr (Listener.step_core hstep)) (by
      obtain ⟨endpoint, hcore⟩ := Listener.create_core id config
      simp [Released, hcore])
  obtain ⟨hstarted, hdraining⟩ := hkept.draining hpos
  exact ⟨fun hsilent => ⟨hstarted, fun hstopping => hsilent.not_draining (hdraining hstopping)⟩,
    hdraining, hreleased⟩

/-- A bound-socket listener is started and stopped while its session runs. -/
def stopWithSession : List ListenerLabel :=
  [.socket (.core (.asyncStart (.user 0))), .socket (.run {}), .socket (.core .stopRead),
    .socket (.core .stopPost), .socket (.run {}), .socket (.run {})]

/-- A bound-socket listener that stops with its session running is draining. -/
theorem listener_drains_stopWithSession : ∃ x,
    run Listener.step (Listener.create 1 defaultSocket) stopWithSession = some x ∧
      x.core.state = .stopping ∧ x.held = [1] ∧ x.Draining ∧ ¬ x.Silent := by
  have h : run Listener.step (Listener.create 1 defaultSocket) stopWithSession = some _ := rfl
  obtain ⟨hsilent, hdraining, -⟩ := listener_drains ⟨1, defaultSocket, _, h⟩ Nat.one_pos
  exact ⟨_, h, rfl, rfl, hdraining rfl, fun hs => (hsilent hs).2 rfl⟩

end Serveza
