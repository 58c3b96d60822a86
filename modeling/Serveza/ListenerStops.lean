import Serveza.OwnedShutdown
import Serveza.ShutdownBound

/-!
# A listener that stops comes to its end

A stopping listener that somebody keeps alive stops after a bounded number of steps that nobody has
to call for: the handlers posted to its strand and to its sessions, the completion of an outstanding
accept, the end of the grace period. It does not depend on the sessions, which may do what they like
in between. When no such step is left, the listener is stopped and released, and every wait has been
answered. As in the model of the bound socket, its shutdown timer is taken to be armed without an
exception; a grace period that could not be begun is not covered.
-/

namespace Serveza

open Foundation ListenerCore

namespace Listener

variable {x y : Listener} {l : ListenerLabel}

/-- What the sessions, the timers and an outstanding accept have left. -/
def spare : Listener → ℕ
  | .acceptor s => s.core.spare + s.acceptor.accepts + s.retryTimer.weight (graceWork 0)
  | .socket s => s.core.spare

/-- What a listener that winds down has left, if a handler is worth what `burst` says. -/
def remainder (burst : CompletionHandler → ℕ) (x : Listener) : ℕ := x.core.work burst + x.spare

/-- What a listener that winds down has left, with the posts that its callers are about to make. -/
def outstanding (x : Listener) : ℕ :=
  x.remainder (fun _ => 0) + 2 * x.core.cancelling.length + 2 * x.core.stopping

/-- No step of the listener or of its surroundings is due. -/
def Settled (x : Listener) : Prop := ∀ l, l.isDue = true → l.isInternal = true → x.step l = none

/-- No step is due, no piece of a call among them. -/
def Rested (x : Listener) : Prop := ∀ l, l.isDue = true → x.step l = none

/-- The session objects of an announced listener have different numbers. -/
theorem Announces.distinct (h : x.Announces) : (x.core.heap.map (·.info.id)).Nodup := by
  have hids : x.core.heap.map (·.info.id) = x.core.accounts.map (·.1.id) := by
    simp [accounts, Function.comp_def]
  rw [hids]
  cases x with
  | acceptor s => exact (SessionsPaired.reporting h).distinct
  | socket s => exact h.2.reporting.distinct

/-- What a listener keeps while it winds down. -/
structure Ending (x : Listener) : Prop where
  kept : x.Kept
  announces : x.Announces
  down : WindingDown x.core
  released : Released x.core
  once : WaitsOnce x.core

/-- A step that is unattended ends nobody's reference and starts nothing. -/
theorem isUnattended_kind (hstep : x.step l = some y) (hl : l.isUnattended = true) :
    (∀ handler, x.kind l ≠ .off (.asyncStart handler)) ∧ x.kind l ≠ .off .dropHandle := by
  have hnot (call : CoreLabel) (hcall : (call.isDue || call.isSession) = false) :
      x.kind l ≠ .off call := by
    intro hkind
    have hoff := (kind_eq_off hstep call).mp hkind
    cases l with
    | acceptor l =>
      cases l <;> simp_all [ListenerLabel.off?, ListenerLabel.isUnattended,
        AcceptorLabel.isUnattended]
    | socket l =>
      cases l <;> simp_all [ListenerLabel.off?, ListenerLabel.isUnattended,
        SocketLabel.isUnattended]
  exact ⟨fun handler => hnot _ rfl, hnot _ rfl⟩

/-- An unattended step keeps the listener winding down. -/
theorem Ending.step (h : x.Ending) (hl : l.isUnattended = true) (hstep : x.step l = some y) :
    y.Ending := by
  have hcore := step_core hstep
  obtain ⟨hstart, hdrop⟩ := isUnattended_kind hstep hl
  exact ⟨h.kept.step hstep, h.announces.step h.kept hstep, h.down.step hcore hstart hdrop,
    h.released.step hcore, h.once.step hcore⟩

/-- A step that nobody calls for and that is due leaves less, even with what the handler it calls is
worth, and one of a session leaves no more. -/
theorem Ending.remainder (h : x.Ending) (hl : l.isUnattended = true)
    (hinternal : l.isInternal = true) (hstep : x.step l = some y) (burst : CompletionHandler → ℕ) :
    y.remainder burst + (x.kind l).called burst + (if l.isDue then 1 else 0) ≤
      x.remainder burst := by
  have hdistinct := h.announces.distinct
  have hdown := h.down
  cases x with
  | acceptor s =>
    cases l with
    | socket l => contradiction
    | acceptor l =>
      obtain ⟨t, ht, rfl⟩ := Option.map_eq_some_iff.mp hstep
      have hless := AcceptorListener.step_remainder burst hdown hdistinct ht hl hinternal
      change t.core.work burst +
        (t.core.spare + t.acceptor.accepts + t.retryTimer.weight (graceWork 0)) +
        (s.kind l).called burst +
        (if l.isDue then 1 else 0) ≤ s.core.work burst +
          (s.core.spare + s.acceptor.accepts + s.retryTimer.weight (graceWork 0))
      simp only [AcceptorListener.remainder, ListenerCore.remainder] at hless
      omega
  | socket s =>
    cases l with
    | acceptor l => contradiction
    | socket l =>
      obtain ⟨t, ht, rfl⟩ := Option.map_eq_some_iff.mp hstep
      exact SocketListener.step_remainder burst hdown hdistinct ht hl hinternal

/-- The step is one off the strand. -/
theorem off_of_not_internal (hstep : x.step l = some y) (h : l.isInternal = false) :
    ∃ call, l = x.off call ∧ call.isBeside = false := by
  cases x with
  | acceptor s =>
    cases l with
    | socket l => contradiction
    | acceptor l =>
      cases l with
      | core call => exact ⟨call, rfl, by cases call <;> first | rfl | contradiction⟩
      | _ => contradiction
  | socket s =>
    cases l with
    | acceptor l => contradiction
    | socket l =>
      cases l with
      | core call => exact ⟨call, rfl, by cases call <;> first | rfl | contradiction⟩
      | _ => contradiction

/-- A step that nobody calls for leaves the pieces of calls alone. -/
theorem isInternal_sameCalls (hstep : x.step l = some y) (h : l.isInternal = true) :
    SameCalls x.core y.core := by
  have hcore := step_core hstep
  cases hkind : x.kind l with
  | off call =>
    have hoff := (kind_eq_off hstep call).mp hkind
    have hbeside : call.isBeside = true := by
      cases l with
      | acceptor l =>
        cases l with
        | core l =>
          obtain rfl := Option.some.inj hoff
          cases l <;> first | rfl | contradiction
        | _ => contradiction
      | socket l =>
        cases l with
        | core l =>
          obtain rfl := Option.some.inj hoff
          cases l <;> first | rfl | contradiction
        | _ => contradiction
    rw [hkind] at hcore
    cases hcore with
    | off alive halive hcall => exact hcall.sameCalls hbeside
  | _ => exact hcore.sameCalls (by simp [hkind])

/-- A call leaves the sessions, the timers and an outstanding accept alone. -/
theorem spare_off {call : CoreLabel} (hstep : x.step (x.off call) = some y)
    (hcall : call.isBeside = false) :
    y.spare = x.spare := by
  cases x with
  | acceptor s =>
    obtain ⟨t, ht, rfl⟩ := Option.map_eq_some_iff.mp hstep
    obtain ⟨c, hc, rfl⟩ := Option.map_eq_some_iff.mp ht
    simp only [spare, (call_cases hc).spare_eq hcall]
  | socket s =>
    obtain ⟨t, ht, rfl⟩ := Option.map_eq_some_iff.mp hstep
    obtain ⟨c, hc, rfl⟩ := Option.map_eq_some_iff.mp ht
    exact (call_cases hc).spare_eq hcall

/-- An unattended step that is due leaves less, and one of a session leaves no more. -/
theorem Ending.outstanding (h : x.Ending) (hl : l.isUnattended = true) (hstep : x.step l = some y) :
    y.outstanding + (if l.isDue then 1 else 0) ≤ x.outstanding := by
  cases hinternal : l.isInternal with
  | true =>
    have hless := h.remainder hl hinternal hstep (fun _ => 0)
    have hsame := isInternal_sameCalls hstep hinternal
    simp only [Listener.outstanding, hsame.cancelling, hsame.stopping]
    omega
  | false =>
    obtain ⟨call, rfl, hbeside⟩ := off_of_not_internal hstep hinternal
    have hdue : (x.off call).isDue = call.isDue ∧ call.isDue = true := by
      cases x <;> cases call <;>
        simp_all [off, ListenerLabel.isUnattended, AcceptorLabel.isUnattended,
          SocketLabel.isUnattended,
        CoreLabel.isDue, CoreLabel.isSession, CoreLabel.isBeside, ListenerLabel.isDue,
          AcceptorLabel.isDue, SocketLabel.isDue]
    obtain ⟨alive, -, hcall⟩ := step_off hstep
    have hless := hcall.post_work hbeside hdue.2
    have hspare := spare_off hstep hbeside
    rw [hdue.1, hdue.2]
    simp only [Listener.outstanding, Listener.remainder, hspare, if_true]
    omega

/-- A step that is due is unattended. -/
theorem isUnattended_of_isDue (h : l.isDue = true) : l.isUnattended = true := by
  cases l with
  | acceptor l =>
    cases l <;> simp_all [ListenerLabel.isDue, AcceptorLabel.isDue, ListenerLabel.isUnattended,
      AcceptorLabel.isUnattended]
  | socket l =>
    cases l <;> simp_all [ListenerLabel.isDue, SocketLabel.isDue, ListenerLabel.isUnattended,
      SocketLabel.isUnattended]

/-- A call that cannot be made on a listener cannot be made on its shared part. -/
theorem call_eq_none {call : CoreLabel} (h : x.step (x.off call) = none) :
    ∃ alive, x.core.call alive call = none := by
  cases x with
  | acceptor s => exact ⟨_, Option.map_eq_none_iff.mp (Option.map_eq_none_iff.mp h)⟩
  | socket s => exact ⟨_, Option.map_eq_none_iff.mp (Option.map_eq_none_iff.mp h)⟩

namespace Settled

/-- A settled listener has no session step and no end of the grace period to wait for. -/
theorem call (h : x.Settled) (call : CoreLabel) (hdue : call.isDue = true)
    (hbeside : call.isBeside = true) :
    ∃ alive, x.core.call alive call = none := by
  refine call_eq_none (h _ ?_ ?_)
  · cases x <;> exact hdue
  · cases x <;> cases call <;> first | rfl | contradiction

/-- A settled listener has an empty strand. -/
theorem strand (h : x.Settled) : x.core.strand = [] := by
  by_contra hne
  obtain ⟨l, hrun, hinternal, hsome⟩ := exists_run hne
  have hdue : l.isDue = true := by
    cases l with
    | acceptor l =>
      cases l <;> simp_all [ListenerLabel.isRun, ListenerLabel.isDue, AcceptorLabel.isDue]
    | socket l => cases l <;> simp_all [ListenerLabel.isRun, ListenerLabel.isDue, SocketLabel.isDue]
  simp [h l hdue hinternal] at hsome

/-- The sessions of a settled listener have run everything that was posted to them. -/
theorem sessions (h : x.Settled) (hdistinct : (x.core.heap.map (·.info.id)).Nodup) :
    ∀ y ∈ x.core.heap, y.strand = [] := by
  intro y hy
  by_contra hne
  obtain ⟨alive, hnone⟩ := h.call (.session y.info.id .run) rfl rfl
  have hfound : x.core.session? y.info.id = some y := find?_of_mem hdistinct hy
  simp only [ListenerCore.call, sessionStep, hfound, Option.bind_some, Option.map_eq_none_iff,
    Session.step] at hnone
  split at hnone <;> simp_all

/-- A settled listener waits for no timer. -/
theorem shutdownTimer (h : x.Settled) : x.core.shutdownTimer.waits = [] := by
  by_contra hne
  obtain ⟨k, hexpire | htake⟩ := Timer.expire_or_take hne
  · obtain ⟨alive, hnone⟩ := h.call (.graceExpires k) rfl rfl
    simp [ListenerCore.call] at hnone
    simp [hnone] at hexpire
  · cases x with
    | acceptor s =>
      have hnone := h (.acceptor (.graceHandler k)) rfl rfl
      simp [Listener.step, AcceptorListener.step] at hnone
      simp_all [Listener.core]
    | socket s =>
      have hnone := h (.socket (.graceHandler k)) rfl rfl
      simp [Listener.step, SocketListener.step] at hnone
      simp_all [Listener.core]

/-- A settled listener has no accept outstanding. -/
theorem accepts (h : x.Settled) : x.accepts = 0 := by
  cases x with
  | acceptor s =>
    by_contra hne
    have hnone := h (.acceptor (.accepted {} {})) rfl rfl
    have hpos : 0 < s.acceptor.accepts := Nat.pos_of_ne_zero hne
    simp [Listener.step, AcceptorListener.step, hpos] at hnone
  | socket s => rfl

/-- Nothing is in flight to a settled listener. -/
theorem silent (h : x.Settled) (hdistinct : (x.core.heap.map (·.info.id)).Nodup) : x.Silent :=
  ⟨h.strand, h.sessions hdistinct, h.accepts, h.shutdownTimer⟩

end Settled

/-- A rested listener is settled. -/
theorem Rested.settled (h : x.Rested) : x.Settled := fun l hl _ => h l hl

/-- No wait is on its way to the strand of a rested listener. -/
theorem Rested.initiating (h : x.Rested) : x.core.initiating = [] := by
  by_contra hne
  obtain ⟨w, rest, hw⟩ := List.exists_cons_of_ne_nil hne
  obtain ⟨alive, hnone⟩ := call_eq_none (h (x.off (.postWait w.id)) (by cases x <;> rfl))
  simp [ListenerCore.call, hw] at hnone

/-- A listener that has wound down and settled is stopped and released. -/
theorem Ending.settled (h : x.Ending) (hsettled : x.Settled) :
    x.Silent ∧ x.core.state = .stopped ∧ x.held = [] ∧ x.core.waiters = [] := by
  have hsilent := hsettled.silent h.announces.distinct
  have hstopped : x.core.state = .stopped :=
    h.down.halted.resolve_left fun hs => hsilent.not_draining
      ((h.kept.draining h.down.handles).2 hs)
  have hheld : x.held = [] := by
    cases x with
    | acceptor s =>
      obtain ⟨options, hbooks, -, -⟩ := h.kept
      exact (hbooks.released (Or.inr hstopped)).1
    | socket s =>
      have hsession : s.session = none := SocketTended.released h.kept (Or.inr hstopped)
      simp [held, hsession]
  exact ⟨hsilent, hstopped, hheld, h.released hstopped⟩

/-- A listener that has wound down and rests has answered every wait. -/
theorem Ending.answered (h : x.Ending) (hrested : x.Rested) {waiter : ℕ} (hpos : 0 < waiter)
    (hle : waiter ≤ x.core.nextWaiterId) :
    x.core.delivered.countP (fun q => q.wait = some waiter) = 1 := by
  obtain ⟨hsilent, -, -, hwaiters⟩ := h.settled hrested.settled
  have hcounted := h.once waiter
  rw [if_pos ⟨hpos, hle⟩] at hcounted
  simpa [initiations, registrations, completions, completed, hrested.initiating, hwaiters,
    hsilent.strand] using hcounted

/-- A reachable listener that winds down keeps what it needs to come to its end. -/
theorem Reached.ending (h : x.Reached) (hdown : WindingDown x.core) : x.Ending := by
  obtain ⟨id, config, hreachable⟩ := h
  have hannounces : x.Kept ∧ x.Announces := hreachable.invariant (fun x => x.Kept ∧ x.Announces)
    (fun _ _ _ h hstep => ⟨h.1.step hstep, h.2.step h.1 hstep⟩)
    ⟨.create id config, .create id config⟩
  have hwaits : Released x.core ∧ WaitsOnce x.core :=
    hreachable.invariant (fun x => Released x.core ∧ WaitsOnce x.core)
    (fun _ _ _ h hstep => ⟨h.1.step (step_core hstep), h.2.step (step_core hstep)⟩) (by
      obtain ⟨endpoint, hcore⟩ := create_core id config
      exact ⟨by simp [Released, hcore], (create_waits id config).1⟩)
  exact ⟨hannounces.1, hannounces.2, hdown, hwaits.1, hwaits.2⟩

end Listener

/-- A listener that stops comes to its end. Take a reachable listener of either kind that is
stopping or stopped, is not being started again and that somebody keeps alive. In every run of
unattended steps, whatever the sessions do in it, the number of steps that are due is bounded.
When none is left the listener is stopped, holds no session and has answered each wait exactly
once; and there is a run of due steps that gets there. A bound socket that stopped with its session
has armed its shutdown timer, which is taken not to throw. -/
theorem listener_stops {x : Listener} (h : x.Reached) (hdown : WindingDown x.core) :
    (∀ ls y, (∀ l ∈ ls, l.isUnattended = true) → run Listener.step x ls = some y →
      ls.countP (·.isDue) + y.outstanding ≤ x.outstanding ∧
      (y.Rested → y.Silent ∧ y.core.state = .stopped ∧ y.held = [] ∧ y.core.waiters = [] ∧
        ∀ waiter, 0 < waiter → waiter ≤ y.core.nextWaiterId →
          y.core.delivered.countP (fun q => q.wait = some waiter) = 1)) ∧
    ∃ ls y, (∀ l ∈ ls, l.isDue = true) ∧ run Listener.step x ls = some y ∧ y.Rested := by
  have hending : x.Ending := h.ending hdown
  refine ⟨fun ls y hls hrun => ⟨?_, fun hrested => ?_⟩, ?_⟩
  · exact run_countP_le Listener.outstanding ListenerLabel.isDue
      (fun _ _ _ hx hl hstep => hx.step hl hstep)
      (fun _ _ _ hx hl hstep => hx.outstanding hl hstep) hending hls hrun
  · have hlast : y.Ending :=
      run_invariant_along (P := fun _ l => l.isUnattended = true) Listener.Ending
      (fun _ _ _ hx hl hstep => hx.step hl hstep) hending (along_of_labels hls) hrun
    obtain ⟨hsilent, hstopped, hheld, hwaiters⟩ := hlast.settled hrested.settled
    exact ⟨hsilent, hstopped, hheld, hwaiters, fun waiter hpos hle =>
      hlast.answered hrested hpos hle⟩
  · refine exists_run_done (I := Listener.Ending) (Q := fun l : ListenerLabel => l.isDue = true)
      Listener.outstanding
      (fun _ _ _ hx hl hstep => hx.step (Listener.isUnattended_of_isDue hl) hstep)
      (fun x l y hx hl hstep => ?_) (fun x hx hnot => ?_) hending
    · have hless := hx.outstanding (Listener.isUnattended_of_isDue hl) hstep
      rw [if_pos hl] at hless
      exact hless
    · unfold Listener.Rested at hnot
      push Not at hnot
      obtain ⟨l, hl, hne⟩ := hnot
      exact ⟨l, hl, Option.isSome_iff_ne_none.mpr hne⟩

/-- A bound-socket listener that stops comes to its end even if its session ignores the request. -/
theorem listener_stops_stopWithSession : ∃ x ls y,
    run Listener.step (Listener.create 1 defaultSocket) stopWithSession = some x ∧
    x.core.state = .stopping ∧ x.held = [1] ∧
      (∀ l ∈ ls, l.isDue = true) ∧ ls.length ≤ 6 ∧ run Listener.step x ls = some y ∧
      y.core.state = .stopped ∧ y.held = [] := by
  have h : run Listener.step (Listener.create 1 defaultSocket) stopWithSession = some _ := rfl
  obtain ⟨hruns, ls, y, hls, hrun, hrested⟩ := listener_stops ⟨1, defaultSocket, _, h⟩ (by decide)
  obtain ⟨hbound, hend⟩ := hruns ls y (fun l hl => Listener.isUnattended_of_isDue (hls l hl)) hrun
  obtain ⟨-, hstopped, hheld, -⟩ := hend hrested
  rw [List.countP_eq_length.mpr hls] at hbound
  exact ⟨_, ls, y, h, rfl, rfl, hls, (Nat.le_add_right _ _).trans hbound, hrun, hstopped, hheld⟩

end Serveza
