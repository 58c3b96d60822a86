import Serveza.AcceptorCauses
import Serveza.SocketCauses

/-!
# What stops a listener

Every step of a reached listener of either kind settles the cause it processes.
-/

namespace Serveza

open Foundation ListenerCore

namespace Listener

/-- The cause of a stop that a step of a listener processes. -/
def cause : Listener → ListenerLabel → Option (ListenerStopReason × ErrorCode)
  | .acceptor s, .acceptor l => s.cause l
  | .socket s, .socket l => s.cause l
  | _, _ => none

/-- What the outcome of the next stop rests on: the books of an accepting listener agree, and a
listener that is not halted has no error left from before. -/
structure Unspoilt (x : Listener) : Prop where
  books : ∀ s, x = .acceptor s → ∃ options, Books options s
  fresh : ¬ x.core.state.Halted → x.core.terminalError = .success

/-- Every step settles the cause it processes. -/
theorem step_settles {x y : Listener} {l : ListenerLabel} (h : x.Unspoilt)
    (hstep : x.step l = some y) :
    Settles x.core y.core (x.cause l) := by
  cases x with
  | acceptor s =>
    cases l with
    | socket l => contradiction
    | acceptor l =>
      obtain ⟨t, ht, rfl⟩ := Option.map_eq_some_iff.mp hstep
      obtain ⟨options, hbooks⟩ := h.books s rfl
      exact s.step_settles hbooks ht
  | socket s =>
    cases l with
    | acceptor l => contradiction
    | socket l =>
      obtain ⟨t, ht, rfl⟩ := Option.map_eq_some_iff.mp hstep
      exact s.step_settles h.fresh ht

/-- A reached listener has nothing left from before that could spoil the outcome of a stop. -/
theorem Reached.unspoilt {x : Listener} (h : x.Reached) : x.Unspoilt := by
  obtain ⟨id, config, hreachable⟩ := h
  refine hreachable.invariant Unspoilt
    (fun u l v hu hstep => ⟨?_, writes_fresh hu.fresh (step_writes hstep)⟩) ⟨?_, ?_⟩
  · rintro t rfl
    cases u with
    | socket s => cases l <;> simp [step] at hstep
    | acceptor s =>
      cases l with
      | socket l => contradiction
      | acceptor l =>
        obtain ⟨t', ht, htt⟩ := Option.map_eq_some_iff.mp hstep
        obtain ⟨options, hbooks⟩ := hu.books s rfl
        cases htt
        exact ⟨options, hbooks.step ht⟩
  · rintro s hs
    cases config with
    | acceptor endpoint options =>
      cases hs
      exact ⟨options, .create id endpoint options⟩
    | socket endpoint options => contradiction
  · obtain ⟨endpoint, hcore⟩ := create_core id config
    rw [hcore]
    exact fun _ => rfl

end Listener

end Serveza
