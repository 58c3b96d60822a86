import Mathlib.Logic.Relation
import Serveza.Effects

/-!
# What a handler of a listener can do to its control plane

The handlers of both listener classes act on the shared part of a listener through four
moves: quiet changes, entering `running` from `starting`, entering `stopping` from a state
that accepts work, and finishing a generation. Only the last two touch the shutdown timer.
-/

namespace Serveza

open Foundation ListenerCore

/-- What entering `stopping` does to the shutdown timer: nothing, an attempt to arm it that
fails, or a new wait. -/
inductive GraceArming (a : ListenerCore) : Timer Arming → Prop where
  | none : GraceArming a a.shutdownTimer
  | failed : GraceArming a a.shutdownTimer.expiresAfter
  | armed (delay : ℤ) : GraceArming a (a.shutdownTimer.expiresAfter.asyncWait ⟨a.generation, delay⟩)

/-- The arming depends on the timer and the generation only. -/
theorem GraceArming.congr {a b : ListenerCore} {timer : Timer Arming} (h : GraceArming a timer)
    (htimer : b.shutdownTimer = a.shutdownTimer) (hgeneration : b.generation = a.generation) :
    GraceArming b timer := by
  cases h with
  | none => exact htimer ▸ .none
  | failed => exact htimer ▸ .failed
  | armed delay => exact htimer ▸ hgeneration ▸ .armed delay

/-- One move of a handler on the shared part. -/
inductive Move : ListenerCore → ListenerCore → Prop where
  | quiet {a b} (h : Quiet a b) : Move a b
  | running {a} (h : a.state = .starting) : Move a (a.transitionTo .running)
  | stopping {a timer} (h : a.state = .idle ∨ a.state = .starting ∨ a.state = .running)
    (ht : GraceArming a timer) : Move a ({ a with shutdownTimer := timer }.transitionTo .stopping)
  | finish {a} (ec : ErrorCode) (reason : ListenerStopReason)
    (h : a.state = .starting ∨ a.state = .stopping) : Move a (a.finish ec reason)

/-- Several moves in a row. -/
abbrev Moves : ListenerCore → ListenerCore → Prop := Relation.ReflTransGen Move

/-- A single quiet change counts as moves. -/
theorem Moves.quiet {a b : ListenerCore} (h : Quiet a b) : Moves a b := .single (.quiet h)

/-- A stop is announced from a state that accepts work. -/
theorem announceStop_moves (a : ListenerCore) (ec : ErrorCode) (reason : ListenerStopReason)
    (h : a.state = .idle ∨ a.state = .starting ∨ a.state = .running) {timer : Timer Arming}
    (ht : GraceArming a timer) :
    Moves a ({ a with shutdownTimer := timer }.announceStop ec reason) := by
  have hstopped : a.state ≠ .stopped := by rcases h with h | h | h <;> simp [h]
  exact .tail (Moves.quiet (quiet_outcome a ec reason hstopped)) (.stopping h (ht.congr rfl rfl))

section Finish

variable (a : ListenerCore) (ec : ErrorCode) (reason : ListenerStopReason)

/-- A finished generation leaves the listener stopped. -/
@[simp] theorem finish_state : (a.finish ec reason).state = .stopped := by
  unfold ListenerCore.finish
  split
  · assumption
  · rfl

/-- What finishing a generation that has not stopped does. -/
theorem finish_eq (h : a.state ≠ .stopped) :
    (a.finish ec reason).strand =
        a.strand ++ a.waiters.map (fun w => .complete ⟨w.handler, some w.id, ec, .stopped⟩) ∧
      (a.finish ec reason).delivered = a.delivered ∧ (a.finish ec reason).waiters = [] ∧
      (a.finish ec reason).terminalError = ec ∧
      (a.finish ec reason).stops = a.stops ++ [ec] ∧
      ∃ event, (a.finish ec reason).events = a.events ++ [event] ∧ event.Stopped ∧
        event.status.generation = a.generation := by
  unfold ListenerCore.finish
  rw [if_neg h]
  exact ⟨rfl, rfl, rfl, rfl, rfl, _, rfl, ⟨rfl, rfl⟩, rfl⟩

/-- A generation that has not stopped ends with the reason given. -/
theorem finish_stopReason (h : a.state ≠ .stopped) : (a.finish ec reason).stopReason = reason := by
  rw [ListenerCore.finish, if_neg h]
  rfl

/-- Finishing a generation does not count sessions. -/
@[simp] theorem finish_activeSessions : (a.finish ec reason).activeSessions = a.activeSessions := by
  unfold ListenerCore.finish
  split <;> rfl

/-- Finishing a generation touches no session object. -/
@[simp] theorem finish_heap : (a.finish ec reason).heap = a.heap := by
  unfold ListenerCore.finish
  split <;> rfl

/-- Finishing a generation touches no call in progress and no generation number. -/
theorem finish_sameGeneration : SameGeneration a (a.finish ec reason) := by
  unfold ListenerCore.finish
  split <;> exact ⟨⟨rfl, rfl, rfl, rfl, rfl, rfl⟩, rfl⟩

end Finish

/-- A move posts completions only. -/
theorem Move.strand {a b : ListenerCore} (h : Move a b) :
    ∃ cs : List Completion, b.strand = a.strand ++ cs.map .complete := by
  cases h with
  | quiet h => exact ⟨[], by simp [h.strand]⟩
  | running h => exact ⟨[], by simp [transitionTo, emit]⟩
  | stopping h ht => exact ⟨[], by simp [transitionTo, emit]⟩
  | finish ec reason h =>
    refine ⟨a.waiters.map fun w => ⟨w.handler, some w.id, ec, .stopped⟩, ?_⟩
    rw [(finish_eq a ec reason (by rcases h with h | h <;> simp [h])).1]
    simp [Function.comp_def]

/-- A move leaves the generation and the calls in progress alone. -/
theorem Move.sameGeneration {a b : ListenerCore} (h : Move a b) : SameGeneration a b := by
  cases h with
  | quiet h => exact h.toSameGeneration
  | running h => exact ⟨⟨rfl, rfl, rfl, rfl, rfl, rfl⟩, rfl⟩
  | stopping h ht => exact ⟨⟨rfl, rfl, rfl, rfl, rfl, rfl⟩, rfl⟩
  | finish ec reason h => exact finish_sameGeneration a ec reason

/-- A move never leaves `stopping` or `stopped` for another state. -/
theorem Move.halted {a b : ListenerCore} (h : Move a b) (ha : a.state.Halted) : b.state.Halted := by
  cases h with
  | quiet h => rwa [h.state]
  | running h => rcases ha with ha | ha <;> simp [h] at ha
  | stopping h ht => exact Or.inl rfl
  | finish ec reason h => exact Or.inr (finish_state a ec reason)

/-- Moves post completions only. -/
theorem moves_strand {a b : ListenerCore} (h : Moves a b) :
    ∃ cs : List Completion, b.strand = a.strand ++ cs.map .complete := by
  induction h with
  | refl => exact ⟨[], by simp⟩
  | tail _ hmove ih =>
    obtain ⟨cs, hcs⟩ := ih
    obtain ⟨ds, hds⟩ := hmove.strand
    exact ⟨cs ++ ds, by rw [hds, hcs, List.map_append, List.append_assoc]⟩

/-- Moves leave the generation and the calls in progress alone. -/
theorem moves_sameGeneration {a b : ListenerCore} (h : Moves a b) : SameGeneration a b := by
  induction h with
  | refl => exact ⟨⟨rfl, rfl, rfl, rfl, rfl, rfl⟩, rfl⟩
  | tail _ hmove ih => exact ih.trans hmove.sameGeneration

/-- Moves never leave `stopping` or `stopped` for another state. -/
theorem moves_halted {a b : ListenerCore} (h : Moves a b) (ha : a.state.Halted) :
    b.state.Halted := by
  induction h with
  | refl => exact ha
  | tail _ hmove ih => exact hmove.halted ih

/-- A move keeps every session object. -/
theorem Move.keepsSessions {a b : ListenerCore} (h : Move a b) : KeepsSessions a b := by
  cases h with
  | quiet h => exact h.sessions
  | running h => exact .of_heap rfl
  | stopping h ht => exact .of_heap rfl
  | finish ec reason h => exact .of_heap (finish_heap a ec reason)

/-- Moves keep every session object. -/
theorem moves_keepsSessions {a b : ListenerCore} (h : Moves a b) : KeepsSessions a b := by
  induction h with
  | refl => exact .of_heap rfl
  | tail _ hmove ih => exact ih.trans hmove.keepsSessions

/-- Out of `stopping` the moves lead to `stopped` only, and before that they are quiet. -/
theorem moves_stopping {a b : ListenerCore} (h : Moves a b) (ha : a.state = .stopping) :
    Quiet a b ∨ b.state = .stopped := by
  induction h with
  | refl => exact Or.inl (Quiet.refl a)
  | @tail m b _ hmove ih =>
    rcases ih with hquiet | hstopped
    · cases hmove with
      | quiet h => exact Or.inl (hquiet.trans h)
      | running h => simp [hquiet.state, ha] at h
      | stopping h ht => rcases h with h | h | h <;> simp [hquiet.state, ha] at h
      | finish ec reason h => exact Or.inr (finish_state m ec reason)
    · cases hmove with
      | quiet h => exact Or.inr (h.state.trans hstopped)
      | running h => simp [hstopped] at h
      | stopping h ht => rcases h with h | h | h <;> simp [hstopped] at h
      | finish ec reason h => exact Or.inr (finish_state m ec reason)

end Serveza
