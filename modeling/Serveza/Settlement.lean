import Serveza.Record

/-!
# The outcome of a stop

A listener that is halted has a reason and an error, and the step that halts it settles both. A
listener that is not halted has no error left from an earlier stop.
-/

namespace Serveza

open Foundation ListenerCore

/-- The listener is halted with a given outcome, or it is not halted. -/
def Decided (c : ListenerCore) : Option (ListenerStopReason × ErrorCode) → Prop
  | some (reason, ec) => c.state.Halted ∧ c.stopReason = reason ∧ c.terminalError = ec
  | none => ¬ c.state.Halted

variable {a b : ListenerCore} {reason : ListenerStopReason} {ec : ErrorCode}

/-- A generation that ends with the outcome it has keeps it. -/
theorem finish_outcome (h : a.state = .stopping) :
    (a.finish a.terminalError a.stopReason).stopReason = a.stopReason ∧
      (a.finish a.terminalError a.stopReason).terminalError = a.terminalError := by
  have hs : a.state ≠ .stopped := by simp [h]
  exact ⟨finish_stopReason _ _ _ hs, (finish_eq a _ _ hs).2.2.2.1⟩

/-- A generation that has not stopped is decided by its end. -/
theorem finish_decided (hs : a.state ≠ .stopped) :
    Decided (a.finish ec reason) (some (reason, ec)) :=
  ⟨Or.inr (finish_state _ _ _), finish_stopReason _ _ _ hs, (finish_eq _ _ _ hs).2.2.2.1⟩

/-- A halted listener keeps its outcome. -/
theorem Decided.entries (h : Decided a (some (reason, ec))) (hentries : Entries a b) :
    Decided b (some (reason, ec)) := by
  induction hentries with
  | refl => exact h
  | @tail c d _ hentry ih =>
    obtain ⟨hhalted, hreason, herror⟩ := ih
    cases hentry with
    | silent hsame =>
      exact ⟨hsame.state ▸ hhalted, hsame.stopReason.trans hreason,
        hsame.terminalError.trans herror⟩
    | event htype info ec ep => exact ⟨hhalted, hreason, herror⟩
    | running hs => rcases hhalted with hhalted | hhalted <;> simp [hs] at hhalted
    | stopping hs =>
      rcases hhalted with hhalted | hhalted <;> simp [hhalted] at hs
    | stopped hs =>
      obtain ⟨hreason', herror'⟩ := finish_outcome hs
      exact ⟨Or.inr (finish_state _ _ _), hreason'.trans hreason, herror'.trans herror⟩
    | failed hs ec => rcases hhalted with hhalted | hhalted <;> simp [hs] at hhalted

/-- A step of a listener that is not halted, or one that begins a generation, decides the outcome
its cause stands for; any other step has no cause and stays in its generation. -/
def Settles (a b : ListenerCore) (outcome : Option (ListenerStopReason × ErrorCode)) : Prop :=
  Decided b outcome ∧ (¬ a.state.Halted ∨ b.generation = a.generation + 1) ∨
    outcome = none ∧ a.state.Halted ∧ b.generation = a.generation

/-- A step that keeps the state and the generation needs no cause. -/
theorem settles_same (hstate : b.state = a.state) (hgeneration : b.generation = a.generation) :
    Settles a b none := by
  by_cases hhalted : a.state.Halted
  · exact Or.inr ⟨rfl, hhalted, hgeneration⟩
  · refine Or.inl ⟨?_, Or.inl hhalted⟩
    rwa [Decided, hstate]

/-- A running listener is not halted. -/
theorem not_halted_of_running (h : a.state = .running) : ¬ a.state.Halted := by
  rintro (hs | hs) <;> simp [h] at hs

/-- Entries leave no error behind in a listener that is not halted. -/
theorem entries_fresh (hfresh : ¬ a.state.Halted → a.terminalError = .success) (h : Entries a b) :
    ¬ b.state.Halted → b.terminalError = .success := by
  induction h with
  | refl => exact hfresh
  | tail _ hentry ih =>
    intro hhalted
    cases hentry with
    | silent hsame => exact hsame.terminalError.trans (ih (hsame.state ▸ hhalted))
    | event => exact ih hhalted
    | running hs => exact ih (by rintro (h | h) <;> simp [hs] at h)
    | stopping => exact absurd (Or.inl rfl) hhalted
    | stopped => exact absurd (Or.inr (finish_state _ _ _)) hhalted
    | failed => exact absurd (Or.inr (finish_state _ _ _)) hhalted

/-- No step leaves an error behind in a listener that is not halted. -/
theorem writes_fresh {p : Prop} (hfresh : ¬ a.state.Halted → a.terminalError = .success)
    (h : Writes p a b) :
    ¬ b.state.Halted → b.terminalError = .success := by
  cases h with
  | entries hentries => exact entries_fresh hfresh hentries
  | start hs hm hentries => exact entries_fresh (fun _ => rfl) hentries
  | concluded => exact fun hhalted => absurd (Or.inr (finish_state _ _ _)) hhalted

end Serveza
