import Mathlib.Data.List.Induction
import Serveza.Foundation.Run

/-!
# Logs

A log is a list that only grows at its end. A law of a log says of each entry how it stands
to the entries before it, so that it is enough to look at an entry when it is written. What
a run has written was written by one of its steps.
-/

namespace Foundation

variable {α : Type*} {P : List α → α → Prop} {log more : List α} {e : α}

/-- Each entry of the log stands in a relation to the entries before it. -/
def Logged (P : List α → α → Prop) (log : List α) : Prop :=
  ∀ before e after, log = before ++ e :: after → P before e

/-- An empty log obeys every law. -/
theorem logged_nil : Logged P [] := fun before e after h => by simp at h

/-- A law is kept by a new entry that obeys it. -/
theorem logged_concat : Logged P (log ++ [e]) ↔ Logged P log ∧ P log e := by
  constructor
  · intro h
    refine ⟨fun before x after hlog => h before x (after ++ [e]) (by simp [hlog]), ?_⟩
    exact h log e [] rfl
  · rintro ⟨hlog, he⟩ before x after hsplit
    rcases List.eq_nil_or_concat after with rfl | ⟨rest, y, rfl⟩
    · obtain ⟨rfl, hx⟩ := List.append_inj' hsplit rfl
      cases hx
      exact he
    · rw [List.concat_eq_append, ← List.cons_append, ← List.append_assoc] at hsplit
      exact hlog before x rest (List.append_inj' hsplit rfl).1

/-- A law is kept by new entries that obey it one after the other. -/
theorem Logged.append (h : Logged P log) (hmore : Logged (fun before => P (log ++ before)) more) :
    Logged P (log ++ more) := by
  induction more using List.reverseRecOn with
  | nil => rwa [List.append_nil]
  | append_singleton rest y ih =>
    obtain ⟨hrest, hy⟩ := logged_concat.mp hmore
    rw [← List.append_assoc]
    exact logged_concat.mpr ⟨ih hrest, hy⟩

/-- A law that compares an entry with each one before it holds of any two entries in order. -/
theorem Logged.pairwise {R : α → α → Prop} (h : Logged P log)
    (hR : ∀ before e, P before e → ∀ x ∈ before, R x e) :
    log.Pairwise R := by
  induction log using List.reverseRecOn with
  | nil => exact .nil
  | append_singleton rest y ih =>
    obtain ⟨hrest, hy⟩ := logged_concat.mp h
    refine List.pairwise_append.mpr ⟨ih hrest, List.pairwise_singleton _ _, fun x hx z hz => ?_⟩
    rw [List.mem_singleton.mp hz]
    exact hR rest y hy x hx

/-- Entries that exclude one another are found at most once. -/
theorem countP_le_one {p : α → Bool} (h : log.Pairwise fun x y => p x = true → p y = true → False) :
    log.countP p ≤ 1 := by
  induction log with
  | nil => exact Nat.zero_le _
  | cons x rest ih =>
    obtain ⟨hx, hrest⟩ := List.pairwise_cons.mp h
    rw [List.countP_cons]
    split
    · rename_i hpx
      have hnone : rest.countP p = 0 := List.countP_eq_zero.mpr fun y hy hpy => hx y hy hpx hpy
      omega
    · exact ih hrest

/-- Each entry that a run has written into a log was written by a step of the run. -/
theorem exists_written {S L : Type*} {step : S → L → Option S} {s t : S} {ls : List L}
    (log : S → List α) (W : S → L → α → Prop) (hempty : log s = [])
    (hstep : ∀ u l v, Reachable step s u → step u l = some v →
      ∃ new, log v = log u ++ new ∧ ∀ e ∈ new, W u l e)
    (hrun : run step s ls = some t) {e : α} (he : e ∈ log t) :
    ∃ before l after u, ls = before ++ l :: after ∧ run step s before = some u ∧ W u l e := by
  induction ls using List.reverseRecOn generalizing t with
  | nil =>
    obtain rfl := Option.some.inj hrun
    simp [hempty] at he
  | append_singleton rest l ih =>
    obtain ⟨u, hu, hlast⟩ := run_append.mp hrun
    obtain ⟨v, hv, hend⟩ := run_cons.mp hlast
    obtain rfl := Option.some.inj hend
    obtain ⟨new, hnew, hwritten⟩ := hstep u l v ⟨rest, hu⟩ hv
    rcases List.mem_append.mp (hnew ▸ he) with hold | hfresh
    · obtain ⟨before, k, after, w, rfl, hw, hW⟩ := ih hu hold
      exact ⟨before, k, after ++ [l], w, by simp, hw, hW⟩
    · exact ⟨rest, l, [], u, rfl, hu, hwritten e hfresh⟩

/-- The first entry that has not been read continues what has been read of a log. -/
theorem concat_isPrefix_of_head (h : log <+: more) (ha : (more.drop log.length).head? = some e) :
    log ++ [e] <+: more := by
  obtain ⟨rest, rfl⟩ := h
  rw [List.drop_left] at ha
  obtain ⟨tail, rfl⟩ := List.head?_eq_some_iff.mp ha
  exact ⟨tail, by simp⟩

end Foundation
