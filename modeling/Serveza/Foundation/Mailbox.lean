import Mathlib.Data.List.Basic

/-!
# Openers and closers in a first-in first-out mailbox

Some messages of a mailbox open an activity and some close it. A mailbox is covered when
each opener in it has a closer somewhere behind it: whatever the openers start, the closer
that is processed later ends. Coverage survives taking the head and appending a covered
mailbox, and appending a closer covers any mailbox.
-/

namespace Foundation

variable {M : Type*} {opens closes : M → Bool}

/-- Each opener in the mailbox is followed by a closer. -/
def Covered (opens closes : M → Bool) : List M → Prop
  | [] => True
  | m :: ms => (opens m = true → ∃ x ∈ ms, closes x = true) ∧ Covered opens closes ms

instance decidableCovered (opens closes : M → Bool) :
    (ms : List M) → Decidable (Covered opens closes ms)
  | [] => isTrue trivial
  | m :: ms =>
    have := decidableCovered opens closes ms
    inferInstanceAs (Decidable
      ((opens m = true → ∃ x ∈ ms, closes x = true) ∧ Covered opens closes ms))

/-- A mailbox without openers is covered. -/
theorem covered_of_no_opener {ms : List M} (h : ∀ m ∈ ms, opens m = false) :
    Covered opens closes ms := by
  induction ms with
  | nil => trivial
  | cons m ms ih =>
    refine ⟨fun ho => ?_, ih fun x hx => h x (List.mem_cons_of_mem _ hx)⟩
    simp [h m List.mem_cons_self] at ho

/-- A mailbox with a covered end is covered if its other openers are closed there. -/
theorem covered_append {ms extra : List M}
    (h : ∀ m ∈ ms, opens m = true → ∃ x ∈ extra, closes x = true)
    (hextra : Covered opens closes extra) : Covered opens closes (ms ++ extra) := by
  induction ms with
  | nil => exact hextra
  | cons m ms ih =>
    refine ⟨fun ho => ?_, ih fun x hx => h x (List.mem_cons_of_mem _ hx)⟩
    obtain ⟨x, hx, hclose⟩ := h m List.mem_cons_self ho
    exact ⟨x, List.mem_append_right _ hx, hclose⟩

/-- Two covered mailboxes one behind the other are covered. -/
theorem Covered.append {ms extra : List M} (h : Covered opens closes ms)
    (hextra : Covered opens closes extra) :
    Covered opens closes (ms ++ extra) := by
  induction ms with
  | nil => exact hextra
  | cons m ms ih =>
    refine ⟨fun ho => ?_, ih h.2⟩
    obtain ⟨x, hx, hclose⟩ := h.1 ho
    exact ⟨x, List.mem_append_left _ hx, hclose⟩

/-- The end of a covered mailbox is covered. -/
theorem Covered.of_append {ms extra : List M} (h : Covered opens closes (ms ++ extra)) :
    Covered opens closes extra := by
  induction ms with
  | nil => exact h
  | cons m ms ih => exact ih h.2

/-- A covered mailbox with an opener has a closer. -/
theorem Covered.exists_closer {ms : List M} (h : Covered opens closes ms) {m : M} (hm : m ∈ ms)
    (hopen : opens m = true) :
    ∃ x ∈ ms, closes x = true := by
  obtain ⟨front, rest, rfl⟩ := List.append_of_mem hm
  obtain ⟨x, hx, hclose⟩ := h.of_append.1 hopen
  exact ⟨x, List.mem_append_right _ (List.mem_cons_of_mem _ hx), hclose⟩

/-- A closer at the end covers the whole mailbox. -/
theorem covered_append_closer (ms : List M) {x : M} (hclose : closes x = true)
    (hopen : opens x = false) :
    Covered opens closes (ms ++ [x]) :=
  covered_append (fun _ _ _ => ⟨x, List.mem_singleton_self x, hclose⟩)
    (covered_of_no_opener (by simpa using hopen))

/-- Replacing messages by ones that open and close alike keeps a mailbox covered. -/
theorem Covered.map {ms : List M} (f : M → M) (hopen : ∀ m, opens (f m) = opens m)
    (hclose : ∀ m, closes (f m) = closes m) (h : Covered opens closes ms) :
    Covered opens closes (ms.map f) := by
  induction ms with
  | nil => trivial
  | cons m ms ih =>
    refine ⟨fun ho => ?_, ih h.2⟩
    obtain ⟨x, hx, hx'⟩ := h.1 (by rwa [hopen] at ho)
    exact ⟨f x, List.mem_map_of_mem hx, by rwa [hclose]⟩

end Foundation
