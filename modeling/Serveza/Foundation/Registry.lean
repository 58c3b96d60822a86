import Mathlib.Data.List.Basic
import Mathlib.Data.List.Nodup
import Mathlib.Data.List.Perm.Basic

/-!
# Taking an entry out of a registry

A registry is a list of entries. The first entry that matches a key is found and removed or
replaced; the others stay, in their order.
-/

namespace Foundation

open scoped List

variable {α : Type*} {p : α → Bool} {l : List α} {a : α}

/-- The entry that is found splits the registry at the place where it is removed. -/
theorem split_of_find? (h : l.find? p = some a) :
    ∃ xs ys, l = xs ++ a :: ys ∧ l.eraseP p = xs ++ ys := by
  obtain ⟨ha, xs, ys, rfl, hxs⟩ := List.find?_eq_some_iff_append.mp h
  refine ⟨xs, ys, rfl, ?_⟩
  rw [List.eraseP_append_right _ fun x hx => by simpa using hxs x hx, List.eraseP_cons_of_pos ha]

/-- The entry that is found and the remaining registry make up the whole. -/
theorem perm_of_find? (h : l.find? p = some a) : l.Perm (a :: l.eraseP p) := by
  obtain ⟨xs, ys, hl, herase⟩ := split_of_find? h
  rw [herase, hl]
  exact List.perm_middle

/-- Removing an entry does not disturb any selection it is not part of. -/
theorem filter_eraseP_of_find? {q : α → Bool} (h : l.find? p = some a) (hq : q a = false) :
    (l.eraseP p).filter q = l.filter q := by
  obtain ⟨xs, ys, hl, herase⟩ := split_of_find? h
  rw [herase, hl]
  simp [hq]

/-- Where keys are distinct, an entry is found by its key. -/
theorem find?_of_mem {κ : Type*} [DecidableEq κ] {key : α → κ} (hnodup : (l.map key).Nodup)
    (h : a ∈ l) :
    (l.find? fun x => key x = key a) = some a := by
  obtain ⟨b, hb⟩ := Option.isSome_iff_exists.mp
    (List.find?_isSome.mpr ⟨a, h, by simp⟩ : (l.find? fun x => key x = key a).isSome)
  have hkey : key b = key a := by simpa using List.find?_some hb
  rw [hb, List.inj_on_of_nodup_map hnodup (List.mem_of_find?_eq_some hb) h hkey]

/-- Replacing an entry exchanges what it contributes to a list made of all entries. -/
theorem flatMap_set_perm {β : Type*} (f : α → List β) {k : ℕ} (h : l[k]? = some a) (b : α) :
    ((l.set k b).flatMap f ++ f a).Perm (l.flatMap f ++ f b) := by
  induction l generalizing k with
  | nil => simp at h
  | cons c l ih =>
    cases k with
    | zero =>
      obtain rfl : c = a := by simpa using h
      simp only [List.set_cons_zero, List.flatMap_cons, List.append_assoc]
      calc f b ++ (l.flatMap f ++ f c)
        _ ~ l.flatMap f ++ f c ++ f b := List.perm_append_comm
        _ = l.flatMap f ++ (f c ++ f b) := List.append_assoc _ _ _
        _ ~ f c ++ (l.flatMap f ++ f b) := List.perm_append_comm_assoc _ _ _
    | succ k =>
      simp only [List.set_cons_succ, List.flatMap_cons, List.append_assoc]
      exact (ih (by simpa using h)).append_left (f c)

/-- Taking the first piece out of one of several queues takes it out of all they hold. -/
theorem flatten_set_perm {queues : List (List α)} {k : ℕ} {rest : List α}
    (h : queues[k]? = some (a :: rest)) :
    queues.flatten.Perm (a :: (queues.set k rest).flatten) := by
  induction queues generalizing k with
  | nil => simp at h
  | cons queue queues ih =>
    cases k with
    | zero =>
      obtain rfl : queue = a :: rest := by simpa using h
      simp
    | succ k =>
      simp only [List.set_cons_succ, List.flatten_cons]
      exact ((ih (by simpa using h)).append_left queue).trans List.perm_middle

/-- Entries that correspond do so in another way if each of them does. -/
theorem forall₂_imp_mem {β : Type*} {R S : α → β → Prop} {l' : List β} (h : List.Forall₂ R l l')
    (himp : ∀ a ∈ l, ∀ b, R a b → S a b) : List.Forall₂ S l l' := by
  induction h with
  | nil => exact .nil
  | cons hab _ ih =>
    exact .cons (himp _ List.mem_cons_self _ hab)
      (ih fun a ha => himp a (List.mem_cons_of_mem _ ha))

/-- Each entry of the second list has one in the first that it corresponds to. -/
theorem exists_of_forall₂ {β : Type*} {R : α → β → Prop} {l' : List β} (h : List.Forall₂ R l l')
    {b : β} (hb : b ∈ l') :
    ∃ a ∈ l, R a b := by
  induction h with
  | nil => simp at hb
  | cons hab _ ih =>
    rcases List.mem_cons.mp hb with rfl | hb
    · exact ⟨_, List.mem_cons_self, hab⟩
    · obtain ⟨a, ha, hrel⟩ := ih hb
      exact ⟨a, List.mem_cons_of_mem _ ha, hrel⟩

end Foundation
