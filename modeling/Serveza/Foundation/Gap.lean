import Mathlib.Data.List.Basic

/-!
# Numbers with a gap

Entries of a list are looked up by the number they carry. When one number is taken out, the
entries that carry it go and the later numbers close the gap. Looking for an entry that stays
gives the same entry under its new number, and removing one that goes removes nothing.
-/

namespace Foundation

/-- The number that is left for a number when one is taken out. -/
def closeGap : Option ℕ → ℕ → Option ℕ
  | none, id => some id
  | some gap, id => if id = gap then none else some (if id < gap then id else id - 1)

/-- Numbers that stay apart stay different. -/
theorem closeGap_inj {gap : Option ℕ} {a b n : ℕ} (ha : closeGap gap a = some n)
    (hb : closeGap gap b = some n) : a = b := by
  cases gap with
  | none => exact (Option.some.inj ha).trans (Option.some.inj hb).symm
  | some gap =>
    simp only [closeGap, Option.ite_none_left_eq_some, Option.some.injEq] at ha hb
    obtain ⟨hane, ha⟩ := ha
    obtain ⟨hbne, hb⟩ := hb
    split at ha <;> split at hb <;> omega

/-- Two numbers are the same if one stays for both. -/
theorem closeGap_eq_iff {gap : Option ℕ} {id number : ℕ} (h : closeGap gap id = some number)
    (a : ℕ) :
    closeGap gap a = some number ↔ a = id :=
  ⟨fun ha => closeGap_inj ha h, fun ha => ha ▸ h⟩

/-- Numbers below the gap stay what they are. -/
theorem closeGap_below {gap id : ℕ} (h : id < gap) : closeGap (some gap) id = some id := by
  rw [closeGap, if_neg (Nat.ne_of_lt h), if_pos h]

/-- A number goes exactly if it is the gap. -/
theorem closeGap_eq_none {gap : Option ℕ} {n : ℕ} : closeGap gap n = none ↔ gap = some n := by
  cases gap with
  | none => simp [closeGap]
  | some gap => simp [closeGap, eq_comm]

/-- The next number closes the gap if there is one. -/
theorem closeGap_next {gap : Option ℕ} {last : ℕ} (h : ∀ n ∈ gap, 0 < n ∧ n ≤ last) :
    closeGap gap (last + 1) = some (last - gap.toList.length + 1) := by
  cases gap with
  | none => rfl
  | some n =>
    obtain ⟨hpos, hle⟩ := h n rfl
    rw [closeGap, if_neg (by omega), if_neg (by omega)]
    exact congrArg some (Nat.sub_add_cancel (Nat.le_trans hpos hle)).symm

variable {α β : Type*} {f : α → Option β} {p : α → Bool} {q : β → Bool}

/-- An entry is found under its translation. -/
theorem find?_translate {l : List α} (h : ∀ a ∈ l, (f a).any q = p a) :
    (l.filterMap f).find? q = (l.find? p).bind f := by
  induction l with
  | nil => rfl
  | cons a l ih =>
    have ha := h a List.mem_cons_self
    have hrest := ih fun b hb => h b (List.mem_cons_of_mem _ hb)
    cases hf : f a with
    | none =>
      rw [hf] at ha
      rw [List.filterMap_cons_none hf, List.find?_cons_of_neg (by simp [← ha]), hrest]
    | some b =>
      rw [hf] at ha
      rw [List.filterMap_cons_some hf, List.find?_cons, List.find?_cons, ← ha, hrest]
      cases hq : q b <;> simp [hq, hf]

/-- An entry is there exactly if its translation is. -/
theorem any_translate (h : ∀ a, (f a).any q = p a) (l : List α) :
    (l.filterMap f).any q = l.any p := by
  rw [List.any_filterMap]
  refine congrArg l.any (funext fun a => (?_ : _ = _).trans (h a))
  cases f a <;> rfl

/-- An entry is removed under its translation. -/
theorem eraseP_translate (h : ∀ a, (f a).any q = p a) (l : List α) :
    (l.filterMap f).eraseP q = (l.eraseP p).filterMap f := by
  rw [List.eraseP_filterMap]
  refine congrArg (fun p => (l.eraseP p).filterMap f) (funext fun a => (?_ : _ = _).trans (h a))
  cases f a <;> rfl

/-- Removing an entry without translation removes nothing. -/
theorem eraseP_untranslated (h : ∀ a, p a = true → f a = none) (l : List α) :
    (l.eraseP p).filterMap f = l.filterMap f := by
  induction l with
  | nil => rfl
  | cons a l ih =>
    by_cases ha : p a = true
    · rw [List.eraseP_cons_of_pos ha, List.filterMap_cons_none (h a ha)]
    · rw [List.eraseP_cons_of_neg ha]
      cases hf : f a with
      | none => rw [List.filterMap_cons_none hf, List.filterMap_cons_none hf, ih]
      | some b => rw [List.filterMap_cons_some hf, List.filterMap_cons_some hf, ih]

end Foundation
