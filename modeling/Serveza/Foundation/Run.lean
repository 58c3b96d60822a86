import Mathlib.Logic.Relation

/-!
# Runs of a labelled transition function

A system is a partial step function: a label names one atomic step together with the
environment's answers to it, and `none` means the step is not enabled. A run is a list
of labels. The rules below carry a property along a run, either from every step or from
the steps that meet a stated condition on the state they are taken in.
-/

namespace Foundation

variable {S L : Type*}

/-- Execute the labels in order; a label that is not enabled ends the run with `none`. -/
def run (step : S → L → Option S) : S → List L → Option S
  | s, [] => some s
  | s, l :: ls => (step s l).bind fun t => run step t ls

/-- Every step of the run meets a condition on its label and on the state before it. -/
def Along (step : S → L → Option S) (P : S → L → Prop) : S → List L → Prop
  | _, [] => True
  | s, l :: ls => P s l ∧ ∀ t, step s l = some t → Along step P t ls

/-- A decidable condition can be tested along a run. -/
instance Along.decidable (step : S → L → Option S) (P : S → L → Prop) [∀ s l, Decidable (P s l)] :
    ∀ s ls, Decidable (Along step P s ls)
  | _, [] => isTrue trivial
  | s, l :: ls =>
    match h : step s l with
    | none => decidable_of_iff (P s l) ⟨fun hl => ⟨hl, by simp [h]⟩, And.left⟩
    | some t =>
      have := Along.decidable step P t ls
      decidable_of_iff (P s l ∧ Along step P t ls) (by simp [Along, h])

/-- What is remembered of a run: each step that is taken updates a note made of the run so far. -/
def history {N : Type*} (step : S → L → Option S) (note : S → L → N → N) : S → List L → N → N
  | _, [], n => n
  | s, l :: ls, n =>
    match step s l with
    | none => n
    | some t => history step note t ls (note s l n)

/-- The states some run reaches from a given one. -/
def Reachable (step : S → L → Option S) (s t : S) : Prop := ∃ ls, run step s ls = some t

variable {step : S → L → Option S} {P : S → L → Prop} {s t u : S} {l : L} {ls ms : List L}

/-- A nonempty run takes its first step and continues from there. -/
theorem run_cons :
    run step s (l :: ls) = some u ↔ ∃ t, step s l = some t ∧ run step t ls = some u := by
  simp [run, Option.bind_eq_some_iff]

/-- A run of two blocks passes through the state between them. -/
theorem run_append : run step s (ls ++ ms) = some u ↔
    ∃ t, run step s ls = some t ∧ run step t ms = some u := by
  induction ls generalizing s with
  | nil => simp [run]
  | cons l ls ih =>
    simp only [List.cons_append, run_cons, ih]
    constructor
    · rintro ⟨a, ha, b, hb, hu⟩
      exact ⟨b, ⟨a, ha, hb⟩, hu⟩
    · rintro ⟨b, ⟨a, ha, hb⟩, hu⟩
      exact ⟨a, ha, b, hb, hu⟩

/-- Every state reaches itself. -/
theorem Reachable.refl (s : S) : Reachable step s s := ⟨[], rfl⟩

/-- One more step keeps a state reachable. -/
theorem Reachable.tail (h : Reachable step s t) (hstep : step t l = some u) :
    Reachable step s u := by
  obtain ⟨ls, hls⟩ := h
  exact ⟨ls ++ [l], run_append.mpr ⟨t, hls, run_cons.mpr ⟨u, hstep, rfl⟩⟩⟩

/-- A property that every step preserves holds after every run. -/
theorem run_invariant (I : S → Prop) (hstep : ∀ s l t, I s → step s l = some t → I t)
    (hs : I s) (hrun : run step s ls = some t) : I t := by
  induction ls generalizing s with
  | nil => simpa [run] using (Option.some.inj hrun) ▸ hs
  | cons l ls ih =>
    obtain ⟨a, ha, hrest⟩ := run_cons.mp hrun
    exact ih (hstep s l a hs ha) hrest

/-- A property that every step preserves holds of every reachable state. -/
theorem Reachable.invariant (I : S → Prop) (hstep : ∀ s l t, I s → step s l = some t → I t)
    (hs : I s) (h : Reachable step s t) : I t := by
  obtain ⟨ls, hls⟩ := h
  exact run_invariant I hstep hs hls

/-- A property that the steps meeting the condition preserve holds after every run of such steps. -/
theorem run_invariant_along (I : S → Prop)
    (hstep : ∀ s l t, I s → P s l → step s l = some t → I t)
    (hs : I s) (halong : Along step P s ls) (hrun : run step s ls = some t) : I t := by
  induction ls generalizing s with
  | nil => simpa [run] using (Option.some.inj hrun) ▸ hs
  | cons l ls ih =>
    obtain ⟨a, ha, hrest⟩ := run_cons.mp hrun
    exact ih (hstep s l a hs halong.1 ha) (halong.2 a ha) hrest

/-- A relation between state and note that every step preserves holds after every run. -/
theorem history_invariant {N : Type*} {note : S → L → N → N} (I : S → N → Prop)
    (hstep : ∀ s l t n, I s n → step s l = some t → I t (note s l n)) {n : N} (hs : I s n)
    (hrun : run step s ls = some t) : I t (history step note s ls n) := by
  induction ls generalizing s n with
  | nil => simpa [run, history] using (Option.some.inj hrun) ▸ hs
  | cons l ls ih =>
    obtain ⟨a, ha, hrest⟩ := run_cons.mp hrun
    simp only [history, ha]
    exact ih (hstep s l a n hs ha) hrest

/-- A condition on the labels of a run holds along it. -/
theorem along_of_labels {Q : L → Prop} (hls : ∀ l ∈ ls, Q l) :
    Along step (fun _ l => Q l) s ls := by
  induction ls generalizing s with
  | nil => trivial
  | cons l ls ih =>
    exact ⟨hls l List.mem_cons_self, fun t _ => ih fun m hm => hls m (List.mem_cons_of_mem _ hm)⟩

/-- A condition along a run may be weakened. -/
theorem Along.mono {Q : S → L → Prop} (h : Along step P s ls) (hPQ : ∀ s l, P s l → Q s l) :
    Along step Q s ls := by
  induction ls generalizing s with
  | nil => trivial
  | cons l ls ih => exact ⟨hPQ s l h.1, fun t ht => ih (h.2 t ht)⟩

/-- Two conditions along a run hold together. -/
theorem Along.and {Q : S → L → Prop} (h : Along step P s ls) (h' : Along step Q s ls) :
    Along step (fun s l => P s l ∧ Q s l) s ls := by
  induction ls generalizing s with
  | nil => trivial
  | cons l ls ih => exact ⟨⟨h.1, h'.1⟩, fun t ht => ih (h.2 t ht) (h'.2 t ht)⟩

/-- A condition along a run also holds along each part of it. -/
theorem Along.append (h : Along step P s (ls ++ ms)) (hrun : run step s ls = some t) :
    Along step P s ls ∧ Along step P t ms := by
  induction ls generalizing s with
  | nil =>
    obtain rfl : s = t := by simpa [run] using hrun
    exact ⟨trivial, h⟩
  | cons l ls ih =>
    obtain ⟨a, ha, hrest⟩ := run_cons.mp hrun
    refine ⟨⟨h.1, fun b hb => ?_⟩, (ih (h.2 a ha) hrest).2⟩
    obtain rfl : a = b := by simpa [ha] using hb
    exact (ih (h.2 a ha) hrest).1

/-- If every step that meets the condition is matched by a step that looks the same or by none, a
run is matched by a run that looks like a part of it. -/
theorem run_simulated_along {S' L' V : Type*} {step' : S' → L' → Option S'} (R : S → S' → Prop)
    (view : L → V) (view' : L' → V)
    (hstep : ∀ s l t s', R s s' → P s l → step s l = some t → R t s' ∨
      ∃ l' t', step' s' l' = some t' ∧ view' l' = view l ∧ R t t')
    {s' : S'} (hs : R s s') (halong : Along step P s ls) (hrun : run step s ls = some t) :
    ∃ ls' t', run step' s' ls' = some t' ∧ (ls'.map view').Sublist (ls.map view) ∧ R t t' := by
  induction ls generalizing s s' with
  | nil =>
    obtain rfl : s = t := Option.some.inj hrun
    exact ⟨[], s', rfl, .slnil, hs⟩
  | cons l ls ih =>
    obtain ⟨a, ha, hrest⟩ := run_cons.mp hrun
    rcases hstep s l a s' hs halong.1 ha with hsame | ⟨l', a', ha', hview, hmatched⟩
    · obtain ⟨ls', t', hrun', hsub, ht⟩ := ih hsame (halong.2 a ha) hrest
      exact ⟨ls', t', hrun', hsub.cons _, ht⟩
    · obtain ⟨ls', t', hrun', hsub, ht⟩ := ih hmatched (halong.2 a ha) hrest
      refine ⟨l' :: ls', t', run_cons.mpr ⟨a', ha', hrun'⟩, ?_, ht⟩
      rw [List.map_cons, List.map_cons, hview]
      exact hsub.cons_cons _

/-- What a step leaves only where it was there before was there all along a run that ends with
it. -/
theorem along_of_last (I J : S → Prop) (hforth : ∀ s l t, J s → step s l = some t → J t)
    (hback : ∀ s l t, J s → step s l = some t → I t → I s) (hs : J s) (ht : I t)
    (hrun : run step s ls = some t) :
    I s ∧ Along step (fun s l => J s ∧ ∃ t, step s l = some t ∧ I t) s ls := by
  induction ls generalizing s with
  | nil => exact ⟨(Option.some.inj hrun) ▸ ht, trivial⟩
  | cons l ls ih =>
    obtain ⟨a, ha, hrest⟩ := run_cons.mp hrun
    obtain ⟨hfirst, hlater⟩ := ih (hforth s l a hs ha) hrest
    refine ⟨hback s l a hs ha hfirst, ⟨hs, a, ha, hfirst⟩, fun b hb => ?_⟩
    exact Option.some.inj (ha.symm.trans hb) ▸ hlater

end Foundation
