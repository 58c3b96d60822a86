import Serveza.GroupReports

/-!
# No child misses a cancellation

A cancellation first sets `m_cancelled` and then emits to every child; `start` initiates a
child and then looks at `m_cancelled`. A child that is there before the flag is set is reached
by the emissions of `cancel`, and a child that comes later by the emission of `start`.
-/

namespace Serveza

open Foundation

namespace GroupRun

variable {wait : Bool} {n : ℕ} {r t : GroupRun} {l : GroupLabel} {ls : List GroupLabel}

/-- Whom the emissions have reached or will reach: before a cancellation nobody, and afterwards
every child that was initiated. -/
structure Notified (r : GroupRun) : Prop where
  initiated : ∀ index, index ∈ r.initiated ↔ index < r.attempted ∧
    (r.initiationEc index).failed = false
  quiet : r.group.cancelled = 0 →
    r.emissions = 0 ∧ r.received = [] ∧ r.cancelling = [] ∧ ∀ index, r.loop ≠ .emit index
  reached : r.group.cancelled ≠ 0 → ∀ index ∈ r.initiated,
    index ∈ r.received ∨ r.loop = .check index ∨ r.loop = .emit index ∨ index ∈ r.cancelling.flatten

/-- An emission reaches the child, if it was initiated, and those reached before. -/
theorem mem_emit_received {index i : ℕ} (hi : i ∈ r.initiated) (h : i = index ∨ i ∈ r.received) :
    i ∈ (r.emit index).received := by
  simp only [emit]
  split
  · exact List.mem_append.mpr (h.symm.imp_right fun h => List.mem_singleton.mpr h)
  · rename_i hindex
    exact h.resolve_left fun heq => hindex (heq ▸ hi)

/-- A step that only moves on in `start`, or reports, reaches the same children. -/
theorem Notified.advance (h : Notified r) (hattempted : t.attempted = r.attempted)
    (hec : ∀ index, t.initiationEc index = r.initiationEc index)
    (hinitiated : t.initiated = r.initiated) (hcancelled : t.group.cancelled = r.group.cancelled)
    (hemissions : t.emissions = r.emissions) (hreceived : t.received = r.received)
    (hcancelling : t.cancelling = r.cancelling)
    (hemit : ∀ index, t.loop = .emit index → r.loop = .emit index ∨ r.group.cancelled ≠ 0)
    (hloop : r.group.cancelled ≠ 0 → ∀ index, r.loop = .check index ∨ r.loop = .emit index →
      t.loop = .check index ∨ t.loop = .emit index) :
    Notified t := by
  refine ⟨fun index => ?_, fun hzero => ?_, fun hset index hindex => ?_⟩
  · rw [hinitiated, hattempted, hec]
    exact h.initiated index
  · obtain ⟨hnone, hnobody, hdone, hquiet⟩ := h.quiet (hcancelled ▸ hzero)
    refine ⟨hemissions.trans hnone, hreceived.trans hnobody, hcancelling.trans hdone,
      fun index hat => ?_⟩
    exact (hemit index hat).elim (hquiet index) fun hset => hset (hcancelled ▸ hzero)
  · rw [hcancelled] at hset
    rw [hinitiated] at hindex
    rw [hreceived, hcancelling]
    rcases h.reached hset index hindex with hthere | hat | hat | hthere
    · exact Or.inl hthere
    · exact Or.inr ((hloop hset index (Or.inl hat)).imp_right Or.inl)
    · exact Or.inr ((hloop hset index (Or.inr hat)).imp_right Or.inl)
    · exact Or.inr (Or.inr (Or.inr hthere))

/-- Every step keeps the children reached. -/
theorem Notified.step (h : Notified r) (hattended : Attended n r) (hstep : r.Step l t) :
    Notified t := by
  cases hstep with
  | @initiates index hloop hindex =>
    have hattempted : r.attempted = index := by simp [attempted, hloop]
    refine ⟨fun i => ?_, fun hzero => ?_, fun hset i hi => ?_⟩
    · have hok := hattended.untried index (Nat.le_of_eq hattempted)
      rw [List.mem_append, List.mem_singleton, h.initiated, hattempted]
      change _ ↔ i < index + 1 ∧ (r.initiationEc i).failed = false
      grind
    · obtain ⟨hnone, hnobody, hdone, -⟩ := h.quiet hzero
      exact ⟨hnone, hnobody, hdone, by simp⟩
    · rcases List.mem_append.mp hi with hi | hi
      · have := h.reached hset i hi
        simp only [hloop, reduceCtorEq, false_or] at this
        exact this.imp_right fun hthere => Or.inr (Or.inr hthere)
      · exact Or.inr (Or.inl (List.mem_singleton.mp hi ▸ rfl))
  | @throws index e hloop hindex =>
    have hattempted : r.attempted = index := by simp [attempted, hloop]
    refine ⟨fun i => ?_, fun hzero => ?_, fun hset i hi => ?_⟩
    · refine (h.initiated i).trans ?_
      change _ ↔ i < index + 1 ∧
        (((r.group.initiationEcs.set index e.error)[i]?).getD .success).failed = false
      rw [hattended.throws_failed hindex, hattempted]
      grind
    · obtain ⟨hnone, hnobody, hdone, -⟩ := h.quiet hzero
      exact ⟨hnone, hnobody, hdone, by simp⟩
    · have := h.reached hset i hi
      simp only [hloop, reduceCtorEq, false_or] at this
      exact this.imp_right fun hthere => Or.inr (Or.inr hthere)
  | @initiated threw index hloop hindex =>
    have hwithin := hattended.within
    have hsize := hattended.size
    have hattempted : r.attempted = index := by simp [attempted, hloop]
    refine h.advance (?_ : r.group.size = r.attempted) (fun _ => rfl) rfl rfl rfl rfl rfl
      (by simp) (by simp [hloop])
    omega
  | unnoticed hloop hcancelled =>
    exact h.advance (by simp [attempted, hloop]) (fun _ => rfl) rfl rfl rfl rfl rfl (by simp)
      fun hset => absurd hcancelled hset
  | noticed hloop hcancelled =>
    exact h.advance (by simp [attempted, hloop]) (fun _ => rfl) rfl rfl rfl rfl rfl
      (fun _ _ => Or.inr hcancelled) (by simp [hloop])
  | @passesOn threw index hloop =>
    have hset : r.group.cancelled ≠ 0 := fun hzero => (h.quiet hzero).2.2.2 index hloop
    refine ⟨fun i => ?_, fun hzero => absurd hzero hset, fun _ i hi => ?_⟩
    · refine (h.initiated i).trans ?_
      simp [attempted, hloop, initiationEc, emit]
    · have := h.reached hset i hi
      simp only [hloop, reduceCtorEq, false_or, GroupLoop.emit.injEq] at this
      rcases this with hthere | heq | hthere
      · exact Or.inl (mem_emit_received hi (Or.inr hthere))
      · exact Or.inl (mem_emit_received hi (Or.inl heq.symm))
      · exact Or.inr (Or.inr (Or.inr hthere))
  | reportsFailure hloop | reportsNothing hloop =>
    exact h.advance (by simp [attempted, hloop, GroupRun.one, OperationGroup.one])
      (fun _ => rfl) rfl rfl rfl rfl rfl (by simp) (by simp [hloop])
  | delivers | asksStop | finishes =>
    exact h.advance rfl (fun _ => rfl) rfl rfl rfl rfl rfl (fun _ => Or.inl) fun _ _ => id
  | cancelsNothing => exact h
  | @cancels type htype =>
    have hwithin := hattended.within
    have hsize := hattended.size
    refine ⟨h.initiated, fun hzero => absurd (Nat.or_eq_zero_iff.mp hzero).2
      htype, fun _ i hi => ?_⟩
    have hi : i < r.group.size := by
      have := ((h.initiated i).mp hi).1
      omega
    refine Or.inr (Or.inr (Or.inr ?_))
    simp [hi]
  | @emits call index rest hcall =>
    have hset : r.group.cancelled ≠ 0 := by
      intro hzero
      simp [(h.quiet hzero).2.2.1] at hcall
    refine ⟨h.initiated, fun hzero => absurd hzero hset, fun _ i hi => ?_⟩
    rcases h.reached hset i hi with hthere | hat | hat | hthere
    · exact Or.inl (mem_emit_received hi (Or.inr hthere))
    · exact Or.inr (Or.inl hat)
    · exact Or.inr (Or.inr (Or.inl hat))
    · rcases List.mem_cons.mp ((flatten_set_perm hcall).mem_iff.mp hthere) with heq | hthere
      · exact Or.inl (mem_emit_received hi (Or.inl heq))
      · exact Or.inr (Or.inr (Or.inr hthere))

/-- At first nobody was initiated. -/
theorem notified_create : Notified (create wait n) :=
  ⟨fun index => ⟨nofun, fun h => absurd h.1 (Nat.not_lt_zero index)⟩, fun _ =>
    ⟨rfl, rfl, rfl, nofun⟩,
    fun h => absurd rfl h⟩

/-- Every run keeps the children accounted for and reached. -/
theorem attended_notified (hrun : run step (create wait n) ls = some r) :
    Attended n r ∧ Notified r := by
  refine run_invariant (fun r => Attended n r ∧ Notified r) (fun r l t h hstep => ?_)
    ⟨attended_create, notified_create⟩ hrun
  exact ⟨h.1.step (step_cases hstep), h.2.step h.1 (step_cases hstep)⟩

/-- A step sets `m_cancelled` exactly if it is a cancellation. -/
theorem step_cancelled (hstep : r.Step l t) :
    t.group.cancelled ≠ 0 ↔ r.group.cancelled ≠ 0 ∨ ∃ type, type ≠ 0 ∧ l = .cancel type := by
  cases hstep with
  | cancels htype => simp [htype]
  | initiates | throws | initiated | unnoticed | noticed | passesOn | reportsFailure
  | reportsNothing | delivers | asksStop | finishes | cancelsNothing | emits =>
    simp [GroupRun.one, OperationGroup.one, OperationGroup.complete, emit]

/-- A run sets `m_cancelled` exactly if it has a cancellation. -/
theorem run_cancelled (hrun : run step r ls = some t) :
    t.group.cancelled ≠ 0 ↔ r.group.cancelled ≠ 0 ∨ ∃ type, type ≠ 0 ∧ .cancel type ∈ ls := by
  induction ls generalizing r with
  | nil =>
    obtain rfl : r = t := by simpa [run] using hrun
    simp
  | cons l ls ih =>
    obtain ⟨a, ha, hrest⟩ := run_cons.mp hrun
    rw [ih hrest, step_cancelled (step_cases ha), or_assoc]
    simp only [List.mem_cons, and_or_left, exists_or, eq_comm]

end GroupRun

/-- When the loop that initiates the children and every call of `cancel` have ended, the children
that were initiated are those whose initiation did not throw; after a cancellation each of them
received an emission that came after its initiation, and without one there was no emission. -/
theorem cancellation_reaches_children {wait : Bool} {n : ℕ} {ls : List GroupLabel} {r : GroupRun}
    (hrun : run GroupRun.step (GroupRun.create wait n) ls = some r) :
    ((∃ index, r.loop = .report index) → (∀ call ∈ r.cancelling, call = []) →
      (∀ index, index ∈ r.initiated ↔ index < n ∧ (r.initiationEc index).failed = false) ∧
        ((∃ type, type ≠ 0 ∧ .cancel type ∈ ls) → ∀ index ∈ r.initiated, index ∈ r.received)) ∧
      ((∀ type, .cancel type ∈ ls → type = 0) → r.emissions = 0 ∧ r.received = []) := by
  obtain ⟨hattended, hnotified⟩ := GroupRun.attended_notified hrun
  have hcancelled := GroupRun.run_cancelled hrun
  refine ⟨fun ⟨_, hloop⟩ hdone =>
    ⟨fun index => ?_, fun hcancel index hindex => ?_⟩, fun hnone => ?_⟩
  · have hattempted : r.attempted = n := by simp [GroupRun.attempted, hloop, hattended.size]
    rw [hnotified.initiated, hattempted]
  · have hflatten : r.cancelling.flatten = [] := List.flatten_eq_nil_iff.mpr hdone
    simpa [hloop, hflatten] using hnotified.reached (hcancelled.mpr (Or.inr hcancel)) index hindex
  · have hzero : r.group.cancelled = 0 := by
      by_contra hset
      rcases hcancelled.mp hset with hset | ⟨type, htype, hmem⟩
      · exact hset rfl
      · exact htype (hnone type hmem)
    obtain ⟨hemissions, hreceived, -⟩ := hnotified.quiet hzero
    exact ⟨hemissions, hreceived⟩

/-- A cancellation while three children are initiated: it reaches the first, its emissions to the
other two come before they are initiated, and the third cannot be initiated. -/
def cancelledMidway : List GroupLabel :=
  [.loop none, .loop none, .cancel 1, .emit 0, .emit 0, .emit 0, .loop none, .loop none, .loop none,
    .loop (some .uncoded), .loop none]

/-- Both children that were initiated received an emission. -/
theorem cancellation_reaches_midway : ∃ r : GroupRun,
    run GroupRun.step (.create true 3) cancelledMidway = some r ∧ r.initiated = [0, 1] ∧
      ∀ index ∈ r.initiated, index ∈ r.received := by
  have h : run GroupRun.step (.create true 3) cancelledMidway = some _ := rfl
  have hreached := ((cancellation_reaches_children h).1 ⟨0, rfl⟩ (by decide)).2
  exact ⟨_, h, rfl, hreached ⟨1, by decide, by simp [cancelledMidway]⟩⟩

end Serveza
