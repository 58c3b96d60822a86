import Serveza.EventBus

/-!
# The span of a registration

The registry never gives the number of a registration out again. The events of a source
therefore fall into three parts for each registration: those emitted before it was made, while it
was there, and after it was given up.
-/

namespace Serveza

namespace ObserverSystem

variable {s t : ObserverSystem}

/-- Registrations that are added get new numbers. -/
def Registers (s t : ObserverSystem) : Prop :=
  s.registry.nextId ≤ t.registry.nextId ∧
    ∀ id ∈ t.registry.values.map (·.id), id ∈ s.registry.values.map (·.id) ∨ s.registry.nextId < id

/-- Giving up a registration adds none. -/
theorem registers_reset (s : ObserverSystem) (handle : ℕ) (value : ObserverSubscription) :
    s.Registers (s.reset handle value) := by
  unfold reset
  split
  · exact ⟨le_rfl, fun id hid => Or.inl hid⟩
  · split
    · refine ⟨le_rfl, fun id hid => Or.inl ?_⟩
      obtain ⟨entry, hentry, rfl⟩ := List.mem_map.mp hid
      exact List.mem_map_of_mem (List.mem_of_mem_filter hentry)
    · exact ⟨le_rfl, fun id hid => Or.inl hid⟩

/-- Operations on handles register under new numbers only. -/
theorem apply_registers {operation : SubscriptionOp} (h : s.apply operation = some t) :
    s.Registers t := by
  have hsame : s.Registers s := ⟨le_rfl, fun id hid => Or.inl hid⟩
  cases operation with
  | observe handle value =>
    simp only [apply] at h
    split at h
    · contradiction
    · obtain rfl := Option.some.inj h
      exact hsame
    · obtain rfl := Option.some.inj h
      refine ⟨Nat.le_succ _, fun id hid => ?_⟩
      rcases List.mem_append.mp (List.map_append ▸ hid) with hid | hid
      · exact Or.inl hid
      · rw [List.map_singleton, List.mem_singleton] at hid
        exact Or.inr (hid ▸ Nat.lt_succ_self _)
  | construct handle =>
    simp only [apply] at h
    split at h
    · contradiction
    · obtain rfl := Option.some.inj h
      exact hsame
  | moveConstruct handle other =>
    simp only [apply] at h
    split at h
    · obtain rfl := Option.some.inj h
      exact hsame
    · contradiction
  | moveAssign handle other =>
    simp only [apply] at h
    split at h
    · split at h
      · obtain rfl := Option.some.inj h
        exact hsame
      · obtain rfl := Option.some.inj h
        exact registers_reset s _ _
    · contradiction
  | reset handle =>
    obtain ⟨value, -, rfl⟩ := Option.map_eq_some_iff.mp h
    exact registers_reset s _ _
  | destroy handle =>
    obtain ⟨value, -, rfl⟩ := Option.map_eq_some_iff.mp h
    exact registers_reset s _ _

/-- Every step registers under new numbers only. -/
theorem step_registers {l : ObserverLabel} (h : s.step l = some t) : s.Registers t := by
  cases step_cases h with
  | op happly => exact apply_registers happly
  | _ => exact ⟨le_rfl, fun id hid => Or.inl hid⟩

end ObserverSystem

namespace EventBus

variable {E : Type} {b b' : EventBus E} {source id : ℕ} {before during after : List (E × List ℕ)}

/-- The events of a source fall into those emitted before a registration, while it was there and
after it was given up. -/
structure Split (b : EventBus E) (source id : ℕ) (before during after : List (E × List ℕ)) :
    Prop where
  emitted : b.emitted source = before ++ during ++ after
  early : ∀ p ∈ before, id ∉ p.2
  present : ∀ p ∈ during, id ∈ p.2
  late : ∀ p ∈ after, id ∉ p.2
  unused : b.system.registry.nextId < id → during = [] ∧ after = []
  gone : after ≠ [] → id ∉ b.system.registry.values.map (·.id)

/-- What was meant for a registration was emitted while it was there. -/
theorem Split.meantFor (h : b.Split source id before during after) :
    b.meantFor source id = during.map (·.1) := by
  have hearly : before.filter (fun p => id ∈ p.2) = [] :=
    List.filter_eq_nil_iff.mpr (by simpa using h.early)
  have hpresent : during.filter (fun p => id ∈ p.2) = during :=
    List.filter_eq_self.mpr (by simpa using h.present)
  have hlate : after.filter (fun p => id ∈ p.2) = [] :=
    List.filter_eq_nil_iff.mpr (by simpa using h.late)
  rw [EventBus.meantFor, h.emitted, List.filter_append, List.filter_append, hearly, hpresent, hlate,
    List.nil_append, List.append_nil]

/-- A registration that was given up is not made again. -/
theorem Split.registers (h : b.Split source id before during after)
    (hemitted : b'.emitted source = b.emitted source) (hregisters : b.system.Registers b'.system) :
    b'.Split source id before during after := by
  refine ⟨hemitted.trans h.emitted, h.early, h.present, h.late, fun hlt =>
    h.unused (hregisters.1.trans_lt hlt), ?_⟩
  intro hafter hmem
  rcases hregisters.2 id hmem with hold | hnew
  · exact h.gone hafter hold
  · exact hafter (h.unused hnew).2

/-- An emitted event falls into the part that is open. -/
theorem Split.note (h : b.Split source id before during after) (hsound : b.Sound) (event : E)
    {system : ObserverSystem} (hregistry : system.registry = b.system.registry) :
    ∃ before' during' after', (b.note source event system).Split source id before'
      during' after' := by
  have hemitted := b.note_emitted_self source event system
  rw [h.emitted] at hemitted
  have hsame : (b.note source event system).system.registry = b.system.registry := hregistry
  by_cases hmem : id ∈ b.system.registry.values.map (·.id)
  · obtain rfl : after = [] := by
      by_contra hafter
      exact h.gone hafter hmem
    refine ⟨before, during ++ [(event, b.system.registry.values.map (·.id))], [], ?_, h.early, ?_,
      by simp, ?_, by simp⟩
    · simpa using hemitted
    · intro p hp
      rcases List.mem_append.mp hp with hp | hp
      · exact h.present p hp
      · rw [List.mem_singleton.mp hp]
        exact hmem
    · rw [hsame]
      exact fun hlt => absurd (hsound.owned.bounded id hmem).2 (Nat.not_le.mpr hlt)
  · have hlast {part : List (E × List ℕ)} (hpart : ∀ p ∈ part, id ∉ p.2) :
        ∀ p ∈ part ++ [(event, b.system.registry.values.map (·.id))], id ∉ p.2 := by
      intro p hp
      rcases List.mem_append.mp hp with hp | hp
      · exact hpart p hp
      · rw [List.mem_singleton.mp hp]
        exact hmem
    by_cases hlt : b.system.registry.nextId < id
    · obtain ⟨rfl, rfl⟩ := h.unused hlt
      refine ⟨before ++ [(event, b.system.registry.values.map (·.id))], [], [], ?_, hlast h.early,
        by simp, by simp, by simp, by simp⟩
      simpa using hemitted
    · refine ⟨before, during, after ++ [(event, b.system.registry.values.map (·.id))], ?_, h.early,
        h.present, hlast h.late, ?_, ?_⟩
      · simpa using hemitted
      · rw [hsame]
        exact fun h => absurd h hlt
      · rw [hsame]
        exact fun _ => hmem

end EventBus

end Serveza
