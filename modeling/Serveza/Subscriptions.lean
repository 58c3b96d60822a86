import Mathlib.Logic.Equiv.Basic
import Serveza.Observers

/-!
# A subscription owns its registration

The registrations of the registry are exactly those that handles own, and no two handles own
the same one: whatever is done to handles, no registration is lost and none is given up twice.
-/

namespace Serveza

open Foundation

/-- The handle at an address owns a registration. -/
def ObserverSystem.Owns (s : ObserverSystem) (handle id : ℕ) : Prop :=
  id ≠ 0 ∧ ∃ value, s.handles handle = some value ∧ value.id = id

/-- Each registration is owned by one handle, which refers to the registry. -/
structure Owned (s : ObserverSystem) : Prop where
  increasing : (s.registry.values.map (·.id)).Pairwise (· < ·)
  bounded : ∀ id ∈ s.registry.values.map (·.id), 0 < id ∧ id ≤ s.registry.nextId
  registered : ∀ id, id ∈ s.registry.values.map (·.id) ↔ ∃ handle, s.Owns handle id
  unique : ∀ {handle other id}, s.Owns handle id → s.Owns other id → handle = other
  attached : ∀ {handle value}, s.handles handle = some value → value.id ≠ 0 → value.registry = true

namespace Owned

variable {s t : ObserverSystem}

/-- The registrations may change hands, as long as each hand has its own. -/
theorem exchange (h : Owned s) (hregistry : t.registry = s.registry) (e : Equiv.Perm ℕ)
    (howns : ∀ handle id, t.Owns handle id ↔ s.Owns (e handle) id)
    (hattached : ∀ {handle value}, t.handles handle = some value → value.id ≠ 0 →
      value.registry = true) :
    Owned t := by
  refine ⟨?_, ?_, fun id => ?_, fun hone hother => ?_, hattached⟩
  · rw [hregistry]
    exact h.increasing
  · rw [hregistry]
    exact h.bounded
  · rw [hregistry, h.registered]
    constructor
    · rintro ⟨handle, howner⟩
      exact ⟨e.symm handle, (howns _ id).mpr (by rwa [e.apply_symm_apply])⟩
    · rintro ⟨handle, howner⟩
      exact ⟨e handle, (howns handle id).mp howner⟩
  · exact e.injective (h.unique ((howns _ _).mp hone) ((howns _ _).mp hother))

/-- Ownership depends on the registry and the handles only. -/
theorem congr (h : Owned s) (hregistry : t.registry = s.registry)
    (hhandles : t.handles = s.handles) : Owned t :=
  h.exchange hregistry (Equiv.refl ℕ) (fun _ _ => by rw [ObserverSystem.Owns, hhandles]; rfl)
    (hhandles ▸ h.attached)

/-- Who owns what after a handle was stored. -/
theorem owns_setHandle (s : ObserverSystem) (handle : ℕ) (value : Option ObserverSubscription)
    (other id : ℕ) :
    (s.setHandle handle value).Owns other id ↔
      if other = handle then id ≠ 0 ∧ ∃ x, value = some x ∧ x.id = id else s.Owns other id := by
  unfold ObserverSystem.Owns ObserverSystem.setHandle
  by_cases hother : other = handle
  · subst hother
    simp
  · simp [hother]

/-- An empty handle owns nothing. -/
theorem owns_empty (id : ℕ) :
    ¬ (id ≠ 0 ∧ ∃ x, some ({} : ObserverSubscription) = some x ∧ x.id = id) := by
  rintro ⟨hid, x, hx, rfl⟩
  exact hid (Option.some.inj hx ▸ rfl)

/-- A handle that owns nothing may be replaced by one that owns nothing, or by none. -/
theorem vacate (h : Owned s) {handle : ℕ} (hnone : ∀ id, ¬ s.Owns handle id)
    {value : Option ObserverSubscription} (hvalue : ∀ x, value = some x → x.id = 0) :
    Owned (s.setHandle handle value) := by
  refine h.exchange rfl (Equiv.refl ℕ) (fun other id => ?_) fun {other x} hx hid => ?_
  · rw [owns_setHandle, Equiv.refl_apply]
    split
    · rename_i hother
      subst hother
      refine iff_of_false ?_ (hnone id)
      rintro ⟨hid, x, hx, rfl⟩
      exact hid (hvalue x hx)
    · rfl
  · by_cases hother : other = handle
    · subst hother
      exact absurd (hvalue x (by simpa [ObserverSystem.setHandle] using hx)) hid
    · exact h.attached (by simpa [ObserverSystem.setHandle, hother] using hx) hid

/-- A handle that owns nothing takes over what another one owns. -/
theorem move (h : Owned s) {handle other : ℕ} (hnone : ∀ id, ¬ s.Owns handle id)
    {value : ObserverSubscription} (hother : s.handles other = some value) :
    Owned ((s.setHandle handle (some value)).setHandle other (some {})) := by
  refine h.exchange rfl (Equiv.swap handle other) (fun address id => ?_)
    fun {address x} hx hid => ?_
  · rw [owns_setHandle, owns_setHandle]
    split
    · rename_i haddress
      rw [haddress, Equiv.swap_apply_right]
      exact iff_of_false (owns_empty id) (hnone id)
    · rename_i haddress
      split
      · rename_i hhandle
        rw [hhandle, Equiv.swap_apply_left, ObserverSystem.Owns, hother]
      · rename_i hhandle
        rw [Equiv.swap_apply_of_ne_of_ne hhandle haddress]
  · by_cases haddress : address = other
    · subst haddress
      obtain rfl : ({} : ObserverSubscription) = x := by simpa [ObserverSystem.setHandle] using hx
      exact absurd rfl hid
    · by_cases hhandle : address = handle
      · subst hhandle
        obtain rfl : value = x := by simpa [ObserverSystem.setHandle, haddress] using hx
        exact h.attached hother hid
      · exact h.attached (by simpa [ObserverSystem.setHandle, haddress, hhandle] using hx) hid

/-- Removing a registration leaves the others. -/
theorem mem_remove (registry : ObserverRegistry) (id other : ℕ) :
    other ∈ (registry.remove id).values.map (·.id) ↔
    other ∈ registry.values.map (·.id) ∧ other ≠ id := by
  simp only [ObserverRegistry.remove, List.mem_map, List.mem_filter, decide_eq_true_eq]
  constructor
  · rintro ⟨item, ⟨hitem, hid⟩, rfl⟩
    exact ⟨⟨item, hitem, rfl⟩, hid⟩
  · rintro ⟨⟨item, hitem, rfl⟩, hid⟩
    exact ⟨item, ⟨hitem, hid⟩, rfl⟩

/-- A handle that owns a registration gives it up. -/
theorem release (h : Owned s) {handle : ℕ} {value : ObserverSubscription}
    (hhandle : s.handles handle = some value) (hid : value.id ≠ 0) :
    Owned ({ s with registry := s.registry.remove value.id }.setHandle handle (some {})) := by
  have howner : s.Owns handle value.id := ⟨hid, value, hhandle, rfl⟩
  have howns (other id : ℕ) :
      ({ s with registry := s.registry.remove value.id }.setHandle handle (some {})).Owns other id ↔
      s.Owns other id ∧ id ≠ value.id := by
    rw [owns_setHandle]
    split
    · rename_i hother
      subst hother
      refine iff_of_false (owns_empty id) ?_
      rintro ⟨⟨-, x, hx, rfl⟩, hne⟩
      exact hne (congrArg ObserverSubscription.id (Option.some.inj (hx.symm.trans hhandle)))
    · rename_i hother
      refine ⟨fun howned => ⟨howned, ?_⟩, And.left⟩
      rintro rfl
      exact hother (h.unique howned howner)
  refine ⟨?_, fun id hmem => h.bounded id ((mem_remove _ _ _).mp hmem).1, fun id => ?_,
    fun hone htwo => ?_,
    fun {other x} hx hxid => ?_⟩
  · exact h.increasing.sublist (List.filter_sublist.map _)
  · refine (mem_remove _ _ _).trans ?_
    rw [h.registered]
    constructor
    · rintro ⟨⟨other, howned⟩, hne⟩
      exact ⟨other, (howns other id).mpr ⟨howned, hne⟩⟩
    · rintro ⟨other, howned⟩
      obtain ⟨howned, hne⟩ := (howns other id).mp howned
      exact ⟨⟨other, howned⟩, hne⟩
  · exact h.unique ((howns _ _).mp hone).1 ((howns _ _).mp htwo).1
  · by_cases hother : other = handle
    · subst hother
      obtain rfl : ({} : ObserverSubscription) = x := by simpa [ObserverSystem.setHandle] using hx
      exact absurd rfl hxid
    · exact h.attached (by simpa [ObserverSystem.setHandle, hother] using hx) hxid

/-- A handle that is reset owns nothing, and its registration is gone. -/
theorem reset (h : Owned s) {handle : ℕ} {value : ObserverSubscription}
    (hhandle : s.handles handle = some value) :
    Owned (s.reset handle value) ∧ ∀ id, ¬ (s.reset handle value).Owns handle id := by
  unfold ObserverSystem.reset
  split
  · rename_i hid
    refine ⟨h, fun id => ?_⟩
    rintro ⟨hne, x, hx, rfl⟩
    obtain rfl : value = x := Option.some.inj (hhandle.symm.trans hx)
    exact hne hid
  · rename_i hid
    rw [if_pos (h.attached hhandle hid)]
    refine ⟨h.release hhandle hid, fun id => ?_⟩
    rw [owns_setHandle, if_pos rfl]
    exact owns_empty id

/-- Resetting a handle leaves the others alone. -/
theorem reset_other (s : ObserverSystem) {handle other : ℕ} (value : ObserverSubscription)
    (hne : other ≠ handle) :
    (s.reset handle value).handles other = s.handles other := by
  unfold ObserverSystem.reset
  split
  · rfl
  · simp [ObserverSystem.setHandle, hne]

/-- A new registration is owned by the handle that is returned for it. -/
theorem observe (h : Owned s) {handle : ℕ} (hhandle : s.handles handle = none) (value : ℕ) :
    Owned ({ s with registry := (s.registry.add value).1 }.setHandle handle
      (some ⟨true, (s.registry.add value).2⟩)) := by
  have hfresh (other : ℕ) : ¬ s.Owns other (s.registry.nextId + 1) := fun howned =>
    absurd (h.bounded _ ((h.registered _).mpr ⟨other, howned⟩)).2 (Nat.not_succ_le_self _)
  have hnone (id : ℕ) : ¬ s.Owns handle id := by
    rintro ⟨-, x, hx, -⟩
    simp [hhandle] at hx
  have howns (other id : ℕ) : ({ s with registry := (s.registry.add value).1 }.setHandle handle
      (some ⟨true, (s.registry.add value).2⟩)).Owns other id ↔
        s.Owns other id ∨ other = handle ∧ id = s.registry.nextId + 1 := by
    rw [owns_setHandle]
    split
    · rename_i hother
      subst hother
      rw [or_iff_right (hnone id)]
      refine ⟨?_, ?_⟩
      · rintro ⟨-, x, hx, rfl⟩
        exact ⟨rfl, congrArg ObserverSubscription.id (Option.some.inj hx).symm⟩
      · rintro ⟨-, rfl⟩
        exact ⟨Nat.succ_ne_zero _, _, rfl, rfl⟩
    · rename_i hother
      exact (or_iff_left fun hnew => hother hnew.1).symm
  have hvalues : (s.registry.add value).1.values.map (·.id) = s.registry.values.map (·.id) ++
      [s.registry.nextId + 1] :=
    List.map_append
  refine ⟨?_, fun id hmem => ?_, fun id => ?_, fun {one two id} hone htwo => ?_,
    fun {other x} hx hxid => ?_⟩
  · refine hvalues ▸ List.pairwise_append.mpr
      ⟨h.increasing, List.pairwise_singleton _ _, fun id hid other hother => ?_⟩
    rw [List.mem_singleton.mp hother]
    exact Nat.lt_succ_of_le (h.bounded id hid).2
  · rcases List.mem_append.mp (hvalues ▸ hmem) with hold | hnew
    · exact ⟨(h.bounded id hold).1, Nat.le_succ_of_le (h.bounded id hold).2⟩
    · rw [List.mem_singleton.mp hnew]
      exact ⟨Nat.succ_pos _, Nat.le_refl _⟩
  · refine (hvalues ▸ List.mem_append).trans ?_
    rw [h.registered, List.mem_singleton]
    constructor
    · rintro (⟨other, howned⟩ | hnew)
      · exact ⟨other, (howns other id).mpr (Or.inl howned)⟩
      · exact ⟨handle, (howns handle id).mpr (Or.inr ⟨rfl, hnew⟩)⟩
    · rintro ⟨other, howned⟩
      exact ((howns other id).mp howned).imp (fun howned => ⟨other, howned⟩) And.right
  · rcases (howns one id).mp hone with hone | ⟨rfl, rfl⟩
    · rcases (howns two id).mp htwo with htwo | ⟨-, rfl⟩
      · exact h.unique hone htwo
      · exact absurd hone (hfresh one)
    · rcases (howns two _).mp htwo with htwo | ⟨rfl, -⟩
      · exact absurd htwo (hfresh two)
      · rfl
  · by_cases hother : other = handle
    · subst hother
      obtain rfl : (⟨true, (s.registry.add value).2⟩ : ObserverSubscription) = x := by
        simpa [ObserverSystem.setHandle] using hx
      rfl
    · exact h.attached (by simpa [ObserverSystem.setHandle, hother] using hx) hxid

/-- An operation on handles keeps each registration owned by one handle. -/
theorem apply (h : Owned s) {operation : SubscriptionOp} (happly : s.apply operation = some t) :
    Owned t := by
  cases operation with
  | observe handle value =>
    simp only [ObserverSystem.apply] at happly
    split at happly
    · contradiction
    · obtain rfl := Option.some.inj happly
      exact h
    · rename_i hnone
      obtain rfl := Option.some.inj happly
      exact h.observe hnone _
  | construct handle =>
    simp only [ObserverSystem.apply] at happly
    split at happly
    · contradiction
    · rename_i hnone
      obtain rfl := Option.some.inj happly
      refine h.vacate (fun id => ?_) fun x hx => Option.some.inj hx ▸ rfl
      rintro ⟨-, x, hx, -⟩
      simp [hnone] at hx
  | moveConstruct handle other =>
    simp only [ObserverSystem.apply] at happly
    split at happly
    · rename_i value hnone hother
      obtain rfl := Option.some.inj happly
      refine h.move (fun id => ?_) hother
      rintro ⟨-, x, hx, -⟩
      simp [hnone] at hx
    · contradiction
  | moveAssign handle other =>
    simp only [ObserverSystem.apply] at happly
    split at happly
    · rename_i old value hhandle hother
      split at happly
      · obtain rfl := Option.some.inj happly
        exact h
      · rename_i hne
        obtain rfl := Option.some.inj happly
        obtain ⟨hreset, hnone⟩ := h.reset hhandle
        exact hreset.move hnone ((reset_other s old (Ne.symm hne)).trans hother)
    · contradiction
  | reset handle =>
    obtain ⟨value, hhandle, rfl⟩ := Option.map_eq_some_iff.mp happly
    exact (h.reset hhandle).1
  | destroy handle =>
    obtain ⟨value, hhandle, rfl⟩ := Option.map_eq_some_iff.mp happly
    obtain ⟨hreset, hnone⟩ := h.reset hhandle
    exact hreset.vacate hnone (by simp)

/-- Every step keeps each registration owned by one handle. -/
theorem step {l : ObserverLabel} (h : Owned s) (hstep : s.step l = some t) : Owned t := by
  cases ObserverSystem.step_cases hstep with
  | op happly => exact h.apply happly
  | _ => exact h.congr rfl rfl

/-- At first there are neither registrations nor handles. -/
theorem init : Owned {} := by
  refine ⟨.nil, by simp, fun id => ?_, ?_, nofun⟩
  · simp [ObserverSystem.Owns]
  · rintro handle other id ⟨-, value, hvalue, -⟩
    contradiction

end Owned

end Serveza
