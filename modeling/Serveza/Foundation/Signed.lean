import Mathlib.Algebra.Order.Ring.Int
import Mathlib.Tactic.Linarith

/-!
# Signed machine integers

A value fits a signed integer of a width when it lies between the two bounds of its two's
complement. Checked arithmetic computes over the integers and answers `none` when the result
does not fit, so a checked computation that returns a value has overflowed nowhere.
-/

namespace Foundation

/-- The value fits a signed integer of `w` bits. -/
def Fits (w : ℕ) (x : ℤ) : Prop := -2 ^ (w - 1) ≤ x ∧ x < 2 ^ (w - 1)

instance (w : ℕ) (x : ℤ) : Decidable (Fits w x) := inferInstanceAs (Decidable (_ ∧ _))

/-- A product in checked arithmetic. -/
def checkedMul (w : ℕ) (x y : ℤ) : Option ℤ := if Fits w (x * y) then some (x * y) else none

variable {w : ℕ} {x y z : ℤ}

/-- What is not negative and no larger than a value that fits also fits. -/
theorem Fits.of_le (h : Fits w y) (hx : 0 ≤ x) (hle : x ≤ y) : Fits w x := by
  have hpow : (0 : ℤ) ≤ 2 ^ (w - 1) := by positivity
  exact ⟨by linarith, hle.trans_lt h.2⟩

/-- A checked product is the product, and it fits. -/
theorem checkedMul_eq_some : checkedMul w x y = some z ↔ x * y = z ∧ Fits w z := by
  unfold checkedMul
  split
  · rename_i hfits
    constructor
    · rintro h
      obtain rfl := Option.some.inj h
      exact ⟨rfl, hfits⟩
    · rintro ⟨rfl, -⟩
      rfl
  · rename_i hfits
    refine ⟨nofun, ?_⟩
    rintro ⟨rfl, hz⟩
    exact absurd hz hfits

/-- A product that fits is what checked arithmetic returns. -/
theorem checkedMul_of_fits (h : Fits w (x * y)) : checkedMul w x y = some (x * y) :=
  checkedMul_eq_some.mpr ⟨rfl, h⟩

end Foundation
