import Mathlib.Tactic.Ring
import Serveza.Foundation.Signed
import Serveza.Options

/-!
# The backoff between accepts in closed form

`accept_retry_delay` doubles the configured backoff in a loop that stops at the limit. The
source computes with signed 64-bit counts of milliseconds; the model computes over the
integers, and next to it stands the same loop in checked arithmetic. The two agree, so no
intermediate value overflows, and both are the bounded power of two the loop is meant to be.
-/

namespace Serveza

open Foundation

/-- The doubling loop of `acceptRetryDelay` in signed 64-bit arithmetic that fails on overflow. -/
def acceptRetryDelayLoopChecked (limit : ℤ) : ℕ → ℤ → Option ℤ
  | 0, delay => some delay
  | k + 1, delay =>
    if delay < limit then
      (if delay > limit.tdiv 2 then some limit else checkedMul 64 delay 2).bind
        (acceptRetryDelayLoopChecked limit k)
    else some delay

/-- The delay before a retry in signed 64-bit arithmetic that fails on overflow. -/
def acceptRetryDelayChecked (options : ListenerOptions) (consecutiveErrors : ℕ) : Option ℤ :=
  (acceptRetryDelayLoopChecked options.maxAcceptErrorBackoff (consecutiveErrors - 1)
    options.acceptErrorBackoff).map
    fun delay => min delay options.maxAcceptErrorBackoff

variable {limit delay : ℤ}

/-- A delay past the truncated half of the limit reaches the limit when it is doubled. -/
theorem le_double_of_half_lt (hlimit : 0 ≤ limit) (h : limit.tdiv 2 < delay) :
    limit ≤ delay * 2 := by
  rw [Int.tdiv_eq_ediv_of_nonneg hlimit] at h
  omega

/-- A delay up to the truncated half of the limit stays within the limit when it is doubled. -/
theorem double_le_of_le_half (hlimit : 0 ≤ limit) (h : delay ≤ limit.tdiv 2) :
    delay * 2 ≤ limit := by
  rw [Int.tdiv_eq_ediv_of_nonneg hlimit] at h
  omega

/-- Doublings never make a delay that is not negative smaller. -/
theorem le_mul_two_pow (hdelay : 0 ≤ delay) (k : ℕ) : delay ≤ delay * 2 ^ k :=
  le_mul_of_one_le_right hdelay (one_le_pow₀ (by decide))

/-- The loop computes the bounded power of two. -/
theorem acceptRetryDelayLoop_eq (hdelay : 0 ≤ delay) (hle : delay ≤ limit) (k : ℕ) :
    acceptRetryDelayLoop limit k delay = min (delay * 2 ^ k) limit := by
  have hlimit : 0 ≤ limit := hdelay.trans hle
  induction k generalizing delay with
  | zero => simp [acceptRetryDelayLoop, hle]
  | succ k ih =>
    have hpow : delay * 2 ^ (k + 1) = delay * 2 * 2 ^ k := by ring
    unfold acceptRetryDelayLoop
    by_cases hlt : delay < limit
    · rw [if_pos hlt]
      by_cases hhalf : limit.tdiv 2 < delay
      · have hdouble : limit ≤ delay * 2 := le_double_of_half_lt hlimit hhalf
        have hreached : limit ≤ delay * 2 ^ (k + 1) :=
          hpow ▸ hdouble.trans (le_mul_two_pow (hlimit.trans hdouble) k)
        rw [if_pos hhalf, ih hlimit le_rfl, min_eq_right (le_mul_two_pow hlimit k),
          min_eq_right hreached]
      · have hdouble : delay * 2 ≤ limit := double_le_of_le_half hlimit (not_lt.mp hhalf)
        rw [if_neg hhalf, ih (by omega) hdouble, hpow]
    · obtain rfl : delay = limit := le_antisymm hle (not_lt.mp hlt)
      rw [if_neg hlt, min_eq_right (le_mul_two_pow hdelay _)]

/-- With a limit that fits, no doubling of the loop overflows. -/
theorem acceptRetryDelayLoopChecked_eq (hfits : Fits 64 limit) (hdelay : 0 ≤ delay)
    (hle : delay ≤ limit) (k : ℕ) :
    acceptRetryDelayLoopChecked limit k delay = some (acceptRetryDelayLoop limit k delay) := by
  have hlimit : 0 ≤ limit := hdelay.trans hle
  induction k generalizing delay with
  | zero => rfl
  | succ k ih =>
    unfold acceptRetryDelayLoopChecked acceptRetryDelayLoop
    split
    · split
      · exact ih hlimit le_rfl
      · rename_i hhalf
        have hdouble : delay * 2 ≤ limit := double_le_of_le_half hlimit (not_lt.mp hhalf)
        rw [checkedMul_of_fits (hfits.of_le (by omega) hdouble)]
        exact ih (by omega) hdouble
    · rfl

namespace AcceptorOptions

variable (options : AcceptorOptions)

/-- The configured backoff is not negative. -/
theorem acceptErrorBackoff_nonneg : 0 ≤ options.acceptErrorBackoff :=
  ((validateAcceptorOptions_ok _).mp options.valid).2.2.2.1

/-- The configured backoff is within its limit. -/
theorem acceptErrorBackoff_le : options.acceptErrorBackoff ≤ options.maxAcceptErrorBackoff :=
  ((validateAcceptorOptions_ok _).mp options.valid).2.2.2.2.1

/-- The delay before a retry is the backoff doubled once per further error, up to the limit. -/
theorem acceptRetryDelay_eq (n : ℕ) : acceptRetryDelay options.toListenerOptions n =
    min (options.acceptErrorBackoff * 2 ^ (n - 1)) options.maxAcceptErrorBackoff := by
  rw [acceptRetryDelay, acceptRetryDelayLoop_eq options.acceptErrorBackoff_nonneg
    options.acceptErrorBackoff_le, min_assoc, min_self]

/-- The delay before a retry is not negative. -/
theorem acceptRetryDelay_nonneg (n : ℕ) : 0 ≤ acceptRetryDelay options.toListenerOptions n := by
  have hnonneg := options.acceptErrorBackoff_nonneg
  rw [acceptRetryDelay_eq]
  exact le_min (by positivity) (hnonneg.trans options.acceptErrorBackoff_le)

/-- The delay before a retry is within the limit. -/
theorem acceptRetryDelay_le (n : ℕ) :
    acceptRetryDelay options.toListenerOptions n ≤ options.maxAcceptErrorBackoff := min_le_right _ _

/-- More errors in a row never make the delay shorter. -/
theorem acceptRetryDelay_mono {n k : ℕ} (h : n ≤ k) :
    acceptRetryDelay options.toListenerOptions n ≤
      acceptRetryDelay options.toListenerOptions k := by
  have hpow : (2 : ℤ) ^ (n - 1) ≤ 2 ^ (k - 1) :=
    pow_le_pow_right₀ (by decide) (Nat.sub_le_sub_right h 1)
  rw [acceptRetryDelay_eq, acceptRetryDelay_eq]
  exact min_le_min_right _ (mul_le_mul_of_nonneg_left hpow options.acceptErrorBackoff_nonneg)

end AcceptorOptions

/-- For every validated set of options whose limit is a signed 64-bit count of milliseconds and
every number of consecutive errors, the delay is the backoff doubled once per further error up
to the limit; computing it overflows nowhere; and it is not negative, within the limit and
monotone in the number of errors. -/
theorem acceptRetryDelay_closedForm (options : AcceptorOptions)
    (hfits : Fits 64 options.maxAcceptErrorBackoff) (n : ℕ) :
    acceptRetryDelayChecked options.toListenerOptions n =
        some (min (options.acceptErrorBackoff * 2 ^ (n - 1)) options.maxAcceptErrorBackoff) ∧
      acceptRetryDelayChecked options.toListenerOptions n =
        some (acceptRetryDelay options.toListenerOptions n) ∧
      0 ≤ acceptRetryDelay options.toListenerOptions n ∧
      acceptRetryDelay options.toListenerOptions n ≤ options.maxAcceptErrorBackoff ∧
      ∀ k, n ≤ k → acceptRetryDelay options.toListenerOptions n ≤
        acceptRetryDelay options.toListenerOptions k := by
  have hchecked : acceptRetryDelayChecked options.toListenerOptions n =
      some (acceptRetryDelay options.toListenerOptions n) := by
    rw [acceptRetryDelayChecked,
      acceptRetryDelayLoopChecked_eq hfits options.acceptErrorBackoff_nonneg
      options.acceptErrorBackoff_le]
    rfl
  exact ⟨options.acceptRetryDelay_eq n ▸ hchecked, hchecked, options.acceptRetryDelay_nonneg n,
    options.acceptRetryDelay_le n, fun k hk => options.acceptRetryDelay_mono hk⟩

/-- The largest limit a 64-bit count allows, and a backoff one past its half. -/
def hugeBackoffOptions : AcceptorOptions :=
  ⟨{ acceptErrorBackoff := 2 ^ 62, maxAcceptErrorBackoff := 2 ^ 63 - 1 }, rfl⟩

/-- The second retry waits for the limit itself. -/
theorem acceptRetryDelay_closedForm_huge :
    Fits 64 hugeBackoffOptions.maxAcceptErrorBackoff ∧
      acceptRetryDelayChecked hugeBackoffOptions.toListenerOptions 2 =
        some (min (2 ^ 62 * 2 ^ 1) (2 ^ 63 - 1)) :=
  ⟨by decide, (acceptRetryDelay_closedForm hugeBackoffOptions (by decide) 2).1⟩

end Serveza
