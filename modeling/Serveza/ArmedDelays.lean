import Serveza.ArmedTimers

/-!
# The durations handed to the timers

A listener arms its timers with two kinds of durations: the grace period of a shutdown, and
the delay of a retry after one error up to one less than the budget. Asio converts a duration
from milliseconds to the nanoseconds of the steady clock, both signed 64-bit counts, before
it computes the deadline. The checks of the options bound the durations from below only, so a
duration beyond the range of the clock is accepted and its conversion overflows.
-/

namespace Serveza

open Foundation

/-- The conversion of milliseconds to the duration of the steady clock. -/
def toSteadyDuration (milliseconds : ℤ) : Option ℤ := checkedMul 64 milliseconds 1000000

/-- The largest count of milliseconds that the duration of the steady clock can hold. -/
def maxSteadyMilliseconds : ℤ := 9223372036854

/-- What converts is within the range of the clock. -/
theorem le_of_toSteadyDuration {d ns : ℤ} (h : toSteadyDuration d = some ns) :
    d ≤ maxSteadyMilliseconds := by
  obtain ⟨rfl, hfits⟩ := checkedMul_eq_some.mp h
  have hbound : d * 1000000 < 2 ^ 63 := hfits.2
  unfold maxSteadyMilliseconds
  norm_num at hbound
  omega

/-- Every duration up to the largest one converts, and not to a negative one. -/
theorem toSteadyDuration_of_le {d : ℤ} (hnonneg : 0 ≤ d) (hle : d ≤ maxSteadyMilliseconds) :
    toSteadyDuration d = some (d * 1000000) ∧ 0 ≤ d * 1000000 := by
  have hbound : d ≤ 9223372036854 := hle
  refine ⟨checkedMul_of_fits ⟨?_, ?_⟩, by omega⟩
  · norm_num
    omega
  · norm_num
    omega

namespace ListenerConfig

/-- The options a listener is constructed with. -/
def options : ListenerConfig → ListenerOptions
  | .acceptor _ options => options.toListenerOptions
  | .socket _ options => options.toListenerOptions

/-- The number of consecutive accept errors that ends a generation; a bound socket accepts
nothing. -/
def errorLimit : ListenerConfig → ℕ
  | .acceptor _ options => options.maxConsecutiveAcceptErrors
  | .socket _ _ => 0

/-- The durations a listener hands to its timers: the grace period, and the delay of a retry
after a number of errors that does not exhaust the budget. -/
def Hands (config : ListenerConfig) (d : ℤ) : Prop :=
  d = config.options.shutdownGracePeriod ∨
    ∃ n, 1 ≤ n ∧ n < config.errorLimit ∧ d = acceptRetryDelay config.options n

/-- The grace period is within the range of the clock, and so is the longest backoff, which is
the one after the last error that is retried. -/
def WithinClock (config : ListenerConfig) : Prop :=
  config.options.shutdownGracePeriod ≤ maxSteadyMilliseconds ∧
    (2 ≤ config.errorLimit → min (config.options.acceptErrorBackoff * 2 ^ (config.errorLimit - 2))
      config.options.maxAcceptErrorBackoff ≤ maxSteadyMilliseconds)

variable {config : ListenerConfig} {d : ℤ}

/-- The durations handed to the timers are not negative. -/
theorem Hands.nonneg (h : config.Hands d) : 0 ≤ d := by
  cases config with
  | acceptor endpoint options =>
    rcases h with rfl | ⟨n, -, -, rfl⟩
    · exact ((validateAcceptorOptions_ok _).mp options.valid).2.1
    · exact options.acceptRetryDelay_nonneg n
  | socket endpoint options =>
    rcases h with rfl | ⟨n, -, hlt, -⟩
    · have hvalid := options.valid
      unfold validateSocketOptions at hvalid
      split at hvalid
      · contradiction
      · rename_i hnonneg
        exact not_lt.mp hnonneg
    · exact absurd hlt (Nat.not_lt_zero n)

/-- The durations handed to the timers are within the range of the clock if the two longest are. -/
theorem Hands.le_max (h : config.Hands d) (hwithin : config.WithinClock) :
    d ≤ maxSteadyMilliseconds := by
  rcases h with rfl | ⟨n, hpos, hlt, rfl⟩
  · exact hwithin.1
  · cases config with
    | socket endpoint options => exact absurd hlt (Nat.not_lt_zero n)
    | acceptor endpoint options =>
      have hlongest := hwithin.2 (Nat.lt_of_le_of_lt hpos hlt)
      have hmono := options.acceptRetryDelay_mono (Nat.le_sub_one_of_lt hlt)
      rw [options.acceptRetryDelay_eq ((acceptor endpoint options).errorLimit - 1),
        Nat.sub_sub] at hmono
      exact hmono.trans hlongest

/-- The durations handed to the timers all convert exactly if the two longest are within the range
of the clock. -/
theorem converts_iff (config : ListenerConfig) :
    (∀ d, config.Hands d → ∃ ns, toSteadyDuration d = some ns ∧ 0 ≤ ns) ↔ config.WithinClock := by
  refine ⟨fun h => ⟨?_, fun hlimit => ?_⟩, fun hwithin d hd =>
    ⟨_, toSteadyDuration_of_le hd.nonneg (hd.le_max hwithin)⟩⟩
  · obtain ⟨ns, hns, -⟩ := h _ (Or.inl rfl)
    exact le_of_toSteadyDuration hns
  · -- The longest backoff is the one after the last error that is retried.
    obtain ⟨ns, hns, -⟩ := h _ (Or.inr ⟨config.errorLimit - 1, by omega, by omega, rfl⟩)
    cases config with
    | socket endpoint options => exact absurd hlimit (by simp [errorLimit])
    | acceptor endpoint options =>
      have hlongest := options.acceptRetryDelay_eq ((acceptor endpoint options).errorLimit - 1)
      rw [Nat.sub_sub] at hlongest
      exact hlongest ▸ le_of_toSteadyDuration hns

end ListenerConfig

namespace Listener

/-- The waits on the timers of a listener. -/
def timerWaits : Listener → List (TimerWait Arming)
  | .acceptor s => s.retryTimer.waits ++ s.core.shutdownTimer.waits
  | .socket s => s.core.shutdownTimer.waits

/-- The timers of a listener have been armed with durations of its options only. -/
def TimedBy (config : ListenerConfig) : Listener → Prop
  | .acceptor s => ∃ endpoint options, config = .acceptor endpoint options ∧ Timed options s
  | .socket s => ∃ endpoint options, config = .socket endpoint options ∧ SocketTimed options s

variable {config : ListenerConfig} {x y : Listener} {l : ListenerLabel}

/-- Every step of a listener arms durations of its options only. -/
theorem TimedBy.step (h : x.TimedBy config) (hstep : x.step l = some y) : y.TimedBy config := by
  cases x with
  | acceptor s =>
    cases l with
    | socket l => contradiction
    | acceptor l =>
      obtain ⟨t, ht, rfl⟩ := Option.map_eq_some_iff.mp hstep
      obtain ⟨endpoint, options, hconfig, htimed⟩ := h
      exact ⟨endpoint, options, hconfig, htimed.step ht⟩
  | socket s =>
    cases l with
    | acceptor l => contradiction
    | socket l =>
      obtain ⟨t, ht, rfl⟩ := Option.map_eq_some_iff.mp hstep
      obtain ⟨endpoint, options, hconfig, htimed⟩ := h
      exact ⟨endpoint, options, hconfig, htimed.step ht⟩

/-- The durations on the timers of a listener are among those it hands to them. -/
theorem TimedBy.hands (h : x.TimedBy config) {w : TimerWait Arming} (hw : w ∈ x.timerWaits) :
    config.Hands w.tag.delay := by
  cases x with
  | acceptor s =>
    obtain ⟨endpoint, options, rfl, htimed⟩ := h
    rcases List.mem_append.mp hw with hretry | hgrace
    · exact Or.inr (htimed.retries w hretry)
    · exact Or.inl (htimed.graced w hgrace)
  | socket s =>
    obtain ⟨endpoint, options, rfl, htimed⟩ := h
    exact Or.inl (htimed.graced w hw)

/-- Every run of a listener arms durations of its options only. -/
theorem timedBy_of_reachable {id : ℕ} (h : Reachable step (create id config) x) :
    x.TimedBy config := by
  refine h.invariant (TimedBy config) (fun _ _ _ htimed hstep => htimed.step hstep) ?_
  cases config with
  | acceptor endpoint options => exact ⟨endpoint, options, rfl, rfl, fun _ => nofun, fun _ => nofun⟩
  | socket endpoint options => exact ⟨endpoint, options, rfl, rfl, fun _ => nofun⟩

end Listener

/-- Both durations convert, to deadlines that are not in the past, and the first is not later. -/
def ArmsNoLater (d d' : ℤ) : Prop :=
  ∃ ns ns', toSteadyDuration d = some ns ∧ toSteadyDuration d' = some ns' ∧ 0 ≤ ns ∧ ns ≤ ns'

/-- Within the range of the clock the order of durations is the order of their deadlines. -/
theorem armsNoLater_of_le {d d' : ℤ} (hnonneg : 0 ≤ d) (hle : d ≤ d')
    (hmax : d' ≤ maxSteadyMilliseconds) : ArmsNoLater d d' := by
  obtain ⟨hconverts, hpos⟩ := toSteadyDuration_of_le hnonneg (hle.trans hmax)
  obtain ⟨hconverts', -⟩ := toSteadyDuration_of_le (hnonneg.trans hle) hmax
  exact ⟨_, _, hconverts, hconverts', hpos, by omega⟩

/-- A larger backoff and a larger limit never make the delay before a retry shorter. -/
theorem AcceptorOptions.acceptRetryDelay_le_of_le {options options' : AcceptorOptions}
    (hbackoff : options'.acceptErrorBackoff ≤ options.acceptErrorBackoff)
    (hlimit : options'.maxAcceptErrorBackoff ≤ options.maxAcceptErrorBackoff) (n : ℕ) :
    acceptRetryDelay options'.toListenerOptions n ≤
      acceptRetryDelay options.toListenerOptions n := by
  have hpow : (0 : ℤ) ≤ 2 ^ (n - 1) := by positivity
  rw [options.acceptRetryDelay_eq, options'.acceptRetryDelay_eq]
  exact min_le_min (mul_le_mul_of_nonneg_right hbackoff hpow) hlimit

/-- In every run of a listener every duration handed to a timer is the grace period or the delay of
a reachable retry. All of these convert without overflow to durations that are not negative exactly
if the grace period and the longest backoff are within the range of the clock; and then options with
a smaller grace period or backoff never give a later deadline. -/
theorem durations_armable (id : ℕ) (config : ListenerConfig) :
    (∀ x, Reachable Listener.step (.create id config) x →
      ∀ w ∈ x.timerWaits, config.Hands w.tag.delay) ∧
      ((∀ d, config.Hands d → ∃ ns, toSteadyDuration d = some ns ∧ 0 ≤ ns) ↔ config.WithinClock) ∧
      (config.WithinClock → ∀ config' : ListenerConfig,
        (config'.options.shutdownGracePeriod ≤ config.options.shutdownGracePeriod →
          ArmsNoLater config'.options.shutdownGracePeriod config.options.shutdownGracePeriod) ∧
        (config'.options.acceptErrorBackoff ≤ config.options.acceptErrorBackoff →
          config'.options.maxAcceptErrorBackoff ≤ config.options.maxAcceptErrorBackoff →
          ∀ n, 1 ≤ n → n < config'.errorLimit → n < config.errorLimit →
            ArmsNoLater (acceptRetryDelay config'.options n)
              (acceptRetryDelay config.options n))) := by
  refine ⟨fun x hx w hw => (Listener.timedBy_of_reachable hx).hands hw, config.converts_iff,
    fun hwithin config' => ⟨fun hgrace => ?_, ?_⟩⟩
  · have hhands : config'.Hands config'.options.shutdownGracePeriod := Or.inl rfl
    exact armsNoLater_of_le hhands.nonneg hgrace hwithin.1
  · intro hbackoff hlimit n hn hlt' hlt
    have hhands' : config'.Hands (acceptRetryDelay config'.options n) := Or.inr ⟨n, hn, hlt', rfl⟩
    have hhands : config.Hands (acceptRetryDelay config.options n) := Or.inr ⟨n, hn, hlt, rfl⟩
    refine armsNoLater_of_le hhands'.nonneg ?_ (hhands.le_max hwithin)
    cases config' with
    | socket endpoint options => exact absurd hlt' (Nat.not_lt_zero n)
    | acceptor endpoint' options' =>
      cases config with
      | socket endpoint options => exact absurd hlt (Nat.not_lt_zero n)
      | acceptor endpoint options =>
        exact AcceptorOptions.acceptRetryDelay_le_of_le hbackoff hlimit n

/-- The default options are within the range of the clock. -/
theorem durations_armable_default : defaultAcceptor.WithinClock ∧
    ∃ ns, toSteadyDuration (acceptRetryDelay defaultAcceptor.options 7) = some ns ∧ 0 ≤ ns := by
  have hwithin : defaultAcceptor.WithinClock := ⟨by decide, fun _ => by decide⟩
  exact ⟨hwithin, (durations_armable 1 defaultAcceptor).2.1.mpr hwithin _
    (Or.inr ⟨7, by decide, by decide, rfl⟩)⟩

/-- A listener that is to wait for ever, one millisecond past the range of the clock. -/
def endlessAcceptor : ListenerConfig :=
  .acceptor ⟨"127.0.0.1:0", true, false⟩
    ⟨{ shutdownGracePeriod := 9223372036855
       acceptErrorBackoff := 9223372036855
       maxAcceptErrorBackoff := 9223372036855 }, rfl⟩

/-- A validated listener arms its retry timer with a duration whose conversion overflows, and so
does its grace period; in two's complement both deadlines are in the past. -/
theorem durations_overflow : ∃ x : Listener,
    run Listener.step (.create 1 endlessAcceptor)
      [.acceptor (.core (.asyncStart (.user 0))), .acceptor (.run {}),
      .acceptor (.accepted { error := .noDescriptors } {})] = some x ∧
    (x.timerWaits.map fun w =>
      (toSteadyDuration w.tag.delay, (w.tag.delay * 1000000).bmod (2 ^ 64))) =
      [(none, -9223372036854551616)] ∧
    toSteadyDuration endlessAcceptor.options.shutdownGracePeriod = none :=
  ⟨_, rfl, by decide, by decide⟩

end Serveza
