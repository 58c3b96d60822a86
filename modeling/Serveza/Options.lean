import Mathlib.Algebra.Order.Ring.Int
import Mathlib.Tactic.SplitIfs

/-!
# Listener options

The operational limits of a listener, the checks both listener classes make when they are
constructed, and the delay before an accept is retried. Durations are counts of
milliseconds. A listener is never constructed with options its check refuses, so the
options it holds carry that fact. `v6_only` and `reuse_address` are only passed on to the socket
and are left out.
-/

namespace Serveza

/-- The limits a listener is created with, with the defaults of the source. -/
structure ListenerOptions where
  listenBacklog : ℤ := 128
  shutdownGracePeriod : ℤ := 5000
  maxActiveSessions : ℕ := 1024
  acceptErrorBackoff : ℤ := 100
  maxAcceptErrorBackoff : ℤ := 5000
  maxConsecutiveAcceptErrors : ℕ := 8
  deriving DecidableEq, Repr

/-- The check of a listener on a bound socket; the error is the text of the exception. -/
def validateSocketOptions (options : ListenerOptions) : Except String Unit :=
  if options.shutdownGracePeriod < 0 then .error "shutdown_grace_period must not be negative"
  else .ok ()

/-- The check of an accepting listener, in the order of the source. -/
def validateAcceptorOptions (options : ListenerOptions) : Except String Unit :=
  if options.listenBacklog ≤ 0 then .error "listen_backlog must be greater than zero"
  else (validateSocketOptions options).bind fun _ =>
    if options.maxActiveSessions = 0 then .error "max_active_sessions must be greater than zero"
    else if options.acceptErrorBackoff < 0 then .error "accept_error_backoff must not be negative"
    else if options.maxAcceptErrorBackoff < options.acceptErrorBackoff then
      .error "max_accept_error_backoff must not be less than accept_error_backoff"
    else if options.maxConsecutiveAcceptErrors = 0 then
      .error "max_consecutive_accept_errors must be greater than zero"
    else .ok ()

/-- The options of a constructed accepting listener. -/
structure AcceptorOptions extends ListenerOptions where
  valid : validateAcceptorOptions toListenerOptions = .ok ()

/-- The options of a constructed bound-socket listener. -/
structure SocketOptions extends ListenerOptions where
  valid : validateSocketOptions toListenerOptions = .ok ()

/-- What the check of an accepting listener establishes. -/
theorem validateAcceptorOptions_ok (options : ListenerOptions) :
    validateAcceptorOptions options = .ok () ↔
      0 < options.listenBacklog ∧ 0 ≤ options.shutdownGracePeriod ∧ 0 < options.maxActiveSessions ∧
        0 ≤ options.acceptErrorBackoff ∧
        options.acceptErrorBackoff ≤ options.maxAcceptErrorBackoff ∧
        0 < options.maxConsecutiveAcceptErrors := by
  unfold validateAcceptorOptions validateSocketOptions
  by_cases hgrace : options.shutdownGracePeriod < 0
  · simp only [hgrace, if_true, Except.bind]
    split <;> simp <;> omega
  · simp only [hgrace, if_false, Except.bind]
    split_ifs <;> simp <;> omega

/-- An accepting listener has room for at least one session. -/
theorem AcceptorOptions.maxActiveSessions_pos (options : AcceptorOptions) :
    0 < options.maxActiveSessions :=
  ((validateAcceptorOptions_ok _).mp options.valid).2.2.1

/-- The doubling loop of `acceptRetryDelay`, for a number of further iterations. -/
def acceptRetryDelayLoop (limit : ℤ) : ℕ → ℤ → ℤ
  | 0, delay => delay
  | k + 1, delay =>
    if delay < limit then
      acceptRetryDelayLoop limit k (if delay > limit.tdiv 2 then limit else delay * 2)
    else delay

/-- The delay before the retry that follows a number of consecutive accept errors. -/
def acceptRetryDelay (options : ListenerOptions) (consecutiveErrors : ℕ) : ℤ :=
  min (acceptRetryDelayLoop options.maxAcceptErrorBackoff (consecutiveErrors - 1)
    options.acceptErrorBackoff) options.maxAcceptErrorBackoff

end Serveza
