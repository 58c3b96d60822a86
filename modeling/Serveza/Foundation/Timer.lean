import Mathlib.Data.List.Basic

/-!
# One-shot timers with several waits

A wait on a timer is pending until the deadline passes or the timer is cancelled or armed
again. Cancelling aborts the pending waits only: the success of an expired wait whose
handler has not run yet cannot be retracted. The handlers of expired and aborted waits run
later, in any order, each exactly once.
-/

namespace Foundation

/-- Where a wait stands: still running, or decided with its handler not yet run. -/
inductive WaitStatus where
  | pending
  | expired
  | aborted
  deriving DecidableEq, Repr

/-- One wait, labelled with whatever the party that armed it wants to remember. -/
structure TimerWait (α : Type*) where
  tag : α
  status : WaitStatus
  deriving DecidableEq, Repr

/-- A timer is the list of its waits whose handlers have not run, oldest first. -/
structure Timer (α : Type*) where
  waits : List (TimerWait α) := []
  deriving DecidableEq, Repr

namespace TimerWait

variable {α : Type*}

/-- A cancelled timer turns a pending wait into an aborted one and leaves the others alone. -/
def abort (w : TimerWait α) : TimerWait α :=
  if w.status = .pending then { w with status := .aborted } else w

/-- A wait that is still going to report success, or may. -/
def Live (w : TimerWait α) : Prop := w.status ≠ .aborted

instance (w : TimerWait α) : Decidable w.Live := inferInstanceAs (Decidable (w.status ≠ .aborted))

/-- Only an expired wait survives the cancellation of its timer. -/
theorem live_abort (w : TimerWait α) : w.abort.Live ↔ w.status = .expired := by
  obtain ⟨tag, status⟩ := w
  cases status <;> simp [abort, Live]

/-- Cancelling a timer keeps the label of each wait. -/
@[simp] theorem abort_tag (w : TimerWait α) : w.abort.tag = w.tag := by
  unfold abort
  split <;> rfl

/-- Cancelling a timer expires none of its waits. -/
@[simp] theorem abort_expired (w : TimerWait α) :
    w.abort.status = .expired ↔ w.status = .expired := by
  obtain ⟨tag, status⟩ := w
  cases status <;> simp [abort]

end TimerWait

namespace Timer

variable {α : Type*}

/-- Abort every pending wait. -/
def cancel (timer : Timer α) : Timer α := ⟨timer.waits.map TimerWait.abort⟩

/-- Setting a new deadline aborts the waits for the old one. -/
def expiresAfter (timer : Timer α) : Timer α := timer.cancel

/-- Start a wait for the current deadline. -/
def asyncWait (timer : Timer α) (tag : α) : Timer α := ⟨timer.waits ++ [⟨tag, .pending⟩]⟩

/-- The deadline of a pending wait passes. -/
def expire (timer : Timer α) (k : ℕ) : Option (Timer α) :=
  match timer.waits[k]? with
  | some ⟨tag, .pending⟩ => some ⟨timer.waits.set k ⟨tag, .expired⟩⟩
  | _ => none

/-- Take a decided wait off the timer in order to run its handler. -/
def take (timer : Timer α) (k : ℕ) : Option (TimerWait α × Timer α) :=
  match timer.waits[k]? with
  | some ⟨_, .pending⟩ => none
  | some w => some (w, ⟨timer.waits.eraseIdx k⟩)
  | none => none

/-- Some wait is pending or has expired with its handler outstanding. -/
def HasLive (timer : Timer α) : Prop := ∃ w ∈ timer.waits, w.Live

/-- Some wait has expired with its handler outstanding. -/
def HasExpired (timer : Timer α) : Prop := ∃ w ∈ timer.waits, w.status = .expired

/-- Some wait has not been decided yet. -/
def HasPending (timer : Timer α) : Prop := ∃ w ∈ timer.waits, w.status = .pending

instance (timer : Timer α) : Decidable timer.HasPending :=
  inferInstanceAs (Decidable (∃ w ∈ timer.waits, w.status = .pending))

instance (timer : Timer α) : Decidable timer.HasLive :=
  inferInstanceAs (Decidable (∃ w ∈ timer.waits, w.Live))

instance (timer : Timer α) : Decidable timer.HasExpired :=
  inferInstanceAs (Decidable (∃ w ∈ timer.waits, w.status = .expired))

/-- A wait that has expired is live. -/
theorem HasExpired.hasLive {timer : Timer α} (h : timer.HasExpired) : timer.HasLive := by
  obtain ⟨w, hw, hexpired⟩ := h
  exact ⟨w, hw, by simp [TimerWait.Live, hexpired]⟩

/-- Cancelling a timer expires none of its waits. -/
theorem hasExpired_cancel {timer : Timer α} (h : timer.cancel.HasExpired) : timer.HasExpired := by
  obtain ⟨w, hw, hexpired⟩ := h
  obtain ⟨v, hv, rfl⟩ := List.mem_map.mp hw
  exact ⟨v, hv, v.abort_expired.mp hexpired⟩

/-- Only an expired wait survives the cancellation of its timer. -/
theorem hasLive_cancel {timer : Timer α} (h : timer.cancel.HasLive) : timer.HasExpired := by
  obtain ⟨w, hw, hlive⟩ := h
  obtain ⟨v, hv, rfl⟩ := List.mem_map.mp hw
  exact ⟨v, hv, v.live_abort.mp hlive⟩

/-- A freshly started wait is the last one, and it is pending. -/
theorem getElem?_asyncWait (timer : Timer α) (tag : α) :
    (timer.asyncWait tag).waits[timer.waits.length]? = some ⟨tag, .pending⟩ :=
    List.getElem?_concat_length

/-- A freshly started wait carries its label. -/
theorem asyncWait_inj {timer : Timer α} {tag tag' : α}
    (h : timer.asyncWait tag = timer.asyncWait tag') : tag = tag' := by
  have hlast := timer.getElem?_asyncWait tag
  rw [h, timer.getElem?_asyncWait tag', Option.some.injEq, TimerWait.mk.injEq] at hlast
  exact hlast.1.symm

/-- A freshly started wait is live. -/
theorem hasLive_asyncWait (timer : Timer α) (tag : α) : (timer.asyncWait tag).HasLive :=
  ⟨⟨tag, .pending⟩, by simp [asyncWait], by simp [TimerWait.Live]⟩

/-- An expiry turns one pending wait into an expired one with the same label. -/
theorem expire_cases {timer timer' : Timer α} {k : ℕ} (h : timer.expire k = some timer') :
    ∃ tag, timer.waits[k]? = some ⟨tag, .pending⟩ ∧
      timer' = ⟨timer.waits.set k ⟨tag, .expired⟩⟩ := by
  unfold expire at h
  split at h
  · rename_i tag heq
    exact ⟨tag, heq, by simpa using h.symm⟩
  · contradiction

/-- A handler runs for a decided wait only, and takes that wait off the timer. -/
theorem take_cases {timer timer' : Timer α} {k : ℕ} {w : TimerWait α}
    (h : timer.take k = some (w, timer')) :
    timer.waits[k]? = some w ∧ w.status ≠ .pending ∧ timer' = ⟨timer.waits.eraseIdx k⟩ := by
  unfold take at h
  split at h
  · contradiction
  · rename_i v hne heq
    obtain ⟨rfl, rfl⟩ : v = w ∧ (⟨timer.waits.eraseIdx k⟩ : Timer α) = timer' := by simpa using h
    refine ⟨heq, fun hp => ?_, rfl⟩
    obtain ⟨tag, status⟩ := v
    exact hne tag (congrArg (TimerWait.mk tag) hp)
  · contradiction

/-- Running a handler adds no wait. -/
theorem take_subset {timer timer' : Timer α} {k : ℕ} {w : TimerWait α}
    (h : timer.take k = some (w, timer')) :
    timer'.waits ⊆ timer.waits := by
  obtain ⟨-, -, rfl⟩ := take_cases h
  exact (List.eraseIdx_sublist _ _).subset

/-- The waits of a timer after an expiry come from waits that were there, with the same labels. -/
theorem mem_of_mem_expire {timer timer' : Timer α} {k : ℕ} (h : timer.expire k = some timer')
    {w : TimerWait α} (hw : w ∈ timer'.waits) :
    ∃ v ∈ timer.waits, v.tag = w.tag ∧ (w.Live → v.Live) := by
  obtain ⟨tag, hk, rfl⟩ := expire_cases h
  rcases List.mem_or_eq_of_mem_set hw with hold | rfl
  · exact ⟨w, hold, rfl, id⟩
  · exact ⟨⟨tag, .pending⟩, List.mem_of_getElem? hk, rfl, fun _ => by simp [TimerWait.Live]⟩

/-- An expiry keeps a live wait live. -/
theorem hasLive_expire {timer timer' : Timer α} {k : ℕ} (h : timer.expire k = some timer') :
    timer'.HasLive := by
  obtain ⟨tag, hk, rfl⟩ := expire_cases h
  obtain ⟨hlt, -⟩ := List.getElem?_eq_some_iff.mp hk
  exact ⟨⟨tag, .expired⟩, List.mem_set hlt _, by simp [TimerWait.Live]⟩

/-- Running the handler of an aborted wait leaves every live wait in place. -/
theorem hasLive_take {timer timer' : Timer α} {k : ℕ} {w : TimerWait α}
    (h : timer.take k = some (w, timer')) (haborted : w.status = .aborted) (hlive : timer.HasLive) :
    timer'.HasLive := by
  obtain ⟨hk, -, rfl⟩ := take_cases h
  obtain ⟨v, hv, hvlive⟩ := hlive
  refine ⟨v, ?_, hvlive⟩
  obtain ⟨i, hi⟩ := List.mem_iff_getElem?.mp hv
  refine List.mem_eraseIdx_iff_getElem?.mpr ⟨i, fun hik => hvlive ?_, hi⟩
  subst hik
  rw [hk] at hi
  exact (Option.some.inj hi) ▸ haborted

/-- Where a wait is found once the handler of the wait at `k` has run: nowhere if it is that one. -/
def shift (k i : ℕ) : Option ℕ := if k < i then some (i - 1) else if k = i then none else some i

/-- The handler of another wait leaves a wait in its shifted place. -/
theorem take_shift {timer timer' : Timer α} {k i : ℕ} {v w : TimerWait α}
    (h : timer.take k = some (w, timer')) (hi : timer.waits[i]? = some v) (hne : k ≠ i) :
    ∃ j, shift k i = some j ∧ timer'.waits[j]? = some v := by
  obtain ⟨-, -, rfl⟩ := take_cases h
  rcases Nat.lt_or_gt_of_ne hne with hlt | hgt
  · refine ⟨i - 1, if_pos hlt, ?_⟩
    rw [List.getElem?_eraseIdx_of_ge (by omega), Nat.sub_add_cancel (by omega)]
    exact hi
  · refine ⟨i, by rw [shift, if_neg (by omega), if_neg hne], ?_⟩
    rw [List.getElem?_eraseIdx_of_lt hgt]
    exact hi

/-- The expiry of another wait leaves a wait as it is. -/
theorem expire_ne {timer timer' : Timer α} {k i : ℕ} (h : timer.expire k = some timer')
    (hne : k ≠ i) :
    timer'.waits[i]? = timer.waits[i]? := by
  obtain ⟨tag, -, rfl⟩ := expire_cases h
  exact List.getElem?_set_ne hne

/-- Every wait on the timer was armed with a label of a given kind. -/
def Tagged (p : α → Prop) (timer : Timer α) : Prop := ∀ w ∈ timer.waits, p w.tag

section Tagged

variable {p : α → Prop} {timer timer' : Timer α} {k : ℕ}

/-- Cancelling a timer keeps its labels. -/
theorem Tagged.cancel (h : timer.Tagged p) : timer.cancel.Tagged p := by
  intro w hw
  obtain ⟨v, hv, rfl⟩ := List.mem_map.mp hw
  rw [v.abort_tag]
  exact h v hv

/-- Starting a wait adds its label. -/
theorem Tagged.asyncWait (h : timer.Tagged p) {tag : α} (htag : p tag) :
    (timer.asyncWait tag).Tagged p := by
  intro w hw
  rcases List.mem_append.mp hw with hold | hnew
  · exact h w hold
  · obtain rfl := List.mem_singleton.mp hnew
    exact htag

/-- An expiry keeps the labels of a timer. -/
theorem Tagged.expire (h : timer.Tagged p) (hexpire : timer.expire k = some timer') :
    timer'.Tagged p := by
  intro w hw
  obtain ⟨v, hv, htag, -⟩ := mem_of_mem_expire hexpire hw
  exact htag ▸ h v hv

/-- Running a handler adds no label. -/
theorem Tagged.take (h : timer.Tagged p) {w : TimerWait α}
    (htake : timer.take k = some (w, timer')) : timer'.Tagged p :=
  fun v hv => h v (take_subset htake hv)

end Tagged

end Timer

end Foundation
