import Mathlib.Algebra.BigOperators.Group.List.Basic
import Mathlib.Algebra.GroupWithZero.Nat
import Mathlib.Algebra.Order.BigOperators.Group.List
import Mathlib.Algebra.Order.Group.Nat
import Serveza.Foundation.Run
import Serveza.Foundation.Timer

/-!
# Work that is left

A potential is a natural number that every step of some class lowers. It bounds the length of
every run of such steps. If a state in which something is left to be done always allows one of
them, such a run can be continued until nothing is left.
-/

namespace Foundation

variable {S L : Type*} {step : S → L → Option S} {Q : L → Prop} {I : S → Prop} {s t : S}
  {ls : List L}

/-- Along a run of steps none of which raises a potential, those that lower it are paid for. -/
theorem run_countP_le (potential : S → ℕ) (lowers : L → Bool)
    (hkept : ∀ s l t, I s → Q l → step s l = some t → I t)
    (hlower : ∀ s l t, I s → Q l → step s l = some t →
      potential t + (if lowers l then 1 else 0) ≤ potential s)
    (hs : I s) (hls : ∀ l ∈ ls, Q l) (hrun : run step s ls = some t) :
    ls.countP lowers + potential t ≤ potential s := by
  induction ls generalizing s with
  | nil =>
    obtain rfl : s = t := Option.some.inj hrun
    simp
  | cons l ls ih =>
    obtain ⟨a, ha, hrest⟩ := run_cons.mp hrun
    have hl := hls l List.mem_cons_self
    have hpaid := hlower s l a hs hl ha
    have hlater := ih (hkept s l a hs hl ha) (fun m hm => hls m (List.mem_cons_of_mem l hm)) hrest
    rw [List.countP_cons]
    omega

/-- Every step of a run of steps that lower a potential is paid for. -/
theorem run_length_le (potential : S → ℕ) (hkept : ∀ s l t, I s → Q l → step s l = some t → I t)
    (hlower : ∀ s l t, I s → Q l → step s l = some t → potential t < potential s) (hs : I s)
    (hls : ∀ l ∈ ls, Q l) (hrun : run step s ls = some t) :
    ls.length + potential t ≤ potential s := by
  have hcount := run_countP_le potential (fun _ => true) hkept
    (by simpa [Nat.add_one_le_iff] using hlower) hs hls hrun
  simpa using hcount

/-- If something can be done as long as something is left, a run gets everything done. -/
theorem exists_run_done {Done : S → Prop} (potential : S → ℕ)
    (hkept : ∀ s l t, I s → Q l → step s l = some t → I t)
    (hlower : ∀ s l t, I s → Q l → step s l = some t → potential t < potential s)
    (hprogress : ∀ s, I s → ¬ Done s → ∃ l, Q l ∧ (step s l).isSome = true) (hs : I s) :
    ∃ ls t, (∀ l ∈ ls, Q l) ∧ run step s ls = some t ∧ Done t := by
  induction hn : potential s using Nat.strongRecOn generalizing s with
  | ind n ih =>
    by_cases hdone : Done s
    · exact ⟨[], s, by simp, rfl, hdone⟩
    · obtain ⟨l, hl, hsome⟩ := hprogress s hs hdone
      obtain ⟨a, ha⟩ := Option.isSome_iff_exists.mp hsome
      obtain ⟨ls, t, hls, hrun, ht⟩ := ih _ (hn ▸ hlower s l a hs hl ha) (hkept s l a hs hl ha) rfl
      exact ⟨l :: ls, t, List.forall_mem_cons.mpr ⟨hl, hls⟩, run_cons.mpr ⟨a, ha, hrun⟩, ht⟩

variable {α : Type*}

/-- Taking one entry off a list takes it off a sum over the list. -/
theorem sum_map_eraseIdx (f : α → ℕ) {l : List α} {i : ℕ} {a : α} (h : l[i]? = some a) :
    f a + ((l.eraseIdx i).map f).sum = (l.map f).sum := by
  obtain ⟨hlt, rfl⟩ := List.getElem?_eq_some_iff.mp h
  have hsum := List.CommMonoid.add_sum_eraseIdx (l := l.map f) (i := i) (by rwa [List.length_map])
  rwa [List.getElem_map, List.eraseIdx_map] at hsum

/-- Replacing one entry of a list changes a sum over the list by that entry. -/
theorem sum_map_set (f : α → ℕ) {l : List α} {i : ℕ} {a : α} (h : l[i]? = some a) (b : α) :
    ((l.set i b).map f).sum + f a = (l.map f).sum + f b := by
  obtain ⟨hlt, -⟩ := List.getElem?_eq_some_iff.mp h
  have hnew := sum_map_eraseIdx f (List.getElem?_set_self (a := b) hlt)
  have hold := sum_map_eraseIdx f h
  rw [List.eraseIdx_set_eq] at hnew
  omega

/-- Replacing the one entry with a key changes a sum over the list by that entry. -/
theorem sum_map_replace {κ : Type*} [DecidableEq κ] (key : α → κ) (f : α → ℕ) {l : List α} {k : κ}
    {a : α} (b : α) (hnodup : (l.map key).Nodup) (h : (l.find? fun x => key x = k) = some a) :
    ((l.map fun x => if key x = k then b else x).map f).sum + f a = (l.map f).sum + f b := by
  induction l with
  | nil => simp at h
  | cons c l ih =>
    rw [List.map_cons, List.nodup_cons] at hnodup
    by_cases hc : key c = k
    · obtain rfl : c = a := by simpa [hc] using h
      have hother : (l.map fun x => if key x = k then b else x) = l := by
        refine (List.map_congr_left fun x hx => if_neg fun hk => hnodup.1 ?_).trans (List.map_id l)
        exact List.mem_map.mpr ⟨x, hx, hk.trans hc.symm⟩
      simp only [List.map_cons, List.sum_cons, hother, if_pos hc]
      omega
    · have hrest := ih hnodup.2 (by simpa [hc] using h)
      simp only [List.map_cons, List.sum_cons, if_neg hc]
      omega

namespace Timer

/-- The waits of a timer, weighed by where they stand. -/
def weight (timer : Timer α) (f : WaitStatus → ℕ) : ℕ := (timer.waits.map fun w => f w.status).sum

variable {timer timer' : Timer α} {f : WaitStatus → ℕ} {k : ℕ}

/-- Cancelling a timer adds no weight if an aborted wait weighs no more than a pending one. -/
theorem weight_cancel_le (timer : Timer α) (hf : f .aborted ≤ f .pending) :
    timer.cancel.weight f ≤ timer.weight f := by
  unfold weight cancel
  rw [List.map_map]
  refine List.sum_le_sum fun w _ => ?_
  obtain ⟨tag, status⟩ := w
  cases status with
  | pending => exact hf
  | expired => exact le_rfl
  | aborted => exact le_rfl

/-- An expiry exchanges the weight of a pending wait for that of an expired one. -/
theorem weight_expire (h : timer.expire k = some timer') :
    timer'.weight f + f .pending = timer.weight f + f .expired := by
  obtain ⟨tag, hk, rfl⟩ := expire_cases h
  exact sum_map_set (fun w => f w.status) hk ⟨tag, .expired⟩

/-- Running a handler takes off the weight of its wait. -/
theorem weight_take {w : TimerWait α} (h : timer.take k = some (w, timer')) :
    f w.status + timer'.weight f = timer.weight f := by
  obtain ⟨hk, -, rfl⟩ := take_cases h
  exact sum_map_eraseIdx (fun w => f w.status) hk

/-- A timer with a wait on it lets the deadline pass or runs a handler. -/
theorem expire_or_take (h : timer.waits ≠ []) :
    ∃ k, (timer.expire k).isSome = true ∨ (timer.take k).isSome = true := by
  obtain ⟨⟨tag, status⟩, waits, hwaits⟩ := List.exists_cons_of_ne_nil h
  refine ⟨0, ?_⟩
  cases status <;> simp [expire, take, hwaits]

end Timer

end Foundation
