import Mathlib.Data.Finset.Max
import Serveza.Foundation.Registry
import Serveza.Subscriptions

/-!
# Each notification calls the observers it has copied

Notifications of several threads, and notifications made from inside a callback, may be in
progress at the same time. Each of them calls the observers that were registered when it began,
one after the other, whatever the callbacks do, and all of them can be brought to an end.
-/

namespace Serveza

open Foundation

/-- The numbers of all notifications, completed and in progress. -/
def ObserverSystem.numbers (s : ObserverSystem) : List ℕ :=
  s.completed.map (·.1) ++ s.calls.map (·.number)

namespace ObserverSystem

/-- A notification that begins gets the next number. -/
theorem enter_numbers (s : ObserverSystem) (thread : ℕ) :
    (s.enter thread).numbers.Perm (s.notifications :: s.numbers) := by
  rw [numbers, enter, List.map_append, ← List.append_assoc]
  exact List.perm_append_singleton _ _

/-- A notification that finds no observer gets the next number. -/
theorem skip_numbers (s : ObserverSystem) : s.skip.numbers.Perm (s.notifications :: s.numbers) := by
  rw [numbers, skip, List.map_append, List.append_assoc]
  exact List.perm_middle

/-- A notification that is over keeps its number. -/
theorem leave_numbers {s : ObserverSystem} {number : ℕ} {c : Notification}
    (hc : s.call? number = some c) (invoked : List ObserverEntry) :
    (s.leave number invoked).numbers.Perm s.numbers := by
  have hcnumber : c.number = number := by simpa using List.find?_some hc
  have hcalls := (perm_of_find? hc).map Notification.number
  rw [List.map_cons, hcnumber] at hcalls
  rw [numbers, leave, List.map_append, List.append_assoc]
  exact hcalls.symm.append_left _

end ObserverSystem

/-- The notifications take turns: each has a number of its own, one thread at a time holds the
callback mutex and makes calls, and a notification outside a callback is the innermost of its
thread. -/
structure TakeTurns (s : ObserverSystem) : Prop where
  once : s.numbers.Nodup
  bounded : ∀ n ∈ s.numbers, n < s.notifications
  exclusive : ∀ c ∈ s.calls, ∀ d ∈ s.calls, c.locked = true → d.locked = true → c.thread = d.thread
  held : ∀ c ∈ s.calls, c.calling = true → c.locked = true
  nested : ∀ c ∈ s.calls, c.calling = false → s.innermost c = true

/-- A notification that began with some observers calls them in order and no others. -/
structure Delivers (number : ℕ) (observers : List ObserverEntry) (s : ObserverSystem) : Prop where
  present : number ∈ s.numbers
  progress : ∀ c ∈ s.calls, c.number = number → c.invoked ++ c.observers = observers
  completed : ∀ p ∈ s.completed, p.1 = number → p.2 = observers

variable {s t : ObserverSystem} {number : ℕ} {c c' : Notification}

namespace TakeTurns

/-- A notification is known by its number. -/
theorem unique (h : TakeTurns s) (hc : s.call? number = some c) {d : Notification}
    (hd : d ∈ s.calls) (hnumber : d.number = number) : d = c := by
  have hmem : c ∈ s.calls := List.mem_of_find?_eq_some hc
  have hcnumber : c.number = number := by simpa using List.find?_some hc
  exact List.inj_on_of_nodup_map (List.nodup_append.mp h.once).2.1 hd hmem
    (hnumber.trans hcnumber.symm)

/-- What is in progress after a notification was updated. -/
theorem mem_setCall {d : Notification} (hd : d ∈ (s.setCall number c').calls) :
    d = c' ∨ d ∈ s.calls ∧ d.number ≠ number := by
  obtain ⟨x, hx, rfl⟩ := List.mem_map.mp hd
  split
  · exact Or.inl rfl
  · exact Or.inr ⟨hx, ‹_›⟩

/-- Updating a notification changes no number. -/
theorem setCall_numbers (hnumber : c'.number = number) :
    (s.setCall number c').numbers = s.numbers := by
  have hmap : (s.setCall number c').calls.map (·.number) = s.calls.map (·.number) := by
    refine (List.map_map ..).trans (List.map_congr_left fun d _ => ?_)
    simp only [Function.comp_apply]
    split
    · rename_i hd
      rw [hnumber, hd]
    · rfl
  exact congrArg (s.completed.map (·.1) ++ ·) hmap

/-- The innermost notification of a thread, as a proposition. -/
theorem innermost_iff :
    s.innermost c = true ↔ ∀ d ∈ s.calls, d.thread = c.thread → d.number ≤ c.number := by
  simp only [ObserverSystem.innermost, List.all_eq_true, Bool.or_eq_true, decide_eq_true_eq]
  exact forall₂_congr fun d _ =>
    ⟨fun h hthread => h.resolve_left (not_not.mpr hthread), fun h => (em _).symm.imp_right h⟩

/-- Updating a notification does not change which ones are innermost. -/
theorem setCall_innermost (hc : s.call? number = some c) (hnumber : c'.number = c.number)
    (hthread : c'.thread = c.thread) {d : Notification} (hd : s.innermost d = true) :
    (s.setCall number c').innermost d = true := by
  rw [innermost_iff] at hd ⊢
  intro x hx hxthread
  rcases mem_setCall hx with rfl | ⟨hx, -⟩
  · rw [hnumber]
    exact hd c (List.mem_of_find?_eq_some hc) (hthread ▸ hxthread)
  · exact hd x hx hxthread

/-- A notification may be updated if it holds the mutex while it calls, shares it with no other
thread, and is outside a callback only as the innermost. -/
theorem update (h : TakeTurns s) (hc : s.call? number = some c) (hnumber : c'.number = c.number)
    (hthread : c'.thread = c.thread)
    (hexclusive : ∀ d ∈ s.calls, d.locked = true → d.thread = c.thread)
    (hheld : c'.calling = true → c'.locked = true)
    (hnested : c'.calling = false → s.innermost c = true) :
    TakeTurns (s.setCall number c') := by
  have hcnumber : c.number = number := by simpa using List.find?_some hc
  have hnumbers := setCall_numbers (s := s) (hnumber.trans hcnumber)
  refine ⟨hnumbers ▸ h.once, hnumbers ▸ h.bounded, fun x hx y hy hxlocked hylocked => ?_,
    fun x hx hcalling => ?_,
    fun x hx hreturned => ?_⟩
  · have hlocked (d : Notification) (hd : d ∈ (s.setCall number c').calls)
        (hdlocked : d.locked = true) : d.thread = c.thread := by
      rcases mem_setCall hd with rfl | ⟨hd, -⟩
      · exact hthread
      · exact hexclusive d hd hdlocked
    exact (hlocked x hx hxlocked).trans (hlocked y hy hylocked).symm
  · rcases mem_setCall hx with rfl | ⟨hx, -⟩
    · exact hheld hcalling
    · exact h.held x hx hcalling
  · rcases mem_setCall hx with rfl | ⟨hx, -⟩
    · have hinnermost := setCall_innermost hc hnumber hthread (hnested hreturned)
      rw [innermost_iff, ← hnumber, ← hthread] at hinnermost
      exact innermost_iff.mpr hinnermost
    · exact setCall_innermost hc hnumber hthread (h.nested x hx hreturned)

/-- Only the notifications matter. -/
theorem congr (h : TakeTurns s) (hcalls : t.calls = s.calls)
    (hnotifications : t.notifications = s.notifications) (hcompleted : t.completed = s.completed) :
    TakeTurns t := by
  have hnumbers : t.numbers = s.numbers := by rw [ObserverSystem.numbers, hcalls, hcompleted]; rfl
  refine ⟨hnumbers ▸ h.once, ?_, hcalls ▸ h.exclusive, hcalls ▸ h.held, fun c hc hreturned => ?_⟩
  · rw [hnumbers, hnotifications]
    exact h.bounded
  · rw [ObserverSystem.innermost, hcalls]
    exact h.nested c (hcalls ▸ hc) hreturned

/-- A new notification has a number of its own. -/
theorem numbered (h : TakeTurns s) (hperm : t.numbers.Perm (s.notifications :: s.numbers))
    (hnotifications : t.notifications = s.notifications + 1) :
    t.numbers.Nodup ∧ ∀ n ∈ t.numbers, n < t.notifications := by
  refine ⟨hperm.nodup_iff.mpr
    (List.nodup_cons.mpr ⟨fun hmem => Nat.lt_irrefl _ (h.bounded _ hmem), h.once⟩), fun n hn => ?_⟩
  rw [hnotifications]
  rcases List.mem_cons.mp (hperm.mem_iff.mp hn) with rfl | hn
  · exact Nat.lt_succ_self _
  · exact Nat.lt_succ_of_lt (h.bounded n hn)

/-- A notification that begins in a free thread lets the others take turns. -/
theorem enter (h : TakeTurns s) {thread : ℕ} (hfree : s.free thread = true) :
    TakeTurns (s.enter thread) := by
  have hcalling : ∀ d ∈ s.calls, d.thread = thread → d.calling = true := by
    simp only [ObserverSystem.free, List.all_eq_true, Bool.or_eq_true, decide_eq_true_eq] at hfree
    exact fun d hd hthread => (hfree d hd).resolve_left (not_not.mpr hthread)
  have hsplit {d : Notification} (hd : d ∈ (s.enter thread).calls) :
      d ∈ s.calls ∨ d = ⟨s.notifications, thread, s.registry.values, [], false, false⟩ := by
    simpa [ObserverSystem.enter] using hd
  obtain ⟨honce, hbounded⟩ := h.numbered (s.enter_numbers thread) rfl
  refine ⟨honce, hbounded, fun x hx y hy hxlocked hylocked => ?_, fun x hx hxcalling => ?_,
    fun x hx hreturned => ?_⟩
  · rcases hsplit hx with hx | rfl
    · rcases hsplit hy with hy | rfl
      · exact h.exclusive x hx y hy hxlocked hylocked
      · contradiction
    · contradiction
  · rcases hsplit hx with hx | rfl
    · exact h.held x hx hxcalling
    · contradiction
  · rw [innermost_iff]
    intro d hd hdthread
    rcases hsplit hx with hx | rfl
    · rcases hsplit hd with hd | rfl
      · exact innermost_iff.mp (h.nested x hx hreturned) d hd hdthread
      · simp [hcalling x hx hdthread.symm] at hreturned
    · rcases hsplit hd with hd | rfl
      · exact (h.bounded _ (List.mem_append_right _ (List.mem_map_of_mem hd))).le
      · exact Nat.le_refl _

/-- A notification that is over lets the others take turns. -/
theorem leave (h : TakeTurns s) (hc : s.call? number = some c) (invoked : List ObserverEntry) :
    TakeTurns (s.leave number invoked) := by
  have hsub {d : Notification} (hd : d ∈ (s.leave number invoked).calls) : d ∈ s.calls :=
    List.mem_of_mem_eraseP hd
  have hperm := ObserverSystem.leave_numbers hc invoked
  refine ⟨hperm.nodup_iff.mpr h.once, fun n hn => h.bounded n (hperm.mem_iff.mp hn),
    fun x hx y hy => h.exclusive x (hsub hx) y (hsub hy), fun x hx => h.held x (hsub hx),
    fun x hx hreturned => ?_⟩
  rw [innermost_iff]
  exact fun d hd => innermost_iff.mp (h.nested x (hsub hx) hreturned) d (hsub hd)

/-- Every step lets the notifications take turns. -/
theorem step {l : ObserverLabel} (h : TakeTurns s) (hstep : s.step l = some t) : TakeTurns t := by
  have hmem {number : ℕ} {c : Notification} (hc : s.call? number = some c) : c ∈ s.calls :=
    List.mem_of_find?_eq_some hc
  cases ObserverSystem.step_cases hstep with
  | op happly =>
    obtain ⟨hcalls, hnotifications, hcompleted⟩ := ObserverSystem.apply_calls happly
    exact h.congr hcalls hnotifications hcompleted
  | unheard hempty =>
    obtain ⟨honce, hbounded⟩ := h.numbered s.skip_numbers rfl
    exact ⟨honce, hbounded, h.exclusive, h.held, h.nested⟩
  | notify hfree => exact h.enter hfree
  | acquire hc hunlocked hlockable =>
    refine h.update hc rfl rfl (fun d hd hlocked => ?_) (fun _ => rfl) fun hreturned =>
      h.nested _ (hmem hc) hreturned
    simp only [ObserverSystem.lockable, List.all_eq_true, Bool.or_eq_true, decide_eq_true_eq,
      Bool.not_eq_true'] at hlockable
    exact (hlockable d hd).resolve_right (by simp [hlocked])
  | invoke hc hobservers hlocked hreturned =>
    exact h.update hc rfl rfl (fun d hd hdlocked => h.exclusive d hd _ (hmem hc) hdlocked hlocked)
      (fun _ => hlocked) nofun
  | returns hl hc hcalling hinnermost =>
    have hlocked := h.held _ (hmem hc) hcalling
    exact h.update hc rfl rfl (fun d hd hdlocked => h.exclusive d hd _ (hmem hc) hdlocked hlocked)
      nofun fun _ => hinnermost
  | finish hc hlocked hreturned hobservers => exact h.leave hc _

/-- Nothing is in progress at first. -/
theorem init : TakeTurns {} := ⟨List.nodup_nil, nofun, nofun, nofun, nofun⟩

end TakeTurns

namespace Delivers

variable {observers : List ObserverEntry}

/-- A notification that was present and is not yet completed goes on with the observers it has. -/
theorem update (h : Delivers number observers s) {n : ℕ} (hc : s.call? n = some c)
    (hnumber : c'.number = c.number)
    (hinvoked : c'.invoked ++ c'.observers = c.invoked ++ c.observers) :
    Delivers number observers (s.setCall n c') := by
  have hcnumber : c.number = n := by simpa using List.find?_some hc
  refine ⟨TakeTurns.setCall_numbers (s := s) (hnumber.trans hcnumber) ▸ h.present,
    fun d hd hdnumber => ?_, h.completed⟩
  rcases TakeTurns.mem_setCall hd with rfl | ⟨hd, -⟩
  · rw [hinvoked]
    exact h.progress c (List.mem_of_find?_eq_some hc) (hnumber ▸ hdnumber)
  · exact h.progress d hd hdnumber

/-- Every step lets a notification call the observers it began with. -/
theorem step {l : ObserverLabel} (h : Delivers number observers s) (hturns : TakeTurns s)
    (hstep : s.step l = some t) :
    Delivers number observers t := by
  have hne : s.notifications ≠ number := (hturns.bounded number h.present).ne'
  cases ObserverSystem.step_cases hstep with
  | op happly =>
    obtain ⟨hcalls, -, hcompleted⟩ := ObserverSystem.apply_calls happly
    refine ⟨?_, hcalls ▸ h.progress, hcompleted ▸ h.completed⟩
    rw [ObserverSystem.numbers, hcalls, hcompleted]
    exact h.present
  | unheard hempty =>
    refine ⟨s.skip_numbers.mem_iff.mpr (List.mem_cons_of_mem _ h.present), h.progress,
      fun p hp hnumber => ?_⟩
    rcases List.mem_append.mp hp with hp | hp
    · exact h.completed p hp hnumber
    · rw [List.mem_singleton.mp hp] at hnumber
      exact absurd hnumber hne
  | @notify thread hfree =>
    refine ⟨(s.enter_numbers thread).mem_iff.mpr (List.mem_cons_of_mem _ h.present),
      fun d hd hnumber => ?_, h.completed⟩
    rcases List.mem_append.mp hd with hd | hd
    · exact h.progress d hd hnumber
    · rw [List.mem_singleton.mp hd] at hnumber
      exact absurd hnumber hne
  | acquire hc hunlocked hlockable => exact h.update hc rfl rfl
  | invoke hc hobservers hlocked hreturned => exact h.update hc rfl (by simp [hobservers])
  | returns hl hc hcalling hinnermost => exact h.update hc rfl rfl
  | @finish n c hc hlocked hreturned hobservers =>
    refine ⟨(ObserverSystem.leave_numbers hc _).mem_iff.mpr h.present, fun d hd =>
      h.progress d (List.mem_of_mem_eraseP hd),
      fun p hp hnumber => ?_⟩
    rcases List.mem_append.mp hp with hp | hp
    · exact h.completed p hp hnumber
    · rw [List.mem_singleton.mp hp] at hnumber ⊢
      have hcnumber : c.number = n := by simpa using List.find?_some hc
      simpa [hobservers] using h.progress c (List.mem_of_find?_eq_some hc) (hcnumber.trans hnumber)

/-- A notification that begins delivers to the observers that are registered. -/
theorem begins (hturns : TakeTurns s) {thread : ℕ} (hstep : s.step (.notify thread) = some t) :
    Delivers s.notifications s.registry.values t := by
  have hfresh : s.notifications ∉ s.numbers := fun hmem => Nat.lt_irrefl _ (hturns.bounded _ hmem)
  have hcalls : ∀ d ∈ s.calls, d.number ≠ s.notifications := fun d hd hnumber =>
    hfresh (List.mem_append_right _ (hnumber ▸ List.mem_map_of_mem hd))
  have hcompleted : ∀ p ∈ s.completed, p.1 ≠ s.notifications := fun p hp hnumber =>
    hfresh (List.mem_append_left _ (hnumber ▸ List.mem_map_of_mem hp))
  cases ObserverSystem.step_cases hstep with
  | unheard hempty =>
    refine ⟨s.skip_numbers.mem_iff.mpr List.mem_cons_self, fun d hd hnumber =>
      absurd hnumber (hcalls d hd), fun p hp hnumber => ?_⟩
    rcases List.mem_append.mp hp with hp | hp
    · exact absurd hnumber (hcompleted p hp)
    · rw [List.mem_singleton.mp hp, hempty]
  | notify hfree =>
    refine ⟨(s.enter_numbers thread).mem_iff.mpr List.mem_cons_self, fun d hd hnumber => ?_,
      fun p hp hnumber => absurd hnumber (hcompleted p hp)⟩
    rcases List.mem_append.mp hd with hd | hd
    · exact absurd hnumber (hcalls d hd)
    · rw [List.mem_singleton.mp hd]
      rfl
  | returns hl hc hcalling hinnermost => rcases hl with hl | hl <;> contradiction

end Delivers

namespace TakeTurns

/-- Looking up a notification that was updated. -/
theorem call?_setCall (hc : s.call? number = some c) (hnumber : c'.number = number) :
    (s.setCall number c').call? number = some c' := by
  have hkey :
      ((fun d : Notification => decide (d.number = number)) ∘ fun d => if d.number =
        number then c' else d) =
      fun d => decide (d.number = number) := by
    funext d
    simp only [Function.comp_apply]
    split
    · rename_i hd
      rw [hnumber, hd]
    · rfl
  rw [ObserverSystem.call?] at hc
  rw [ObserverSystem.call?, ObserverSystem.setCall, List.find?_map, hkey, hc, Option.map_some,
    if_pos (by simpa using List.find?_some hc)]

/-- Updating a notification neither begins nor ends one. -/
theorem setCall_length (s : ObserverSystem) (number : ℕ) (c : Notification) :
    (s.setCall number c).calls.length = s.calls.length := List.length_map ..

/-- The callback of an innermost notification can return. -/
theorem canReturn (hc : s.call? number = some c) (hcalling : c.calling = true)
    (hinnermost : s.innermost c = true) :
    s.step (.returns number) = some (s.setCall number { c with calling := false }) := by
  simp [ObserverSystem.step, hc, hcalling, hinnermost]

/-- A notification that holds the mutex and is outside a callback can call its observers and
return. -/
theorem completes (h : TakeTurns s) (hc : s.call? number = some c) (hlocked : c.locked = true)
    (hreturned : c.calling = false) :
    ∃ ls t, run ObserverSystem.step s ls = some t ∧ TakeTurns t ∧
    t.calls.length + 1 = s.calls.length := by
  induction hobservers : c.observers generalizing s c with
  | nil =>
    have hstep : s.step (.finish number) = some (s.leave number c.invoked) := by
      simp [ObserverSystem.step, hc, hlocked, hreturned, hobservers]
    refine ⟨[.finish number], _, run_cons.mpr ⟨_, hstep, rfl⟩, h.step hstep, ?_⟩
    exact (perm_of_find? hc).length_eq.symm
  | cons value rest ih =>
    have hcnumber : c.number = number := by simpa using List.find?_some hc
    have hinvoke : s.step (.invoke number) =
        some (s.setCall number { c with
          observers := rest, invoked := c.invoked ++ [value], calling := true }) := by
      simp [ObserverSystem.step, hc, hlocked, hreturned, hobservers]
    have hcalled :
        (s.setCall number { c with
          observers := rest, invoked := c.invoked ++ [value], calling := true }).call? number =
        some { c with observers := rest, invoked := c.invoked ++ [value], calling := true } :=
          call?_setCall hc hcnumber
    have hinnermost :
        (s.setCall number { c with
          observers := rest, invoked := c.invoked ++ [value], calling := true }).innermost c =
        true := @setCall_innermost s number c { c with
          observers := rest, invoked := c.invoked ++ [value], calling := true }
      hc rfl rfl c (h.nested c (List.mem_of_find?_eq_some hc) hreturned)
    have hback := canReturn hcalled rfl hinnermost
    obtain ⟨ls, t, hrun, hturns, hlength⟩ :=
      ih ((h.step hinvoke).step hback) (call?_setCall hcalled hcnumber) hlocked rfl rfl
    refine ⟨.invoke number :: .returns number :: ls, t,
      run_cons.mpr ⟨_, hinvoke, run_cons.mpr ⟨_, hback, hrun⟩⟩, hturns, ?_⟩
    rw [hlength, setCall_length, setCall_length]

/-- The innermost notification of a thread that may hold the mutex can be brought to an end. -/
theorem canLeave (h : TakeTurns s) (hc : c ∈ s.calls) (hinnermost : s.innermost c = true)
    (hexclusive : ∀ d ∈ s.calls, d.locked = true → d.thread = c.thread) :
    ∃ ls t, run ObserverSystem.step s ls = some t ∧ TakeTurns t ∧
    t.calls.length + 1 = s.calls.length := by
  have hlookup : s.call? c.number = some c := by
    cases hfind : s.call? c.number with
    | none => exact absurd (List.find?_eq_none.mp hfind c hc) (by simp)
    | some d => rw [h.unique hfind hc rfl]
  cases hlocked : c.locked with
  | false =>
    have hlockable : s.lockable c.thread = true := by
      simp only [ObserverSystem.lockable, List.all_eq_true, Bool.or_eq_true,
        decide_eq_true_eq, Bool.not_eq_true']
      exact fun d hd => (Bool.eq_false_or_eq_true d.locked).symm.elim Or.inr fun hdlocked =>
        Or.inl (hexclusive d hd hdlocked)
    have hreturned : c.calling = false := by
      by_contra hcalling
      simp [h.held c hc (by simpa using hcalling)] at hlocked
    have hacquire : s.step (.acquire c.number) =
        some (s.setCall c.number { c with locked := true }) := by
      simp [ObserverSystem.step, hlookup, hlocked, hlockable]
    obtain ⟨ls, t, hrun, hturns, hlength⟩ :=
      (h.step hacquire).completes (call?_setCall hlookup rfl) rfl hreturned
    exact ⟨.acquire c.number :: ls, t, run_cons.mpr ⟨_, hacquire, hrun⟩, hturns,
      hlength.trans (setCall_length _ _ _)⟩
  | true =>
    cases hcalling : c.calling with
    | false => exact h.completes hlookup hlocked hcalling
    | true =>
      have hback := canReturn hlookup hcalling hinnermost
      obtain ⟨ls, t, hrun, hturns, hlength⟩ :=
        (h.step hback).completes (call?_setCall hlookup rfl) hlocked rfl
      exact ⟨.returns c.number :: ls, t, run_cons.mpr ⟨_, hback, hrun⟩, hturns,
        hlength.trans (setCall_length _ _ _)⟩

/-- Some notification in progress can be brought to an end. -/
theorem exists_leaving (h : TakeTurns s) (hcalls : s.calls ≠ []) :
    ∃ c ∈ s.calls, s.innermost c = true ∧
    ∀ d ∈ s.calls, d.locked = true → d.thread = c.thread := by
  obtain ⟨first, hfirst, hexclusive⟩ : ∃ c ∈ s.calls, ∀ d ∈ s.calls, d.locked = true →
    d.thread = c.thread := by
    by_cases hheld : ∃ c ∈ s.calls, c.locked = true
    · obtain ⟨c, hc, hlocked⟩ := hheld
      exact ⟨c, hc, fun d hd hdlocked => h.exclusive d hd c hc hdlocked hlocked⟩
    · obtain ⟨c, hc⟩ := List.exists_mem_of_ne_nil _ hcalls
      exact ⟨c, hc, fun d hd hdlocked => absurd ⟨d, hd, hdlocked⟩ hheld⟩
  obtain ⟨c, hc, hmax⟩ :=
    (s.calls.filter fun d => d.thread = first.thread).toFinset.exists_max_image Notification.number
    ⟨first, by simpa using hfirst⟩
  rw [List.mem_toFinset, List.mem_filter, decide_eq_true_eq] at hc
  refine ⟨c, hc.1, innermost_iff.mpr fun d hd hthread => hmax d ?_, fun d hd hlocked => ?_⟩
  · rw [List.mem_toFinset, List.mem_filter, decide_eq_true_eq]
    exact ⟨hd, hthread.trans hc.2⟩
  · exact (hexclusive d hd hlocked).trans hc.2.symm

/-- All notifications in progress can be brought to an end. -/
theorem drains (h : TakeTurns s) :
    ∃ ls t, run ObserverSystem.step s ls = some t ∧ t.calls = [] := by
  induction hlength : s.calls.length generalizing s with
  | zero => exact ⟨[], s, rfl, List.length_eq_zero_iff.mp hlength⟩
  | succ n ih =>
    obtain ⟨c, hc, hinnermost, hexclusive⟩ := h.exists_leaving fun hnil => by simp [hnil] at hlength
    obtain ⟨ls, t, hrun, hturns, hone⟩ := h.canLeave hc hinnermost hexclusive
    obtain ⟨ms, u, hrest, hdone⟩ := ih hturns (by omega)
    exact ⟨ls ++ ms, u, run_append.mpr ⟨t, hrun, hrest⟩, hdone⟩

end TakeTurns

/-- Whatever is done to handles and whatever the callbacks do, the registrations have increasing
numbers, they are exactly those that some handle owns, and no two handles own the same one. Each
notification calls the observers that were registered when it began, in the order of their
registration and each of them once: what it has called and what it has still to call are
together those observers, and when it is completed it has called them all. It is in progress or
completed, and not completed twice, and all that are in progress can be completed. -/
theorem subscriptions_deliver {ls : List ObserverLabel} {s : ObserverSystem}
    (hrun : run ObserverSystem.step {} ls = some s) :
    (s.registry.values.map (·.id)).Pairwise (· < ·) ∧
      (∀ id, id ∈ s.registry.values.map (·.id) ↔ ∃ handle, s.Owns handle id) ∧
      (∀ handle other id, s.Owns handle id → s.Owns other id → handle = other) ∧
      s.numbers.Nodup ∧ (∃ ms t, run ObserverSystem.step s ms = some t ∧ t.calls = []) ∧
      ∀ before thread after u, ls = before ++ .notify thread :: after →
      run ObserverSystem.step {} before = some u →
        u.notifications ∈ s.numbers ∧
          (∀ c ∈ s.calls, c.number = u.notifications →
            c.invoked ++ c.observers = u.registry.values) ∧
          ∀ p ∈ s.completed, p.1 = u.notifications → p.2 = u.registry.values := by
  obtain ⟨howned, hturns⟩ : Owned s ∧ TakeTurns s := run_invariant (fun s => Owned s ∧ TakeTurns s)
    (fun _ _ _ h hstep => ⟨h.1.step hstep, h.2.step hstep⟩) ⟨.init, .init⟩ hrun
  refine ⟨howned.increasing, howned.registered, fun _ _ _ => howned.unique,
    hturns.once, hturns.drains, ?_⟩
  rintro before thread after u rfl hbefore
  obtain ⟨v, hv, hrest⟩ := run_append.mp hrun
  obtain rfl : u = v := Option.some.inj (hbefore.symm.trans hv)
  obtain ⟨w, hnotify, hafter⟩ := run_cons.mp hrest
  have hu : TakeTurns u := run_invariant TakeTurns (fun _ _ _ h hstep => h.step hstep) .init hbefore
  obtain ⟨-, hpresent, hprogress, hcompleted⟩ : TakeTurns s ∧
    Delivers u.notifications u.registry.values s :=
    run_invariant (fun s => TakeTurns s ∧ Delivers u.notifications u.registry.values s)
      (fun _ _ _ h hstep => ⟨h.1.step hstep, h.2.step h.1 hstep⟩)
      ⟨hu.step hnotify, .begins hu hnotify⟩ hafter
  exact ⟨hpresent, hprogress, hcompleted⟩

/-- Two observers are registered; the callback of the first resets the handle of the second,
registers a third observer, notifies and throws. -/
def reentrantCallback : List ObserverLabel :=
  [.op 0 (.observe 0 (some 7)), .op 0 (.observe 1 (some 8)), .op 0 (.moveAssign 1 1),
    .op 0 (.moveConstruct 2 1), .notify 0,
    .acquire 0, .invoke 0, .op 0 (.reset 2), .op 0 (.observe 3 (some 9)), .notify 0, .acquire 1,
    .invoke 1, .returns 1,
    .invoke 1, .returns 1, .finish 1, .throws 0, .invoke 0, .returns 0, .finish 0]

/-- The outer notification has called the two observers that were registered when it began, and
the inner one the two that were registered by then. -/
theorem subscriptions_deliver_reentrant : ∃ s : ObserverSystem,
    run ObserverSystem.step {} reentrantCallback = some s ∧
      s.completed = [(1, [⟨1, 7⟩, ⟨3, 9⟩]), (0, [⟨1, 7⟩, ⟨2, 8⟩])] ∧
      (s.registry.values.map (·.id)).Pairwise (· < ·) ∧ s.numbers.Nodup := by
  have h : run ObserverSystem.step {} reentrantCallback = some _ := rfl
  obtain ⟨hincreasing, -, -, hnodup, -⟩ := subscriptions_deliver h
  exact ⟨_, h, rfl, hincreasing, hnodup⟩

end Serveza
