import Serveza.Foundation.Brackets
import Serveza.Foundation.Potential
import Serveza.ObserverDelivery

/-!
# Callbacks of observers

Notifications of different threads may be in progress at the same time, and a callback may
notify again. The callbacks are nonetheless made one inside the other and by one thread at a
time: a callback that begins while another one runs is made by that callback, and it ends before
it. Notifications that are left alone come to their end.
-/

namespace Serveza

open Foundation

/-- The callback that a step enters or leaves. -/
def ObserverLabel.callback? : ObserverLabel → Option (Bracket ℕ)
  | .invoke number => some (.opens number)
  | .returns number | .throws number => some (.closes number)
  | _ => none

/-- The step is one of a notification that has begun. -/
def ObserverLabel.isNotifying : ObserverLabel → Bool
  | .op _ _ | .notify _ => false
  | _ => true

/-- The notifications that are inside a callback, the last one first. -/
structure Stacked (s : ObserverSystem) (stack : List ℕ) : Prop where
  sorted : stack.Pairwise (· > ·)
  mem : ∀ n, n ∈ stack ↔ ∃ c ∈ s.calls, c.number = n ∧ c.calling = true

variable {s t : ObserverSystem} {number : ℕ} {c c' : Notification} {stack : List ℕ}

namespace Stacked

/-- A change that leaves every callback alone keeps the stack. -/
theorem congr (h : Stacked s stack)
    (hcalls : ∀ n, (∃ c ∈ t.calls, c.number = n ∧ c.calling = true) ↔
      ∃ c ∈ s.calls, c.number = n ∧ c.calling = true) :
    Stacked t stack := ⟨h.sorted, fun n => (h.mem n).trans (hcalls n).symm⟩

/-- The notifications inside a callback after one of them was updated. -/
theorem mem_calling_setCall (hc : s.call? number = some c) (hnumber : c'.number = number) (n : ℕ) :
    (∃ d ∈ (s.setCall number c').calls, d.number = n ∧ d.calling = true) ↔
      n = number ∧ c'.calling = true ∨ n ≠ number ∧ ∃ d ∈ s.calls, d.number = n ∧
      d.calling = true := by
  constructor
  · rintro ⟨d, hd, rfl, hcalling⟩
    rcases TakeTurns.mem_setCall hd with rfl | ⟨hd, hne⟩
    · exact Or.inl ⟨hnumber, hcalling⟩
    · exact Or.inr ⟨hne, d, hd, rfl, hcalling⟩
  · rintro (⟨rfl, hcalling⟩ | ⟨hne, d, hd, rfl, hcalling⟩)
    · refine ⟨c', List.mem_map.mpr ⟨c, List.mem_of_find?_eq_some hc, if_pos ?_⟩, hnumber, hcalling⟩
      simpa using List.find?_some hc
    · exact ⟨d, List.mem_map.mpr ⟨d, hd, if_neg hne⟩, rfl, hcalling⟩

/-- A callback that begins is inside all that have begun. -/
theorem push (h : Stacked s stack) (hturns : TakeTurns s) (hc : s.call? number = some c)
    (hlocked : c.locked = true) (hreturned : c.calling = false) (hnumber : c'.number = number)
    (hcalling : c'.calling = true) :
    Stacked (s.setCall number c') (number :: stack) := by
  have hmem : c ∈ s.calls := List.mem_of_find?_eq_some hc
  have hcnumber : c.number = number := by simpa using List.find?_some hc
  refine ⟨List.pairwise_cons.mpr ⟨fun n hn => ?_, h.sorted⟩, fun n => ?_⟩
  · obtain ⟨d, hd, rfl, hdcalling⟩ := (h.mem n).mp hn
    have hthread := hturns.exclusive d hd c hmem (hturns.held d hd hdcalling) hlocked
    have hle := TakeTurns.innermost_iff.mp (hturns.nested c hmem hreturned) d hd hthread
    have hne : d.number ≠ number := by
      rintro hd'
      rw [hturns.unique hc hd hd', hreturned] at hdcalling
      contradiction
    omega
  · rw [mem_calling_setCall hc hnumber, List.mem_cons, h.mem]
    simp only [hcalling, and_true]
    by_cases hn : n = number <;> simp [hn]

/-- A callback that ends is the last one that has begun. -/
theorem pop (h : Stacked s stack) (hturns : TakeTurns s) (hc : s.call? number = some c)
    (hcalling : c.calling = true) (hinnermost : s.innermost c = true) (hnumber : c'.number = number)
    (hreturned : c'.calling = false) :
    ∃ rest, stack = number :: rest ∧ Stacked (s.setCall number c') rest := by
  have hmem : c ∈ s.calls := List.mem_of_find?_eq_some hc
  have hcnumber : c.number = number := by simpa using List.find?_some hc
  have hin : number ∈ stack := (h.mem number).mpr ⟨c, hmem, hcnumber, hcalling⟩
  cases stack with
  | nil => simp at hin
  | cons top rest =>
    obtain ⟨hbelow, hrest⟩ := List.pairwise_cons.mp h.sorted
    obtain ⟨d, hd, hdnumber, hdcalling⟩ := (h.mem top).mp List.mem_cons_self
    have hthread :=
      hturns.exclusive d hd c hmem (hturns.held d hd hdcalling) (hturns.held c hmem hcalling)
    have hle := TakeTurns.innermost_iff.mp hinnermost d hd hthread
    obtain rfl : number = top := by
      rcases List.mem_cons.mp hin with heq | hmem
      · exact heq
      · have hlt := hbelow number hmem
        omega
    refine ⟨rest, rfl, hrest, fun n => ?_⟩
    rw [mem_calling_setCall hc hnumber, ← h.mem n, List.mem_cons]
    simp only [hreturned, Bool.false_eq_true, and_false, false_or]
    constructor
    · intro hn
      exact ⟨(hbelow n hn).ne, Or.inr hn⟩
    · rintro ⟨hne, heq | hn⟩
      · exact absurd heq hne
      · exact hn

/-- A step that neither enters nor leaves a callback keeps the stack. -/
theorem keep {l : ObserverLabel} (h : Stacked s stack) (hturns : TakeTurns s)
    (hstep : s.step l = some t) (hl : l.callback? = none) : Stacked t stack := by
  cases ObserverSystem.step_cases hstep with
  | op happly =>
    obtain ⟨hcalls, -⟩ := ObserverSystem.apply_calls happly
    exact h.congr fun n => by rw [hcalls]
  | unheard hempty => exact h.congr fun n => Iff.rfl
  | notify hfree => exact h.congr fun n => by simp [ObserverSystem.enter, or_and_right, exists_or]
  | @acquire number c hc hunlocked hlockable =>
    have hcnumber : { c with locked := true }.number = number := by simpa using List.find?_some hc
    refine h.congr fun n => (mem_calling_setCall hc hcnumber n).trans ⟨?_, ?_⟩
    · rintro (⟨rfl, hcalling⟩ | ⟨-, hd⟩)
      · exact ⟨c, List.mem_of_find?_eq_some hc, hcnumber, hcalling⟩
      · exact hd
    · rintro ⟨d, hd, rfl, hcalling⟩
      by_cases hdnumber : d.number = number
      · exact Or.inl ⟨hdnumber, hturns.unique hc hd hdnumber ▸ hcalling⟩
      · exact Or.inr ⟨hdnumber, d, hd, rfl, hcalling⟩
  | invoke hc hobservers hlocked hreturned => contradiction
  | returns hl' hc hcalling hinnermost => rcases hl' with rfl | rfl <;> contradiction
  | @finish number c hc hlocked hreturned hobservers =>
    refine h.congr fun n => ?_
    have hperm := perm_of_find? hc
    constructor
    · rintro ⟨d, hd, hdnumber, hcalling⟩
      exact ⟨d, List.mem_of_mem_eraseP hd, hdnumber, hcalling⟩
    · rintro ⟨d, hd, hdnumber, hcalling⟩
      rcases List.mem_cons.mp (hperm.subset hd) with rfl | hd
      · simp [hreturned] at hcalling
      · exact ⟨d, hd, hdnumber, hcalling⟩

/-- A step that enters a callback puts it on the stack. -/
theorem enters {l : ObserverLabel} {k : ℕ} (h : Stacked s stack) (hturns : TakeTurns s)
    (hstep : s.step l = some t) (hl : l.callback? = some (.opens k)) : Stacked t (k :: stack) := by
  cases ObserverSystem.step_cases hstep with
  | @invoke number c value rest hc hobservers hlocked hreturned =>
    have hcnumber : c.number = number := by simpa using List.find?_some hc
    cases hl
    exact h.push hturns hc hlocked hreturned hcnumber rfl
  | returns hl' hc hcalling hinnermost => rcases hl' with rfl | rfl <;> cases hl
  | _ => cases hl

/-- A step that leaves a callback takes it off the stack. -/
theorem leaves {l : ObserverLabel} {k : ℕ} (h : Stacked s stack) (hturns : TakeTurns s)
    (hstep : s.step l = some t) (hl : l.callback? = some (.closes k)) :
    ∃ rest, stack = k :: rest ∧ Stacked t rest := by
  cases ObserverSystem.step_cases hstep with
  | @returns _ number c hl' hc hcalling hinnermost =>
    have hcnumber : c.number = number := by simpa using List.find?_some hc
    obtain rfl : number = k := by
      rcases hl' with rfl | rfl <;> exact Bracket.closes.inj (Option.some.inj hl)
    exact h.pop hturns hc hcalling hinnermost hcnumber rfl
  | _ => cases hl

end Stacked

/-- The steps a notification still takes if nothing new begins. -/
def Notification.work (c : Notification) : ℕ :=
  (if c.locked then 0 else 1) + 2 * c.observers.length + (if c.calling then 1 else 0) + 1

namespace ObserverSystem

/-- The steps all notifications in progress still take. -/
def work (s : ObserverSystem) : ℕ := (s.calls.map Notification.work).sum

/-- Every step of a notification takes one off the work that is left. -/
theorem work_step {l : ObserverLabel} (hturns : TakeTurns s) (hl : l.isNotifying = true)
    (hstep : s.step l = some t) :
    t.work < s.work := by
  have hnodup : (s.calls.map (·.number)).Nodup := (List.nodup_append.mp hturns.once).2.1
  have hset {number : ℕ} {c c' : Notification} (hc : s.call? number = some c)
      (hless : c'.work < c.work) : (s.setCall number c').work < s.work := by
    have hsum := sum_map_replace Notification.number Notification.work c' hnodup hc
    simp only [work, setCall]
    omega
  cases step_cases hstep with
  | op happly => contradiction
  | unheard hempty => contradiction
  | notify hfree => contradiction
  | acquire hc hunlocked hlockable => exact hset hc (by simp [Notification.work, hunlocked])
  | invoke hc hobservers hlocked hreturned =>
    exact hset hc (by simp [Notification.work, hobservers, hreturned]; omega)
  | returns hl' hc hcalling hinnermost => exact hset hc (by simp [Notification.work, hcalling])
  | finish hc hlocked hreturned hobservers =>
    have hsum := ((perm_of_find? hc).map Notification.work).sum_eq
    rw [List.map_cons, List.sum_cons] at hsum
    simp only [work, leave, hsum]
    exact Nat.lt_add_of_pos_left (Nat.succ_pos _)

end ObserverSystem

/-- As long as a notification is in progress, one of them can go on. -/
theorem TakeTurns.progress (h : TakeTurns s) (hcalls : s.calls ≠ []) :
    ∃ l : ObserverLabel, l.isNotifying = true ∧ (s.step l).isSome = true := by
  obtain ⟨c, hc, hinnermost, hexclusive⟩ := h.exists_leaving hcalls
  have hlookup : s.call? c.number = some c := find?_of_mem (List.nodup_append.mp h.once).2.1 hc
  cases hlocked : c.locked with
  | false =>
    have hlockable : s.lockable c.thread = true := by
      simp only [ObserverSystem.lockable, List.all_eq_true, Bool.or_eq_true,
        decide_eq_true_eq, Bool.not_eq_true']
      exact fun d hd => (Bool.eq_false_or_eq_true d.locked).symm.elim Or.inr fun hdlocked =>
        Or.inl (hexclusive d hd hdlocked)
    exact ⟨.acquire c.number, rfl, by simp [ObserverSystem.step, hlookup, hlocked, hlockable]⟩
  | true =>
    cases hcalling : c.calling with
    | true =>
      exact ⟨.returns c.number, rfl, by simp [ObserverSystem.step, hlookup, hcalling, hinnermost]⟩
    | false =>
      cases hobservers : c.observers with
      | nil =>
        exact ⟨.finish c.number, rfl,
          by simp [ObserverSystem.step, hlookup, hlocked, hcalling, hobservers]⟩
      | cons value rest =>
        exact ⟨.invoke c.number, rfl,
          by simp [ObserverSystem.step, hlookup, hlocked, hcalling, hobservers]⟩

/-- Whatever threads notify, the callbacks of observers are nested: each one that ends is the
last one that has begun, the notifications inside a callback form a stack, and they belong to one
thread. Notifications that are left alone take a bounded number of steps, and they are not stuck
before all of them have ended. -/
theorem callbacks_nest {ls : List ObserverLabel} {s : ObserverSystem}
    (hrun : run ObserverSystem.step {} ls = some s) :
    (∃ stack, run Bracket.step [] (ls.filterMap ObserverLabel.callback?) =
      some stack ∧ Stacked s stack) ∧
    (∀ c ∈ s.calls, ∀ d ∈ s.calls, c.calling = true → d.calling = true → c.thread = d.thread) ∧
    ∀ ms t, (∀ l ∈ ms, ObserverLabel.isNotifying l = true) → run ObserverSystem.step s ms = some t →
      ms.length + t.work ≤ s.work ∧
      ((∀ l, ObserverLabel.isNotifying l = true → t.step l = none) → t.calls = []) := by
  have hturns : TakeTurns s :=
    run_invariant TakeTurns (fun _ _ _ h hstep => h.step hstep) .init hrun
  refine ⟨?_, fun c hc d hd hcalling hdcalling => ?_, fun ms t hms hmore => ⟨?_, fun hstuck => ?_⟩⟩
  · have hleaves (a : ObserverSystem) (l : ObserverLabel) (b : ObserverSystem)
        (stack : List ℕ) (k : ℕ)
        (h : TakeTurns a ∧ Stacked a stack) (hstep : a.step l = some b)
          (hl : l.callback? = some (.closes k)) :
        ∃ rest, stack = k :: rest ∧ TakeTurns b ∧ Stacked b rest := by
      obtain ⟨rest, hrest, hb⟩ := h.2.leaves h.1 hstep hl
      exact ⟨rest, hrest, h.1.step hstep, hb⟩
    obtain ⟨stack, hstack, -, hs⟩ :=
      run_nested ObserverLabel.callback? (fun s stack => TakeTurns s ∧ Stacked s stack)
      (fun _ _ _ _ h hstep hl => ⟨h.1.step hstep, h.2.keep h.1 hstep hl⟩)
      (fun _ _ _ _ _ h hstep hl => ⟨h.1.step hstep, h.2.enters h.1 hstep hl⟩) hleaves
        ⟨.init, ⟨.nil, by simp⟩⟩ hrun
    exact ⟨stack, hstack, hs⟩
  · exact hturns.exclusive c hc d hd (hturns.held c hc hcalling) (hturns.held d hd hdcalling)
  · exact run_length_le (Q := fun l => ObserverLabel.isNotifying l = true) ObserverSystem.work
      (fun _ _ _ h _ hstep => TakeTurns.step h hstep)
      (fun _ _ _ h hl hstep => ObserverSystem.work_step h hl hstep) hturns hms hmore
  · have hlast : TakeTurns t :=
      run_invariant TakeTurns (fun _ _ _ h hstep => h.step hstep) hturns hmore
    by_contra hcalls
    obtain ⟨l, hl, hsome⟩ := hlast.progress hcalls
    simp [hstuck l hl] at hsome

/-- Two observers are registered and their callbacks notify again: the inner callbacks are nested
in the outer one. -/
theorem callbacks_nest_reentrant :
    ∃ s : ObserverSystem, run ObserverSystem.step {} reentrantCallback = some s ∧
    ∃ stack, run Bracket.step [] (reentrantCallback.filterMap ObserverLabel.callback?) =
      some stack ∧ Stacked s stack := by
  have h : run ObserverSystem.step {} reentrantCallback = some _ := rfl
  exact ⟨_, h, (callbacks_nest h).1⟩

end Serveza
