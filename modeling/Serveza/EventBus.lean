import Mathlib.Data.List.Infix
import Serveza.ObserverDelivery

/-!
# Events on their way to observers

A source of events, such as the strand of a listener, passes its events to `notify` one after
the other, and each call of `notify` returns before the next one is made. Several sources share
one registry. The model remembers which notification carries which event, the registrations that
were there when an event was emitted, and what has been received under each of them. Notifications
that do not belong to a source are not covered: the events of a server go through the same registry,
each in a task of its own on the executor of the server, and no step here begins one.
-/

namespace Serveza

open Foundation

/-- The observers, the source and the event of each notification, the events of each source with
the registrations that were there, and the events received: source, registration, event. -/
structure EventBus (E : Type) where
  system : ObserverSystem := {}
  origin : ℕ → Option (ℕ × E) := fun _ => none
  emitted : ℕ → List (E × List ℕ) := fun _ => []
  received : List (ℕ × ℕ × E) := []

/-- The step begins a notification. -/
def ObserverLabel.isNotify : ObserverLabel → Bool
  | .notify _ => true
  | _ => false

namespace EventBus

variable {E : Type} (b : EventBus E)

/-- A notification of the source is in progress. -/
def busy (source : ℕ) : Bool :=
  b.system.calls.any fun c => (b.origin c.number).any fun p => p.1 = source

/-- Note the event of the notification that begins, and the registrations that are there. -/
def note (source : ℕ) (event : E) (system : ObserverSystem) : EventBus E :=
  { b with
    system := system
    origin := Function.update b.origin b.system.notifications (some (source, event))
    emitted := Function.update b.emitted source
      (b.emitted source ++ [(event, b.system.registry.values.map (·.id))]) }

/-- A source passes an event to `notify`. -/
def emit (source thread : ℕ) (event : E) : Option (EventBus E) :=
  if b.busy source then none else (b.system.step (.notify thread)).map (b.note source event)

/-- What is received in a step: a callback passes on the event of its notification. -/
def calls : ObserverLabel → List (ℕ × ℕ × E)
  | .invoke number => ((b.system.call? number).bind fun c => c.observers.head?.bind fun value =>
      (b.origin number).map fun p => (p.1, value.id, p.2)).toList
  | _ => []

/-- Any other step of the observers; only a source begins a notification. -/
def observe (l : ObserverLabel) : Option (EventBus E) :=
  if l.isNotify then none
  else (b.system.step l).map fun system => { b with
    system := system, received := b.received ++ b.calls l }

/-- The events of a source that were received under a registration. -/
def receivedBy (source id : ℕ) : List E :=
  (b.received.filter fun p => p.1 = source ∧ p.2.1 = id).map (·.2.2)

/-- The events that a source emitted while a registration was there. -/
def meantFor (source id : ℕ) : List E := ((b.emitted source).filter fun p => id ∈ p.2).map (·.1)

/-- What the observers keep: notifications take turns, registrations are owned, and no
notification calls an observer twice for one registration. -/
structure Sound : Prop where
  turns : TakeTurns b.system
  owned : Owned b.system
  distinct : ∀ c ∈ b.system.calls, (c.observers.map (·.id)).Nodup

/-- What was received of a source under a registration, and what its notification in progress
will still pass on, is what was meant for the registration. -/
structure Delivering (source id : ℕ) : Prop where
  single : ∀ c ∈ b.system.calls, ∀ d ∈ b.system.calls, ∀ e e',
    b.origin c.number = some (source, e) →
    b.origin d.number = some (source, e') → c.number = d.number
  ongoing : ∀ c ∈ b.system.calls, ∀ e, b.origin c.number = some (source, e) →
    b.receivedBy source id ++ (c.observers.filter (·.id = id)).map (fun _ => e) =
    b.meantFor source id
  idle : (∀ c ∈ b.system.calls, ∀ e, b.origin c.number ≠ some (source, e)) →
    b.receivedBy source id = b.meantFor source id

variable {b} {b' : EventBus E} {source id : ℕ}

/-- An emitted event comes after those that its source has emitted. -/
theorem note_emitted_self (source : ℕ) (event : E) (system : ObserverSystem) :
    (b.note source event system).emitted source =
    b.emitted source ++ [(event, b.system.registry.values.map (·.id))] := Function.update_self ..

/-- An emitted event is none of another source. -/
theorem note_emitted_of_ne {other : ℕ} (h : other ≠ source) (event : E) (system : ObserverSystem) :
    (b.note source event system).emitted other = b.emitted other := Function.update_of_ne h ..

/-- No notification of the source is in progress. -/
theorem busy_eq_false :
    b.busy source = false ↔ ∀ c ∈ b.system.calls, ∀ e, b.origin c.number ≠ some (source, e) := by
  simp only [busy, List.any_eq_false, Option.any_eq_true, not_exists, not_and, decide_eq_true_eq]
  constructor
  · intro h c hc e he
    exact h c hc (source, e) he rfl
  · rintro h c hc ⟨i, e⟩ hp rfl
    exact h c hc e hp

/-- Received events are counted one after the other. -/
theorem receivedBy_append (more : List (ℕ × ℕ × E)) (hreceived : b'.received = b.received ++ more) :
    b'.receivedBy source id = b.receivedBy source id ++
      (more.filter fun p => p.1 = source ∧ p.2.1 = id).map (·.2.2) := by
  rw [receivedBy, receivedBy, hreceived, List.filter_append, List.map_append]

/-- A change of the notifications in progress that adds no source and loses no observer. -/
theorem Delivering.congr (h : b.Delivering source id) (horigin : b'.origin = b.origin)
    (hemitted : b'.emitted = b.emitted) (hreceived : b'.received = b.received)
    (hcalls : ∀ d ∈ b'.system.calls, ∃ c ∈ b.system.calls, c.number = d.number ∧
      c.observers = d.observers)
    (hback : ∀ c ∈ b.system.calls, c.observers = [] ∨ ∃ d ∈ b'.system.calls, c.number = d.number) :
    b'.Delivering source id := by
  have hsame : b'.receivedBy source id = b.receivedBy source id := by
    rw [receivedBy, receivedBy, hreceived]
  have hmeant : b'.meantFor source id = b.meantFor source id := by rw [meantFor, meantFor, hemitted]
  refine ⟨fun c hc d hd e e' he he' => ?_, fun d hd e he => ?_, fun hnone => ?_⟩
  · obtain ⟨c₀, hc₀, hcnumber, -⟩ := hcalls c hc
    obtain ⟨d₀, hd₀, hdnumber, -⟩ := hcalls d hd
    rw [horigin, ← hcnumber] at he
    rw [horigin, ← hdnumber] at he'
    rw [← hcnumber, ← hdnumber]
    exact h.single c₀ hc₀ d₀ hd₀ e e' he he'
  · obtain ⟨c, hc, hnumber, hobservers⟩ := hcalls d hd
    rw [hsame, hmeant, ← hobservers]
    exact h.ongoing c hc e (by rwa [hnumber, ← horigin])
  · rw [hsame, hmeant]
    by_cases hidle : ∀ c ∈ b.system.calls, ∀ e, b.origin c.number ≠ some (source, e)
    · exact h.idle hidle
    · push Not at hidle
      obtain ⟨c, hc, e, he⟩ := hidle
      rcases hback c hc with hobservers | ⟨d, hd, hnumber⟩
      · have hdone := h.ongoing c hc e he
        rwa [hobservers, List.filter_nil, List.map_nil, List.append_nil] at hdone
      · exact absurd (hnumber ▸ horigin ▸ he) (hnone d hd e)

/-- A callback passes the event of its notification on. -/
theorem Delivering.invoke (h : b.Delivering source id) {number : ℕ} {c : Notification}
    {value : ObserverEntry} {rest : List ObserverEntry} (hc : b.system.call? number = some c)
    (hobservers : c.observers = value :: rest) {invoked : List ObserverEntry} {calling : Bool}
    (hsystem : b'.system = b.system.setCall number { c with
      observers := rest, invoked := invoked, calling := calling })
    (horigin : b'.origin = b.origin) (hemitted : b'.emitted = b.emitted)
    (hreceived : b'.received = b.received ++ b.calls (.invoke number)) :
    b'.Delivering source id := by
  have hmem : c ∈ b.system.calls := List.mem_of_find?_eq_some hc
  have hnumber : c.number = number := by simpa using List.find?_some hc
  have hmeant : b'.meantFor source id = b.meantFor source id := by rw [meantFor, meantFor, hemitted]
  have hpassed : b.calls (.invoke number) =
      ((b.origin number).map fun p => (p.1, value.id, p.2)).toList := by
    simp [calls, hc, hobservers]
  have hmine (e : E) (he : b.origin number = some (source, e)) : b'.receivedBy source id =
      b.receivedBy source id ++ (if value.id = id then [e] else []) := by
    rw [receivedBy_append _ hreceived, hpassed, he]
    by_cases hid : value.id = id <;> simp [hid]
  have hothers (hother : ∀ e, b.origin number ≠ some (source, e)) : b'.receivedBy source id =
      b.receivedBy source id := by
    rw [receivedBy_append _ hreceived, hpassed]
    cases hp : b.origin number with
    | none => simp
    | some p =>
      have hne : p.1 ≠ source := fun heq => hother p.2 (by rw [hp, ← heq])
      simp [hne]
  have hcalls {d : Notification} (hd : d ∈ b'.system.calls) :
      d.number = number ∧ d.observers = rest ∨ d ∈ b.system.calls ∧ d.number ≠ number := by
    rw [hsystem] at hd
    rcases TakeTurns.mem_setCall hd with rfl | hd
    · exact Or.inl ⟨hnumber, rfl⟩
    · exact Or.inr hd
  have hkept : ∃ d ∈ b'.system.calls, d.number = number := by
    refine ⟨{ c with observers := rest, invoked := invoked, calling := calling }, ?_, hnumber⟩
    rw [hsystem]
    exact List.mem_map.mpr ⟨c, hmem, if_pos hnumber⟩
  have hold {d : Notification} (hd : d ∈ b'.system.calls) : ∃ d₀ ∈ b.system.calls,
      d₀.number = d.number := by
    rcases hcalls hd with ⟨hd, -⟩ | ⟨hd, -⟩
    · exact ⟨c, hmem, hnumber.trans hd.symm⟩
    · exact ⟨d, hd, rfl⟩
  refine ⟨fun d hd d' hd' e e' he he' => ?_, fun d hd e he => ?_, fun hnone => ?_⟩
  · obtain ⟨d₀, hd₀, hnumber₀⟩ := hold hd
    obtain ⟨d₁, hd₁, hnumber₁⟩ := hold hd'
    rw [horigin, ← hnumber₀] at he
    rw [horigin, ← hnumber₁] at he'
    rw [← hnumber₀, ← hnumber₁]
    exact h.single d₀ hd₀ d₁ hd₁ e e' he he'
  · rw [horigin] at he
    rw [hmeant]
    rcases hcalls hd with ⟨hdnumber, hdobservers⟩ | ⟨hd, hdnumber⟩
    · rw [hdnumber] at he
      have hongoing := h.ongoing c hmem e (hnumber ▸ he)
      rw [hmine e he, hdobservers, ← hongoing, hobservers]
      by_cases hid : value.id = id <;> simp [hid]
    · rw [hothers fun e' he' => hdnumber ?_]
      · exact h.ongoing d hd e he
      · exact (h.single d hd c hmem e e' he (hnumber ▸ he')).trans hnumber
  · have hother (e : E) : b.origin number ≠ some (source, e) := by
      obtain ⟨d, hd, hdnumber⟩ := hkept
      rw [← hdnumber, ← horigin]
      exact hnone d hd e
    rw [hothers hother, hmeant]
    refine h.idle fun d hd e he => ?_
    by_cases hdnumber : d.number = number
    · exact hother e (hdnumber ▸ he)
    · refine hnone d ?_ e (horigin ▸ he)
      rw [hsystem]
      exact List.mem_map.mpr ⟨d, hd, if_neg hdnumber⟩

/-- Every other step of the observers delivers what is meant for a registration. -/
theorem Delivering.observe {l : ObserverLabel} (h : b.Delivering source id)
    (hstep : b.observe l = some b') :
    b'.Delivering source id := by
  obtain ⟨hnotify, hstep⟩ := Option.ite_none_left_eq_some.mp hstep
  obtain ⟨system, hsystem, rfl⟩ := Option.map_eq_some_iff.mp hstep
  have hset {number : ℕ} {c c' : Notification} (hc : b.system.call? number = some c)
      (hsystem : system = b.system.setCall number c') (hobservers : c'.observers = c.observers)
      (hnumber : c'.number = c.number) (hcalls : b.calls l = []) :
      { b with system := system, received := b.received ++ b.calls l }.Delivering source id := by
    have hmem : c ∈ b.system.calls := List.mem_of_find?_eq_some hc
    have hcnumber : c.number = number := by simpa using List.find?_some hc
    subst hsystem
    refine h.congr rfl rfl (by rw [hcalls, List.append_nil]) (fun d hd => ?_)
      (fun d hd => Or.inr ?_)
    · rcases TakeTurns.mem_setCall hd with rfl | ⟨hd, -⟩
      · exact ⟨c, hmem, hnumber.symm, hobservers.symm⟩
      · exact ⟨d, hd, rfl, rfl⟩
    · by_cases hdnumber : d.number = number
      · exact ⟨c', List.mem_map.mpr ⟨c, hmem, if_pos hcnumber⟩, by rw [hnumber, hcnumber, hdnumber]⟩
      · exact ⟨d, List.mem_map.mpr ⟨d, hd, if_neg hdnumber⟩, rfl⟩
  cases ObserverSystem.step_cases hsystem with
  | op happly =>
    obtain ⟨hcalls, -⟩ := ObserverSystem.apply_calls happly
    refine h.congr rfl rfl (List.append_nil _) (fun d hd => ⟨d, hcalls ▸ hd, rfl, rfl⟩)
      fun d hd => Or.inr ⟨d, ?_, rfl⟩
    change d ∈ system.calls
    rwa [hcalls]
  | unheard hempty => exact absurd rfl hnotify
  | notify hfree => exact absurd rfl hnotify
  | acquire hc hunlocked hlockable => exact hset hc rfl rfl rfl rfl
  | invoke hc hobservers hlocked hreturned => exact h.invoke hc hobservers rfl rfl rfl rfl
  | returns hl hc hcalling hinnermost =>
    exact hset hc rfl rfl rfl (by rcases hl with rfl | rfl <;> rfl)
  | @finish number c hc hlocked hreturned hobservers =>
    refine h.congr rfl rfl (List.append_nil _)
      (fun d hd => ⟨d, List.mem_of_mem_eraseP hd, rfl, rfl⟩) fun d hd => ?_
    rcases List.mem_cons.mp ((perm_of_find? hc).subset hd) with rfl | hd
    · exact Or.inl hobservers
    · exact Or.inr ⟨d, hd, rfl⟩

/-- A notification begins with the registered observers, unless there are none. -/
theorem notify_cases {s t : ObserverSystem} {thread : ℕ} (h : s.step (.notify thread) = some t) :
    t.registry = s.registry ∧ ∃ new : List Notification, t.calls = s.calls ++ new ∧
      (∀ c ∈ new, c.number = s.notifications ∧ c.observers = s.registry.values) ∧
      (new = [] → s.registry.values = []) := by
  cases ObserverSystem.step_cases h with
  | unheard hempty => exact ⟨rfl, [], (List.append_nil _).symm, by simp, fun _ => hempty⟩
  | notify hfree => exact ⟨rfl, [_], rfl, by simp, by simp⟩
  | returns hl => rcases hl with hl | hl <;> cases hl

/-- A registration is found once among registrations with different numbers. -/
theorem filter_registration {values : List ObserverEntry} (h : (values.map (·.id)).Nodup) (id : ℕ)
    (event : E) :
    (values.filter (·.id = id)).map (fun _ => event) = if id ∈ values.map (·.id) then
    [event] else [] := by
  induction values with
  | nil => rfl
  | cons value rest ih =>
    rw [List.map_cons, List.nodup_cons] at h
    have hrest := ih h.2
    by_cases hid : value.id = id
    · subst hid
      rw [if_neg h.1] at hrest
      simp [hrest]
    · have hne : id ≠ value.id := fun heq => hid heq.symm
      simpa [hid, hne] using hrest

/-- An event that is emitted is meant for the registrations that are there. -/
theorem Delivering.emit {i thread : ℕ} {event : E} (h : b.Delivering source id) (hsound : b.Sound)
    (hstep : b.emit i thread event = some b') : b'.Delivering source id := by
  obtain ⟨hquiet, hstep⟩ := Option.ite_none_left_eq_some.mp hstep
  obtain ⟨system, hsystem, rfl⟩ := Option.map_eq_some_iff.mp hstep
  have hfree := busy_eq_false.mp (by simpa using hquiet)
  have hold (c : Notification) (hc : c ∈ b.system.calls) :
      Function.update b.origin b.system.notifications (some (i, event)) c.number =
      b.origin c.number := by
    refine Function.update_of_ne (Nat.ne_of_lt (hsound.turns.bounded c.number ?_)) _ _
    exact List.mem_append_right _ (List.mem_map_of_mem hc)
  obtain ⟨-, new, hcalls, hnew, hheard⟩ := notify_cases hsystem
  have hcases {c : Notification} (hc : c ∈ system.calls) : c ∈ b.system.calls ∨ c ∈ new :=
    List.mem_append.mp (hcalls ▸ hc)
  have hfresh {c : Notification} (hc : c ∈ new) :
      Function.update b.origin b.system.notifications (some (i, event)) c.number =
      some (i, event) := by
    rw [(hnew c hc).1, Function.update_self]
  by_cases hi : i = source
  · subst hi
    have hmeant : (b.note i event system).meantFor i id =
        b.meantFor i id ++ if id ∈ b.system.registry.values.map (·.id) then [event] else [] := by
      rw [meantFor, meantFor, note_emitted_self, List.filter_append, List.map_append]
      split <;> simp_all
    have hnone {c : Notification} (hc : c ∈ b.system.calls) (e : E) :
        Function.update b.origin b.system.notifications (some (i, event))
        c.number ≠ some (i, e) := by
      rw [hold c hc]
      exact hfree c hc e
    refine ⟨fun c hc d hd e e' he he' => ?_, fun c hc e he => ?_, fun hidle => ?_⟩
    · have hc := (hcases hc).resolve_left fun hc => hnone hc e he
      have hd := (hcases hd).resolve_left fun hd => hnone hd e' he'
      rw [(hnew c hc).1, (hnew d hd).1]
    · have hc := (hcases hc).resolve_left fun hc => hnone hc e he
      obtain rfl : event = e := congrArg Prod.snd (Option.some.inj ((hfresh hc).symm.trans he))
      rw [hmeant, (hnew c hc).2,
        filter_registration (hsound.owned.increasing.imp Nat.ne_of_lt), ← h.idle hfree]
      rfl
    · have hempty : new = [] := List.eq_nil_iff_forall_not_mem.mpr fun c hc =>
        hidle c (hcalls ▸ List.mem_append_right _ hc) event (hfresh hc)
      rw [hmeant, hheard hempty]
      exact (h.idle hfree).trans (List.append_nil _).symm
  · have hmeant : (b.note i event system).meantFor source id = b.meantFor source id := by
      rw [meantFor, meantFor, note_emitted_of_ne fun heq => hi heq.symm]
    have hmine {c : Notification} (hc : c ∈ system.calls) {e : E}
        (he : Function.update b.origin b.system.notifications (some (i, event))
          c.number = some (source, e)) :
        c ∈ b.system.calls ∧ b.origin c.number = some (source, e) := by
      rcases hcases hc with hc | hc
      · exact ⟨hc, (hold c hc).symm.trans he⟩
      · exact absurd (congrArg Prod.fst (Option.some.inj ((hfresh hc).symm.trans he))) hi
    refine ⟨fun c hc d hd e e' he he' => ?_, fun c hc e he => ?_, fun hidle => ?_⟩
    · exact h.single c (hmine hc he).1 d (hmine hd he').1 e e' (hmine hc he).2 (hmine hd he').2
    · rw [hmeant]
      exact h.ongoing c (hmine hc he).1 e (hmine hc he).2
    · rw [hmeant]
      refine h.idle fun c hc e he => hidle c (hcalls ▸ List.mem_append_left _ hc) e ?_
      exact (hold c hc).trans he

/-- Every step of the observers keeps what they keep. -/
theorem Sound.step {l : ObserverLabel} (h : b.Sound) (hstep : b.system.step l = some b'.system) :
    b'.Sound := by
  refine ⟨h.turns.step hstep, h.owned.step hstep, fun d hd => ?_⟩
  have hset {number : ℕ} {c c' : Notification} (hc : b.system.call? number = some c)
      (hd : d ∈ (b.system.setCall number c').calls)
      (hobservers : c'.observers.Sublist c.observers) : (d.observers.map (·.id)).Nodup := by
    rcases TakeTurns.mem_setCall hd with rfl | ⟨hd, -⟩
    · exact (h.distinct c (List.mem_of_find?_eq_some hc)).sublist (hobservers.map _)
    · exact h.distinct d hd
  generalize b'.system = system at hstep hd
  cases ObserverSystem.step_cases hstep with
  | op happly => exact h.distinct d ((ObserverSystem.apply_calls happly).1 ▸ hd)
  | unheard hempty => exact h.distinct d hd
  | notify hfree =>
    rcases List.mem_append.mp hd with hd | hd
    · exact h.distinct d hd
    · rw [List.mem_singleton.mp hd]
      exact h.owned.increasing.imp Nat.ne_of_lt
  | acquire hc hunlocked hlockable => exact hset hc hd (List.Sublist.refl _)
  | invoke hc hobservers hlocked hreturned =>
    exact hset hc hd (hobservers ▸ List.sublist_cons_self _ _)
  | returns hl hc hcalling hinnermost => exact hset hc hd (List.Sublist.refl _)
  | finish hc hlocked hreturned hobservers => exact h.distinct d (List.mem_of_mem_eraseP hd)

/-- What was meant for a registration has been received, except for the event of a notification
in progress. -/
theorem Delivering.received (h : b.Delivering source id) (hsound : b.Sound) : ∃ pending,
    b.meantFor source id = b.receivedBy source id ++ pending ∧ pending.length ≤ 1 ∧
    (b.busy source = false → pending = []) := by
  by_cases hidle : b.busy source = false
  · exact ⟨[], by rw [List.append_nil, h.idle (busy_eq_false.mp hidle)],
      Nat.zero_le _, fun _ => rfl⟩
  · have hbusy := mt busy_eq_false.mpr hidle
    push Not at hbusy
    obtain ⟨c, hc, e, he⟩ := hbusy
    refine ⟨_, (h.ongoing c hc e he).symm, ?_, fun hfalse => absurd hfalse hidle⟩
    rw [filter_registration (hsound.distinct c hc)]
    split <;> simp

end EventBus

end Serveza
