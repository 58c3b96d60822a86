import Serveza.Steps

/-!
# The deadline of a generation and the events around it

A wait on the shutdown timer remembers the generation whose stop armed it. The timer belongs
to the current generation as long as no generation ends while an expired wait has its
handler outstanding, because nothing retracts such a wait. As long as that is so, a forced
shutdown is announced before the end of its generation.
-/

namespace Serveza

open Foundation ListenerCore

/-- Every wait on the shutdown timer that may still fire was armed by the stop in progress. -/
def GraceOwned (c : ListenerCore) : Prop :=
  ∀ w ∈ c.shutdownTimer.waits, w.Live → c.state = .stopping ∧ w.tag.generation = c.generation

variable {a b : ListenerCore}

/-- Nothing can fire on a timer without live waits. -/
theorem graceOwned_of_not_hasLive (h : ¬ a.shutdownTimer.HasLive) : GraceOwned a :=
  fun w hw hlive => absurd ⟨w, hw, hlive⟩ h

/-- Nothing can fire unless a stop is in progress. -/
theorem GraceOwned.stopping (h : GraceOwned a) (hlive : a.shutdownTimer.HasLive) :
    a.state = .stopping := by
  obtain ⟨w, hw, hwlive⟩ := hlive
  exact (h w hw hwlive).1

/-- The timer stays owned while the waits are the same or fewer. -/
theorem GraceOwned.mono (h : GraceOwned a) (hstate : b.state = a.state)
    (hgeneration : b.generation = a.generation)
    (hwaits : b.shutdownTimer.waits ⊆ a.shutdownTimer.waits) : GraceOwned b := by
  intro w hw hlive
  rw [hstate, hgeneration]
  exact h w (hwaits hw) hlive

/-- The bookkeeping of waits leaves the timer owned. -/
theorem GraceOwned.waitsOnly (h : GraceOwned a) (hw : WaitsOnly a b) : GraceOwned b :=
  h.mono hw.state hw.generation (by rw [hw.shutdownTimer]; exact List.Subset.refl _)

/-- A quiet change leaves the timer owned. -/
theorem GraceOwned.quiet (h : GraceOwned a) (hq : Quiet a b) : GraceOwned b :=
  h.mono hq.state hq.generation (by rw [hq.shutdownTimer]; exact List.Subset.refl _)

/-- Arming the timer for a stop that begins leaves it owned and expires nothing. -/
theorem GraceArming.owned {timer : Timer Arming} (h : GraceArming a timer)
    (hnone : ¬ a.shutdownTimer.HasLive) :
    GraceOwned ({ a with shutdownTimer := timer }.transitionTo .stopping) ∧ ¬ timer.HasExpired := by
  have hcancelled : ¬ a.shutdownTimer.expiresAfter.HasLive :=
    fun hlive => hnone (Timer.hasLive_cancel hlive).hasLive
  cases h with
  | none => exact ⟨graceOwned_of_not_hasLive hnone, fun he => hnone he.hasLive⟩
  | failed => exact ⟨graceOwned_of_not_hasLive hcancelled, fun he => hcancelled he.hasLive⟩
  | armed delay =>
    constructor
    · intro w hw hlive
      rcases List.mem_append.mp hw with hold | hnew
      · exact absurd ⟨w, hold, hlive⟩ hcancelled
      · rw [List.mem_singleton.mp hnew]
        exact ⟨rfl, rfl⟩
    · rintro ⟨w, hw, hexpired⟩
      rcases List.mem_append.mp hw with hold | hnew
      · exact hcancelled (Timer.HasExpired.hasLive ⟨w, hold, hexpired⟩)
      · rw [List.mem_singleton.mp hnew] at hexpired
        contradiction

/-- Finishing a generation cancels the timer. -/
theorem finish_shutdownTimer (ec : ErrorCode) (reason : ListenerStopReason)
    (h : a.state ≠ .stopped) :
    (a.finish ec reason).shutdownTimer = a.shutdownTimer.cancel := by
  unfold ListenerCore.finish
  rw [if_neg h]
  rfl

/-- A move leaves a timer owned on which no handler is outstanding, and expires nothing. -/
theorem Move.graceOwned (h : Move a b) (howned : GraceOwned a)
    (hnone : ¬ a.shutdownTimer.HasExpired) :
    GraceOwned b ∧ ¬ b.shutdownTimer.HasExpired := by
  cases h with
  | quiet hq =>
    rw [hq.shutdownTimer]
    exact ⟨howned.quiet hq, hnone⟩
  | running hs =>
    refine ⟨graceOwned_of_not_hasLive fun hlive => ?_, hnone⟩
    simp [howned.stopping hlive] at hs
  | stopping hs ht =>
    refine ht.owned fun hlive => ?_
    simp [howned.stopping hlive] at hs
  | finish ec reason hs =>
    have htimer := finish_shutdownTimer ec reason (a := a) (by rcases hs with hs | hs <;> simp [hs])
    refine ⟨graceOwned_of_not_hasLive fun hlive => ?_, fun hexpired => ?_⟩
    · exact hnone (Timer.hasLive_cancel (htimer ▸ hlive))
    · exact hnone (Timer.hasExpired_cancel (htimer ▸ hexpired))

/-- Moves leave a timer owned on which no handler is outstanding, and expire nothing. -/
theorem GraceOwned.moves_fresh (h : GraceOwned a) (hnone : ¬ a.shutdownTimer.HasExpired)
    (hm : Moves a b) :
    GraceOwned b ∧ ¬ b.shutdownTimer.HasExpired := by
  induction hm with
  | refl => exact ⟨h, hnone⟩
  | tail _ hmove ih => exact hmove.graceOwned ih.1 ih.2

/-- Moves leave the timer owned unless they end a generation while a handler is outstanding. -/
theorem GraceOwned.moves (h : GraceOwned a) (hm : Moves a b)
    (hlast : a.shutdownTimer.HasExpired → b.state ≠ .stopped) : GraceOwned b := by
  by_cases hexpired : a.shutdownTimer.HasExpired
  · exact h.quiet ((moves_stopping hm (h.stopping hexpired.hasLive)).resolve_right (hlast hexpired))
  · exact (h.moves_fresh hexpired hm).1

/-- A new generation finds a timer on which nothing can fire. -/
theorem GraceOwned.beginGeneration (h : GraceOwned a) (hs : a.state = .idle ∨ a.state = .stopped) :
    ¬ a.beginGeneration.shutdownTimer.HasLive := by
  intro hlive
  have hstopping : a.state = .stopping := h.stopping hlive
  simp [hstopping] at hs

/-- A step leaves the timer owned unless it ends a generation while a handler is outstanding. -/
theorem GraceOwned.step {k : StepKind} (h : GraceOwned a) (hstep : CoreStep k a b)
    (hlast : a.shutdownTimer.HasExpired → b.state ≠ .stopped) : GraceOwned b := by
  cases hstep with
  | off alive halive hcall =>
    cases hcall with
    | graceExpires hexpire =>
      intro w hw hlive
      obtain ⟨v, hv, htag, hvlive⟩ := Timer.mem_of_mem_expire hexpire hw
      rw [← htag]
      exact h v hv (hvlive hlive)
    | _ => exact h
  | deliver hstrand => exact h
  | settleStart hstrand completion hc => exact h
  | @start _ m _ _ rest hstrand hs completion hc hbefore hafter =>
    have hnone := GraceOwned.beginGeneration (a := { a with strand := rest }) h hs
    have hbegun :=
      (graceOwned_of_not_hasLive hnone).moves_fresh (fun he => hnone he.hasLive) hbefore
    exact (GraceOwned.moves_fresh (a := m.completeOn completion) hbegun.1 hbegun.2 hafter).1
  | @wait _ w rest hstrand =>
    have hpop : GraceOwned { a with strand := rest } := h
    exact hpop.waitsOnly (registerWait_waitsOnly _ w)
  | @cancelWait _ id rest hstrand =>
    have hpop : GraceOwned { a with strand := rest } := h
    exact hpop.waitsOnly (cancelWait_waitsOnly _ id)
  | @stop _ _ rest hstrand hm hb =>
    exact GraceOwned.moves (a := { a with strand := rest }) h hm hlast
  | @report _ _ rest _ hstrand hm =>
    exact GraceOwned.moves (a := { a with strand := rest }) h hm hlast
  | asynchronous hm => exact h.moves hm hlast
  | graceAborted htake hw => exact h.mono rfl rfl (Timer.take_subset htake)
  | force htake hw keys => exact h.mono rfl rfl (Timer.take_subset htake)

/-- The announcements of a listener: no end of a generation is announced before it is
reached, and no forced shutdown after the end of its generation. -/
structure Announced (c : ListenerCore) : Prop where
  reached : ∀ e ∈ c.events, e.Stopped → e.status.generation ≤ c.generation
  earlier : c.state ≠ .stopped → ∀ e ∈ c.events, e.Stopped → e.status.generation < c.generation
  ordered : c.events.Pairwise fun e f => e.Stopped → f.type = .shutdownForced →
    e.status.generation < f.status.generation

/-- Announcements of other kinds may follow. -/
theorem Announced.append (h : Announced a) {added : List ListenerEvent}
    (hevents : b.events = a.events ++ added)
    (hadded : ∀ e ∈ added, ¬ e.Stopped ∧ e.type ≠ .shutdownForced)
    (hgeneration : b.generation = a.generation) (hstate : b.state ≠ .stopped → a.state ≠ .stopped) :
    Announced b := by
  have hold : ∀ e ∈ b.events, e.Stopped → e ∈ a.events := by
    intro e he hstopped
    rw [hevents] at he
    exact (List.mem_append.mp he).resolve_right fun hnew => (hadded e hnew).1 hstopped
  refine ⟨fun e he hs => ?_, fun hopen e he hs => ?_, ?_⟩
  · rw [hgeneration]
    exact h.reached e (hold e he hs) hs
  · rw [hgeneration]
    exact h.earlier (hstate hopen) e (hold e he hs) hs
  · rw [hevents]
    refine List.pairwise_append.mpr
      ⟨h.ordered, ?_, fun e _ f hf _ hforced => absurd hforced (hadded f hf).2⟩
    exact List.pairwise_of_forall_mem_list fun e _ f hf _ hforced => absurd hforced (hadded f hf).2

/-- A move announces no forced shutdown, and the end of the generation when it is reached. -/
theorem Announced.move (h : Announced a) (hm : Move a b) : Announced b := by
  cases hm with
  | quiet hq =>
    obtain ⟨added, hevents, hadded⟩ := hq.events
    refine h.append hevents (fun e he => ⟨fun hs => (hadded e he).1 hs.1, (hadded e he).2⟩)
      hq.generation ?_
    rw [hq.state]
    exact id
  | running hs =>
    exact h.append rfl (by simp [ListenerEvent.Stopped, status]) rfl fun _ => by simp [hs]
  | stopping hs ht =>
    refine h.append rfl (by simp [ListenerEvent.Stopped, status]) rfl fun _ hstopped => ?_
    simp [hstopped] at hs
  | finish ec reason hs =>
    have hopen : a.state ≠ .stopped := by rcases hs with hs | hs <;> simp [hs]
    obtain ⟨-, -, -, -, -, event, hevents, ⟨htype, -⟩, hevent⟩ := finish_eq a ec reason hopen
    refine ⟨fun e he hstopped => ?_, fun hs => absurd (finish_state a ec reason) hs, ?_⟩
    · rw [(finish_sameGeneration a ec reason).generation]
      rw [hevents] at he
      rcases List.mem_append.mp he with hold | hnew
      · exact h.reached e hold hstopped
      · rw [List.mem_singleton.mp hnew]
        exact Nat.le_of_eq hevent
    · rw [hevents]
      refine List.pairwise_append.mpr
        ⟨h.ordered, List.pairwise_singleton _ _, fun e _ f hf _ hforced => ?_⟩
      rw [List.mem_singleton.mp hf, htype] at hforced
      contradiction

/-- Moves announce no forced shutdown, and the end of the generation when it is reached. -/
theorem Announced.moves (h : Announced a) (hm : Moves a b) : Announced b := by
  induction hm with
  | refl => exact h
  | tail _ hmove ih => exact ih.move hmove

/-- The announcements depend on the lifecycle and the events only. -/
theorem Announced.congr (h : Announced a) (hevents : b.events = a.events)
    (hgeneration : b.generation = a.generation) (hstate : b.state = a.state) : Announced b :=
  h.append (by rw [hevents, List.append_nil]) (by simp) hgeneration (by rw [hstate]; exact id)

/-- The bookkeeping of waits announces nothing. -/
theorem Announced.waitsOnly (h : Announced a) (hw : WaitsOnly a b) : Announced b :=
  h.congr hw.events hw.generation hw.state

/-- Running a message starts from the same announcements. -/
theorem Announced.pop (h : Announced a) (rest : List Message) :
    Announced { a with strand := rest } :=
  h.congr rfl rfl rfl

/-- A new generation is later than every end announced so far. -/
theorem Announced.beginGeneration (h : Announced a) : Announced a.beginGeneration := by
  have hnext : Announced { a with generation := a.generation + 1, state := .starting } :=
    ⟨fun e he hs => Nat.le_succ_of_le (h.reached e he hs), fun _ e he hs => Nat.lt_succ_of_le
      (h.reached e he hs), h.ordered⟩
  exact hnext.append rfl (by simp [ListenerEvent.Stopped, status]) rfl fun _ => nofun

/-- A forced shutdown during a stop is announced before the end of the generation. -/
theorem Announced.forceShutdown (h : Announced a) (hs : a.state = .stopping) (keys : List ℕ) :
    Announced (a.forceShutdown keys) := by
  have hopen : a.state ≠ .stopped := by simp [hs]
  have hforced (e : ListenerEvent) (he : e ∈ (a.forceShutdown keys).events)
      (hstopped : e.Stopped) : e ∈ a.events := by
    refine (List.mem_append.mp he).resolve_right fun hnew => ?_
    rw [List.mem_singleton.mp hnew] at hstopped
    exact ListenerEventType.noConfusion hstopped.1
  refine ⟨fun e he hstopped => h.reached e (hforced e he hstopped) hstopped,
    fun _ e he hstopped => h.earlier hopen e (hforced e he hstopped) hstopped, ?_⟩
  refine List.pairwise_append.mpr
    ⟨h.ordered, List.pairwise_singleton _ _, fun e he f hf hstopped _ => ?_⟩
  rw [List.mem_singleton.mp hf]
  exact h.earlier hopen e he hstopped

/-- A step keeps the announcements in order, if its forced shutdown belongs to a stop. -/
theorem Announced.step {k : StepKind} (h : Announced a) (hstep : CoreStep k a b)
    (hforce : ∀ arming, k = .force arming → a.state = .stopping) : Announced b := by
  cases hstep with
  | off alive halive hcall =>
    obtain ⟨hstate, hgeneration, -, hevents⟩ := hcall.frame
    exact h.congr hevents hgeneration hstate
  | deliver hstrand => exact h.congr rfl rfl rfl
  | settleStart hstrand completion hc => exact h.congr rfl rfl rfl
  | @start _ m _ _ rest hstrand hs completion hc hbefore hafter =>
    have hcompleted : Announced (m.completeOn completion) :=
      ((h.pop rest).beginGeneration.moves hbefore).waitsOnly (completeOn_waitsOnly m completion)
    exact hcompleted.moves hafter
  | @wait _ w rest hstrand => exact (h.pop rest).waitsOnly (registerWait_waitsOnly _ w)
  | @cancelWait _ id rest hstrand => exact (h.pop rest).waitsOnly (cancelWait_waitsOnly _ id)
  | @stop _ _ rest hstrand hm hb => exact (h.pop rest).moves hm
  | @report _ _ rest _ hstrand hm => exact (h.pop rest).moves hm
  | asynchronous hm => exact h.moves hm
  | graceAborted htake hw => exact h.congr rfl rfl rfl
  | @force _ k w timer htake hw keys =>
    have htaken : Announced { a with shutdownTimer := timer } := h.congr rfl rfl rfl
    exact htaken.forceShutdown (hforce w.tag rfl) keys

end Serveza
