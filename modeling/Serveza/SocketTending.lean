import Serveza.SocketMoves
import Serveza.Tending

/-!
# The bound-socket listener tends to its session

Between two steps a bound-socket listener that is stopping still holds its session, and that
session is going to be closed. Its session objects are numbered by the generations, so that
the session of a new generation is a new object.
-/

namespace Serveza

open Foundation ListenerCore

/-- The listener tends to its session: the session is held, a stopping listener has one and
is going to close it, a listener at rest has none, and session objects are numbered by the
generations. -/
structure SocketTended (s : SocketListener) : Prop where
  held : Held s.core s.session.toList
  graced : s.core.state = .stopping → Graced s.core s.session.toList
  known : ∀ key ∈ s.core.heap.map (·.info.id), key ≤ s.core.generation
  started : s.core.state ≠ .starting
  drains : s.core.state = .stopping → s.session ≠ none
  released : s.core.state = .idle ∨ s.core.state = .stopped → s.session = none

namespace SocketTended

variable {s t : SocketListener} {answers : SocketAnswers}

/-- Finishing a generation whose session has ended leaves nothing to tend to. -/
theorem finish (hnone : s.session = none)
    (hknown : ∀ key ∈ s.core.heap.map (·.info.id), key ≤ s.core.generation)
    (hs : s.core.state = .starting ∨ s.core.state = .stopping) (ec : ErrorCode)
    (reason : ListenerStopReason) :
    SocketTended (s.finish ec reason) := by
  have hmoves : Moves s.core (s.core.finish ec reason) := .single (.finish ec reason hs)
  have hstate : (s.finish ec reason).core.state = .stopped := finish_state _ _ _
  have hnot (state : ListenerState) (h : state ≠ .stopped) :
      (s.finish ec reason).core.state ≠ state := by
    rw [hstate]
    exact h.symm
  refine ⟨fun key hkey => ?_, fun h => absurd h (hnot _ (by decide)), ?_, hnot _ (by decide),
    fun h => absurd h (hnot _ (by decide)), fun _ => hnone⟩
  · have hkey : key ∈ s.session.toList := hkey
    simp [hnone] at hkey
  · change ∀ key ∈ (s.core.finish ec reason).heap.map (·.info.id), key ≤
      (s.core.finish ec reason).generation
    rw [finish_heap, (moves_sameGeneration hmoves).generation]
    exact hknown

/-- A change of the shared part that keeps the lifecycle and the session objects leaves the
session tended to, if the session is still held and still going to be closed. -/
theorem withCore (h : SocketTended s) (c : ListenerCore)
    (hframe : c.state = s.core.state ∧ c.generation = s.core.generation)
    (hids : c.heap.map (·.info.id) = s.core.heap.map (·.info.id)) (hheld : Held c s.session.toList)
    (hgraced : s.core.state = .stopping → Graced c s.session.toList) :
    SocketTended { s with core := c } := by
  obtain ⟨hstate, hgeneration⟩ := hframe
  refine ⟨hheld, fun hs => hgraced (hstate ▸ hs), ?_, hstate ▸ h.started, hstate ▸ h.drains,
    hstate ▸ h.released⟩
  rw [hids, hgeneration]
  exact h.known

/-- The bookkeeping of waits leaves the session tended to. -/
theorem waitsOnly (h : SocketTended s) (c : ListenerCore) (hw : WaitsOnly s.core c) :
    SocketTended { s with core := c } :=
  h.withCore c ⟨hw.state, hw.generation⟩ (by rw [hw.heap]) (h.held.waitsOnly hw) fun hs =>
    (h.graced hs).waitsOnly hw

/-- Running a message other than a report leaves the session tended to. -/
theorem pop (h : SocketTended s) {message : Message} {rest : List Message}
    (hstrand : s.core.strand = message :: rest)
    (hmessage : ∀ report, message ≠ .sessionFinished report) :
    SocketTended (s.mapCore fun c => { c with strand := rest }) :=
  h.withCore _ ⟨rfl, rfl⟩ rfl (h.held.pop hstrand fun report he => absurd he (hmessage report))
    fun hs => (h.graced hs).pop hstrand fun report he => absurd he (hmessage report)

/-- The session of a new generation is tended to. -/
theorem launched (h : SocketTended s) (endpoint : String) :
    SocketTended (s.opened endpoint).launched := by
  have hold : ∀ key ∈ s.core.heap.map (·.info.id), key < s.core.generation + 1 := fun key hkey =>
    Nat.lt_succ_of_le (h.known key hkey)
  have hnew : ∀ y ∈ s.core.heap, y.info.id ≠ s.core.generation + 1 := fun y hy =>
    (hold _ (List.mem_map_of_mem (f := fun x : Session => x.info.id) hy)).ne
  have hnone : Held (s.opened endpoint).core [] := nofun
  have hadded := hnone.append
    (x := { info := { id := s.core.generation + 1 }, generation := s.core.generation + 1 })
    hnew rfl rfl
  refine ⟨hadded.mono rfl id (.of_heap rfl) fun _ _ hr => hr, nofun,
    fun key hkey => ?_, nofun, nofun, ?_⟩
  · obtain ⟨y, hy, rfl⟩ := List.mem_map.mp hkey
    rcases List.mem_append.mp hy with hbefore | hnow
    · exact (hold _ (List.mem_map_of_mem (f := fun x : Session => x.info.id) hbefore)).le
    · rw [List.mem_singleton.mp hnow]
      exact le_rfl
  · rintro (hidle | hidle) <;> contradiction

/-- Posting to a session that is running leaves it tended to. -/
theorem postTo (h : SocketTended s) (hs : s.core.state = .running) (keys : List ℕ)
    (message : SessionMessage) :
    SocketTended (s.mapCore fun c => c.postTo keys message) :=
  h.withCore _ ⟨rfl, rfl⟩ (postTo_ids _ _ _)
    (h.held.mono rfl id (keepsSessions_postTo _ _ _) fun _ _ hr => hr)
    fun hstopping => by simp [hs] at hstopping

/-- The strand step of a start leaves the session tended to. -/
theorem startOnStrand (h : SocketTended s) (handler : CompletionHandler) :
    SocketTended (s.startOnStrand answers handler) := by
  rcases s.startOnStrand_cases answers handler with
    ⟨-, heq⟩ | ⟨-, heq⟩ | ⟨hs, endpoint, ⟨c, ec, hquiet, hheap, -, heq⟩ | heq⟩
  · rw [heq]
    exact h.waitsOnly _ (completeOn_waitsOnly _ _)
  · rw [heq]
    exact h.waitsOnly _ (completeOn_waitsOnly _ _)
  · rw [heq]
    refine finish (s := { s with core := c.completeOn _ }) (h.released hs) (fun key hkey => ?_)
      (Or.inl hquiet.state) ec .startupFailure
    have hkey : key ∈ s.core.heap.map (·.info.id) := hheap ▸ hkey
    change key ≤ c.generation
    rw [hquiet.generation]
    exact Nat.le_succ_of_le (h.known key hkey)
  · rw [heq]
    exact ((h.launched endpoint).waitsOnly _ (completeOn_waitsOnly _ _)).postTo rfl _ _

/-- Draining a listener whose session has ended leaves nothing to tend to. -/
theorem maybeFinish (hnone : s.session = none)
    (hknown : ∀ key ∈ s.core.heap.map (·.info.id), key ≤ s.core.generation)
    (hs : s.core.state ≠ .starting) : SocketTended s.maybeFinish := by
  unfold SocketListener.maybeFinish
  split
  · rename_i hdrained
    exact finish hnone hknown (Or.inr hdrained.1) _ _
  · rename_i hbusy
    have hstate : s.core.state ≠ .stopping := fun hstopping => hbusy ⟨hstopping, hnone⟩
    exact ⟨by simp [hnone, Held], fun h => absurd h hstate, hknown, hs, fun h =>
      absurd h hstate, fun _ => hnone⟩

/-- The strand step of a session's report leaves nothing to tend to. -/
theorem sessionFinished (hknown : ∀ key ∈ s.core.heap.map (·.info.id), key ≤ s.core.generation)
    (hs : s.core.state ≠ .starting) (report : SessionReport) :
    SocketTended (s.sessionFinished report) := by
  obtain ⟨c, hquiet, hheap, -, hcases⟩ := s.sessionFinished_cases report
  have hknown' : ∀ key ∈ c.heap.map (·.info.id), key ≤ c.generation := by
    rw [hheap, hquiet.generation]
    exact hknown
  rcases hcases with ⟨-, reason, heq⟩ | ⟨-, heq⟩
  · rw [heq]
    exact finish rfl hknown' (Or.inr rfl) _ _
  · rw [heq]
    exact maybeFinish rfl hknown' (hquiet.state ▸ hs)

/-- Announcing a stop and giving the session its grace period leaves the session tended to. -/
theorem armGrace (h : SocketTended s) (hs : s.core.state = .starting ∨ s.core.state = .running) :
    SocketTended (s.mapCore fun c =>
      (c.setStopReason .requested).transitionTo .stopping).armGrace.maybeFinish := by
  cases hsession : s.session with
  | none =>
    have harm : (s.mapCore fun c => (c.setStopReason .requested).transitionTo .stopping).armGrace =
        s.mapCore fun c => (c.setStopReason .requested).transitionTo .stopping := if_pos hsession
    rw [harm]
    exact maybeFinish hsession h.known nofun
  | some key =>
    obtain ⟨timer, harming, hquiet⟩ := s.announced_armGrace_core
    have hmoves := (s.announce_moves (Or.inr hs) harming).tail (.quiet hquiet)
    have hheld :
        Held (s.mapCore fun c => (c.setStopReason .requested).transitionTo .stopping).armGrace.core
        s.session.toList := h.held.moves hmoves
    have harm : (s.mapCore fun c => (c.setStopReason .requested).transitionTo .stopping).armGrace =
      (s.mapCore fun c => (c.setStopReason .requested).transitionTo .stopping).mapCore fun c =>
        { c.postTo s.session.toList .requestStop with
          shutdownTimer := c.shutdownTimer.expiresAfter.asyncWait
            ⟨c.generation, s.options.shutdownGracePeriod⟩ } :=
      if_neg (by simp [SocketListener.mapCore, hsession])
    have hsome : s.session ≠ none := by simp [hsession]
    rw [harm] at hheld ⊢
    rw [SocketListener.maybeFinish, if_neg fun hdrained => hsome hdrained.2]
    refine ⟨hheld, fun _ _ => Or.inl (Timer.hasLive_asyncWait _ _), fun key hkey => ?_,
      nofun, fun _ => hsome, ?_⟩
    · exact h.known key (postTo_ids _ _ _ ▸ hkey)
    · rintro (hidle | hidle) <;> contradiction

/-- The strand step of a stop leaves the session tended to. -/
theorem stopOnStrand (h : SocketTended s) : SocketTended s.stopOnStrand := by
  unfold SocketListener.stopOnStrand
  cases hs : s.core.state with
  | idle =>
    exact finish (s := s.mapCore fun c => (c.setStopReason .requested).transitionTo .stopping)
      (h.released (Or.inl hs)) h.known (Or.inr rfl) _ _
  | starting => exact h.armGrace (Or.inl hs)
  | running => exact h.armGrace (Or.inr hs)
  | stopping => exact h
  | stopped => exact h

/-- Running a posted message leaves the session tended to. -/
theorem run (h : SocketTended s) {message : Message} {rest : List Message}
    (hstrand : s.core.strand = message :: rest) :
    SocketTended ((s.mapCore fun c => { c with strand := rest }).handle answers message) := by
  cases message with
  | start handler cancelled =>
    have hpop := h.pop hstrand nofun
    cases cancelled with
    | true => exact hpop.waitsOnly _ (completeOn_waitsOnly _ _)
    | false => exact hpop.startOnStrand handler
  | wait w => exact (h.pop hstrand nofun).waitsOnly _ (registerWait_waitsOnly _ w)
  | cancelWait id => exact (h.pop hstrand nofun).waitsOnly _ (cancelWait_waitsOnly _ id)
  | stop => exact (h.pop hstrand nofun).stopOnStrand
  | sessionFinished report =>
    exact sessionFinished (s := s.mapCore fun c => { c with strand := rest })
      h.known h.started report
  | complete completion =>
    have hpop := h.pop hstrand nofun
    exact ⟨hpop.held, hpop.graced, hpop.known, hpop.started, hpop.drains, hpop.released⟩

/-- The handler of a wait on the shutdown timer leaves the session tended to. -/
theorem graceExpired (h : SocketTended s) {k : ℕ} {w : TimerWait Arming} {timer : Timer Arming}
    (htake : s.core.shutdownTimer.take k = some (w, timer)) :
    SocketTended ((s.mapCore fun c => { c with shutdownTimer := timer }).graceExpired
      (waitError w.status)) := by
  obtain ⟨-, hdecided, -⟩ := Timer.take_cases htake
  obtain ⟨tag, status⟩ := w
  cases status with
  | pending => exact absurd rfl hdecided
  | aborted =>
    have hfailed : (waitError .aborted).failed = true := by decide
    rw [SocketListener.graceExpired, if_pos hfailed]
    exact h.withCore _ ⟨rfl, rfl⟩ rfl h.held fun hs hpos =>
      (h.graced hs hpos).imp_left fun hlive => Timer.hasLive_take htake rfl hlive
  | expired =>
    have hfired : ¬ (waitError .expired).failed = true := by decide
    rw [SocketListener.graceExpired, if_neg hfired]
    have hheld : Held { s.core with shutdownTimer := timer } s.session.toList := h.held
    exact h.withCore ({ s.core with shutdownTimer := timer }.forceShutdown s.session.toList)
      ⟨rfl, rfl⟩
      (postTo_ids _ _ _) (hheld.forceShutdown _) fun _ _ => Or.inr (forceShutdown_closing hheld)

/-- Every step leaves the session tended to. -/
theorem step {l : SocketLabel} (h : SocketTended s) (hstep : s.step l = some t) :
    SocketTended t := by
  cases l with
  | core l =>
    obtain ⟨c, hc, rfl⟩ := Option.map_eq_some_iff.mp hstep
    have halive : 0 < s.core.handles → s.alive = true := fun hpos => by
      simp [SocketListener.alive, ListenerCore.referenced, hpos]
    have hcall := call_cases hc
    obtain ⟨hstate, hgeneration, -, -⟩ := hcall.frame
    exact h.withCore c ⟨hstate, hgeneration⟩ hcall.ids (h.held.call halive hcall) fun hs =>
      (h.graced hs).call h.held halive hcall
  | run answers =>
    cases hstrand : s.core.strand with
    | nil => simp [SocketListener.step, hstrand] at hstep
    | cons message rest =>
      obtain rfl : _ = t := by simpa [SocketListener.step, hstrand] using hstep
      exact h.run hstrand
  | graceHandler k =>
    obtain ⟨⟨w, timer⟩, htake, rfl⟩ := Option.map_eq_some_iff.mp hstep
    exact h.graceExpired htake

/-- A new listener has nothing to tend to. -/
theorem create (id : ℕ) (endpoint : Endpoint) (options : SocketOptions) :
    SocketTended (.create id endpoint options) :=
  ⟨nofun, nofun, nofun, nofun, nofun, fun _ => rfl⟩

end SocketTended

end Serveza
