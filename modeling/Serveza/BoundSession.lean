import Serveza.Record
import Serveza.SessionReports
import Serveza.SocketTending

/-!
# One bound session per generation

`basic_socket_listener::session_finished` carries neither a session nor a generation and drops
whatever session the listener holds. It is safe because a report is on its way only for the
session that is held, which is the one of the current generation.
-/

namespace Serveza

open Foundation ListenerCore

/-- The listener holds the session of its generation: it is counted, its report is in order,
and a running listener has it. -/
structure Bound (s : SocketListener) : Prop where
  reporting : Reporting s.core s.session.toList
  counted : s.core.activeSessions = s.session.toList.length
  current : ∀ key ∈ s.session, key = s.core.generation
  running : s.core.state = .running → s.session ≠ none

/-- The listeners hold the same session, and know of the same session objects. -/
structure SameBound (s t : SocketListener) : Prop where
  session : t.session = s.session
  accounts : t.core.accounts = s.core.accounts
  activeSessions : t.core.activeSessions = s.core.activeSessions

/-- The session held is compared across several steps. -/
theorem SameBound.trans {s t u : SocketListener} (h : SameBound s t) (k : SameBound t u) :
    SameBound s u :=
  ⟨k.session.trans h.session, k.accounts.trans h.accounts, k.activeSessions.trans h.activeSessions⟩

namespace Bound

variable {s t : SocketListener} {answers : SocketAnswers}

/-- A change of the shared part that neither touches the sessions nor sets the listener running
leaves the session bound. -/
theorem withCore (h : Bound s) (hsame : SameBound s t) (hreports : t.core.reports = s.core.reports)
    (hgeneration : t.core.generation = s.core.generation)
    (hstate : t.core.state = .running → s.core.state = .running) :
    Bound t := by
  obtain ⟨hsession, haccounts, hcount⟩ := hsame
  refine ⟨?_, ?_, ?_, ?_⟩
  · rw [hsession]
    exact h.reporting.same haccounts hreports
  · rw [hsession, hcount]
    exact h.counted
  · rw [hsession, hgeneration]
    exact h.current
  · rw [hsession]
    exact fun hrunning => h.running (hstate hrunning)

/-- The bookkeeping of waits leaves the session bound. -/
theorem waitsOnly (h : Bound s) (c : ListenerCore) (hw : WaitsOnly s.core c) :
    Bound { s with core := c } :=
  h.withCore ⟨rfl, accounts_of_heap hw.heap, hw.activeSessions⟩ (waitsOnly_reports hw) hw.generation
    fun hs => hw.state ▸ hs

/-- Running a message other than a report leaves the session bound. -/
theorem pop (h : Bound s) {message : Message} {rest : List Message}
    (hstrand : s.core.strand = message :: rest) (hmessage : message.report? = none) :
    Bound (s.mapCore fun c => { c with strand := rest }) :=
  ⟨h.reporting.pop hstrand hmessage, h.counted, h.current, h.running⟩

/-- A listener without a session is bound if its reports are in order and it does not run. -/
theorem unbound (hreporting : Reporting s.core []) (hnone : s.session = none)
    (hcount : s.core.activeSessions = 0) (hs : s.core.state ≠ .running) : Bound s := by
  refine ⟨?_, ?_, ?_, fun hrunning => absurd hrunning hs⟩
  · rwa [hnone]
  · rw [hnone, hcount]
    rfl
  · rw [hnone]
    nofun

/-- Finishing a generation without a session leaves the listener without one. -/
theorem finish (hreporting : Reporting s.core []) (hnone : s.session = none)
    (hcount : s.core.activeSessions = 0) (hs : s.core.state = .starting ∨ s.core.state = .stopping)
    (ec : ErrorCode) (reason : ListenerStopReason) :
    Bound (s.finish ec reason) := by
  have hmoves : Moves s.core (s.core.finish ec reason) := .single (.finish ec reason hs)
  have hstate : (s.finish ec reason).core.state = .stopped := finish_state _ _ _
  refine unbound ?_ hnone ((finish_activeSessions _ _ _).trans hcount) (by simp [hstate])
  exact hreporting.same (accounts_of_heap (finish_heap _ _ _)) (moves_reports hmoves)

/-- Draining a listener without a session leaves it without one. -/
theorem maybeFinish (hreporting : Reporting s.core []) (hnone : s.session = none)
    (hcount : s.core.activeSessions = 0) (hs : s.core.state ≠ .running) : Bound s.maybeFinish := by
  unfold SocketListener.maybeFinish
  split
  · rename_i hdrained
    exact finish hreporting hnone hcount (Or.inr hdrained.1) _ _
  · exact unbound hreporting hnone hcount hs

/-- The session of a new generation is bound. -/
theorem launched (h : Bound s) (htended : SocketTended s)
    (hs : s.core.state = .idle ∨ s.core.state = .stopped) (endpoint : String) :
    Bound (s.opened endpoint).launched := by
  have hnone : s.session = none := htended.released hs
  have hnew : ∀ p ∈ s.core.accounts, p.1.id ≠ s.core.generation + 1 := by
    intro p hp
    obtain ⟨x, hx, rfl⟩ := List.mem_map.mp hp
    exact (Nat.lt_succ_of_le (htended.known _ (List.mem_map_of_mem hx))).ne
  have hadded := (hnone ▸ h.reporting).add
    (x := { info := { id := s.core.generation + 1 }, generation := s.core.generation + 1 }) hnew
  refine ⟨hadded.same rfl rfl, rfl, fun key hkey => ?_, nofun⟩
  exact (Option.mem_some.mp hkey).symm

/-- The strand step of a start leaves the session bound. -/
theorem startOnStrand (h : Bound s) (htended : SocketTended s) (handler : CompletionHandler) :
    Bound (s.startOnStrand answers handler) := by
  rcases s.startOnStrand_cases answers handler with
    ⟨-, heq⟩ | ⟨-, heq⟩ | ⟨hs, endpoint, ⟨c, ec, hquiet, hheap, hcount, heq⟩ | heq⟩
  · rw [heq]
    exact h.waitsOnly _ (completeOn_waitsOnly _ _)
  · rw [heq]
    exact h.waitsOnly _ (completeOn_waitsOnly _ _)
  · have hnone := htended.released hs
    have hreporting : Reporting c [] :=
      (hnone ▸ h.reporting).same (accounts_of_heap hheap) ((quiet_reports hquiet).trans rfl)
    have hcompleted : Reporting (c.completeOn ⟨handler, none, ec, .startupFailed⟩) [] :=
      hreporting.same rfl (waitsOnly_reports (completeOn_waitsOnly _ _))
    rw [heq]
    refine finish (s := { s with core := c.completeOn ⟨handler, none, ec, .startupFailed⟩ })
      hcompleted hnone ?_ (Or.inl hquiet.state) ec .startupFailure
    exact hcount.trans (h.counted.trans (by rw [hnone]; rfl))
  · rw [heq]
    exact ((h.launched htended hs endpoint).waitsOnly _ (completeOn_waitsOnly _ _)).withCore
      ⟨rfl, postTo_accounts _ _ _, rfl⟩ rfl rfl id

/-- The strand step of a session's report leaves the listener without a session. -/
theorem sessionFinished (h : Bound s) {report : SessionReport} {rest : List Message}
    (hstrand : s.core.strand = .sessionFinished report :: rest) :
    Bound ((s.mapCore fun c => { c with strand := rest }).sessionFinished report) := by
  have hheld : report.info.id ∈ s.session.toList :=
    (h.reporting.ended report (by simp [reports, hstrand, Message.report?])).1
  have hdropped : Reporting { s.core with strand := rest } [] :=
    h.reporting.drop hstrand fun key hkey hne => by
      rw [Option.mem_toList] at hheld hkey
      exact absurd (Option.mem_unique hkey hheld) hne
  obtain ⟨c, hquiet, hheap, hcount, hcases⟩ :=
    (s.mapCore fun c => { c with strand := rest }).sessionFinished_cases report
  have hreporting : Reporting c [] := hdropped.same (accounts_of_heap hheap) (quiet_reports hquiet)
  rcases hcases with ⟨-, reason, heq⟩ | ⟨hs, heq⟩
  · rw [heq]
    refine finish ?_ rfl hcount (Or.inr rfl) _ _
    exact hreporting.same rfl rfl
  · rw [heq]
    exact maybeFinish hreporting rfl hcount (hquiet.state ▸ hs)

/-- Draining keeps the session. -/
theorem maybeFinish_same (s : SocketListener) : SameBound s s.maybeFinish := by
  unfold SocketListener.maybeFinish
  split
  · exact ⟨rfl, accounts_of_heap (finish_heap _ _ _), finish_activeSessions _ _ _⟩
  · exact ⟨rfl, rfl, rfl⟩

/-- Giving the session its grace period keeps it. -/
theorem armGrace_same (s : SocketListener) : SameBound s s.armGrace := by
  unfold SocketListener.armGrace
  split
  · exact ⟨rfl, rfl, rfl⟩
  · exact ⟨rfl, postTo_accounts s.core _ _, rfl⟩

/-- The strand step of a stop keeps the session. -/
theorem stopOnStrand_same (s : SocketListener) : SameBound s s.stopOnStrand := by
  have hannounced : SameBound s
      (s.mapCore fun c => (c.setStopReason .requested).transitionTo .stopping) := ⟨rfl, rfl, rfl⟩
  have hgrace := hannounced.trans ((armGrace_same _).trans (maybeFinish_same _))
  unfold SocketListener.stopOnStrand
  cases s.core.state with
  | idle =>
    exact hannounced.trans ⟨rfl, accounts_of_heap (finish_heap _ _ _), finish_activeSessions _ _ _⟩
  | starting => exact hgrace
  | running => exact hgrace
  | stopping => exact ⟨rfl, rfl, rfl⟩
  | stopped => exact ⟨rfl, rfl, rfl⟩

/-- The strand step of a stop leaves the session bound. -/
theorem stopOnStrand (h : Bound s) : Bound s.stopOnStrand := by
  have hmoves := s.stopOnStrand_moves
  refine h.withCore (stopOnStrand_same s) (moves_reports hmoves)
    (moves_sameGeneration hmoves).generation fun hs => ?_
  rcases s.stopOnStrand_halted with hstopping | hstopped
  · simp [hs] at hstopping
  · simp [hs] at hstopped

/-- Running a posted message leaves the session bound. -/
theorem run (h : Bound s) (htended : SocketTended s) {message : Message} {rest : List Message}
    (hstrand : s.core.strand = message :: rest) :
    Bound ((s.mapCore fun c => { c with strand := rest }).handle answers message) := by
  cases message with
  | start handler cancelled =>
    have hpop := h.pop hstrand rfl
    cases cancelled with
    | true => exact hpop.waitsOnly _ (completeOn_waitsOnly _ _)
    | false => exact hpop.startOnStrand (htended.pop hstrand nofun) handler
  | wait w => exact (h.pop hstrand rfl).waitsOnly _ (registerWait_waitsOnly _ w)
  | cancelWait id => exact (h.pop hstrand rfl).waitsOnly _ (cancelWait_waitsOnly _ id)
  | stop => exact (h.pop hstrand rfl).stopOnStrand
  | sessionFinished report => exact h.sessionFinished hstrand
  | complete completion => exact (h.pop hstrand rfl).withCore ⟨rfl, rfl, rfl⟩ rfl rfl id

/-- The handler of a wait on the shutdown timer leaves the session bound. -/
theorem graceExpired (h : Bound s) (ec : ErrorCode) : Bound (s.graceExpired ec) := by
  unfold SocketListener.graceExpired
  split
  · exact h
  · exact h.withCore ⟨rfl, postTo_accounts _ _ _, rfl⟩ rfl rfl id

/-- Every step leaves the session bound. -/
theorem step {l : SocketLabel} (h : Bound s) (htended : SocketTended s)
    (hstep : s.step l = some t) : Bound t := by
  cases l with
  | core l =>
    obtain ⟨c, hc, rfl⟩ := Option.map_eq_some_iff.mp hstep
    have hcall := call_cases hc
    obtain ⟨hstate, hgeneration, hcount, -⟩ := hcall.frame
    exact ⟨h.reporting.call hcall, hcount.trans h.counted,
      hgeneration ▸ h.current, hstate ▸ h.running⟩
  | run answers =>
    cases hstrand : s.core.strand with
    | nil => simp [SocketListener.step, hstrand] at hstep
    | cons message rest =>
      obtain rfl : _ = t := by simpa [SocketListener.step, hstrand] using hstep
      exact h.run htended hstrand
  | graceHandler k =>
    obtain ⟨⟨w, timer⟩, htake, rfl⟩ := Option.map_eq_some_iff.mp hstep
    exact graceExpired (s := s.mapCore fun c => { c with shutdownTimer := timer })
      (h.withCore ⟨rfl, rfl, rfl⟩ rfl rfl id) _

/-- A new listener holds no session. -/
theorem create (id : ℕ) (endpoint : Endpoint) (options : SocketOptions) :
    Bound (.create id endpoint options) :=
  unbound ⟨List.nodup_nil, nofun, nofun, List.nodup_nil⟩ rfl rfl nofun

end Bound

namespace SocketListener

/-- The step invokes the session factory: it runs a start that was not cancelled, in a listener
at rest whose socket can be bound. -/
def invokesFactory (s : SocketListener) : SocketLabel → Bool
  | .run answers =>
    match s.core.strand with
    | .start _ false :: _ =>
      decide (s.core.state = .idle ∨ s.core.state = .stopped) &&
        !(answers.bindError s.configuredEndpoint).failed
    | _ => false
  | _ => false

/-- The generations in which a run invokes the session factory, in order. -/
def factoryGenerations (s : SocketListener) (ls : List SocketLabel) : List ℕ :=
  history step (fun s l generations => if s.invokesFactory l then generations ++
    [s.core.generation + 1] else generations) s ls []

variable {s t : SocketListener} {l : SocketLabel}

/-- A step that invokes the factory runs a start in a listener at rest. -/
theorem invokesFactory_run (h : s.invokesFactory l = true) :
    ∃ answers handler rest, l = .run answers ∧
    s.core.strand = .start handler false :: rest ∧
    (s.core.state = .idle ∨ s.core.state = .stopped) := by
  unfold invokesFactory at h
  split at h
  · rename_i answers
    split at h
    · rename_i handler rest hstrand
      rw [Bool.and_eq_true, decide_eq_true_eq] at h
      exact ⟨answers, handler, rest, rfl, hstrand, h.1⟩
    · contradiction
  · contradiction

/-- What the factory answers matters only to a step that invokes it. -/
theorem factory_unread (answers : SocketAnswers) (factory : Option ThrownException)
    (h : s.invokesFactory (.run answers) = false) :
    s.step (.run { answers with factory := factory }) = s.step (.run answers) := by
  cases hstrand : s.core.strand with
  | nil => simp [step, hstrand]
  | cons message rest =>
    simp only [step, hstrand]
    cases message with
    | start handler cancelled =>
      cases cancelled with
      | true => rfl
      | false =>
        simp only [invokesFactory, hstrand, Bool.and_eq_false_iff, decide_eq_false_iff_not] at h
        simp only [handle, Bool.false_eq_true, if_false, Option.some.injEq, startOnStrand]
        split
        · rfl
        · split
          · rfl
          · rename_i hrest
            have hfailed : (answers.bindError s.configuredEndpoint).failed = true := by
              rcases h with hbusy | hbound
              · refine absurd ⟨fun hidle => hbusy (Or.inl hidle), fun hstopped =>
                  hbusy (Or.inr hstopped)⟩ hrest
              · simpa using hbound
            exact (if_pos hfailed).trans (if_pos hfailed).symm
    | _ => rfl

/-- The factory is invoked in a generation that is new. -/
theorem invokesFactory_generation (h : s.invokesFactory l = true) (hstep : s.step l = some t) :
    t.core.generation = s.core.generation + 1 := by
  obtain ⟨answers, handler, rest, rfl, hstrand, hs⟩ := invokesFactory_run h
  obtain rfl : _ = t := by simpa [step, hstrand] using hstep
  rcases (s.mapCore fun c => { c with strand := rest }).startOnStrand_cases answers handler with
    ⟨hrunning, -⟩ | ⟨hbusy, -⟩ | ⟨-, endpoint, ⟨c, ec, hquiet, -, -, heq⟩ | heq⟩
  · have hrunning : s.core.state = .running := hrunning
    simp [hrunning] at hs
  · have hbusy : s.core.state = .starting ∨ s.core.state = .stopping := hbusy
    rcases hbusy with hbusy | hbusy <;> simp [hbusy] at hs
  · simp only [handle, Bool.false_eq_true, if_false, heq]
    exact (finish_sameGeneration _ _ _).generation.trans hquiet.generation
  · simp only [handle, Bool.false_eq_true, if_false, heq]
    rfl

/-- A run invokes the factory in later and later generations. -/
theorem factoryGenerations_increase {ls : List SocketLabel}
    (hrun : Foundation.run step s ls = some t) :
    (s.factoryGenerations ls).Pairwise (· < ·) := by
  have hlast : (s.factoryGenerations ls).Pairwise (· < ·) ∧
      ∀ g ∈ s.factoryGenerations ls, g ≤ t.core.generation := by
    refine history_invariant
      (fun s (generations : List ℕ) => generations.Pairwise (· < ·) ∧
        ∀ g ∈ generations, g ≤ s.core.generation)
      (fun s l t generations h hstep => ?_) ⟨.nil, by simp⟩ hrun
    obtain ⟨hincrease, hbound⟩ := h
    split
    · rename_i hinvokes
      rw [invokesFactory_generation hinvokes hstep]
      refine ⟨List.pairwise_append.mpr
        ⟨hincrease, List.pairwise_singleton _ _, fun g hg other hother => ?_⟩, fun g hg => ?_⟩
      · rw [List.mem_singleton.mp hother]
        exact Nat.lt_succ_of_le (hbound g hg)
      · rcases List.mem_append.mp hg with hg | hg
        · exact Nat.le_succ_of_le (hbound g hg)
        · exact (List.mem_singleton.mp hg).le
    · exact ⟨hincrease, fun g hg => (hbound g hg).trans (s.step_writes hstep).generation_le⟩
  exact hlast.1

end SocketListener

/-- A report on its way comes from the session that the listener holds. -/
theorem Bound.report {s : SocketListener} (h : Bound s) (htended : SocketTended s)
    {report : SessionReport} (hreport : report ∈ s.core.reports) :
    (s.core.state = .running ∨ s.core.state = .stopping) ∧
      ∃ x ∈ s.core.heap, x.info = report.info ∧ x.finished = true ∧
      x.generation = s.core.generation ∧
        s.session = some x.info.id := by
  obtain ⟨hheld, haccount⟩ := h.reporting.ended report hreport
  have hsession : s.session = some report.info.id := Option.mem_toList.mp hheld
  refine ⟨?_, ?_⟩
  · have hrest (hs : s.core.state = .idle ∨ s.core.state = .stopped) : False := by
      simp [htended.released hs] at hsession
    cases hs : s.core.state with
    | idle => exact absurd (Or.inl hs) hrest
    | starting => exact absurd hs htended.started
    | running => exact Or.inl rfl
    | stopping => exact Or.inr rfl
    | stopped => exact absurd (Or.inr hs) hrest
  · obtain ⟨x, hx, hgeneration, -⟩ := htended.held _ hheld
    have hmem : x ∈ s.core.heap := List.mem_of_find?_eq_some hx
    have hid : x.info.id = report.info.id := by simpa using List.find?_some hx
    have heq : (x.info, x.finished) = (report.info, true) :=
      h.reporting.unique (List.mem_map_of_mem hmem) haccount hid
    obtain ⟨hinfo, hfinished⟩ := Prod.mk.inj heq
    exact ⟨x, hmem, hinfo, hfinished, hgeneration, by rw [hsession, hinfo]⟩

/-- Between any two steps of any run the bound-socket listener counts one session exactly when
it holds one, it holds one whenever it runs and none when it is idle or stopped, the session
factory, whose answer matters to no step but those that invoke it, has been invoked at most
once in each generation, and at most one report is on its way: it comes from the session of
the current generation, which runs or stops. -/
theorem boundSession_once {id : ℕ} {endpoint : Endpoint} {options : SocketOptions}
    {ls : List SocketLabel} {s : SocketListener}
    (hrun : run SocketListener.step (.create id endpoint options) ls = some s) :
    s.core.activeSessions = (if s.session.isSome then 1 else 0) ∧
      (s.core.state = .running → s.session.isSome) ∧
      (s.core.state = .idle ∨ s.core.state = .stopped → s.session = none) ∧
      ((SocketListener.create id endpoint options).factoryGenerations ls).Nodup ∧
      (∀ answers factory, s.invokesFactory (.run answers) = false →
        s.step (.run { answers with factory := factory }) = s.step (.run answers)) ∧
      s.core.reports.length ≤ 1 ∧
      ∀ report ∈ s.core.reports, (s.core.state = .running ∨ s.core.state = .stopping) ∧
        ∃ x ∈ s.core.heap, x.info = report.info ∧ x.finished = true ∧
        x.generation = s.core.generation ∧
          s.session = some x.info.id := by
  obtain ⟨htended, hbound⟩ : SocketTended s ∧ Bound s :=
    run_invariant (fun s => SocketTended s ∧ Bound s)
      (fun _ _ _ h hstep => ⟨h.1.step hstep, h.2.step h.1 hstep⟩) ⟨.create .., .create ..⟩ hrun
  refine ⟨?_, fun hs => ?_, htended.released, ?_, fun answers factory => s.factory_unread
    answers factory, ?_, ?_⟩
  · rw [hbound.counted]
    cases s.session <;> rfl
  · exact Option.isSome_iff_ne_none.mpr (hbound.running hs)
  · exact (SocketListener.factoryGenerations_increase hrun).imp Nat.ne_of_lt
  · exact hbound.reporting.length_le.trans (by cases s.session <;> simp)
  · exact fun report hreport => hbound.report htended hreport

/-- A session completes twice, the listener is started again, and the next session throws. -/
def twoSessions : List SocketLabel :=
  [.core (.asyncStart (.user 0)), .run {}, .run {}, .core (.session 1 .run),
    .core (.session 1 (.complete .success)),
    .core (.session 1 (.complete .success)), .run {},
    .core (.asyncStart (.user 1)), .run {}, .run {},
    .core (.session 2 .run), .core (.session 2 (.throws (.other 0)))]

/-- With the second session about to be reported, one report is on its way and the factory has
been invoked once in each of two generations. -/
theorem boundSession_once_twice : ∃ s : SocketListener,
    run SocketListener.step (.create 1 ⟨"127.0.0.1:0", true, false⟩ ⟨{}, rfl⟩)
      twoSessions = some s ∧
      (SocketListener.create 1 ⟨"127.0.0.1:0", true, false⟩ ⟨{}, rfl⟩).factoryGenerations
      twoSessions = [1, 2] ∧
      s.core.reports.length = 1 ∧ s.core.activeSessions = (if s.session.isSome then 1 else 0) ∧
      s.core.reports.length ≤ 1 := by
  have h : run SocketListener.step (.create 1 ⟨"127.0.0.1:0", true, false⟩ ⟨{}, rfl⟩)
      twoSessions = some _ := rfl
  obtain ⟨hcount, -, -, -, -, honce, -⟩ := boundSession_once h
  exact ⟨_, h, by decide, by decide, hcount, honce⟩

end Serveza
