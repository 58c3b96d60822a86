import Serveza.AcceptorRest

/-!
# The sessions of an accepting listener

Every handler keeps track of the sessions it holds: they are objects of the current
generation whose end is reported, and once the listener stops they are going to be closed.
-/

namespace Serveza

open Foundation

/-- The listeners hold the same sessions, and know of the same session objects. -/
structure SameHeld (s t : AcceptorListener) : Prop where
  sessions : t.sessions = s.sessions
  nextConnectionId : t.nextConnectionId = s.nextConnectionId
  ids : t.core.heap.map (·.info.id) = s.core.heap.map (·.info.id)

/-- The sessions held are tended to. -/
structure Tended (s : AcceptorListener) : Prop where
  held : Held s.core s.sessions
  graced : s.core.state = .stopping → Graced s.core s.sessions
  known : ∀ key ∈ s.core.heap.map (·.info.id), key ≤ s.nextConnectionId

namespace Tended

variable {s t : AcceptorListener} {answers : AcceptorAnswers}

/-- Sessions stay tended to in a listener that moves on without a new session. -/
theorem moves (h : Tended s) (hm : Moves s.core t.core) (hsame : SameHeld s t)
    (hgraced : t.core.state = .stopping → Graced t.core s.sessions) : Tended t := by
  obtain ⟨hsessions, hnext, hids⟩ := hsame
  refine ⟨?_, ?_, ?_⟩
  · rw [hsessions]
    exact h.held.moves hm
  · rw [hsessions]
    exact hgraced
  · rw [hids, hnext]
    exact h.known

/-- Sessions stay tended to when only the shared part changes, and quietly. -/
theorem withCore (h : Tended s) (c : ListenerCore) (hq : Quiet s.core c)
    (hids : c.heap.map (·.info.id) = s.core.heap.map (·.info.id)) : Tended { s with core := c } :=
  h.moves (t := { s with core := c }) (Moves.quiet hq) ⟨rfl, rfl, hids⟩ fun hs =>
    (h.graced (hq.state ▸ hs)).quiet hq

/-- Diagnostics leave the sessions tended to. -/
theorem noted (h : Tended s) (hnoted : Noted s t) : Tended t :=
  h.moves (Moves.quiet hnoted.quiet) ⟨hnoted.sessions, hnoted.nextConnectionId, by rw [hnoted.heap]⟩
    fun hs => (h.graced (hnoted.quiet.state ▸ hs)).quiet hnoted.quiet

/-- Finishing a generation touches no session. -/
theorem finish_sameHeld (s : AcceptorListener) (ec : ErrorCode) (reason : ListenerStopReason) :
    SameHeld s (s.finish ec reason) := by
  unfold AcceptorListener.finish
  split
  · exact ⟨rfl, rfl, rfl⟩
  · exact ⟨rfl, rfl, by simp⟩

/-- Finishing a generation leaves the sessions tended to. -/
theorem finish (h : Tended s) (hs : s.core.state = .starting ∨ s.core.state = .stopping)
    (ec : ErrorCode) (reason : ListenerStopReason) : Tended (s.finish ec reason) := by
  refine h.moves ?_ (finish_sameHeld s ec reason) fun hstopping => ?_
  · rw [s.finish_core]
    exact .single (.finish ec reason hs)
  · rw [s.finish_core, finish_state] at hstopping
    contradiction

/-- Draining leaves the sessions tended to. -/
theorem maybeFinish (h : Tended s) : Tended s.maybeFinish := by
  unfold AcceptorListener.maybeFinish
  split
  · rename_i hdrained
    exact h.finish (Or.inr hdrained.1) _ _
  · exact h

/-- Closing down gives the sessions their grace period or closes them. -/
theorem closeDown (h : Tended s) (hs : s.Accepting) (ec : ErrorCode) (reason : ListenerStopReason) :
    Tended ((s.closeDown ec reason).armGrace answers) := by
  have hmoves := s.closeDown_armGrace_moves answers ec reason hs .refl
  have hclosed : Held (s.closeDown ec reason).core s.sessions :=
    h.held.mono rfl id (keepsSessions_postTo (s.core.announceStop ec reason) s.sessions
      .requestStop) fun _ _ hr => hr
  have hids : (s.closeDown ec reason).core.heap.map (·.info.id) = s.core.heap.map (·.info.id) :=
    postTo_ids (s.core.announceStop ec reason) _ _
  unfold AcceptorListener.armGrace at hmoves ⊢
  split
  · rename_i hnone
    rw [if_pos hnone] at hmoves
    refine h.moves hmoves ⟨rfl, rfl, hids⟩ fun _ _ => Or.inr fun key hkey => ?_
    have hnone : s.sessions = [] := hnone
    simp [hnone] at hkey
  · rename_i hsome
    rw [if_neg hsome] at hmoves
    cases hanswer : answers.graceTimer with
    | none =>
      rw [hanswer] at hmoves
      exact h.moves hmoves ⟨rfl, rfl, hids⟩ fun _ _ => Or.inl (Timer.hasLive_asyncWait _ _)
    | some e =>
      rw [hanswer] at hmoves
      refine h.moves hmoves ⟨rfl, rfl, ?_⟩ fun _ _ => Or.inr ?_
      · exact (postTo_ids _ _ _).trans hids
      · exact graced_postTo (hclosed.mono rfl id (.of_heap rfl) fun _ _ hr => hr)

/-- Beginning to stop leaves the sessions tended to. -/
theorem beginStop (h : Tended s) (ec : ErrorCode) (reason : ListenerStopReason) :
    Tended (s.beginStop answers ec reason) := by
  rcases s.beginStop_cases answers ec reason with ⟨hs, heq⟩ | ⟨hs, heq⟩ | ⟨-, heq⟩
  · have hmoves := s.beginStop_moves answers ec reason .refl
    have hsame := finish_sameHeld (s.mapCore fun c => c.announceStop ec reason) ec reason
    rw [heq] at hmoves ⊢
    refine h.moves hmoves ⟨hsame.sessions, hsame.nextConnectionId, hsame.ids⟩ fun hstopping => ?_
    rw [AcceptorListener.finish_core, finish_state] at hstopping
    contradiction
  · rw [heq]
    exact (h.closeDown hs ec reason).maybeFinish
  · rwa [heq]

/-- Starting the next accept leaves the sessions tended to. -/
theorem acceptNext (h : Tended s) (reason : ListenerStopReason) :
    Tended (s.acceptNext answers reason).1 := by
  rcases s.acceptNext_cases answers reason with
    ⟨-, heq⟩ | ⟨-, ⟨-, heq⟩ | ⟨-, heq | ⟨t, e, hnoted, heq⟩⟩⟩
  · rw [heq]
    exact h.maybeFinish
  · rwa [heq]
  · rw [heq]
    exact ⟨h.held, h.graced, h.known⟩
  · rw [heq]
    exact (h.noted hnoted).beginStop _ _

/-- Reacting to a failed accept leaves the sessions tended to. -/
theorem retryAccept (h : Tended s) (acceptEc : ErrorCode) :
    Tended (s.retryAccept answers acceptEc) := by
  obtain ⟨t, hnoted, ⟨ec, heq⟩ | ⟨tag, heq⟩⟩ := s.retryAccept_cases answers acceptEc
  · rw [heq]
    exact (h.noted hnoted).beginStop _ _
  · have ht := h.noted hnoted
    rw [heq]
    exact ⟨ht.held, ht.graced, ht.known⟩

/-- A number may be given to a connection without a session. -/
theorem nextConnection (h : Tended s) : Tended s.nextConnection :=
  ⟨h.held, h.graced, fun key hkey => Nat.le_succ_of_le (h.known key hkey)⟩

/-- A new session is the one object more on the heap. -/
theorem addSession_ids (s : AcceptorListener) (info : ConnectionInfo) :
    (s.addSession info).core.heap.map (·.info.id) = s.core.heap.map (·.info.id) ++ [info.id] := by
  rw [AcceptorListener.addSession, postTo_ids]
  exact List.map_append

/-- A new session is tended to. -/
theorem addSession (h : Tended s) {info : ConnectionInfo} (hid : info.id = s.nextConnectionId + 1)
    (hs : s.core.state = .running) : Tended (s.nextConnection.addSession info) := by
  have hnew : ∀ y ∈ s.core.heap, y.info.id ≠ info.id := fun y hy heq => by
    have := h.known _ (List.mem_map_of_mem (f := fun x : Session => x.info.id) hy)
    omega
  have hheld : Held { s.core with
      heap := s.core.heap ++ [{ info := info, generation := s.core.generation }] }
      (s.sessions ++ [info.id]) := h.held.append hnew rfl rfl
  refine ⟨?_, fun hstopping => ?_, ?_⟩
  · refine hheld.mono rfl id ?_ fun _ _ hr => hr
    exact .trans (.of_heap rfl) (keepsSessions_postTo _ _ _)
  · have hstopping : s.core.state = .stopping := hstopping
    simp [hs] at hstopping
  · intro key hkey
    rw [addSession_ids, List.mem_append] at hkey
    rcases hkey with hold | hnew
    · exact Nat.le_succ_of_le (h.known key hold)
    · exact (List.mem_singleton.mp hnew).trans hid |>.le

/-- The handler of an accept leaves the sessions tended to. -/
theorem accepted (h : Tended s) (result : AcceptResult) : Tended (s.accepted answers result) := by
  have hdone : Tended { s with acceptPending := false } := ⟨h.held, h.graced, h.known⟩
  rcases s.accepted_cases answers result with
    ⟨-, heq⟩ | ⟨hs, heq | ⟨info, -, ec, ep, heq⟩ | ⟨info, hid, heq⟩⟩
  · rw [heq]
    exact hdone.maybeFinish
  · rw [heq]
    exact hdone.retryAccept _
  · rw [heq]
    refine acceptNext ?_ _
    refine hdone.nextConnection.withCore (s.core.sessionFactoryFailed info ec ep) ?_ rfl
    exact quiet_failure _ (by simp) (by simp) _ _ _
  · rw [heq]
    refine acceptNext ?_ _
    exact hdone.addSession hid hs

/-- The bookkeeping of waits leaves the sessions tended to. -/
theorem waitsOnly (h : Tended s) (c : ListenerCore) (hw : WaitsOnly s.core c) :
    Tended { s with core := c } :=
  ⟨h.held.waitsOnly hw, fun hs => (h.graced (hw.state ▸ hs)).waitsOnly hw, hw.heap ▸ h.known⟩

/-- Running a message other than a report leaves the sessions tended to. -/
theorem pop (h : Tended s) {message : Message} {rest : List Message}
    (hstrand : s.core.strand = message :: rest)
    (hmessage : ∀ report, message ≠ .sessionFinished report) :
    Tended (s.mapCore fun c => { c with strand := rest }) :=
  ⟨h.held.pop hstrand fun report he => absurd he (hmessage report),
    fun hs => (h.graced hs).pop hstrand fun report he => absurd he (hmessage report), h.known⟩

/-- Running the report of a session and dropping the session leaves the others tended to. -/
theorem removeSession (h : Tended s) (hnodup : s.sessions.Nodup) {report : SessionReport}
    {rest : List Message} (hstrand : s.core.strand = .sessionFinished report :: rest) :
    Tended ((s.mapCore fun c => { c with strand := rest }).removeSession report.info.id) := by
  have hothers (held : List ℕ) (hsub : held ⊆ s.sessions) (hnot : report.info.id ∉ held) :
      Held { s.core with strand := rest } held ∧
        (s.core.state = .stopping → Graced { s.core with strand := rest } held) := by
    have hpopped : ∀ r, Message.sessionFinished report = .sessionFinished r → r.info.id ∉ held := by
      rintro r ⟨⟩
      exact hnot
    exact ⟨(h.held.subset hsub).pop hstrand hpopped, fun hs =>
      ((h.graced hs).subset hsub).pop hstrand hpopped⟩
  unfold AcceptorListener.removeSession
  split
  · obtain ⟨hheld, hgraced⟩ := hothers (s.sessions.erase report.info.id) List.erase_subset
      hnodup.not_mem_erase
    exact ⟨hheld.mono rfl id (.of_heap rfl) fun _ _ hr => hr, fun hs => (hgraced hs).quiet
      (quiet_activeSessions _ _), h.known⟩
  · rename_i hnot
    obtain ⟨hheld, hgraced⟩ := hothers s.sessions (List.Subset.refl _) hnot
    exact ⟨hheld, hgraced, h.known⟩

/-- The strand step of a session's report leaves the others tended to. -/
theorem sessionFinished {report : SessionReport} (h : Tended (s.removeSession report.info.id)) :
    Tended (s.sessionFinished answers report) := by
  obtain ⟨t, rfl, heq⟩ := s.sessionFinished_eq answers report
  have hnoted :
      Tended ((s.removeSession report.info.id).mapCore fun c => c.sessionStopped
        report.info report) := by
    refine h.withCore _ (quiet_sessionStopped _ _ _) ?_
    unfold ListenerCore.sessionStopped
    split <;> rfl
  rw [heq]
  split
  · exact (hnoted.acceptNext _).maybeFinish
  · exact hnoted.maybeFinish

/-- A new generation has no sessions to tend to. -/
theorem opened (h : Tended s) (hsessions : s.sessions = []) (acceptor : Acceptor)
    (endpoint : String) :
    Tended (s.opened acceptor endpoint) := by
  refine ⟨fun key hkey => ?_, fun hstopping => ?_, h.known⟩
  · have hkey : key ∈ s.sessions := hkey
    simp [hsessions] at hkey
  · have hstopping : ListenerState.starting = .stopping := hstopping
    contradiction

/-- The strand step of a start leaves the sessions tended to. -/
theorem startOnStrand (h : Tended s)
    (hreleased : s.core.state = .idle ∨ s.core.state = .stopped → s.sessions = [])
    (handler : CompletionHandler) : Tended (s.startOnStrand answers handler) := by
  rcases s.startOnStrand_cases answers handler with
    ⟨-, heq⟩ | ⟨-, heq⟩ | ⟨hs, acceptor, endpoint, -, hbegun⟩
  · rw [heq]
    exact h.waitsOnly _ (completeOn_waitsOnly _ _)
  · rw [heq]
    exact h.waitsOnly _ (completeOn_waitsOnly _ _)
  · have hopened := h.opened (hreleased hs) acceptor endpoint
    rcases hbegun with ⟨ec, heq⟩ | ⟨t, ec, hnext, ⟨-, heq⟩ | ⟨-, heq⟩⟩
    · rw [heq]
      refine finish (hopened.waitsOnly _ (completeOn_waitsOnly _ _)) ?_ _ _
      exact Or.inl rfl
    · have ht : Tended ((s.opened acceptor endpoint).acceptNext answers .startupFailure).1 :=
        hopened.acceptNext _
      rw [hnext] at ht
      rw [heq]
      exact ht.waitsOnly _ (completeOn_waitsOnly _ _)
    · have ht : Tended ((s.opened acceptor endpoint).acceptNext answers .startupFailure).1 :=
        hopened.acceptNext _
      rw [hnext] at ht
      have hrunning : Tended (t.mapCore fun c => c.transitionTo .running) :=
        ⟨ht.held, nofun, ht.known⟩
      rw [heq]
      exact hrunning.waitsOnly _ (completeOn_waitsOnly _ _)

/-- Running a posted message leaves the sessions tended to. -/
theorem run (h : Tended s) (hbooks : Books options s) {message : Message} {rest : List Message}
    (hstrand : s.core.strand = message :: rest) :
    Tended ((s.mapCore fun c => { c with strand := rest }).handle answers message) := by
  cases message with
  | start handler cancelled =>
    have hpop := h.pop hstrand nofun
    cases cancelled with
    | true => exact hpop.waitsOnly _ (completeOn_waitsOnly _ _)
    | false => exact hpop.startOnStrand (fun hs => (hbooks.released hs).1) handler
  | wait w => exact (h.pop hstrand nofun).waitsOnly _ (registerWait_waitsOnly _ w)
  | cancelWait id => exact (h.pop hstrand nofun).waitsOnly _ (cancelWait_waitsOnly _ id)
  | stop => exact (h.pop hstrand nofun).beginStop _ _
  | sessionFinished report => exact sessionFinished (h.removeSession hbooks.nodup hstrand)
  | complete completion =>
    have hpop := h.pop hstrand nofun
    exact ⟨hpop.held, hpop.graced, hpop.known⟩

/-- Every step leaves the sessions tended to. -/
theorem step {l : AcceptorLabel} (h : Tended s) (hbooks : Books options s)
    (hstep : s.step l = some t) : Tended t := by
  cases s.step_cases hstep with
  | @core l c hcall =>
    have halive : 0 < s.core.handles → s.alive = true := fun hpos => by
      simp [AcceptorListener.alive, ListenerCore.referenced, hpos]
    refine ⟨h.held.call halive hcall, fun hs => (h.graced (hcall.frame.1 ▸ hs)).call
      h.held halive hcall, ?_⟩
    rw [hcall.ids]
    exact h.known
  | @run answers message rest hstrand => exact h.run hbooks hstrand
  | accepted haccepts =>
    exact accepted (s := { s with acceptor := ⟨s.acceptor.isOpen, s.acceptor.accepts - 1⟩ })
      ⟨h.held, h.graced, h.known⟩ _
  | retryExpires hexpire => exact ⟨h.held, h.graced, h.known⟩
  | @retryAborted k answers w timer htake hw =>
    exact maybeFinish (s := { s with retryTimer := timer }) ⟨h.held, h.graced, h.known⟩
  | @retryDue k answers w timer htake hw =>
    exact acceptNext (s := { s with retryTimer := timer }) ⟨h.held, h.graced, h.known⟩ _
  | graceAborted htake hw =>
    exact ⟨h.held, fun hs hpos => (h.graced hs hpos).imp_left fun hlive => Timer.hasLive_take
      htake hw hlive, h.known⟩
  | @graceDue k w timer htake hw =>
    have hheld : Held { s.core with shutdownTimer := timer } s.sessions := h.held
    refine ⟨Held.forceShutdown hheld s.sessions, fun _ _ =>
      Or.inr (forceShutdown_closing hheld), fun key hkey => ?_⟩
    exact h.known key (postTo_ids _ _ _ ▸ hkey)

/-- A new listener has nothing to tend to. -/
theorem create (id : ℕ) (endpoint : Endpoint) (options : AcceptorOptions) :
    Tended (.create id endpoint options) :=
  ⟨nofun, nofun, nofun⟩

end Tended

end Serveza
