import Serveza.Listener

/-!
# What a listener publishes

The lifecycle state, the generation, the outcome of the last stop and the events are the
record that a listener keeps for its observers. A handler of either class writes it by a few
kinds of entries. `Moves` say where the lifecycle can go and leave open what is published on
the way; the entries below say it exactly, for every handler of both classes.
-/

namespace Serveza

open Foundation ListenerCore

/-- The record is as before. -/
structure SameRecord (a b : ListenerCore) : Prop where
  state : b.state = a.state
  generation : b.generation = a.generation
  stopReason : b.stopReason = a.stopReason
  terminalError : b.terminalError = a.terminalError
  events : b.events = a.events

/-- One entry in the record. A stop is announced with its outcome, a generation that stops
ends with the outcome it has, and only a start can end a generation that has not stopped. -/
inductive Entry : ListenerCore → ListenerCore → Prop where
  | silent {a b} (h : SameRecord a b) : Entry a b
  | event {a type} (h : type ≠ .stateChanged) (info : ConnectionInfo) (ec : ErrorCode)
    (ep : Option ThrownException) : Entry a (a.emit type info ec ep)
  | running {a} (h : a.state = .starting) : Entry a (a.transitionTo .running)
  | stopping {a} (h : a.state = .idle ∨ a.state = .starting ∨ a.state = .running) (ec : ErrorCode)
    {reason : ListenerStopReason} (hreason : reason ≠ .none) : Entry a (a.announceStop ec reason)
  | stopped {a} (h : a.state = .stopping) : Entry a (a.finish a.terminalError a.stopReason)
  | failed {a} (h : a.state = .starting) (ec : ErrorCode) : Entry a (a.finish ec .startupFailure)

/-- Several entries in a row. -/
abbrev Entries : ListenerCore → ListenerCore → Prop := Relation.ReflTransGen Entry

/-- What one step writes: entries, the entries of a new generation, or, if the step may conclude
a generation, its end after a session that ended by itself. That end is announced before its
outcome is known. -/
inductive Writes (concludes : Prop) : ListenerCore → ListenerCore → Prop where
  | entries {a b} (h : Entries a b) : Writes concludes a b
  | start {a m b} (hs : a.state = .idle ∨ a.state = .stopped) (hm : SameRecord a m)
    (h : Entries m.beginGeneration b) : Writes concludes a b
  | concluded {a m} (h : concludes) (hs : m.state = .running) (hm : Entries a m) (ec : ErrorCode)
    {reason : ListenerStopReason}
    (hreason : reason = if ec.failed then .runtimeFailure else .completed) :
    Writes concludes a ((m.transitionTo .stopping).finish ec reason)

variable {a b c : ListenerCore}

/-- A change that leaves the record alone is an entry. -/
theorem Entries.silent (h : SameRecord a b) : Entries a b := .single (.silent h)

/-- Entries go on with a change that leaves the record alone. -/
theorem Entries.same (h : Entries a b) (hc : SameRecord b c) : Entries a c := h.tail (.silent hc)

/-- A change that leaves the record alone may come first. -/
theorem Writes.after {concludes : Prop} (h : Writes concludes b c) (hb : SameRecord a b) :
    Writes concludes a c := by
  cases h with
  | entries h => exact .entries ((Entries.silent hb).trans h)
  | start hs hm h =>
    refine .start (hb.state ▸ hs) ?_ h
    exact ⟨hm.state.trans hb.state, hm.generation.trans hb.generation,
      hm.stopReason.trans hb.stopReason,
      hm.terminalError.trans hb.terminalError, hm.events.trans hb.events⟩
  | concluded hconcludes hs hm ec hreason =>
    exact .concluded hconcludes hs ((Entries.silent hb).trans hm) ec hreason

/-- A step that may conclude a generation may do what one that may not does. -/
theorem Writes.imp {p q : Prop} (h : Writes p a b) (hpq : p → q) : Writes q a b := by
  cases h with
  | entries h => exact .entries h
  | start hs hm h => exact .start hs hm h
  | concluded hp hs hm ec hreason => exact .concluded (hpq hp) hs hm ec hreason

/-- An event is published after a change that leaves the record alone. -/
theorem Entries.event (h : Entries a b) (hc : SameRecord b c) {type : ListenerEventType}
    (htype : type ≠ .stateChanged) (info : ConnectionInfo) (ec : ErrorCode)
    (ep : Option ThrownException) : Entries a (c.emit type info ec ep) :=
  (h.tail (.silent hc)).tail (.event htype info ec ep)

/-- A failure is noted and announced. -/
theorem Entries.failure (h : Entries a b) {type : ListenerEventType} (htype : type ≠ .stateChanged)
    (info : ConnectionInfo) (ec : ErrorCode) (ep : Option ThrownException) :
    Entries a ((b.recordDiagnostic ec ep).emit type info ec ep) :=
  h.event (c := b.recordDiagnostic ec ep) ⟨rfl, rfl, rfl, rfl, rfl⟩ htype info ec ep

/-- A forced shutdown is noted and announced. -/
theorem Entries.forceShutdown (h : Entries a b) (keys : List ℕ) :
    Entries a (b.forceShutdown keys) :=
  (h.failure (by simp) {} .timedOut none).same ⟨rfl, rfl, rfl, rfl, rfl⟩

/-- The end of a session is noted and announced. -/
theorem Entries.sessionStopped (h : Entries a b) (info : ConnectionInfo) (report : SessionReport) :
    Entries a (b.sessionStopped info report) := by
  unfold ListenerCore.sessionStopped
  extract_lets d
  have hd : SameRecord b d := by
    unfold d
    split <;> exact ⟨rfl, rfl, rfl, rfl, rfl⟩
  exact h.event hd (by simp) info _ _

/-- The end of a generation is published with its state and its reason. -/
theorem finish_published (a : ListenerCore) (ec : ErrorCode) (reason : ListenerStopReason)
    (h : a.state ≠ .stopped) :
    ∃ event, (a.finish ec reason).events = a.events ++ [event] ∧ event.status.stopReason = reason ∧
      event.status.state = .stopped := by
  rw [ListenerCore.finish, if_neg h]
  exact ⟨_, rfl, rfl, rfl⟩

/-- Entries leave the generation alone. -/
theorem entries_generation (h : Entries a b) : b.generation = a.generation := by
  induction h with
  | refl => rfl
  | tail _ hentry ih =>
    cases hentry with
    | silent hsame => exact hsame.generation.trans ih
    | event => exact ih
    | running => exact ih
    | stopping => exact ih
    | stopped hs => exact (finish_sameGeneration _ _ _).generation.trans ih
    | failed hs ec => exact (finish_sameGeneration _ _ _).generation.trans ih

/-- No step goes back to an earlier generation. -/
theorem Writes.generation_le {p : Prop} (h : Writes p a b) : a.generation ≤ b.generation := by
  cases h with
  | entries hentries => exact (entries_generation hentries).ge
  | start hs hm hentries =>
    rw [entries_generation hentries, ← hm.generation]
    exact Nat.le_succ _
  | concluded hp hs hm ec hreason =>
    rw [(finish_sameGeneration _ _ _).generation]
    exact (entries_generation hm).ge

/-- Only a step out of `idle` or `stopped` begins a generation. -/
theorem Writes.generation_eq {p : Prop} (h : Writes p a b)
    (hs : ¬(a.state = .idle ∨ a.state = .stopped)) :
    b.generation = a.generation := by
  cases h with
  | entries hentries => exact entries_generation hentries
  | start hstart => exact absurd hstart hs
  | concluded hp hs hm ec hreason =>
    rw [(finish_sameGeneration _ _ _).generation, ← entries_generation hm]
    rfl

/-- Completing an operation leaves the record alone. -/
theorem sameRecord_completeOn (a : ListenerCore) (completion : Completion) :
    SameRecord a (a.completeOn completion) :=
  ⟨rfl, rfl, rfl, rfl, rfl⟩

/-- Registering a wait leaves the record alone. -/
theorem sameRecord_registerWait (a : ListenerCore) (w : WaitOperation) :
    SameRecord a (a.registerWait w) := by
  unfold ListenerCore.registerWait
  split
  · exact sameRecord_completeOn a _
  · split
    · exact sameRecord_completeOn a _
    · exact ⟨rfl, rfl, rfl, rfl, rfl⟩

/-- Cancelling a wait leaves the record alone. -/
theorem sameRecord_cancelWait (a : ListenerCore) (waiter : ℕ) :
    SameRecord a (a.cancelWait waiter) := by
  unfold ListenerCore.cancelWait
  split
  · exact ⟨rfl, rfl, rfl, rfl, rfl⟩
  · exact ⟨rfl, rfl, rfl, rfl, rfl⟩

/-- A step off the strand leaves the record alone. -/
theorem CallStep.sameRecord {alive : Bool} {l : CoreLabel} (h : CallStep alive l a b) :
    SameRecord a b := by
  cases h <;> exact ⟨rfl, rfl, rfl, rfl, rfl⟩

namespace AcceptorListener

variable (s : AcceptorListener) (answers : AcceptorAnswers)

/-- Draining writes the end of the generation or nothing. -/
theorem maybeFinish_entries (h : Entries a s.core) : Entries a s.maybeFinish.core := by
  unfold maybeFinish
  split
  · rename_i hdrained
    rw [finish_core]
    exact h.tail (.stopped hdrained.1)
  · exact h

/-- Closing down and giving the sessions their grace period writes the announcement. -/
theorem closeDown_armGrace_record (ec : ErrorCode) (reason : ListenerStopReason) :
    SameRecord (s.core.announceStop ec reason) ((s.closeDown ec reason).armGrace answers).core := by
  unfold armGrace
  split
  · exact ⟨rfl, rfl, rfl, rfl, rfl⟩
  · cases answers.graceTimer <;> exact ⟨rfl, rfl, rfl, rfl, rfl⟩

/-- Beginning to stop writes the announcement, and the end if nothing is left to drain. -/
theorem beginStop_entries (ec : ErrorCode) {reason : ListenerStopReason} (hreason : reason ≠ .none)
    (h : Entries a s.core) : Entries a (s.beginStop answers ec reason).core := by
  rcases s.beginStop_cases answers ec reason with ⟨hs, heq⟩ | ⟨hs, heq⟩ | ⟨-, heq⟩
  · rw [heq, finish_core]
    exact (h.tail (.stopping (Or.inl hs) ec hreason)).tail (.stopped rfl)
  · rw [heq]
    exact maybeFinish_entries _ ((h.tail (.stopping (Or.inr hs) ec hreason)).tail
      (.silent (s.closeDown_armGrace_record answers ec reason)))
  · rwa [heq]

/-- Starting the next accept writes a failure that stops the listener, the end, or nothing. -/
theorem acceptNext_entries (reason : ListenerStopReason) (hreason : reason ≠ .none)
    (h : Entries a s.core) :
    Entries a (s.acceptNext answers reason).1.core := by
  unfold acceptNext
  split
  · exact s.maybeFinish_entries h
  · split
    · exact h
    · cases answers.accept with
      | none => exact h
      | some e =>
        exact beginStop_entries _ answers e.error hreason
          (h.failure (by simp) {} e.error (some e.exception))

/-- Reacting to a failed accept writes the failure, and a stop if there is one. -/
theorem retryAccept_entries (acceptEc : ErrorCode) (h : Entries a s.core) :
    Entries a (s.retryAccept answers acceptEc).core := by
  have hfailed : Entries a (s.core.acceptFailed acceptEc none) :=
    h.failure (by simp) {} acceptEc none
  unfold retryAccept
  extract_lets s₁ s₂ s₃
  split
  · exact beginStop_entries s₁ answers acceptEc (by simp) hfailed
  · split
    · exact beginStop_entries s₂ answers acceptEc (by simp) hfailed
    · cases answers.retryTimer with
      | none => exact hfailed
      | some e =>
        exact beginStop_entries (s₃.mapCore fun c => c.recordDiagnostic
          (exceptionToError (some e)) (some e)) answers _
          (by simp) (hfailed.tail (.silent ⟨rfl, rfl, rfl, rfl, rfl⟩))

/-- Holding a new session writes its event. -/
theorem addSession_entries (info : ConnectionInfo) (h : Entries a s.core) :
    Entries a (s.addSession info).core := by
  have hadded : SameRecord s.core { s.core with
      heap := s.core.heap ++ [{ info := info, generation := s.core.generation }]
      activeSessions := s.core.activeSessions + 1 } := ⟨rfl, rfl, rfl, rfl, rfl⟩
  exact (h.event hadded (by simp) info .success none).tail (.silent ⟨rfl, rfl, rfl, rfl, rfl⟩)

/-- The handler of an accept makes entries only. -/
theorem accepted_entries (result : AcceptResult) (h : Entries a s.core) :
    Entries a (s.accepted answers result).core := by
  rcases s.accepted_cases answers result with
    ⟨-, heq⟩ | ⟨-, heq | ⟨info, -, ec, ep, heq⟩ | ⟨info, -, heq⟩⟩
  · rw [heq]
    exact maybeFinish_entries _ h
  · rw [heq]
    exact retryAccept_entries _ answers result.error h
  · rw [heq]
    exact acceptNext_entries _ answers .runtimeFailure (by simp) (h.failure (by simp) info ec ep)
  · rw [heq]
    exact acceptNext_entries _ answers .runtimeFailure (by simp) (addSession_entries _ info h)

/-- The strand step of a session's report makes entries only. -/
theorem sessionFinished_entries (report : SessionReport) (h : Entries a s.core) :
    Entries a (s.sessionFinished answers report).core := by
  obtain ⟨t, rfl, heq⟩ := s.sessionFinished_eq answers report
  have hremoved : SameRecord s.core (s.removeSession report.info.id).core := by
    unfold removeSession
    split <;> exact ⟨rfl, rfl, rfl, rfl, rfl⟩
  have hnoted := (h.same hremoved).sessionStopped report.info report
  rw [heq]
  refine maybeFinish_entries _ ?_
  split
  · exact acceptNext_entries _ answers .runtimeFailure (by simp) hnoted
  · exact hnoted

/-- A start makes no entry, or the entries of a new generation. -/
theorem startOnStrand_writes (handler : CompletionHandler) :
    Writes False s.core (s.startOnStrand answers handler).core := by
  rcases s.startOnStrand_cases answers handler with
    ⟨-, heq⟩ | ⟨-, heq⟩ | ⟨hs, acceptor, endpoint, -, hbegun⟩
  · rw [heq]
    exact .entries (.silent (sameRecord_completeOn _ _))
  · rw [heq]
    exact .entries (.silent (sameRecord_completeOn _ _))
  · have hopened : Entries s.core.beginGeneration (s.opened acceptor endpoint).core :=
      .silent ⟨rfl, rfl, rfl, rfl, rfl⟩
    refine .start hs ⟨rfl, rfl, rfl, rfl, rfl⟩ ?_
    rcases hbegun with ⟨ec, heq⟩ | ⟨t, ec, hnext, ⟨-, heq⟩ | ⟨hec, heq⟩⟩
    · rw [heq, finish_core]
      exact (hopened.tail (.silent (sameRecord_completeOn _ _))).tail (.failed rfl ec)
    · have ht :=
        (s.opened acceptor endpoint).acceptNext_entries answers .startupFailure (by simp) hopened
      rw [hnext] at ht
      rw [heq]
      exact ht.tail (.silent (sameRecord_completeOn _ _))
    · have hcore :=
        (s.opened acceptor endpoint).acceptNext_core answers .startupFailure (Or.inl rfl)
      rw [hnext] at hcore
      have ht : Entries s.core.beginGeneration (t.core.transitionTo .running) := by
        rw [hcore hec]
        exact hopened.tail (.running rfl)
      rw [heq]
      exact ht.tail (.silent (sameRecord_completeOn _ _))

/-- Every step of an accepting listener makes entries, or those of a new generation. -/
theorem step_writes {l : AcceptorLabel} {t : AcceptorListener} (h : s.step l = some t) :
    Writes False s.core t.core := by
  cases s.step_cases h with
  | core hcall => exact .entries (.silent hcall.sameRecord)
  | @run answers message rest hstrand =>
    refine Writes.after (b := { s.core with strand := rest }) ?_ ⟨rfl, rfl, rfl, rfl, rfl⟩
    cases message with
    | start handler cancelled =>
      cases cancelled with
      | true => exact .entries (.silent (sameRecord_completeOn _ _))
      | false =>
        exact startOnStrand_writes (s.mapCore fun c => { c with strand := rest }) answers handler
    | wait w => exact .entries (.silent (sameRecord_registerWait _ w))
    | cancelWait waiter => exact .entries (.silent (sameRecord_cancelWait _ waiter))
    | stop =>
      exact .entries (beginStop_entries (s.mapCore fun c => { c with strand := rest })
        answers _ (by simp) .refl)
    | sessionFinished report =>
      exact .entries (sessionFinished_entries (s.mapCore fun c => { c with strand := rest })
        answers report .refl)
    | complete completion => exact .entries (.silent ⟨rfl, rfl, rfl, rfl, rfl⟩)
  | accepted hpos => exact .entries (accepted_entries _ _ _ .refl)
  | retryExpires hexpire => exact .entries .refl
  | retryAborted htake hw => exact .entries (maybeFinish_entries _ .refl)
  | retryDue htake hw => exact .entries (acceptNext_entries _ _ _ (by simp) .refl)
  | graceAborted htake hw => exact .entries (.silent ⟨rfl, rfl, rfl, rfl, rfl⟩)
  | @graceDue k w timer htake hw =>
    have htimer : SameRecord s.core { s.core with shutdownTimer := timer } :=
      ⟨rfl, rfl, rfl, rfl, rfl⟩
    exact .entries (Entries.forceShutdown (.silent htimer) _)

end AcceptorListener

namespace SocketListener

variable (s : SocketListener) (answers : SocketAnswers)

/-- The step runs the report of the session of a running listener. -/
def concludes : SocketLabel → Bool
  | .run _ => s.core.state = .running &&
    match s.core.strand.head? with
    | some (.sessionFinished _) => true
    | _ => false
  | _ => false

/-- Draining writes the end of the generation or nothing. -/
theorem maybeFinish_entries (h : Entries a s.core) : Entries a s.maybeFinish.core := by
  unfold maybeFinish
  split
  · rename_i hdrained
    exact h.tail (.stopped hdrained.1)
  · exact h

/-- Giving the session its grace period leaves the record alone. -/
theorem armGrace_record : SameRecord s.core s.armGrace.core := by
  unfold armGrace
  split <;> exact ⟨rfl, rfl, rfl, rfl, rfl⟩

/-- The strand step of a stop makes entries only. -/
theorem stopOnStrand_entries : Entries s.core s.stopOnStrand.core := by
  have hgrace (hs : s.core.state = .starting ∨ s.core.state = .running) : Entries s.core
      (s.mapCore fun c => (c.setStopReason .requested).transitionTo
        .stopping).armGrace.maybeFinish.core := by
    refine maybeFinish_entries _ (Entries.same ?_ (armGrace_record _))
    exact .single (.stopping (Or.inr hs) s.core.terminalError (by simp))
  unfold stopOnStrand
  cases hs : s.core.state with
  | idle =>
    have hannounced : Entries s.core (s.core.announceStop .success .requested) :=
      .single (.stopping (Or.inl hs) .success (by simp))
    exact hannounced.tail (.stopped rfl)
  | starting => exact hgrace (Or.inl hs)
  | running => exact hgrace (Or.inr hs)
  | stopping => exact .refl
  | stopped => exact .refl

/-- The strand step of a report makes entries, or it concludes the generation. -/
theorem sessionFinished_writes (report : SessionReport) :
    Writes (s.core.state = .running) s.core (s.sessionFinished report).core := by
  have hremoved : SameRecord s.core { s.core with activeSessions := 0 } := ⟨rfl, rfl, rfl, rfl, rfl⟩
  obtain ⟨t, ht, heq⟩ := s.sessionFinished_eq report
  have hnoted : Entries s.core t.core := by
    rw [ht]; exact Entries.sessionStopped (.silent hremoved) {} report
  have hstate : t.core.state = s.core.state := by rw [ht]; exact (quiet_sessionStopped _ _ _).state
  rw [heq]
  by_cases hrunning : t.core.state = .running
  · rw [if_pos hrunning]
    exact .concluded (hstate.symm.trans hrunning) hrunning hnoted report.error rfl
  · rw [if_neg hrunning]
    exact .entries (t.maybeFinish_entries hnoted)

/-- A start makes no entry, or the entries of a new generation. -/
theorem startOnStrand_writes (handler : CompletionHandler) :
    Writes False s.core (s.startOnStrand answers handler).core := by
  have hstart {b : ListenerCore} (hrunning : ¬ s.core.state = .running)
      (hbusy : ¬ (s.core.state ≠ .idle ∧ s.core.state ≠ .stopped))
      (h : Entries s.core.beginGeneration b) : Writes False s.core b := by
    refine .start ?_ ⟨rfl, rfl, rfl, rfl, rfl⟩ h
    by_contra hcontra
    exact hbusy ⟨fun h => hcontra (Or.inl h), fun h => hcontra (Or.inr h)⟩
  unfold startOnStrand
  split
  · exact .entries (.silent (sameRecord_completeOn _ _))
  · rename_i hrunning
    split
    · exact .entries (.silent (sameRecord_completeOn _ _))
    · rename_i hbusy
      refine hstart hrunning hbusy ?_
      extract_lets s₁ ec s₂
      have hbound : Entries s.core.beginGeneration s₂.core := .silent ⟨rfl, rfl, rfl, rfl, rfl⟩
      split
      · exact (Entries.silent (sameRecord_completeOn _ _)).tail (.failed rfl ec)
      · cases answers.factory with
        | some e =>
          have hfailed : Entries s.core.beginGeneration
              (s₂.core.sessionFactoryFailed {} (exceptionToError (some e)) (some e)) :=
              hbound.failure (by simp) {} _ _
          exact (hfailed.same (sameRecord_completeOn _ _)).tail (.failed rfl _)
        | none =>
          have hadded : Entries s.core.beginGeneration s₂.addSession.core :=
            hbound.same ⟨rfl, rfl, rfl, rfl, rfl⟩
          have hlaunched : Entries s.core.beginGeneration
              ((s₂.addSession.core.transitionTo .running).emit
              .sessionStarted {} .success none) := (hadded.tail (.running rfl)).tail
                (.event (by simp) {} .success none)
          exact hlaunched.same ⟨rfl, rfl, rfl, rfl, rfl⟩

/-- The handler of a wait on the shutdown timer makes entries only. -/
theorem graceExpired_entries (ec : ErrorCode) : Entries s.core (s.graceExpired ec).core := by
  unfold graceExpired
  split
  · exact .refl
  · exact Entries.forceShutdown .refl _

/-- Every step of a bound-socket listener makes entries, those of a new generation, or the end
of a generation that it concludes. -/
theorem step_writes {l : SocketLabel} {t : SocketListener} (h : s.step l = some t) :
    Writes (s.concludes l = true) s.core t.core := by
  cases l with
  | core l =>
    obtain ⟨c, hc, rfl⟩ := Option.map_eq_some_iff.mp h
    exact .entries (.silent (call_cases hc).sameRecord)
  | run answers =>
    cases hstrand : s.core.strand with
    | nil => simp [step, hstrand] at h
    | cons message rest =>
      obtain rfl : _ = t := by simpa [step, hstrand] using h
      refine Writes.after (b := { s.core with strand := rest }) ?_ ⟨rfl, rfl, rfl, rfl, rfl⟩
      cases message with
      | start handler cancelled =>
        cases cancelled with
        | true => exact .entries (.silent (sameRecord_completeOn _ _))
        | false =>
          exact (startOnStrand_writes (s.mapCore fun c => { c with strand := rest }) answers
            handler).imp False.elim
      | wait w => exact .entries (.silent (sameRecord_registerWait _ w))
      | cancelWait waiter => exact .entries (.silent (sameRecord_cancelWait _ waiter))
      | stop => exact .entries (stopOnStrand_entries (s.mapCore fun c => { c with strand := rest }))
      | sessionFinished report =>
        refine (sessionFinished_writes (s.mapCore fun c => { c with strand := rest }) report).imp
          fun hrunning => ?_
        have hrunning : s.core.state = .running := hrunning
        simp [concludes, hstrand, hrunning]
      | complete completion => exact .entries (.silent ⟨rfl, rfl, rfl, rfl, rfl⟩)
  | graceHandler k =>
    obtain ⟨⟨w, timer⟩, htake, rfl⟩ := Option.map_eq_some_iff.mp h
    have htimer : SameRecord s.core { s.core with shutdownTimer := timer } :=
      ⟨rfl, rfl, rfl, rfl, rfl⟩
    exact .entries ((Entries.silent htimer).trans
      (graceExpired_entries (s.mapCore fun c => { c with shutdownTimer := timer })
        (waitError w.status)))

end SocketListener

namespace Listener

/-- The step runs the report of the session of a running bound-socket listener. -/
def concludes : Listener → ListenerLabel → Bool
  | .socket s, .socket l => s.concludes l
  | _, _ => false

/-- What a step of a listener of either kind writes. -/
theorem step_writes {x y : Listener} {l : ListenerLabel} (h : x.step l = some y) :
    Writes (x.concludes l = true) x.core y.core := by
  cases x with
  | acceptor s =>
    cases l with
    | acceptor l =>
      obtain ⟨t, ht, rfl⟩ := Option.map_eq_some_iff.mp h
      exact (s.step_writes ht).imp nofun
    | socket l => contradiction
  | socket s =>
    cases l with
    | acceptor l => contradiction
    | socket l =>
      obtain ⟨t, ht, rfl⟩ := Option.map_eq_some_iff.mp h
      exact s.step_writes ht

end Listener

end Serveza
