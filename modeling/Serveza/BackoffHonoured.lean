import Serveza.Patience

/-!
# Whether the backoff is honoured

After a transient accept error the next accept is meant to wait for the retry timer. But
`accept_next` looks at the state, the outstanding accept and the room only. It is also called
when a session ends and when an earlier wait on the retry timer, whose success can no longer
be retracted, gets its turn; both start an accept while the timer is armed. As long as neither
happens, no accept is started in the generation before the wait itself has expired.
-/

namespace Serveza

open Foundation

/-- After a transient accept error for which the retry timer is armed, an accept is initiated in
the same generation only after that very wait has expired, however the run goes on in between;
and the wait was armed with the delay for the errors in a row. This holds as long as no step
starts an accept out of turn: while a retry wait is pending, a running listener with room does
not handle the report of a session, nor the handler of another retry wait that has expired. -/
theorem backoff_honoured {id : ℕ} {endpoint : Endpoint} {options : AcceptorOptions}
    {past ls : List AcceptorLabel} {s t u v : AcceptorListener} {result : AcceptResult}
    {answers : AcceptorAnswers} {tag : Arming} {l : AcceptorLabel}
    (hrun : run AcceptorListener.step (.create id endpoint options) past = some s)
    (hfails : s.step (.accepted result answers) = some t)
    (harms : t.retryTimer = s.retryTimer.expiresAfter.asyncWait tag)
    (hlater : run AcceptorListener.step t ls = some u) (hstep : u.step l = some v)
    (hinitiates : u.Initiates l v) (hsame : v.core.generation = t.core.generation)
    (hpatient : Along AcceptorListener.step AcceptorListener.Patient t (ls ++ [l])) :
    let errors := (AcceptorListener.create id endpoint options).acceptHistory
      (past ++ [.accepted result answers])
    tag = ⟨t.core.generation, acceptRetryDelay options.toListenerOptions
      (errors.carried + errors.failures)⟩ ∧
      ∃ before k after, ls = before ++ .retryExpires k :: after ∧
      shifted before s.retryTimer.waits.length = some k := by
  intro errors
  have hpast : run AcceptorListener.step (.create id endpoint options)
      (past ++ [.accepted result answers]) = some t :=
    run_append.mpr ⟨s, hrun, run_cons.mpr ⟨t, hfails, rfl⟩⟩
  obtain ⟨hbooks, hrest, hcharged⟩ : Books options t ∧ Rest t ∧ Charged t errors :=
    history_invariant (fun s past => Books options s ∧ Rest s ∧ Charged s past)
      (fun _ _ _ _ h hstep => ⟨h.1.step hstep, h.2.1.step hstep, h.2.2.step h.2.1 hstep⟩)
      ⟨.create .., ⟨nofun, nofun, nofun⟩, ⟨rfl, fun _ => rfl⟩⟩ hpast
  obtain ⟨hpos, hfails⟩ := Option.ite_none_right_eq_some.mp hfails
  have haccepted := Option.some.inj hfails
  have hlonger : t.retryTimer.waits.length = s.retryTimer.waits.length + 1 := by
    simp [harms, Timer.asyncWait, Timer.expiresAfter, Timer.cancel]
  obtain ⟨hrunning, hretry⟩ := AcceptorListener.accepted_arms
    (s := { s with acceptor := ⟨s.acceptor.isOpen, s.acceptor.accepts - 1⟩ }) answers result
    (haccepted ▸ hlonger)
  rw [haccepted] at hretry
  have hs : t.core.state = .running := hretry ▸ hrunning
  have htimer : t.retryTimer = s.retryTimer.expiresAfter.asyncWait
      ⟨t.core.generation, acceptRetryDelay t.options.toListenerOptions
        t.consecutiveAcceptErrors⟩ := by
    rw [hretry]
    rfl
  have hwaiting := AcceptorListener.waiting_of_arms hs (by rw [hretry]; rfl) harms
  obtain ⟨hpatience, hlast⟩ := hpatient.append hlater
  obtain ⟨hbooks', hrest'⟩ : Books options u ∧ Rest u :=
    run_invariant (fun s => Books options s ∧ Rest s)
      (fun _ _ _ h hstep => ⟨h.1.step hstep, h.2.step hstep⟩) ⟨hbooks, hrest⟩ hlater
  refine ⟨?_, ?_⟩
  · rw [hcharged.failures hs, ← hcharged.errors, ← hbooks.configured]
    exact Timer.asyncWait_inj (harms.symm.trans htimer)
  · rcases hwaiting.run hbooks hpatience hlater with hexpired | ⟨j, hwaits⟩ | hover
    · exact hexpired
    · exact absurd hinitiates (AcceptorListener.not_initiates hbooks' hrest'
        (Or.inl ⟨tag, j, hwaits⟩) hlast.1 hstep hsame)
    · exact absurd hinitiates (AcceptorListener.not_initiates hbooks' hrest' (Or.inr hover)
        hlast.1 hstep hsame)

/-- An accept that fails for want of descriptors. -/
def exhaustedAccept : AcceptorLabel := .accepted { error := .noDescriptors } {}

/-- The retry timer expires after the default backoff, and its handler starts the next accept. -/
theorem backoff_honoured_retry : ∃ s t u v : AcceptorListener,
    run AcceptorListener.step (.create 1 ⟨"127.0.0.1:0", true, false⟩ ⟨{}, rfl⟩)
      [.core (.asyncStart (.user 0)), .run {}] = some s ∧
      s.step exhaustedAccept = some t ∧
      t.retryTimer = s.retryTimer.expiresAfter.asyncWait ⟨1, 100⟩ ∧
      run AcceptorListener.step t [.retryExpires 0] = some u ∧
      u.step (.retryHandler 0 {}) = some v ∧
      u.Initiates (.retryHandler 0 {}) v ∧ ∃ before k after, [AcceptorLabel.retryExpires 0] =
        before ++ .retryExpires k :: after := by
  obtain ⟨-, before, k, after, heq, -⟩ := @backoff_honoured 1 ⟨"127.0.0.1:0", true, false⟩ ⟨{}, rfl⟩
    [.core (.asyncStart (.user 0)), .run {}] [.retryExpires 0] _ _ _ _ { error := .noDescriptors }
    {} ⟨1, 100⟩ (.retryHandler 0 {}) rfl rfl rfl rfl rfl (by decide) rfl (by decide)
  exact ⟨_, _, _, _, rfl, rfl, rfl, rfl, rfl, by decide, before, k, after, heq⟩

/-- A run in which, after a failed accept has armed the retry timer, an accept is initiated in the
same generation although no wait on the timer has expired since. -/
def AcceptorListener.Bypasses (first : AcceptorListener) (past ls : List AcceptorLabel)
    (l : AcceptorLabel) : Prop :=
  ∃ (s t u v : AcceptorListener) (tag : Arming),
    run AcceptorListener.step first past = some s ∧ s.step exhaustedAccept = some t ∧
      t.retryTimer = s.retryTimer.expiresAfter.asyncWait tag ∧
      run AcceptorListener.step t ls = some u ∧ u.step l = some v ∧
      u.Initiates l v ∧ v.core.generation = t.core.generation ∧ ∀ k, .retryExpires k ∉ ls

/-- The listener is started and accepts a session. -/
def acceptedSession : List AcceptorLabel :=
  [.core (.asyncStart (.user 0)), .run {}, .run {}, .accepted {} {}]

/-- The session ends. -/
def endedSession : List AcceptorLabel :=
  [.core (.session 1 .run), .core (.session 1 (.complete .success))]

/-- The end of a session starts an accept during the backoff, and so does the handler of an
earlier retry wait that had expired when the end of a session started the accept in its place. -/
theorem backoff_bypassed :
    (AcceptorListener.create 1 ⟨"127.0.0.1:0", true, false⟩ ⟨{}, rfl⟩).Bypasses acceptedSession
    endedSession (.run {}) ∧
      (AcceptorListener.create 1 ⟨"127.0.0.1:0", true, false⟩ ⟨{}, rfl⟩).Bypasses
        (acceptedSession ++ [exhaustedAccept, .retryExpires 0] ++ endedSession ++ [.run {}]) []
        (.retryHandler 0 {}) :=
  ⟨⟨_, _, _, _, _, rfl, rfl, rfl, rfl, rfl, by decide, rfl, by simp [endedSession]⟩,
    ⟨_, _, _, _, _, rfl, rfl, rfl, rfl, rfl, by decide, rfl, by simp⟩⟩

end Serveza
