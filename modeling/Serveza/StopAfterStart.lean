import Serveza.Listener

/-!
# A stop that follows a start

Nothing that is posted to the strand is lost, so a listener is on its way to a halt as soon
as a stop is queued behind the last start, and it stays so until somebody starts it again.
`request_stop` does not always queue one: it returns at once when it reads `stopped`, also
while the start of the next generation is queued and has not run.
-/

namespace Serveza

open Foundation

/-- The listener ends up halted if nobody starts it again: a stop is about to be posted, or
each queued start has a stop behind it and there is one more if the listener is active. -/
def Settling (c : ListenerCore) : Prop :=
  0 < c.stopping ∨
    Covered Message.isStart Message.isStop c.strand ∧
    (c.state.Halted ∨ ∃ m ∈ c.strand, m.isStop = true)

instance (c : ListenerCore) : Decidable (Settling c) := inferInstanceAs (Decidable (_ ∨ _ ∧ _))

namespace Settling

variable {a b : ListenerCore} {m : Message} {rest : List Message}

/-- With nothing left to run, a settling listener is halted. -/
theorem halted (h : Settling a) (hcalls : a.stopping = 0) (hstrand : a.strand = []) :
    a.state.Halted := by
  rcases h with hstopping | ⟨-, hhalted | ⟨m, hm, -⟩⟩
  · omega
  · exact hhalted
  · simp [hstrand] at hm

/-- Posting anything but a start keeps a listener settling, as long as it does not leave a halt. -/
theorem extend (h : Settling a) (hcalls : b.stopping = a.stopping)
    (hstrand : ∃ extra, b.strand = a.strand ++ extra ∧ ∀ m ∈ extra, m.isStart = false)
    (hstate : a.state.Halted → b.state.Halted) : Settling b := by
  obtain ⟨extra, hextra, hnostart⟩ := hstrand
  rcases h with hstopping | ⟨hcovered, hend⟩
  · exact Or.inl (hcalls ▸ hstopping)
  · rw [Settling, hextra]
    refine Or.inr ⟨hcovered.append (covered_of_no_opener hnostart), hend.imp hstate ?_⟩
    rintro ⟨m, hm, hstop⟩
    exact ⟨m, List.mem_append_left _ hm, hstop⟩

/-- Running a message that is not a stop leaves the rest of the strand settling. -/
theorem pop (h : Settling a) (hstrand : a.strand = m :: rest) (hm : m.isStop = false) :
    Settling { a with strand := rest } := by
  rcases h with hstopping | ⟨hcovered, hend⟩
  · exact Or.inl hstopping
  · rw [hstrand] at hcovered hend
    refine Or.inr ⟨hcovered.2, hend.imp_right ?_⟩
    rintro ⟨x, hx, hstop⟩
    rcases List.mem_cons.mp hx with rfl | hx
    · simp [hm] at hstop
    · exact ⟨x, hx, hstop⟩

/-- Running a start leaves a stop behind it, whatever state the start leads to. -/
theorem pop_start (h : Settling a) (hstrand : a.strand = m :: rest) (hm : m.isStart = true)
    (state : ListenerState) : Settling { a with strand := rest, state := state } := by
  rcases h with hstopping | ⟨hcovered, -⟩
  · exact Or.inl hstopping
  · rw [hstrand] at hcovered
    exact Or.inr ⟨hcovered.2, Or.inr (hcovered.1 hm)⟩

/-- Moves keep a listener settling. -/
theorem moves (h : Settling a) (hm : Moves a b) : Settling b := by
  obtain ⟨cs, hcs⟩ := moves_strand hm
  refine h.extend (moves_sameGeneration hm).stopping ⟨_, hcs, ?_⟩ (moves_halted hm)
  simp [Message.isStart]

/-- A step off the strand other than a start keeps a listener settling. -/
theorem call {alive : Bool} {l : CoreLabel} (h : Settling a)
    (hl : ∀ handler, l ≠ .asyncStart handler) (hcall : CallStep alive l a b) : Settling b := by
  have hframe {c : ListenerCore} (hcalls : c.stopping = a.stopping) (hstrand : c.strand = a.strand)
      (hstate : c.state = a.state) : Settling c :=
    h.extend hcalls ⟨[], by simpa using hstrand, by simp⟩ fun ha => hstate ▸ ha
  have hpost {c : ListenerCore} (m : Message) (hm : m.isStart = false)
      (hcalls : c.stopping = a.stopping)
      (hstrand : c.strand = a.strand ++ [m]) (hstate : c.state = a.state) : Settling c :=
    h.extend hcalls ⟨[m], hstrand, by simpa using hm⟩ fun ha => hstate ▸ ha
  cases hcall with
  | asyncStart hpos => exact absurd rfl (hl _)
  | cancelStart =>
    rcases h with hstopping | ⟨hcovered, hend⟩
    · exact Or.inl hstopping
    · refine Or.inr ⟨hcovered.map _ (fun m => ?_) (fun m => ?_), hend.imp_right ?_⟩
      · cases m <;> rfl
      · cases m <;> rfl
      · rintro ⟨m, hm, hstop⟩
        exact ⟨_, List.mem_map_of_mem hm,
          by cases m <;> simp_all [Message.cancelStart, Message.isStop]⟩
  | beginWait hpos => exact hframe rfl rfl rfl
  | postWait hw => exact hpost _ rfl rfl rfl rfl
  | cancelWait hconnected => exact hframe rfl rfl rfl
  | cancelGone hgone => exact h
  | postCancel hmem halive => exact hpost _ rfl rfl rfl rfl
  | dropCancel hmem halive => exact hframe rfl rfl rfl
  | stopReturns hpos hstopped => exact h
  | stopRead hpos hstopped => exact Or.inl (Nat.succ_pos _)
  | stopPost hpos =>
    exact Or.inr ⟨covered_append_closer _ rfl rfl, Or.inr ⟨.stop, by simp [ListenerCore.post], rfl⟩⟩
  | graceExpires htimer => exact hframe rfl rfl rfl
  | session hx hstep =>
    refine h.extend rfl ⟨_, rfl, ?_⟩ id
    cases alive <;> simp [Message.isStart]
  | cloneHandle hpos => exact hframe rfl rfl rfl
  | dropHandle hpos => exact hframe rfl rfl rfl

/-- Bookkeeping of waits keeps a listener settling. -/
theorem waitsOnly (h : Settling a) (hw : WaitsOnly a b) : Settling b := by
  obtain ⟨cs, hcs⟩ := hw.strand
  exact h.extend hw.stopping ⟨_, hcs, by simp [Message.isStart]⟩ fun ha => hw.state ▸ ha

/-- A step that starts nothing keeps a listener settling. -/
theorem step {k : StepKind} (h : Settling a) (hk : ∀ handler, k ≠ .off (.asyncStart handler))
    (hstep : CoreStep k a b) : Settling b := by
  cases hstep with
  | off alive halive hcall => exact h.call (fun handler he => hk handler (he ▸ rfl)) hcall
  | deliver hstrand =>
    exact (h.pop hstrand rfl).extend rfl ⟨[], by simp [ListenerCore.deliver], by simp⟩ id
  | settleStart hstrand completion hc =>
    exact (h.pop hstrand rfl).waitsOnly (completeOn_waitsOnly _ _)
  | @start _ m _ _ rest hstrand hs completion hc hbefore hafter =>
    have hbegun : Settling { a with strand := rest }.beginGeneration :=
      (h.pop_start hstrand rfl .starting).extend rfl ⟨[], by simp [ListenerCore.beginGeneration,
        ListenerCore.clearDiagnostics, ListenerCore.transitionTo, ListenerCore.emit], by simp⟩ id
    exact ((hbegun.moves hbefore).waitsOnly (completeOn_waitsOnly m completion)).moves hafter
  | wait hstrand => exact (h.pop hstrand rfl).waitsOnly (registerWait_waitsOnly _ _)
  | cancelWait hstrand => exact (h.pop hstrand rfl).waitsOnly (cancelWait_waitsOnly _ _)
  | @stop _ _ rest hstrand hm hb =>
    rcases h with hstopping | ⟨hcovered, -⟩
    · exact Or.inl ((moves_sameGeneration hm).stopping ▸ hstopping)
    · obtain ⟨cs, hcs⟩ := moves_strand hm
      rw [hstrand] at hcovered
      rw [Settling, hcs]
      exact Or.inr ⟨hcovered.2.append (covered_of_no_opener (by simp [Message.isStart])), Or.inl hb⟩
  | report hstrand hm => exact (h.pop hstrand rfl).moves hm
  | asynchronous hm => exact h.moves hm
  | graceAborted htake hw => exact h
  | force htake hw keys => exact h

end Settling

/-- A caller starts a listener and then, in program order, asks it to stop. From then on
nobody starts it, and in the end every call has returned and the strand has run everything.
`y` is the listener at the moment `request_stop` looks at its state. -/
structure StartThenStop (handler : CompletionHandler) (before after : List ListenerLabel)
    (x y z : Listener) :
    Prop where
  reached : x.Reached
  started : ((x.step (x.off (.asyncStart handler))).bind fun x' => run Listener.step x' before) =
    some y
  stopped : ((y.step (y.off .stopRead)).bind fun y' => run Listener.step y' after) = some z
  noStart : ∀ l ∈ after, ¬ l.IsStart
  returned : z.core.stopping = 0
  processed : z.core.strand = []

/-- A run that starts nothing keeps a listener settling. -/
theorem run_settling {x y : Listener} {ls : List ListenerLabel} (h : Settling x.core)
    (hls : ∀ l ∈ ls, ¬ l.IsStart) (hrun : run Listener.step x ls = some y) : Settling y.core := by
  induction ls generalizing x with
  | nil => exact (Option.some.inj hrun) ▸ h
  | cons l ls ih =>
    obtain ⟨t, hstep, hrest⟩ := run_cons.mp hrun
    refine ih (h.step (fun handler hkind => ?_) (Listener.step_core hstep))
      (fun m hm => hls m (List.mem_cons_of_mem _ hm)) hrest
    exact hls l List.mem_cons_self ⟨handler, (Listener.kind_eq_off hstep _).mp hkind⟩

/-- Reading the state for a stop request settles a listener, unless the state it reads is the
`stopped` of a generation whose successor is already queued. -/
theorem stopRead_settling {x y : Listener} (h : x.step (x.off .stopRead) = some y)
    (hcovered : x.core.state = .stopped → Covered Message.isStart Message.isStop x.core.strand) :
    Settling y.core := by
  obtain ⟨alive, -, hcall⟩ := Listener.step_off h
  generalize y.core = b at hcall
  cases hcall with
  | stopReturns hpos hstopped => exact Or.inr ⟨hcovered hstopped, Or.inl (Or.inr hstopped)⟩
  | stopRead hpos hstopped => exact Or.inl (Nat.succ_pos _)

/-- A stop that follows a start in program order halts the listener, provided that
`request_stop` does not find it `stopped` with an unanswered start in its queue. -/
theorem startThenStop_halted {handler : CompletionHandler} {before after : List ListenerLabel}
    {x y z : Listener} (h : StartThenStop handler before after x y z)
    (hcovered : y.core.state = .stopped → Covered Message.isStart Message.isStop y.core.strand) :
    z.core.state.Halted := by
  obtain ⟨y', hread, hrun⟩ := Option.bind_eq_some_iff.mp h.stopped
  have hsettling := run_settling (stopRead_settling hread hcovered) h.noStart hrun
  exact hsettling.halted h.returned h.processed

/-- A run that stops a new bound-socket listener behind its start and lets its session end. -/
def stopBehindStart : List ListenerLabel :=
  [.socket (.core .stopPost), .socket (.run {}), .socket (.run {}), .socket (.run {}),
    .socket (.core (.session 1 .run)),
    .socket (.core (.session 1 (.complete .success))), .socket (.run {})]

/-- A new listener that is started and stopped at once ends up halted. -/
theorem startThenStop_halted_new : ∃ y z,
    StartThenStop (.user 0) [] stopBehindStart (.create 1 defaultSocket) y z ∧
    z.core.state.Halted := by
  have h : StartThenStop (.user 0) [] stopBehindStart (.create 1 defaultSocket) _ _ :=
    ⟨⟨1, defaultSocket, .refl _⟩, rfl, rfl,
      by simp [stopBehindStart, ListenerLabel.IsStart, ListenerLabel.off?],
      rfl, rfl⟩
  exact ⟨_, _, h, startThenStop_halted h (by decide)⟩

/-- With both kinds of listener a stop that follows a start can be lost: the listener has
stopped before, `request_stop` still reads `stopped`, and then the queued start runs. -/
theorem startThenStop_lost :
    (¬ ∀ handler before after (s : AcceptorListener) (y z : Listener),
      StartThenStop handler before after (.acceptor s) y z → z.core.state.Halted) ∧
    ¬ ∀ handler before after (s : SocketListener) (y z : Listener),
      StartThenStop handler before after (.socket s) y z → z.core.state.Halted := by
  constructor
  · intro hclaim
    have h := hclaim (.user 0) [] [.acceptor (.run {}), .acceptor (.run {})] _ _ _
      ⟨⟨1, defaultAcceptor, [.acceptor (.core .stopRead), .acceptor (.core .stopPost),
        .acceptor (.run {})], rfl⟩,
        rfl, rfl, by simp [ListenerLabel.IsStart, ListenerLabel.off?], rfl, rfl⟩
    revert h
    decide
  · intro hclaim
    have h := hclaim (.user 0) [] [.socket (.run {}), .socket (.run {})] _ _ _
      ⟨⟨1, defaultSocket, [.socket (.core .stopRead), .socket (.core .stopPost), .socket (.run {})],
        rfl⟩, rfl, rfl, by simp [ListenerLabel.IsStart, ListenerLabel.off?], rfl, rfl⟩
    revert h
    decide

end Serveza
