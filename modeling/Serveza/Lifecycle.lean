import Mathlib.Data.List.Chain
import Serveza.Foundation.Log
import Serveza.Record

/-!
# The lifecycle that observers see

The states that a listener announces form a path of the lifecycle graph, and every event
carries the number of generations begun so far. Both are laws of the log of events, kept by
every entry. Starts that join a generation, are rejected or were cancelled leave the
lifecycle alone.
-/

namespace Serveza

open Foundation ListenerCore

/-- The lifecycle graph. -/
def ListenerState.leadsTo : ListenerState → ListenerState → Bool
  | .idle, .starting | .idle, .stopping => true
  | .starting, .running | .starting, .stopping | .starting, .stopped => true
  | .running, .stopping => true
  | .stopping, .stopped => true
  | .stopped, .starting => true
  | _, _ => false

/-- The state an event announces. -/
def ListenerEvent.announced? (event : ListenerEvent) : Option ListenerState :=
  if event.type = .stateChanged then some event.status.state else none

/-- The states announced by some events, in order. -/
def announced (events : List ListenerEvent) : List ListenerState :=
  events.filterMap ListenerEvent.announced?

/-- The number of generations whose start has been announced. -/
def generations (events : List ListenerEvent) : ℕ := (announced events).count .starting

/-- The events obey the lifecycle: they announce a path of the graph that leads to the current
state, and they are numbered by the generations begun so far. -/
structure Lawful (c : ListenerCore) : Prop where
  path : (.idle :: announced c.events).IsChain fun u v => u.leadsTo v = true
  last : (.idle :: announced c.events).getLast? = some c.state
  begun : c.generation = generations c.events
  numbered : Logged (fun before e => e.status.generation = generations (before ++ [e])) c.events

variable {a b : ListenerCore} {e : ListenerEvent}

/-- One more event announces its state, if it announces one. -/
theorem announced_concat (events : List ListenerEvent) (e : ListenerEvent) :
    announced (events ++ [e]) = announced events ++ e.announced?.toList := by
  rw [announced, List.filterMap_append]
  cases h : e.announced? with
  | none => simp [announced, h]
  | some state => simp [announced, h]

/-- An event that announces no state keeps the law. -/
theorem Lawful.event (h : Lawful a) (htype : e.type ≠ .stateChanged)
    (he : e.status.generation = a.generation) (hstate : b.state = a.state)
    (hgeneration : b.generation = a.generation) (hevents : b.events = a.events ++ [e]) :
    Lawful b := by
  have hsame : announced (a.events ++ [e]) = announced a.events := by
    rw [announced_concat, ListenerEvent.announced?, if_neg htype]
    exact List.append_nil _
  have hbegun : generations (a.events ++ [e]) = generations a.events := by
    rw [generations, hsame, generations]
  refine ⟨?_, ?_, ?_, ?_⟩
  · rw [hevents, hsame]
    exact h.path
  · rw [hevents, hsame, hstate]
    exact h.last
  · rw [hevents, hbegun, hgeneration, h.begun]
  · rw [hevents]
    exact logged_concat.mpr ⟨h.numbered, by rw [he, h.begun, hbegun]⟩

/-- An event that announces the next state keeps the law, if the graph leads there and a start
begins a generation. -/
theorem Lawful.announce (h : Lawful a) (htype : e.type = .stateChanged)
    (he : e.status.generation = b.generation) (hstatus : e.status.state = b.state)
    (hleads : a.state.leadsTo b.state = true)
    (hgeneration : b.generation = a.generation + if b.state = .starting then 1 else 0)
    (hevents : b.events = a.events ++ [e]) : Lawful b := by
  have hnew : announced (a.events ++ [e]) = announced a.events ++ [b.state] := by
    rw [announced_concat, ListenerEvent.announced?, if_pos htype, hstatus]
    rfl
  have hbegun : generations (a.events ++ [e]) = b.generation := by
    rw [generations, hnew, List.count_append, hgeneration, h.begun, generations]
    by_cases hstarting : b.state = .starting
    · simp [hstarting]
    · simp [hstarting]
  refine ⟨?_, ?_, ?_, ?_⟩
  · rw [hevents, hnew, ← List.cons_append]
    refine List.isChain_append.mpr ⟨h.path, .singleton _, fun u hu v hv => ?_⟩
    rw [h.last] at hu
    obtain rfl := Option.some.inj hu
    obtain rfl := Option.some.inj hv
    exact hleads
  · rw [hevents, hnew, ← List.cons_append, List.getLast?_concat]
  · rw [hevents, hbegun]
  · rw [hevents]
    exact logged_concat.mpr ⟨h.numbered, by rw [he, hbegun]⟩

/-- The law is about the record. -/
theorem Lawful.same (h : Lawful a) (hsame : SameRecord a b) : Lawful b := by
  obtain ⟨hstate, hgeneration, -, -, hevents⟩ := hsame
  exact ⟨hevents ▸ h.path, by rw [hevents, hstate]; exact h.last,
    by rw [hevents, hgeneration]; exact h.begun,
    hevents ▸ h.numbered⟩

/-- Ending a generation keeps the law. -/
theorem Lawful.finish (h : Lawful a) (hs : a.state = .starting ∨ a.state = .stopping)
    (ec : ErrorCode) (reason : ListenerStopReason) : Lawful (a.finish ec reason) := by
  have hstopped : a.state ≠ .stopped := by rcases hs with hs | hs <;> simp [hs]
  obtain ⟨-, -, -, -, -, event, hevents, ⟨htype, hstatus⟩, hgeneration⟩ :=
    finish_eq a ec reason hstopped
  have hsame := (finish_sameGeneration a ec reason).generation
  refine h.announce htype (hgeneration.trans hsame.symm)
    (hstatus.trans (finish_state a ec reason).symm) ?_ ?_ hevents
  · rw [finish_state]
    rcases hs with hs | hs <;> simp [hs, ListenerState.leadsTo]
  · rw [hsame, finish_state]
    simp

/-- Every entry keeps the law. -/
theorem Lawful.entry (h : Lawful a) (hentry : Entry a b) : Lawful b := by
  cases hentry with
  | silent hsame => exact h.same hsame
  | event htype info ec ep => exact h.event htype rfl rfl rfl rfl
  | running hs => exact h.announce rfl rfl rfl (by rw [hs]; rfl) rfl rfl
  | stopping hs ec hreason =>
    refine h.announce rfl rfl rfl ?_ rfl rfl
    rcases hs with hs | hs | hs <;> rw [hs] <;> rfl
  | stopped hs => exact h.finish (Or.inr hs) _ _
  | failed hs ec => exact h.finish (Or.inl hs) _ _

/-- Entries keep the law. -/
theorem Lawful.entries (h : Lawful a) (hentries : Entries a b) : Lawful b := by
  induction hentries with
  | refl => exact h
  | tail _ hentry ih => exact ih.entry hentry

/-- Beginning a generation keeps the law. -/
theorem Lawful.beginGeneration (h : Lawful a) (hs : a.state = .idle ∨ a.state = .stopped) :
    Lawful a.beginGeneration := by
  refine h.announce rfl rfl rfl ?_ rfl rfl
  rcases hs with hs | hs <;> rw [hs] <;> rfl

/-- Every step keeps the law. -/
theorem Lawful.writes {p : Prop} (h : Lawful a) (hwrites : Writes p a b) : Lawful b := by
  cases hwrites with
  | entries hentries => exact h.entries hentries
  | start hs hm hentries => exact ((h.same hm).beginGeneration (hm.state ▸ hs)).entries hentries
  | concluded hp hs hm ec hreason =>
    refine Lawful.finish ?_ (Or.inr rfl) _ _
    exact (h.entries hm).announce rfl rfl rfl (by rw [hs]; rfl) rfl rfl

/-- The graph has no loops. -/
theorem ListenerState.ne_of_leadsTo {u v : ListenerState} (h : u.leadsTo v = true) : u ≠ v := by
  rintro rfl
  cases u <;> contradiction

section NeutralStarts

variable {handler : CompletionHandler} {cancelled : Bool} {rest : List Message}

/-- A start that was cancelled, joins a running generation or comes while the listener stops
leaves the record of an accepting listener alone. -/
theorem AcceptorListener.start_sameRecord {s t : AcceptorListener} {answers : AcceptorAnswers}
    (h : s.step (.run answers) = some t)
    (hstrand : s.core.strand = .start handler cancelled :: rest)
    (hneutral : cancelled = true ∨ s.core.state = .running ∨ s.core.state = .stopping) :
    SameRecord s.core t.core := by
  obtain rfl : _ = t := by simpa [AcceptorListener.step, hstrand] using h
  cases cancelled with
  | true => exact ⟨rfl, rfl, rfl, rfl, rfl⟩
  | false =>
    have hs := hneutral.resolve_left (by simp)
    rw [AcceptorListener.handle, if_neg (by simp)]
    rcases (s.mapCore fun c => { c with strand := rest }).startOnStrand_cases answers handler with
      ⟨-, heq⟩ | ⟨-, heq⟩ | ⟨hidle, -⟩
    · rw [heq]
      exact ⟨rfl, rfl, rfl, rfl, rfl⟩
    · rw [heq]
      exact ⟨rfl, rfl, rfl, rfl, rfl⟩
    · have hidle : s.core.state = .idle ∨ s.core.state = .stopped := hidle
      rcases hs with hs | hs <;> simp [hs] at hidle

/-- A start that was cancelled, joins a running generation or comes while the listener stops
leaves the record of a bound-socket listener alone. -/
theorem SocketListener.start_sameRecord {s t : SocketListener} {answers : SocketAnswers}
    (h : s.step (.run answers) = some t)
    (hstrand : s.core.strand = .start handler cancelled :: rest)
    (hneutral : cancelled = true ∨ s.core.state = .running ∨ s.core.state = .stopping) :
    SameRecord s.core t.core := by
  obtain rfl : _ = t := by simpa [SocketListener.step, hstrand] using h
  cases cancelled with
  | true => exact ⟨rfl, rfl, rfl, rfl, rfl⟩
  | false =>
    have hs := hneutral.resolve_left (by simp)
    rw [SocketListener.handle, if_neg (by simp)]
    rcases (s.mapCore fun c => { c with strand := rest }).startOnStrand_cases answers handler with
      ⟨-, heq⟩ | ⟨-, heq⟩ | ⟨hidle, -⟩
    · rw [heq]
      exact ⟨rfl, rfl, rfl, rfl, rfl⟩
    · rw [heq]
      exact ⟨rfl, rfl, rfl, rfl, rfl⟩
    · have hidle : s.core.state = .idle ∨ s.core.state = .stopped := hidle
      rcases hs with hs | hs <;> simp [hs] at hidle

end NeutralStarts

/-- The step runs the oldest message of the strand. -/
def ListenerLabel.isRun : ListenerLabel → Bool
  | .acceptor (.run _) | .socket (.run _) => true
  | _ => false

/-- A start that was cancelled, joins a running generation or comes while the listener stops
leaves the record alone. -/
theorem Listener.start_sameRecord {x y : Listener} {l : ListenerLabel} {handler : CompletionHandler}
    {cancelled : Bool} (hstep : x.step l = some y) (hrun : l.isRun = true)
    (hhead : x.core.strand.head? = some (.start handler cancelled))
    (hneutral : cancelled = true ∨ x.core.state = .running ∨ x.core.state = .stopping) :
    SameRecord x.core y.core := by
  obtain ⟨rest, hstrand⟩ := List.head?_eq_some_iff.mp hhead
  cases x with
  | acceptor s =>
    rcases l with (_ | answers | _ | _ | _ | _) | _
    case acceptor.run =>
      obtain ⟨t, ht, rfl⟩ := Option.map_eq_some_iff.mp hstep
      exact AcceptorListener.start_sameRecord ht hstrand hneutral
    all_goals contradiction
  | socket s =>
    rcases l with _ | (_ | answers | _)
    case socket.run =>
      obtain ⟨t, ht, rfl⟩ := Option.map_eq_some_iff.mp hstep
      exact SocketListener.start_sameRecord ht hstrand hneutral
    all_goals contradiction

/-- A new listener has announced nothing. -/
theorem lawful_create (id : ℕ) (config : ListenerConfig) :
    Lawful (Listener.create id config).core := by
  obtain ⟨endpoint, hcore⟩ := Listener.create_core id config
  rw [hcore]
  exact ⟨.singleton _, rfl, rfl, logged_nil⟩

/-- The lifecycle of a listener of either kind. The states it announces, preceded by `idle`,
are a path of the lifecycle graph, no event repeats the current state, each event carries the
number of starts announced up to and including it, and a start that was cancelled, joins a
running generation or comes while the listener stops changes neither state nor generation. -/
theorem listener_lifecycle {x : Listener} (h : x.Reached) :
    (.idle :: announced x.core.events).IsChain (fun u v => u.leadsTo v = true) ∧
      (.idle :: announced x.core.events).IsChain (· ≠ ·) ∧
      Logged (fun before e => e.status.generation = generations (before ++ [e])) x.core.events ∧
      ∀ l y handler cancelled, x.step l = some y → l.isRun = true →
        x.core.strand.head? = some (.start handler cancelled) →
        cancelled = true ∨ x.core.state = .running ∨ x.core.state = .stopping →
        y.core.state = x.core.state ∧ y.core.generation = x.core.generation := by
  obtain ⟨id, config, hreachable⟩ := h
  have hlawful := hreachable.invariant (fun x => Lawful x.core)
    (fun _ _ _ hl hstep => Lawful.writes hl (Listener.step_writes hstep)) (lawful_create id config)
  refine ⟨hlawful.path, ?_, hlawful.numbered,
    fun l y handler cancelled hstep hrun hhead hneutral => ?_⟩
  · exact hlawful.path.imp fun u v => ListenerState.ne_of_leadsTo
  · have hsame := Listener.start_sameRecord hstep hrun hhead hneutral
    exact ⟨hsame.state, hsame.generation⟩

/-- Two generations of a bound-socket listener, with a start that joins the second one. -/
def twoGenerations : List ListenerLabel :=
  [.socket (.core (.asyncStart (.user 0))), .socket (.run {}), .socket (.core (.session 1 .run)),
    .socket (.core (.session 1 (.complete .success))), .socket (.run {}), .socket (.run {}),
    .socket (.core (.asyncStart (.user 1))), .socket (.run {}), .socket (.run {}),
    .socket (.core (.asyncStart (.user 2)))]

/-- Two generations announce their states in order, and a start that joins keeps the second. -/
theorem listener_lifecycle_twice : ∃ x y,
    run Listener.step (Listener.create 1 defaultSocket) twoGenerations = some x ∧
      announced x.core.events = [.starting, .running, .stopping, .stopped, .starting, .running] ∧
      (.idle :: announced x.core.events).IsChain (fun u v => u.leadsTo v = true) ∧
      x.step (.socket (.run {})) = some y ∧ y.core.generation = x.core.generation := by
  have h : run Listener.step (Listener.create 1 defaultSocket) twoGenerations = some _ := rfl
  obtain ⟨hpath, -, -, hneutral⟩ := listener_lifecycle ⟨1, defaultSocket, _, h⟩
  have hjoins := hneutral (.socket (.run {})) _ (.user 2) false rfl rfl rfl (Or.inr (Or.inl rfl))
  exact ⟨_, _, h, rfl, hpath, rfl, hjoins.2⟩

end Serveza
