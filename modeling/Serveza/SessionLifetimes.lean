import Serveza.BoundSession
import Serveza.Foundation.Registry
import Serveza.SessionEvents
import Serveza.Shutdown

/-!
# How long sessions live

A session is open until it finishes, which closes its socket. While it is open the listener
that made it holds it, counts it and has not left the generation it was made in. So a listener
that is stopped has closed every connection, and a new generation finds none of an old one.
-/

namespace Serveza

open Foundation ListenerCore

namespace Listener

variable {x y : Listener} {l : ListenerLabel}

/-- What a listener of either kind keeps about its sessions. -/
def Minds : Listener → Prop
  | .acceptor s => ∃ options, Books options s ∧ Tended s ∧ SessionsPaired s
  | .socket s => SocketTended s ∧ Bound s

/-- A new listener has no session. -/
theorem Minds.create (id : ℕ) (config : ListenerConfig) : (Listener.create id config).Minds := by
  cases config with
  | acceptor endpoint options => exact ⟨options, .create .., .create .., .create ..⟩
  | socket endpoint options => exact ⟨.create .., .create ..⟩

/-- Every step keeps it. -/
theorem Minds.step (h : x.Minds) (hstep : x.step l = some y) : y.Minds := by
  cases x with
  | acceptor s =>
    cases l with
    | socket l => contradiction
    | acceptor l =>
      obtain ⟨t, ht, rfl⟩ := Option.map_eq_some_iff.mp hstep
      obtain ⟨options, hbooks, htended, hpaired⟩ := h
      exact ⟨options, hbooks.step ht, htended.step hbooks ht, hpaired.step hbooks ht⟩
  | socket s =>
    cases l with
    | acceptor l => contradiction
    | socket l =>
      obtain ⟨t, ht, rfl⟩ := Option.map_eq_some_iff.mp hstep
      exact ⟨h.1.step ht, h.2.step h.1 ht⟩

/-- A reachable listener minds its sessions. -/
theorem Reached.minds (h : x.Reached) : x.Minds := by
  obtain ⟨id, config, hreachable⟩ := h
  exact hreachable.invariant Minds (fun _ _ _ h hstep => h.step hstep) (.create id config)

/-- A listener that minds its sessions reports their ends in order. -/
theorem Minds.reporting (h : x.Minds) : Reporting x.core x.held := by
  cases x with
  | acceptor s =>
    obtain ⟨options, -, -, hpaired⟩ := h
    exact hpaired.reporting
  | socket s => exact h.2.reporting

/-- The sessions it holds belong to its generation. -/
theorem Minds.held (h : x.Minds) : Held x.core x.held := by
  cases x with
  | acceptor s =>
    obtain ⟨options, -, htended, -⟩ := h
    exact htended.held
  | socket s => exact h.1.held

/-- The sessions it counts are the ones it holds. -/
theorem Minds.counted (h : x.Minds) : x.core.activeSessions = x.held.length := by
  cases x with
  | acceptor s =>
    obtain ⟨options, hbooks, -⟩ := h
    exact hbooks.counted
  | socket s => exact h.2.counted

/-- It holds none when it is at rest. -/
theorem Minds.released (h : x.Minds) (hs : x.core.state = .idle ∨ x.core.state = .stopped) :
    x.held = [] := by
  cases x with
  | acceptor s =>
    obtain ⟨options, hbooks, -⟩ := h
    exact (hbooks.released hs).1
  | socket s =>
    have hnone : s.session = none := h.1.released hs
    simp [Listener.held, hnone]

end Listener

/-- No session outlives the generation it was made in. In every reachable listener a session
that has not finished, whose socket is open, is held by the listener and belongs to the current
generation; the sessions held are known, each under its own number, and counted; and a listener
that is idle or stopped holds none and has closed all there have been. -/
theorem sessions_withinGeneration {x : Listener} (h : x.Reached) :
    (∀ y ∈ x.core.heap, y.finished = false → y.info.id ∈ x.held ∧
      y.generation = x.core.generation) ∧
      (∀ key ∈ x.held, ∃ y ∈ x.core.heap, y.info.id = key ∧ y.generation = x.core.generation) ∧
      (x.core.heap.map (·.info.id)).Nodup ∧ x.core.activeSessions = x.held.length ∧
      (x.core.state = .idle ∨ x.core.state = .stopped → x.held = [] ∧
        ∀ y ∈ x.core.heap, y.finished = true) := by
  have hminds := h.minds
  have hnodup : (x.core.heap.map (·.info.id)).Nodup := by
    have hdistinct := hminds.reporting.distinct
    rwa [accounts, List.map_map] at hdistinct
  have hopen (y : Session) (hy : y ∈ x.core.heap) (hfinished : y.finished = false) :
      y.info.id ∈ x.held :=
    hminds.reporting.open_held y.info (List.mem_map.mpr ⟨y, hy, by rw [hfinished]⟩)
  refine ⟨fun y hy hfinished => ⟨hopen y hy hfinished, ?_⟩, fun key hkey => ?_, hnodup,
    hminds.counted, fun hs => ?_⟩
  · obtain ⟨z, hz, hgeneration, -⟩ := hminds.held _ (hopen y hy hfinished)
    have hself : x.core.session? y.info.id = some y := find?_of_mem hnodup hy
    rwa [← Option.some.inj (hself.symm.trans hz)] at hgeneration
  · obtain ⟨y, hy, hgeneration, -⟩ := hminds.held key hkey
    exact ⟨y, List.mem_of_find?_eq_some hy, by simpa using List.find?_some hy, hgeneration⟩
  · have hnone := hminds.released hs
    refine ⟨hnone, fun y hy => ?_⟩
    by_contra hfinished
    have hheld := hopen y hy (by simpa using hfinished)
    simp [hnone] at hheld

/-- A stopping listener holds the session that is still open. -/
theorem sessions_withinGeneration_stopWithSession :
    ∃ x, run Listener.step (.create 1 defaultSocket) stopWithSession = some x ∧
    x.core.state = .stopping ∧ (x.core.heap.map (·.finished)) = [false] ∧
      ∀ y ∈ x.core.heap, y.finished = false → y.info.id ∈ x.held ∧
      y.generation = x.core.generation := by
  have h : run Listener.step (.create 1 defaultSocket) stopWithSession = some _ := rfl
  exact ⟨_, h, rfl, rfl, (sessions_withinGeneration ⟨1, defaultSocket, stopWithSession, h⟩).1⟩

end Serveza
