import Serveza.Steps

/-!
# What a listener knows about the sessions it holds

Each session that a listener holds is an object of the current generation. As long as
somebody keeps the listener alive, the report of a session that has ended is queued, and
while the listener stops each of its sessions is going to be closed: the grace period is
running, or the session's forced close or its report is on its way.
-/

namespace Serveza

open Foundation ListenerCore

/-- The report of a session is queued. -/
def Reported (c : ListenerCore) (key : ℕ) : Prop :=
  ∃ report, .sessionFinished report ∈ c.strand ∧ report.info.id = key

/-- The end of a session is on its way. -/
def Closing (c : ListenerCore) (key : ℕ) : Prop :=
  (∃ x, c.session? key = some x ∧ .forceClose ∈ x.strand) ∨ Reported c key

/-- The sessions held are going to be closed: now, or when the grace period is over. -/
def Graced (c : ListenerCore) (held : List ℕ) : Prop :=
  0 < c.handles → c.shutdownTimer.HasLive ∨ ∀ key ∈ held, Closing c key

/-- The sessions held exist, belong to the current generation and report their end. -/
def Held (c : ListenerCore) (held : List ℕ) : Prop :=
  ∀ key ∈ held, ∃ x, c.session? key = some x ∧ x.generation = c.generation ∧
    (x.finished = true → 0 < c.handles → Reported c key)

variable {a b : ListenerCore} {held : List ℕ} {key : ℕ}

/-- A report stays queued while messages are added behind it. -/
theorem Reported.append (h : Reported a key) {extra : List Message}
    (hstrand : b.strand = a.strand ++ extra) :
    Reported b key := by
  obtain ⟨report, hmem, hid⟩ := h
  exact ⟨report, hstrand ▸ List.mem_append_left _ hmem, hid⟩

/-- A report stays queued while another message runs. -/
theorem Reported.pop (h : Reported a key) {m : Message} {rest : List Message}
    (hstrand : a.strand = m :: rest)
    (hm : ∀ report, m = .sessionFinished report → report.info.id ≠ key) :
    Reported { a with strand := rest } key := by
  obtain ⟨report, hmem, hid⟩ := h
  rw [hstrand] at hmem
  rcases List.mem_cons.mp hmem with rfl | hmem
  · exact absurd hid (hm report rfl)
  · exact ⟨report, hmem, hid⟩

/-- The end of a session stays on its way as long as nothing posted is lost. -/
theorem Closing.mono (h : Closing a key) (hsessions : KeepsSessions a b)
    (hreported : Reported a key → Reported b key) :
    Closing b key := by
  refine h.imp ?_ hreported
  rintro ⟨x, hx, hmem⟩
  obtain ⟨x', hx', -, -, hstrand⟩ := hsessions key x hx
  exact ⟨x', hx', hstrand _ hmem⟩

/-- Sessions stay held as long as nothing posted is lost and no generation begins. -/
theorem Held.mono (h : Held a held) (hgeneration : b.generation = a.generation)
    (hhandles : 0 < b.handles → 0 < a.handles) (hsessions : KeepsSessions a b)
    (hreported : ∀ key ∈ held, Reported a key → Reported b key) : Held b held := by
  intro key hkey
  obtain ⟨x, hx, hx', hfinished⟩ := h key hkey
  obtain ⟨y, hy, hy', hsame, -⟩ := hsessions key x hx
  refine ⟨y, hy, by rw [hy', hx', hgeneration], fun hended hpos => hreported key hkey
    (hfinished ?_ (hhandles hpos))⟩
  rw [← hsame, hended]

/-- Sessions stay on their way to be closed as long as nothing posted is lost. -/
theorem Graced.mono (h : Graced a held) (hhandles : 0 < b.handles → 0 < a.handles)
    (htimer : a.shutdownTimer.HasLive → b.shutdownTimer.HasLive) (hsessions : KeepsSessions a b)
    (hreported : ∀ key ∈ held, Reported a key → Reported b key) : Graced b held := by
  refine fun hpos => (h (hhandles hpos)).imp htimer fun hclosing key hkey => ?_
  exact (hclosing key hkey).mono hsessions (hreported key hkey)

/-- Fewer sessions are still held. -/
theorem Held.subset (h : Held a held) {held' : List ℕ} (hsub : held' ⊆ held) : Held a held' :=
  fun key hkey => h key (hsub hkey)

/-- Moves keep the sessions held. -/
theorem Held.moves (h : Held a held) (hm : Moves a b) : Held b held := by
  obtain ⟨cs, hcs⟩ := moves_strand hm
  have hsame := moves_sameGeneration hm
  exact h.mono hsame.generation (fun hpos => hsame.handles ▸ hpos) (moves_keepsSessions hm)
    fun _ _ hr => hr.append hcs

/-- A quiet change leaves the sessions on their way to be closed. -/
theorem Graced.quiet (h : Graced a held) (hq : Quiet a b) : Graced b held :=
  h.mono (fun hpos => hq.handles ▸ hpos) (fun hlive => hq.shutdownTimer ▸ hlive)
    hq.sessions fun _ _ hr =>
    hr.append (by rw [hq.strand, List.append_nil])

/-- Fewer sessions are still going to be closed. -/
theorem Graced.subset (h : Graced a held) {held' : List ℕ} (hsub : held' ⊆ held) : Graced a held' :=
  fun hpos => (h hpos).imp_right fun hclosing key hkey => hclosing key (hsub hkey)

/-- Running a message that reports none of the sessions held keeps them held. -/
theorem Held.pop (h : Held a held) {m : Message} {rest : List Message}
    (hstrand : a.strand = m :: rest)
    (hm : ∀ report, m = .sessionFinished report → report.info.id ∉ held) :
    Held { a with strand := rest } held :=
  h.mono rfl id (.of_heap rfl) fun _ hkey hr => hr.pop hstrand fun report he hid =>
    hm report he (hid ▸ hkey)

/-- Running a message that reports none of the sessions held leaves them on their way. -/
theorem Graced.pop (h : Graced a held) {m : Message} {rest : List Message}
    (hstrand : a.strand = m :: rest)
    (hm : ∀ report, m = .sessionFinished report → report.info.id ∉ held) :
    Graced { a with strand := rest } held :=
  h.mono id id (.of_heap rfl) fun _ hkey hr => hr.pop hstrand fun report he hid =>
    hm report he (hid ▸ hkey)

/-- The bookkeeping of waits keeps the sessions held. -/
theorem Held.waitsOnly (h : Held a held) (hw : WaitsOnly a b) : Held b held := by
  obtain ⟨cs, hcs⟩ := hw.strand
  exact h.mono hw.generation (fun hpos => hw.handles ▸ hpos) (.of_heap hw.heap)
    fun _ _ hr => hr.append hcs

/-- The bookkeeping of waits leaves the sessions held on their way to be closed. -/
theorem Graced.waitsOnly (h : Graced a held) (hw : WaitsOnly a b) : Graced b held := by
  obtain ⟨cs, hcs⟩ := hw.strand
  exact h.mono (fun hpos => hw.handles ▸ hpos) (fun hlive => hw.shutdownTimer ▸ hlive)
    (.of_heap hw.heap) fun _ _ hr =>
    hr.append hcs

/-- Closing the sessions held puts their end on its way. -/
theorem graced_postTo (h : Held a held) :
    ∀ key ∈ held, Closing (a.postTo held .forceClose) key := by
  intro key hkey
  obtain ⟨x, hx, -, -⟩ := h key hkey
  have hid : x.info.id = key := by simpa using List.find?_some hx
  refine Or.inl ⟨x.post .forceClose, ?_, by simp [Session.post]⟩
  rw [session?_postTo, hx, Option.map_some, if_pos (hid ▸ hkey)]

/-- The forced shutdown keeps the sessions held. -/
theorem Held.forceShutdown (h : Held a held) (keys : List ℕ) : Held (a.forceShutdown keys) held :=
  h.mono rfl id (.trans (.of_heap rfl) (keepsSessions_postTo _ keys .forceClose)) fun _ _ hr => hr

/-- The forced shutdown puts the end of the sessions held on its way. -/
theorem forceShutdown_closing (h : Held a held) :
    ∀ key ∈ held, Closing (a.forceShutdown held) key := by
  have hnoted :
      Held ((a.recordDiagnostic .timedOut none).emit .shutdownForced {} .timedOut none) held :=
    h.mono rfl id (.of_heap rfl) fun _ _ hr => hr
  exact graced_postTo hnoted

/-- Looking up a session after a step of one of them. -/
theorem session?_step (a : ListenerCore) {x x' : Session} (hx : a.session? key = some x)
    (hid : x'.info.id = key) (strand : List Message) (other : ℕ) :
    { a with heap := a.replaceSession key x', strand := strand }.session? other =
      if other = key then some x' else a.session? other := by
  have hkey :
      ((fun y : Session => decide (y.info.id = other)) ∘ fun y => if y.info.id =
        key then x' else y) =
      fun y => decide (y.info.id = other) := by
    funext y
    simp only [Function.comp_apply]
    split
    · rename_i hy
      rw [hid, hy]
    · rfl
  have hlookup : (a.replaceSession key x').find? (fun y => y.info.id = other) =
      (a.session? other).map fun y => if y.info.id = key then x' else y := by
    rw [replaceSession, List.find?_map, hkey]
    rfl
  rw [session?, hlookup]
  split
  · rename_i hother
    rw [hother, hx, Option.map_some, if_pos (by simpa using List.find?_some hx)]
  · rename_i hother
    cases hy : a.session? other with
    | none => rfl
    | some y =>
      have hyid : y.info.id = other := by simpa using List.find?_some hy
      rw [Option.map_some, if_neg (hyid ▸ hother)]

/-- A step of a session keeps the sessions held, if it can report to a listener that somebody
keeps alive. -/
theorem Held.session (h : Held a held) {alive : Bool} (halive : 0 < a.handles → alive = true)
    {x x' : Session} {l : SessionLabel} {report : Option SessionReport}
    (hx : a.session? key = some x) (hstep : x.step l = some (x', report)) :
    Held { a with
      heap := a.replaceSession key x'
      strand := a.strand ++ if alive then report.toList.map .sessionFinished else [] } held := by
  obtain ⟨hinfo, hgeneration, hold, hnew, -, -⟩ := Session.step_spec hstep
  have hid : x.info.id = key := by simpa using List.find?_some hx
  intro other hother
  obtain ⟨y, hy, hygeneration, hfinished⟩ := h other hother
  rw [session?_step a hx (hinfo ▸ hid)]
  split
  · rename_i hsame
    obtain rfl : x = y := Option.some.inj (hx.symm.trans (hsame ▸ hy))
    refine ⟨x', rfl, hgeneration.trans hygeneration, fun hended hpos => ?_⟩
    cases hopen : x.finished with
    | true => exact (hfinished hopen hpos).append rfl
    | false =>
      obtain ⟨r, rfl, hr⟩ := hnew hopen hended
      exact ⟨r, by simp [halive hpos], by rw [hr, hid, hsame]⟩
  · exact ⟨y, hy, hygeneration, fun hended hpos => (hfinished hended hpos).append rfl⟩

/-- A step of a session that can report to its listener leaves each end on its way. -/
theorem Closing.session {other : ℕ} (h : Closing a other) (hpos : 0 < a.handles)
    (hheld : Held a [other]) {alive : Bool} (halive : 0 < a.handles → alive = true) {x x' : Session}
    {l : SessionLabel} {report : Option SessionReport} (hx : a.session? key = some x)
    (hstep : x.step l = some (x', report)) :
    Closing { a with
      heap := a.replaceSession key x'
      strand := a.strand ++ if alive then report.toList.map .sessionFinished else [] } other := by
  have hheld' := hheld.session halive hx hstep
  obtain ⟨hinfo, -, -, -, -, hforce⟩ := Session.step_spec hstep
  have hid : x.info.id = key := by simpa using List.find?_some hx
  rcases h with ⟨y, hy, hmem⟩ | hr
  · by_cases hsame : other = key
    · obtain rfl : x = y := Option.some.inj (hx.symm.trans (hsame ▸ hy))
      rcases hforce hmem with hqueued | hended
      · exact Or.inl ⟨x', by rw [session?_step a hx (hinfo ▸ hid), if_pos hsame], hqueued⟩
      · obtain ⟨z, hz, -, hfinished⟩ := hheld' other (List.mem_singleton.mpr rfl)
        rw [session?_step a hx (hinfo ▸ hid), if_pos hsame] at hz
        exact Or.inr (hfinished (Option.some.inj hz ▸ hended) hpos)
    · exact Or.inl ⟨y, by rw [session?_step a hx (hinfo ▸ hid), if_neg hsame, hy], hmem⟩
  · exact Or.inr (hr.append rfl)

/-- A step off the strand creates and destroys no session. -/
theorem CallStep.ids {alive : Bool} {l : CoreLabel} (h : CallStep alive l a b) :
    b.heap.map (·.info.id) = a.heap.map (·.info.id) := by
  cases h with
  | @session _ key _ x x' _ hx hstep =>
    have hid : x'.info.id = key := by
      rw [(Session.step_spec hstep).1]
      simpa using List.find?_some hx
    refine (List.map_map ..).trans (List.map_congr_left fun y _ => ?_)
    simp only [Function.comp_apply]
    split
    · rename_i hy
      rw [hid, hy]
    · rfl
  | _ => rfl

/-- A step off the strand loses no report. -/
theorem Reported.call {alive : Bool} {l : CoreLabel} (h : Reported a key)
    (hcall : CallStep alive l a b) :
    Reported b key := by
  cases hcall with
  | cancelStart =>
    obtain ⟨report, hmem, hid⟩ := h
    exact ⟨report, List.mem_map_of_mem (f := Message.cancelStart _) hmem, hid⟩
  | asyncStart hpos => exact h.append rfl
  | postWait hw => exact h.append rfl
  | postCancel hmem halive => exact h.append rfl
  | stopPost hpos => exact h.append rfl
  | session hx hstep => exact h.append rfl
  | _ => exact h

/-- Somebody who keeps the listener alive after a step off the strand did so before it. -/
theorem CallStep.handles_pos {alive : Bool} {l : CoreLabel} (h : CallStep alive l a b)
    (hb : 0 < b.handles) :
    0 < a.handles := by
  cases h with
  | cloneHandle hpos => exact hpos
  | dropHandle hpos => exact hpos
  | _ => exact hb

/-- A step off the strand keeps the sessions held. -/
theorem Held.call (h : Held a held) {alive : Bool} (halive : 0 < a.handles → alive = true)
    {l : CoreLabel} (hcall : CallStep alive l a b) : Held b held := by
  have hreported : ∀ key ∈ held, Reported a key → Reported b key := fun _ _ hr => hr.call hcall
  have hhandles := hcall.handles_pos
  cases hcall with
  | session hx hstep => exact h.session halive hx hstep
  | _ => exact h.mono rfl hhandles (.of_heap rfl) hreported

/-- A step off the strand leaves the sessions held on their way to be closed. -/
theorem Graced.call (h : Graced a held) (hheld : Held a held) {alive : Bool}
    (halive : 0 < a.handles → alive = true) {l : CoreLabel} (hcall : CallStep alive l a b) :
    Graced b held := by
  have hreported : ∀ key ∈ held, Reported a key → Reported b key := fun _ _ hr => hr.call hcall
  have hhandles := hcall.handles_pos
  cases hcall with
  | session hx hstep =>
    refine fun hpos => (h hpos).imp id fun hclosing key hkey => ?_
    exact (hclosing key hkey).session hpos (hheld.subset (by simpa using hkey)) halive hx hstep
  | graceExpires hexpire => exact fun _ => Or.inl (Timer.hasLive_expire hexpire)
  | _ => exact h.mono hhandles id (.of_heap rfl) hreported

/-- A new session object with a new identifier is found under it. -/
theorem session?_append (a : ListenerCore) (x : Session)
    (hnew : ∀ y ∈ a.heap, y.info.id ≠ x.info.id) :
    { a with heap := a.heap ++ [x] }.session? x.info.id = some x := by
  have hnone : a.heap.find? (fun y => y.info.id = x.info.id) = none :=
    List.find?_eq_none.mpr fun y hy => by simpa using hnew y hy
  rw [session?, List.find?_append, hnone]
  simp

/-- Holding a new session keeps the others held. -/
theorem Held.append (h : Held a held) {x : Session} (hnew : ∀ y ∈ a.heap, y.info.id ≠ x.info.id)
    (hgeneration : x.generation = a.generation) (hopen : x.finished = false) :
    Held { a with heap := a.heap ++ [x] } (held ++ [x.info.id]) := by
  have hothers : Held { a with heap := a.heap ++ [x] } held :=
    Held.mono (b := { a with heap := a.heap ++ [x] }) h rfl id
      (keepsSessions_append a x) fun _ _ hr => hr
  intro key hkey
  rcases List.mem_append.mp hkey with hold | hnew'
  · exact hothers key hold
  · rw [List.mem_singleton.mp hnew']
    exact ⟨x, session?_append a x hnew, hgeneration, fun hended _ => by simp [hopen] at hended⟩

end Serveza
