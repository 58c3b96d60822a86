import Mathlib.Data.List.Nodup
import Mathlib.Data.List.Perm.Subperm
import Serveza.Steps

/-!
# Each session reports its end once

A session object tells its listener of its end when its `finished` flag is set, which happens
once. So the reports that wait on the strand come from different sessions, each of which has
ended and is still held by the listener that has not run its report.
-/

namespace Serveza

open Foundation ListenerCore

/-- The report a message carries. -/
def Message.report? : Message → Option SessionReport
  | .sessionFinished report => some report
  | _ => none

/-- The reports of sessions that are on their way to the listener. -/
def ListenerCore.reports (c : ListenerCore) : List SessionReport :=
  c.strand.filterMap Message.report?

/-- The session objects, as far as their ends are concerned: whose they are and whether they
have ended. -/
def ListenerCore.accounts (c : ListenerCore) : List (ConnectionInfo × Bool) :=
  c.heap.map fun x => (x.info, x.finished)

/-- The reports are in order in a listener that holds some sessions: a session that is not held
has ended, and a report stands for one session that is held and has ended. -/
structure Reporting (c : ListenerCore) (held : List ℕ) : Prop where
  distinct : (c.accounts.map (·.1.id)).Nodup
  open_held : ∀ info, (info, false) ∈ c.accounts → info.id ∈ held
  ended : ∀ report ∈ c.reports, report.info.id ∈ held ∧ (report.info, true) ∈ c.accounts
  once : (c.reports.map (·.info.id)).Nodup

variable {a b : ListenerCore} {held : List ℕ} {key : ℕ}

/-- Cancelling a start touches no report. -/
@[simp] theorem Message.report?_cancelStart (handler : CompletionHandler) (m : Message) :
    (m.cancelStart handler).report? = m.report? := by
  cases m <;> rfl

/-- What is added to the strand and is no report leaves the reports as they are. -/
theorem reports_append {more : List Message} (h : b.strand = a.strand ++ more)
    (hmore : ∀ m ∈ more, m.report? = none) : b.reports = a.reports := by
  have hnone : more.filterMap Message.report? = [] := List.filterMap_eq_nil_iff.mpr hmore
  rw [reports, h, List.filterMap_append, hnone, List.append_nil]
  rfl

/-- A quiet change posts no report. -/
theorem quiet_reports (h : Quiet a b) : b.reports = a.reports := by
  rw [reports, h.strand]
  rfl

/-- The moves of a handler post no report. -/
theorem moves_reports (h : Moves a b) : b.reports = a.reports := by
  obtain ⟨cs, hcs⟩ := moves_strand h
  refine reports_append hcs fun m hm => ?_
  obtain ⟨c, -, rfl⟩ := List.mem_map.mp hm
  rfl

/-- Completing or registering an operation posts no report. -/
theorem waitsOnly_reports (h : WaitsOnly a b) : b.reports = a.reports := by
  obtain ⟨cs, hcs⟩ := h.strand
  refine reports_append hcs fun m hm => ?_
  obtain ⟨c, -, rfl⟩ := List.mem_map.mp hm
  rfl

/-- Posting to sessions ends none of them. -/
@[simp] theorem postTo_accounts (a : ListenerCore) (keys : List ℕ) (message : SessionMessage) :
    (a.postTo keys message).accounts = a.accounts := by
  rw [accounts, postTo, List.map_map]
  refine List.map_congr_left fun x _ => ?_
  simp only [Function.comp_apply]
  split <;> rfl

/-- An unchanged heap has the same accounts. -/
theorem accounts_of_heap (h : b.heap = a.heap) : b.accounts = a.accounts := by
  rw [accounts, h]
  rfl

namespace Reporting

/-- The reports stay in order while no session object and no report changes. -/
theorem same (h : Reporting a held) (haccounts : b.accounts = a.accounts)
    (hreports : b.reports = a.reports) :
    Reporting b held := by
  refine ⟨?_, ?_, ?_, ?_⟩
  · rw [haccounts]
    exact h.distinct
  · rw [haccounts]
    exact h.open_held
  · rw [haccounts, hreports]
    exact h.ended
  · rw [hreports]
    exact h.once

/-- Two accounts of one session are the same account. -/
theorem unique (h : Reporting a held) {p q : ConnectionInfo × Bool} (hp : p ∈ a.accounts)
    (hq : q ∈ a.accounts) (hid : p.1.id = q.1.id) : p = q :=
  List.inj_on_of_nodup_map h.distinct hp hq hid

/-- At most as many reports are on their way as sessions are held. -/
theorem length_le (h : Reporting a held) : a.reports.length ≤ held.length := by
  have hsubset : a.reports.map (·.info.id) ⊆ held := by
    intro id hid
    obtain ⟨report, hmem, rfl⟩ := List.mem_map.mp hid
    exact (h.ended report hmem).1
  simpa using (List.subperm_of_subset h.once hsubset).length_le

/-- A message that is no report may be taken off the strand. -/
theorem pop (h : Reporting a held) {message : Message} {rest : List Message}
    (hstrand : a.strand = message :: rest) (hmessage : message.report? = none) :
    Reporting { a with strand := rest } held :=
  h.same rfl (by simp [reports, hstrand, hmessage])

/-- A report may be taken off the strand together with the session it is about. -/
theorem drop (h : Reporting a held) {report : SessionReport} {rest : List Message} {left : List ℕ}
    (hstrand : a.strand = .sessionFinished report :: rest)
    (hleft : ∀ key ∈ held, key ≠ report.info.id → key ∈ left) :
    Reporting { a with strand := rest } left := by
  have hreports : a.reports = report :: { a with strand := rest }.reports := by
    simp [reports, hstrand, Message.report?]
  have hended := (h.ended report (by simp [hreports])).2
  have hnodup := h.once
  rw [hreports, List.map_cons, List.nodup_cons] at hnodup
  refine ⟨h.distinct, fun info hinfo => hleft _ (h.open_held info hinfo) fun hid => ?_,
    fun other hother => ?_, hnodup.2⟩
  · have heq : (info, false) = (report.info, true) := h.unique hinfo hended hid
    exact Bool.false_ne_true (congrArg Prod.snd heq)
  · obtain ⟨hmem, haccount⟩ := h.ended other (by rw [hreports]; exact List.mem_cons_of_mem _ hother)
    refine ⟨hleft _ hmem fun hid => hnodup.1 ?_, haccount⟩
    exact hid ▸ List.mem_map_of_mem hother

/-- A new session is open and held. -/
theorem add (h : Reporting a held) {x : Session} (hnew : ∀ p ∈ a.accounts, p.1.id ≠ x.info.id) :
    Reporting { a with heap := a.heap ++ [x] } (held ++ [x.info.id]) := by
  have haccounts : { a with heap := a.heap ++ [x] }.accounts = a.accounts ++
      [(x.info, x.finished)] := by
    simp [accounts]
  refine ⟨?_, fun info hinfo => ?_, fun report hreport => ?_, h.once⟩
  · rw [haccounts, List.map_append, List.nodup_append]
    refine ⟨h.distinct, List.nodup_singleton _, fun id hid other hother => ?_⟩
    obtain ⟨p, hp, rfl⟩ := List.mem_map.mp hid
    rw [List.mem_singleton.mp hother]
    exact hnew p hp
  · rw [haccounts] at hinfo
    rcases List.mem_append.mp hinfo with hold | hlast
    · exact List.mem_append_left _ (h.open_held info hold)
    · rw [← (Prod.mk.inj (List.mem_singleton.mp hlast)).1]
      exact List.mem_append_right _ (List.mem_singleton.mpr rfl)
  · obtain ⟨hmem, haccount⟩ := h.ended report hreport
    exact ⟨List.mem_append_left _ hmem, haccounts ▸ List.mem_append_left _ haccount⟩

/-- A step of a session either leaves its account alone, without a report, or ends an open
session with a report. -/
theorem session_cases (h : Reporting a held) {x x' : Session} {l : SessionLabel}
    {report : Option SessionReport} (hx : a.session? key = some x)
    (hstep : x.step l = some (x', report)) :
    { a with heap := a.replaceSession key x' }.accounts = a.accounts ∧ report = none ∨
      (x.info, false) ∈ a.accounts ∧ (∃ r, report = some r ∧ r.info = x.info) ∧
        { a with heap := a.replaceSession key x' }.accounts =
          a.accounts.map fun p => if p.1.id = x.info.id then (x.info, true) else p := by
  obtain ⟨hinfo, -, hold, hnew, hopen, -⟩ := Session.step_spec hstep
  have hid : x.info.id = key := by simpa using List.find?_some hx
  have hmem : x ∈ a.heap := List.mem_of_find?_eq_some hx
  have haccount : (x.info, x.finished) ∈ a.accounts := List.mem_map_of_mem hmem
  have hreplaced : { a with heap := a.replaceSession key x' }.accounts =
      a.accounts.map fun p => if p.1.id = x.info.id then (x.info, x'.finished) else p := by
    simp only [accounts, replaceSession, List.map_map]
    refine List.map_congr_left fun y _ => ?_
    simp only [Function.comp_apply, hid]
    split
    · rw [hinfo]
    · rfl
  have hsame (hfinished : x'.finished = x.finished) :
      { a with heap := a.replaceSession key x' }.accounts = a.accounts := by
    rw [hreplaced, hfinished]
    refine (List.map_congr_left fun p hp => ?_).trans (List.map_id _)
    split
    · rename_i hpid
      exact (h.unique hp haccount hpid).symm
    · rfl
  cases hfinished : x.finished with
  | true =>
    obtain ⟨hended, hnone⟩ := hold hfinished
    exact Or.inl ⟨hsame (hended.trans hfinished.symm), hnone⟩
  | false =>
    cases hended : x'.finished with
    | false => exact Or.inl ⟨hsame (hended.trans hfinished.symm), hopen hended⟩
    | true => exact Or.inr ⟨hfinished ▸ haccount, hnew hfinished hended, hended ▸ hreplaced⟩

/-- A session that ends leaves the reports in order, whether its report is lost or posted. -/
theorem close (h : Reporting a held) {info : ConnectionInfo} (hopen : (info, false) ∈ a.accounts)
    (haccounts : b.accounts = a.accounts.map fun p => if p.1.id = info.id then (info, true) else p)
    (hreports : b.reports = a.reports ∨ ∃ report, report.info = info ∧
      b.reports = a.reports ++ [report]) :
    Reporting b held := by
  have hids (p : ConnectionInfo × Bool) :
      (if p.1.id = info.id then (info, true) else p).1.id = p.1.id := by
    split
    · exact Eq.symm ‹_›
    · rfl
  have hkept (other : ConnectionInfo) (hother : (other, true) ∈ a.accounts) : other.id ≠ info.id :=
    fun hid =>
    Bool.false_ne_true (congrArg Prod.snd (h.unique hother hopen hid)).symm
  have hended (report : SessionReport) (hmem : report ∈ a.reports) :
      report.info.id ∈ held ∧ (report.info, true) ∈ b.accounts := by
    obtain ⟨hheld, haccount⟩ := h.ended report hmem
    exact ⟨hheld, haccounts ▸ List.mem_map.mpr ⟨_, haccount, if_neg (hkept _ haccount)⟩⟩
  have hdistinct : (b.accounts.map (·.1.id)).Nodup := by
    rw [haccounts, List.map_map]
    exact (List.map_congr_left fun p _ => hids p) ▸ h.distinct
  have hstill : ∀ other, (other, false) ∈ b.accounts → other.id ∈ held := by
    intro other hother
    obtain ⟨p, hp, heq⟩ := List.mem_map.mp (haccounts ▸ hother)
    split at heq
    · exact absurd (congrArg Prod.snd heq) (by simp)
    · exact h.open_held other (heq ▸ hp)
  rcases hreports with hreports | ⟨report, rfl, hreports⟩
  · exact ⟨hdistinct, hstill, hreports ▸ hended, hreports ▸ h.once⟩
  · refine ⟨hdistinct, hstill, fun other hother => ?_, ?_⟩
    · rcases List.mem_append.mp (hreports ▸ hother) with hbefore | hnow
      · exact hended other hbefore
      · rw [List.mem_singleton.mp hnow]
        exact ⟨h.open_held _ hopen, haccounts ▸ List.mem_map.mpr ⟨_, hopen, if_pos rfl⟩⟩
    · rw [hreports, List.map_append, List.nodup_append]
      refine ⟨h.once, List.nodup_singleton _, fun id hid other hother => ?_⟩
      obtain ⟨earlier, hearlier, rfl⟩ := List.mem_map.mp hid
      rw [List.mem_singleton.mp hother]
      exact hkept _ (h.ended earlier hearlier).2

/-- A step of a session leaves the reports in order. -/
theorem session (h : Reporting a held) {alive : Bool} {x x' : Session} {l : SessionLabel}
    {report : Option SessionReport} (hx : a.session? key = some x)
    (hstep : x.step l = some (x', report)) :
    Reporting { a with
      heap := a.replaceSession key x'
      strand := a.strand ++ if alive then report.toList.map .sessionFinished else [] } held := by
  rcases h.session_cases hx hstep with ⟨haccounts, rfl⟩ | ⟨hopen, ⟨r, rfl, hr⟩, haccounts⟩
  · exact h.same haccounts (by simp [reports])
  · refine h.close hopen haccounts ?_
    cases alive with
    | false => exact Or.inl (by simp [reports])
    | true => exact Or.inr ⟨r, hr, by simp [reports, Message.report?]⟩

/-- A step off the strand leaves the reports in order. -/
theorem call (h : Reporting a held) {alive : Bool} {l : CoreLabel} (hcall : CallStep alive l a b) :
    Reporting b held := by
  cases hcall with
  | session hx hstep => exact h.session hx hstep
  | cancelStart => exact h.same rfl (by simp [reports, List.filterMap_map])
  | asyncStart hpos => exact h.same rfl (reports_append rfl (by simp [Message.report?]))
  | postWait hw => exact h.same rfl (reports_append rfl (by simp [Message.report?]))
  | postCancel hmem halive => exact h.same rfl (reports_append rfl (by simp [Message.report?]))
  | stopPost hpos => exact h.same rfl (reports_append rfl (by simp [Message.report?]))
  | _ => exact h.same rfl rfl

/-- A step off the strand makes no session object. -/
theorem call_accounts (h : Reporting a held) {alive : Bool} {l : CoreLabel}
    (hcall : CallStep alive l a b) :
    ∀ p ∈ b.accounts, ∃ q ∈ a.accounts, q.1 = p.1 := by
  intro p hp
  cases hcall with
  | session hx hstep =>
    rcases h.session_cases hx hstep with ⟨haccounts, -⟩ | ⟨hopen, -, haccounts⟩
    · exact ⟨p, haccounts ▸ hp, rfl⟩
    · obtain ⟨q, hq, rfl⟩ := List.mem_map.mp (haccounts ▸ hp)
      split
      · exact ⟨_, hopen, rfl⟩
      · exact ⟨q, hq, rfl⟩
  | _ => exact ⟨p, hp, rfl⟩

end Reporting

end Serveza
