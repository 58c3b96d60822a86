import Mathlib.Data.List.Nodup
import Mathlib.Data.List.Perm.Subperm
import Serveza.ServerCounts

/-!
# The accounts of an operation group

An operation of a server has not begun, was rejected, or has begun. Once it has begun, each
of its children is still to be initiated, is an operation of its listener, or failed to be
initiated, and each child that is done has been reported once. When the last child has been
reported the operation is completed, and it is completed once.
-/

namespace Serveza

open Foundation

namespace Action

/-- The operation whose progress depends on the action. -/
def owner? : Action → Option ℕ
  | .beginStart key => some key
  | .startChild key _ => some key
  | .waitChild key _ => some key
  | .reportInitiation key _ => some key
  | .finish key _ => some key
  | _ => none

/-- The action initiates a child of an operation. -/
def initiates (key index : ℕ) : Action → Bool
  | .startChild k i => k = key && i = index
  | .waitChild k i => k = key && i = index
  | _ => false

/-- The action completes an operation. -/
def finishes (key : ℕ) : Action → Bool
  | .finish k _ => k = key
  | _ => false

/-- What initiates a child belongs to its operation. -/
theorem owner?_of_initiates {key index : ℕ} {a : Action} (h : a.initiates key index = true) :
    a.owner? = some key := by
  cases a <;> simp_all [initiates, owner?]

/-- What completes an operation belongs to it. -/
theorem owner?_of_finishes {key : ℕ} {a : Action} (h : a.finishes key = true) :
    a.owner? = some key := by
  cases a <;> simp_all [finishes, owner?]

end Action

/-- The numbers that tell how far an operation has got. -/
structure Ledger where
  begins : ℕ
  initiates : ℕ → ℕ
  reports : ℕ → ℕ
  finishes : ℕ
  finish : ErrorCode → ℕ
  tally : ℕ → ℕ
  delivered : ℕ → ℕ

/-- Nothing is going on in the name of an operation. -/
structure Ledger.Blank (ledger : Ledger) : Prop where
  begins : ledger.begins = 0
  initiates : ∀ index, ledger.initiates index = 0
  reports : ∀ index, ledger.reports index = 0
  finishes : ledger.finishes = 0
  tally : ∀ index, ledger.tally index = 0

namespace OperationGroup

/-- One if the initiation of a child failed, and zero otherwise. -/
def failures (group : OperationGroup) (index : ℕ) : ℕ :=
  if (group.initiationEcs[index]?).any ErrorCode.failed then 1 else 0

/-- How often a child has been reported. -/
def reported (group : OperationGroup) (index : ℕ) : ℕ :=
  (group.reports.map Report.index).count index

/-- The operation has been called and has not begun. -/
structure Unbegun (group : OperationGroup) (ledger : Ledger) : Prop where
  fresh : { group with cancelled := 0 } = create false group.size
  begins : ledger.begins = 1
  initiates : ∀ index, ledger.initiates index = 0
  reports : ∀ index, ledger.reports index = 0
  finishes : ledger.finishes = 0
  tally : ∀ index, ledger.tally index = 0

/-- The operation was rejected. -/
structure Rejected (group : OperationGroup) (ledger : Ledger) : Prop where
  results : group.results = [.operationAborted]
  reported : group.reports = []
  blank : ledger.Blank

/-- The operation has begun and its children are accounted for. -/
structure Begun (group : OperationGroup) (ledger : Ledger) : Prop where
  begins : ledger.begins = 0
  length : group.initiationEcs.length = group.size
  child : ∀ index, ledger.initiates index + ledger.tally index + group.failures index =
    if index < group.size then 1 else 0
  initiates : ∀ index, ledger.initiates index ≤ ledger.reports index
  reports : ∀ index, ledger.reports index ≤ 1
  reported : ∀ index, group.reported index + group.failures index * ledger.reports index =
    ledger.delivered index + group.failures index
  delivered : ∀ index, ledger.delivered index ≤ ledger.tally index
  remaining : group.remaining + group.reports.length = group.size
  firstEc : group.firstEc = group.firstError
  finishes : ledger.finishes + group.results.length = if group.remaining = 0 then 1 else 0
  finish : ∀ result, 0 < ledger.finish result → result = group.firstEc
  results : group.firstEc.failed = true → ∀ result ∈ group.results, result = group.firstEc

namespace Begun

variable {group : OperationGroup} {ledger ledger' : Ledger} {index : ℕ}

/-- Whether a child failed to be initiated is a number below two. -/
theorem failures_le (group : OperationGroup) (index : ℕ) : group.failures index ≤ 1 := by
  unfold failures
  split <;> omega

/-- Each child is reported at most once, and nothing else is. -/
theorem reported_le (h : group.Begun ledger) (index : ℕ) :
    group.reported index ≤ if index < group.size then 1 else 0 := by
  have hchild := h.child index
  have hreported := h.reported index
  have hdelivered := h.delivered index
  rcases Nat.le_one_iff_eq_zero_or_eq_one.mp (failures_le group index) with hf | hf
  · rw [hf] at hchild hreported
    omega
  · rw [hf] at hchild hreported
    split at hchild
    · rw [if_pos ‹_›]
      omega
    · omega

/-- The children that have been reported are different. -/
theorem nodup (h : group.Begun ledger) : (group.reports.map Report.index).Nodup := by
  refine List.nodup_iff_count_le_one.mpr fun index => (h.reported_le index).trans ?_
  split <;> omega

/-- What has been reported is a child. -/
theorem lt_size (h : group.Begun ledger) (hindex : 0 < group.reported index) :
    index < group.size := by
  by_contra hge
  have hle := h.reported_le index
  rw [if_neg hge] at hle
  omega

/-- As long as a child has not been reported there is one remaining. -/
theorem remaining_pos (h : group.Begun ledger) (hindex : index < group.size)
    (hopen : group.reported index = 0) :
    0 < group.remaining := by
  have hnew : index ∉ group.reports.map Report.index := List.count_eq_zero.mp hopen
  have hsub : index :: group.reports.map Report.index ⊆ List.range group.size := by
    intro i hi
    rcases List.mem_cons.mp hi with rfl | hi
    · exact List.mem_range.mpr hindex
    · exact List.mem_range.mpr (h.lt_size (List.count_pos_iff.mpr hi))
  have hlength := (List.subperm_of_subset (List.nodup_cons.mpr ⟨hnew, h.nodup⟩) hsub).length_le
  have hremaining := h.remaining
  simp only [List.length_cons, List.length_map, List.length_range] at hlength
  omega

/-- Once all children have been reported none is remaining. -/
theorem remaining_zero (h : group.Begun ledger)
    (hall : ∀ index < group.size, 0 < group.reported index) :
    group.remaining = 0 := by
  have hsub : List.range group.size ⊆ group.reports.map Report.index :=
    fun i hi => List.count_pos_iff.mp (hall i (List.mem_range.mp hi))
  have hlength := (List.subperm_of_subset List.nodup_range hsub).length_le
  have hremaining := h.remaining
  simp only [List.length_map, List.length_range] at hlength
  omega

/-- As long as a child remains nothing is or has been completed. -/
theorem unfinished (h : group.Begun ledger) (hpos : 0 < group.remaining) :
    ledger.finishes = 0 ∧ group.results = [] := by
  have hfinishes := h.finishes
  rw [if_neg (by omega)] at hfinishes
  exact ⟨by omega, List.eq_nil_of_length_eq_zero (by omega)⟩

/-- Reporting one more child keeps the accounts, provided that the report is booked. -/
theorem one (h : group.Begun ledger) (key : ℕ) (report : Report)
    (hindex : report.index < group.size) (hopen : group.reported report.index = 0)
    (hbegins : ledger'.begins = ledger.begins) (hinitiates : ledger'.initiates = ledger.initiates)
    (htally : ledger'.tally = ledger.tally)
    (hpending : ∀ index, ledger.initiates index ≤ ledger'.reports index ∧ ledger'.reports index ≤ 1)
    (hbooked : ∀ index, (group.reported index + if report.index = index then 1 else 0) +
      group.failures index * ledger'.reports index = ledger'.delivered index + group.failures index)
    (hdelivered : ∀ index, ledger'.delivered index ≤ ledger'.tally index)
    (hfinishes : ledger'.finishes = ledger.finishes + if group.remaining = 1 then 1 else 0)
    (hfinish : ∀ result, 0 < ledger'.finish result → result = (group.one key report).1.firstEc) :
    (group.one key report).1.Begun ledger' := by
  have hpos := h.remaining_pos hindex hopen
  obtain ⟨hnone, hresults⟩ := h.unfinished hpos
  refine ⟨hbegins.trans h.begins, h.length, fun i => ?_, fun i => ?_, fun i =>
    (hpending i).2, fun i => ?_, hdelivered, ?_, ?_, ?_, hfinish, fun _ result hresult => ?_⟩
  · rw [hinitiates, htally]
    exact h.child i
  · rw [hinitiates]
    exact (hpending i).1
  · have hcount : (group.one key report).1.reported i =
        group.reported i + if report.index = i then 1 else 0 := by
      simp [OperationGroup.one, OperationGroup.reported, List.count_append, List.count_singleton]
    rw [hcount]
    exact hbooked i
  · have hremaining := h.remaining
    simp only [OperationGroup.one, List.length_append, List.length_singleton]
    omega
  · have hfirst := firstError_append group report
    rw [← h.firstEc] at hfirst
    exact hfirst.symm
  · simp only [OperationGroup.one, hfinishes, hnone, hresults, List.length_nil]
    split <;> split <;> omega
  · rw [show (group.one key report).1.results = group.results from rfl, hresults] at hresult
    exact absurd hresult (List.not_mem_nil)

/-- An operation begins with all its children to be initiated, or is completed at once. -/
theorem launch {wait : Bool} (hfresh : { group with cancelled := 0 } = create wait group.size)
    (hbegins : ledger.begins = 0)
    (hinitiates : ∀ index, ledger.initiates index = if index < group.size then 1 else 0)
    (hreports : ∀ index, ledger.reports index = if index < group.size then 1 else 0)
    (hfinishes : ledger.finishes = if group.size = 0 then 1 else 0)
    (hfinish : ∀ result, 0 < ledger.finish result → result = .success)
    (htally : ∀ index, ledger.tally index = 0)
    (hdelivered : ∀ index, ledger.delivered index ≤ ledger.tally index) : group.Begun ledger := by
  have hecs : group.initiationEcs = List.replicate group.size .success :=
    congrArg initiationEcs hfresh
  have hreported : group.reports = [] := congrArg OperationGroup.reports hfresh
  have hresults : group.results = [] := congrArg OperationGroup.results hfresh
  have hremaining : group.remaining = group.size := congrArg OperationGroup.remaining hfresh
  have hfirst : group.firstEc = .success := congrArg OperationGroup.firstEc hfresh
  have hfailures (index : ℕ) : group.failures index = 0 := by
    rw [failures, hecs, List.getElem?_replicate]
    split <;> rfl
  refine ⟨hbegins, by simp [hecs], fun i => ?_, fun i => ?_, fun i => ?_, fun i => ?_,
    hdelivered, ?_, ?_, ?_,
    fun result h => (hfinish result h).trans hfirst.symm, by simp [hresults]⟩
  · rw [hinitiates, htally, hfailures, Nat.add_zero]
  · rw [hinitiates, hreports]
  · rw [hreports]
    split <;> omega
  · have hle := hdelivered i
    rw [htally] at hle
    simp only [OperationGroup.reported, hreported, hfailures, List.map_nil, List.count_nil]
    omega
  · rw [hremaining, hreported]
    rfl
  · rw [firstError, hfirst, hreported]
    rfl
  · rw [hfinishes, hresults, hremaining]
    rfl

/-- A child that is initiated is an operation of its listener. -/
theorem initiate (h : group.Begun ledger) (index : ℕ) (hbegins : ledger'.begins = ledger.begins)
    (hinitiates : ∀ i, (ledger'.initiates i + if i = index then 1 else 0) = ledger.initiates i)
    (hreports : ledger'.reports = ledger.reports) (hfinishes : ledger'.finishes = ledger.finishes)
    (hfinish : ledger'.finish = ledger.finish)
    (htally : ∀ i, ledger'.tally i = ledger.tally i + if i = index then 1 else 0)
    (hdelivered : ledger'.delivered = ledger.delivered) : group.Begun ledger' := by
  refine ⟨hbegins.trans h.begins, h.length, fun i => ?_, fun i => ?_, fun i => ?_, fun i => ?_,
    fun i => ?_, h.remaining, h.firstEc, hfinishes ▸ h.finishes, hfinish ▸ h.finish, h.results⟩
  · have hchild := h.child i
    rw [htally, ← hchild, ← hinitiates i]
    omega
  · have hle := h.initiates i
    rw [hreports]
    rw [← hinitiates i] at hle
    omega
  · exact hreports ▸ h.reports i
  · rw [hreports, hdelivered]
    exact h.reported i
  · have hle := h.delivered i
    rw [hdelivered, htally]
    omega

/-- A child whose initiation failed is still to be reported. -/
theorem fail (h : group.Begun ledger) (index : ℕ) {ec : ErrorCode} (hec : ec.failed = true)
    (hbegins : ledger'.begins = ledger.begins)
    (hinitiates : ∀ i, (ledger'.initiates i + if i = index then 1 else 0) = ledger.initiates i)
    (hreports : ledger'.reports = ledger.reports) (hfinishes : ledger'.finishes = ledger.finishes)
    (hfinish : ledger'.finish = ledger.finish) (htally : ledger'.tally = ledger.tally)
    (hdelivered : ledger'.delivered = ledger.delivered) :
    { group with initiationEcs := group.initiationEcs.set index ec }.Begun ledger' := by
  have hself := hinitiates index
  rw [if_pos rfl] at hself
  have hchild := h.child index
  have hsize : index < group.size := by
    by_contra hge
    rw [if_neg hge] at hchild
    omega
  rw [if_pos hsize] at hchild
  have hfailures (i : ℕ) : { group with
      initiationEcs := group.initiationEcs.set index ec }.failures i =
      group.failures i + if i = index then 1 else 0 := by
    have hzero : group.failures index = 0 := by omega
    by_cases hi : i = index
    · subst hi
      rw [hzero, failures, List.getElem?_set_self (by rw [h.length]; exact hsize)]
      simp [hec]
    · rw [failures, failures, List.getElem?_set_ne (Ne.symm hi), if_neg hi, Nat.add_zero]
  refine ⟨hbegins.trans h.begins, by rw [List.length_set]; exact h.length, fun i => ?_,
    fun i => ?_, fun i => ?_,
    fun i => ?_, fun i => ?_, h.remaining, h.firstEc, hfinishes ▸ h.finishes,
    hfinish ▸ h.finish, h.results⟩
  · rw [hfailures, htally, ← h.child i, ← hinitiates i]
    omega
  · have hle := h.initiates i
    rw [hreports]
    rw [← hinitiates i] at hle
    omega
  · exact hreports ▸ h.reports i
  · have hreported := h.reported i
    rw [hfailures, hreports, hdelivered, Nat.add_mul]
    by_cases hi : i = index
    · subst hi
      have hone := h.reports i
      have hle := h.initiates i
      rw [if_pos rfl, Nat.one_mul]
      change group.reported i + _ = _
      omega
    · rw [if_neg hi, Nat.zero_mul, Nat.add_zero, Nat.add_zero]
      exact hreported
  · rw [hdelivered, htally]
    exact h.delivered i

/-- Looking for the failure of a child that was initiated changes nothing else. -/
theorem pass (h : group.Begun ledger) (hec : group.failures index = 0)
    (hbegins : ledger'.begins = ledger.begins) (hinitiates : ledger'.initiates = ledger.initiates)
    (hpending : ∀ i, ledger.initiates i ≤ ledger'.reports i)
    (hreports : ∀ i, (ledger'.reports i + if i = index then 1 else 0) = ledger.reports i)
    (hfinishes : ledger'.finishes = ledger.finishes) (hfinish : ledger'.finish = ledger.finish)
    (htally : ledger'.tally = ledger.tally) (hdelivered : ledger'.delivered = ledger.delivered) :
    group.Begun ledger' := by
  refine ⟨hbegins.trans h.begins, h.length, fun i => ?_, fun i => ?_, fun i => ?_, fun i => ?_,
    fun i => ?_, h.remaining, h.firstEc, hfinishes ▸ h.finishes, hfinish ▸ h.finish, h.results⟩
  · rw [hinitiates, htally]
    exact h.child i
  · rw [hinitiates]
    exact hpending i
  · have hle := h.reports i
    rw [← hreports i] at hle
    omega
  · rw [hdelivered, ← h.reported i, ← hreports i]
    by_cases hi : i = index
    · rw [hi, hec, Nat.zero_mul, Nat.zero_mul]
    · rw [if_neg hi, Nat.add_zero]
  · rw [hdelivered, htally]
    exact h.delivered i

/-- Completing the operation is booked. -/
theorem complete (h : group.Begun ledger) {result ec : ErrorCode} (hpos : 0 < ledger.finish result)
    (hec : result.failed = true → ec = result) (hbegins : ledger'.begins = ledger.begins)
    (hinitiates : ledger'.initiates = ledger.initiates)
    (hreports : ledger'.reports = ledger.reports)
    (hfinishes : ledger'.finishes + 1 = ledger.finishes)
    (hfinish : ∀ r, ledger'.finish r ≤ ledger.finish r) (htally : ledger'.tally = ledger.tally)
    (hdelivered : ledger'.delivered = ledger.delivered) :
    (group.complete ec).Begun ledger' := by
  have hresult := h.finish result hpos
  refine ⟨hbegins.trans h.begins, h.length, fun i => ?_, fun i => ?_, fun i => ?_, fun i => ?_,
    fun i => ?_, h.remaining,
    h.firstEc, ?_, fun r hr => h.finish r (hr.trans_le (hfinish r)), fun hfailed r hr => ?_⟩
  · rw [hinitiates, htally]
    exact h.child i
  · rw [hinitiates, hreports]
    exact h.initiates i
  · exact hreports ▸ h.reports i
  · rw [hdelivered, hreports]
    exact h.reported i
  · rw [hdelivered, htally]
    exact h.delivered i
  · have hcount := h.finishes
    change ledger'.finishes + (group.results ++ [ec]).length = if group.remaining = 0 then 1 else 0
    rw [← hcount, List.length_append, List.length_singleton]
    omega
  · rcases List.mem_append.mp hr with hr | hr
    · exact h.results hfailed r hr
    · rw [List.mem_singleton.mp hr]
      change ec = group.firstEc
      rw [← hresult]
      exact hec (hresult ▸ hfailed)

end Begun

end OperationGroup

namespace Server

variable {s s₁ s' : Server} {key : ℕ} {done added : List Action}

/-- The ledger of an operation. -/
def ledger (s : Server) (key : ℕ) : Ledger :=
  { begins := s.actions.count (.beginStart key)
    initiates := fun index => s.actions.countP (Action.initiates key index)
    reports := fun index => s.actions.count (.reportInitiation key index)
    finishes := s.actions.countP (Action.finishes key)
    finish := fun result => s.actions.count (.finish key result)
    tally := fun index => s.tallyAt index key index
    delivered := fun index => s.deliveredAt index key index }

/-- The operation of a key is accounted for, if there is one. -/
def Accounted (s : Server) (key : ℕ) : Prop :=
  match s.groups key with
  | none => (s.ledger key).Blank
  | some group =>
    group.Unbegun (s.ledger key) ∨ group.Rejected (s.ledger key) ∨ group.Begun (s.ledger key)

/-- An operation that has begun and is accounted for is accounted for. -/
theorem Accounted.of_begun {group : OperationGroup} (hgroup : s.groups key = some group)
    (h : group.Begun (s.ledger key)) : s.Accounted key := by
  rw [Accounted, hgroup]
  exact Or.inr (Or.inr h)

/-- Carried out and added actions balance the actions there are. -/
theorem Outcome.countP (h : Outcome s s₁ done added s') (p : Action → Bool) :
    s'.actions.countP p + done.countP p = s.actions.countP p + added.countP p := by
  rw [← List.countP_append, ← List.countP_append]
  exact h.actions.countP_eq p

/-- Carried out and added actions balance how often there is one. -/
theorem Outcome.count (h : Outcome s s₁ done added s') (a : Action) :
    s'.actions.count a + done.count a = s.actions.count a + added.count a := h.countP _

/-- The ledger is kept by what is carried out and added. -/
theorem Outcome.balance (h : Outcome s s₁ done added s') (key : ℕ) :
    (s'.ledger key).begins + done.count (.beginStart key) = (s.ledger key).begins +
    added.count (.beginStart key) ∧
    (∀ index, (s'.ledger key).initiates index + done.countP (Action.initiates key index) =
      (s.ledger key).initiates index + added.countP (Action.initiates key index)) ∧
    (∀ index, (s'.ledger key).reports index + done.count (.reportInitiation key index) =
      (s.ledger key).reports index + added.count (.reportInitiation key index)) ∧
    (s'.ledger key).finishes + done.countP (Action.finishes key) =
      (s.ledger key).finishes + added.countP (Action.finishes key) ∧
    ∀ result, (s'.ledger key).finish result + done.count (.finish key result) =
      (s.ledger key).finish result + added.count (.finish key result) :=
  ⟨h.count _, fun _ => h.countP _, fun _ => h.count _, h.countP _, fun _ => h.count _⟩

/-- There are at least as many completions to come as there are with a given result. -/
theorem ledger_finish_le (s : Server) (key : ℕ) (result : ErrorCode) :
    (s.ledger key).finish result ≤ (s.ledger key).finishes :=
  List.countP_mono_left fun a _ ha => by rw [eq_of_beq ha]; exact decide_eq_true rfl

/-- A step that neither carries out nor adds an action of an operation keeps their number. -/
theorem Outcome.countP_eq (h : Outcome s s₁ done added s') {p : Action → Bool}
    (hdone : ∀ a ∈ done, a.owner? ≠ some key) (hadded : ∀ a ∈ added, a.owner? ≠ some key)
    (hp : ∀ a, p a = true → a.owner? = some key) : s'.actions.countP p = s.actions.countP p := by
  have hcount := h.countP p
  rw [List.countP_eq_zero.mpr fun a ha hpa => hdone a ha (hp a hpa),
    List.countP_eq_zero.mpr fun a ha hpa => hadded a ha (hp a hpa)] at hcount
  exact hcount

/-- A step that does nothing for an operation keeps its ledger. -/
theorem Outcome.ledger_eq (h : Outcome s s₁ done added s') (hdone : ∀ a ∈ done, a.owner? ≠ some key)
    (hadded : ∀ a ∈ added, a.owner? ≠ some key)
    (htally : ∀ index, s₁.tallyAt index key index = s.tallyAt index key index)
    (hdelivered : ∀ index, s₁.deliveredAt index key index = s.deliveredAt index key index) :
    s'.ledger key = s.ledger key := by
  have hcount {a : Action} (ha : a.owner? = some key) : s'.actions.count a = s.actions.count a :=
    h.countP_eq hdone hadded fun b hb => by rw [eq_of_beq hb, ha]
  unfold ledger
  congr 1
  · exact hcount rfl
  · funext index
    exact h.countP_eq hdone hadded fun a => Action.owner?_of_initiates
  · funext index
    exact hcount rfl
  · exact h.countP_eq hdone hadded fun a => Action.owner?_of_finishes
  · funext result
    exact hcount rfl
  · funext index
    rw [← htally index, tallyAt, tallyAt, h.countAt]
  · funext index
    rw [← hdelivered index, h.deliveredAt]

end Server

end Serveza
