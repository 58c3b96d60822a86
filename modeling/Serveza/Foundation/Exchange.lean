import Mathlib.Data.List.Induction
import Serveza.Foundation.Potential

/-!
# Calls that share an atomic word

Several threads call methods of an object whose state is one atomic word. A call reads the word,
decides on the value it has read, and either leaves the word alone or tries to exchange it. The
exchange compares first: it fails if the word has changed meanwhile, and a weak one may also fail
for no reason. A call that fails decides again on the value it has found.

Each call takes effect at one of its accesses. So the calls return, and the word holds, what a
sequential execution gives that carries the calls out in the order in which they take effect. The
accesses that do not fail for no reason are bounded: one that fails has been overtaken by a call
that took effect.
-/

namespace Foundation

variable {M W R E : Type*}

/-- Carry out operations one after another: the state at the end, and what they returned. -/
def sequential (f : M → W → R × W) (w : W) (ms : List M) : W × List R :=
  ms.foldl (fun acc m => ((f m acc.1).2, acc.2 ++ [(f m acc.1).1])) (w, [])

/-- One more operation acts on the state at the end. -/
theorem sequential_concat (f : M → W → R × W) (w : W) (ms : List M) (m : M) :
    sequential f w (ms ++ [m]) =
      ((f m (sequential f w ms).1).2, (sequential f w ms).2 ++
        [(f m (sequential f w ms).1).1]) := by
  simp [sequential]

/-- Operations on a state of which another object shows a part return the same there. -/
theorem sequential_project {V : Type*} {f : M → W → R × W} {g : M → V → R × V} (project : V → W)
    (h : ∀ m v, (g m v).1 = (f m (project v)).1 ∧ project (g m v).2 = (f m (project v)).2) (v : V)
    (ms : List M) :
    sequential f (project v) ms = (project (sequential g v ms).1, (sequential g v ms).2) := by
  induction ms using List.reverseRecOn with
  | nil => rfl
  | append_singleton ms m ih =>
    obtain ⟨hresult, hstate⟩ := h m (sequential g v ms).1
    rw [sequential_concat, sequential_concat, ih, hresult, hstate]

/-- What a call does about the value it has read: leave the word as it is, or exchange it and act
on it before it returns. -/
inductive Decision (W R E : Type*) where
  | leave (result : R)
  | swap (word : W) (result : R) (actions : List E)

/-- The next access of a call: read the word, exchange it if it is as expected, or exchange it
whatever it is. -/
inductive Access (W : Type*) where
  | load
  | compare (expected : W)
  | exchange

/-- A method: how it begins, whether its comparisons are weak, and what it decides. -/
structure Method (W R E : Type*) where
  first : Access W
  weak : Bool
  decide : W → Decision W R E

/-- The method in one step. -/
def Method.atomic (m : Method W R E) (word : W) : R × W :=
  match m.decide word with
  | .leave result => (result, word)
  | .swap word result _ => (result, word)

/-- What the method does after it has taken effect. -/
def Method.actions (m : Method W R E) (word : W) : List E :=
  match m.decide word with
  | .leave _ => []
  | .swap _ _ actions => actions

/-- Where a call stands: before its next access, after its effect with the actions it has left, or
at its end. -/
inductive Phase (W R E : Type*) where
  | pending (next : Access W)
  | done (result : R) (actions : List E)
  | returned (result : R)

/-- A call of a method. -/
structure SharedCall (M W R E : Type*) where
  method : M
  phase : Phase W R E

/-- The actions a call has left. -/
def SharedCall.actions (call : SharedCall M W R E) : List E :=
  match call.phase with
  | .done _ actions => actions
  | _ => []

/-- A call that has taken effect. -/
structure Entry (M R : Type*) where
  key : ℕ
  method : M
  result : R

/-- The word, the calls in the order in which they were made, and those that have taken effect, in
that order. -/
structure Cell (M W R E : Type*) where
  word : W
  calls : List (SharedCall M W R E) := []
  log : List (Entry M R) := []

namespace Cell

variable (method : M → Method W R E) (s : Cell M W R E) (k : ℕ) (m : M)

/-- Somebody calls a method. -/
def call : Cell M W R E := { s with calls := s.calls ++ [⟨m, .pending (method m).first⟩] }

/-- A call takes effect. -/
def effect : Cell M W R E :=
  { word := ((method m).atomic s.word).2
    calls := s.calls.set k ⟨m, .done ((method m).atomic s.word).1 ((method m).actions s.word)⟩
    log := s.log ++ [⟨k, m, ((method m).atomic s.word).1⟩] }

/-- A call decides on the value it has found. -/
def consider : Cell M W R E :=
  match (method m).decide s.word with
  | .leave _ => s.effect method k m
  | .swap _ _ _ => { s with calls := s.calls.set k ⟨m, .pending (.compare s.word)⟩ }

/-- A call makes its next access; a weak comparison may fail for no reason. -/
def access [DecidableEq W] (fails : Bool) : Option (Cell M W R E) :=
  match s.calls[k]? with
  | some ⟨m, .pending .load⟩ => some (s.consider method k m)
  | some ⟨m, .pending .exchange⟩ => some (s.effect method k m)
  | some ⟨m, .pending (.compare expected)⟩ =>
    if fails = true ∧ (method m).weak = false then none
    else some (if s.word = expected ∧ fails = false then s.effect method k m
      else s.consider method k m)
  | _ => none

/-- A call that has taken effect goes on with other actions than those it had left. -/
def resume (actions : List E) : Cell M W R E :=
  match s.calls[k]? with
  | some ⟨m, .done result _⟩ => { s with calls := s.calls.set k ⟨m, .done result actions⟩ }
  | _ => s

/-- A call that has taken effect and has no action left returns. -/
def ret : Option (Cell M W R E) :=
  match s.calls[k]? with
  | some ⟨m, .done result []⟩ => some { s with calls := s.calls.set k ⟨m, .returned result⟩ }
  | _ => none

/-- An access either takes effect, or leaves the call with the value it has found. The latter
happens if the comparison fails for no reason or the call did not expect that value. -/
inductive Accessed (fails : Bool) : Cell M W R E → Prop
  | effect {m : M} {next : Access W} (hcall : s.calls[k]? = some ⟨m, .pending next⟩) :
  Accessed fails (s.effect method k m)
  | again {m : M} {next : Access W} (hcall : s.calls[k]? = some ⟨m, .pending next⟩)
    (hbehind : fails = true ∨ next ≠ .compare s.word) :
    Accessed fails { s with calls := s.calls.set k ⟨m, .pending (.compare s.word)⟩ }

variable {method s k m} {t : Cell M W R E} {fails : Bool}

/-- Deciding on a value takes effect or leaves the call with it. -/
theorem consider_cases {next : Access W} (hcall : s.calls[k]? = some ⟨m, .pending next⟩)
    (hbehind : fails = true ∨ next ≠ .compare s.word) :
    Accessed method s k fails (s.consider method k m) := by
  unfold consider
  split
  · exact .effect hcall
  · exact .again hcall hbehind

/-- What an access does. -/
theorem access_cases [DecidableEq W] (h : s.access method k fails = some t) :
    Accessed method s k fails t := by
  unfold access at h
  split at h
  · rename_i hcall
    obtain rfl := Option.some.inj h
    exact consider_cases hcall (Or.inr (by simp))
  · rename_i hcall
    obtain rfl := Option.some.inj h
    exact .effect hcall
  · rename_i m expected hcall
    split at h
    · contradiction
    · obtain rfl := Option.some.inj h
      split
      · exact .effect hcall
      · rename_i hnot
        refine consider_cases hcall ?_
        by_cases hfails : fails = true
        · exact Or.inl hfails
        · refine Or.inr fun hnext => hnot ⟨(Access.compare.inj hnext).symm, by simpa using hfails⟩
  · contradiction

/-- A call that has not taken effect can make an access. -/
theorem access_isSome [DecidableEq W] {next : Access W}
    (hcall : s.calls[k]? = some ⟨m, .pending next⟩) :
    (s.access method k false).isSome = true := by
  cases next <;> simp [access, hcall]

end Cell

/-- What the log holds of a call. -/
def SharedCall.entries (call : SharedCall M W R E) (k : ℕ) : List (Entry M R) :=
  match call.phase with
  | .pending _ => []
  | .done result _ | .returned result => [⟨k, call.method, result⟩]

/-- The word and the results are those of a sequential execution of the log; the log holds each
call that has taken effect once, with what it returns, and no other. -/
structure Linearized (method : M → Method W R E) (w : W) (s : Cell M W R E) : Prop where
  legal : sequential (fun m => (method m).atomic) w (s.log.map (·.method)) =
    (s.word, s.log.map (·.result))
  entries : ∀ k call, s.calls[k]? = some call → s.log.filter (fun e => e.key = k) = call.entries k
  called : ∀ e ∈ s.log, e.key < s.calls.length

namespace Linearized

variable {method : M → Method W R E} {w : W} {s t : Cell M W R E} {k : ℕ} {m : M}

/-- Nothing has been called at first. -/
theorem start (w : W) : Linearized method w ({ word := w } : Cell M W R E) :=
  ⟨rfl, by simp, by simp⟩

/-- A change of where a call stands that is not an effect keeps the log in order. -/
theorem set (h : Linearized method w s) {call call' : SharedCall M W R E}
    (hcall : s.calls[k]? = some call) (hsame : call'.entries k = call.entries k) :
    Linearized method w { s with calls := s.calls.set k call' } := by
  refine ⟨h.legal, fun j other hother => ?_, by simpa using h.called⟩
  obtain ⟨hlt, -⟩ := List.getElem?_eq_some_iff.mp hcall
  by_cases hj : k = j
  · subst hj
    obtain rfl : call' = other := by simpa [List.getElem?_set_self hlt] using hother
    rw [hsame]
    exact h.entries k call hcall
  · rw [List.getElem?_set_ne hj] at hother
    exact h.entries j other hother

/-- A new call has no entry. -/
theorem call (h : Linearized method w s) (m : M) : Linearized method w (s.call method m) := by
  refine ⟨h.legal, fun k other hother => ?_, fun e he => ?_⟩
  · have hother : (s.calls ++ [⟨m, .pending (method m).first⟩])[k]? = some other := hother
    rcases Nat.lt_or_ge k s.calls.length with hlt | hge
    · rw [List.getElem?_append_left hlt] at hother
      exact h.entries k other hother
    · rw [List.getElem?_append_right hge] at hother
      obtain rfl : ⟨m, .pending (method m).first⟩ = other :=
        List.mem_singleton.mp (List.mem_of_getElem? hother) |>.symm
      refine List.filter_eq_nil_iff.mpr fun e he => ?_
      have hkey := h.called e he
      simp only [decide_eq_true_eq]
      omega
  · have hkey := h.called e he
    simp only [Cell.call, List.length_append, List.length_singleton]
    omega

/-- An access keeps the log in order. -/
theorem access (h : Linearized method w s) {fails : Bool}
    (hstep : Cell.Accessed method s k fails t) :
    Linearized method w t := by
  cases hstep with
  | again hcall hbehind => exact h.set hcall rfl
  | @effect m next hcall =>
    obtain ⟨hlt, -⟩ := List.getElem?_eq_some_iff.mp hcall
    refine ⟨?_, fun j other hother => ?_, fun e he => ?_⟩
    · simp only [Cell.effect, List.map_append, List.map_singleton, sequential_concat, h.legal]
    · have hother :
          (s.calls.set k ⟨m, .done ((method m).atomic s.word).1 ((method m).actions s.word)⟩)[j]? =
          some other := hother
      simp only [Cell.effect, List.filter_append]
      by_cases hj : k = j
      · subst hj
        obtain rfl : _ = other := by simpa [List.getElem?_set_self hlt] using hother
        rw [h.entries k _ hcall]
        simp [SharedCall.entries]
      · rw [List.getElem?_set_ne hj] at hother
        rw [h.entries j other hother]
        simp [hj]
    · have he : e ∈ s.log ++ [⟨k, m, ((method m).atomic s.word).1⟩] := he
      simp only [Cell.effect, List.length_set]
      rcases List.mem_append.mp he with he | he
      · exact h.called e he
      · obtain rfl := List.mem_singleton.mp he
        exact hlt

/-- Actions after the effect keep the log in order. -/
theorem resume (h : Linearized method w s) (k : ℕ) (actions : List E) :
    Linearized method w (s.resume k actions) := by
  unfold Cell.resume
  split
  · rename_i hcall
    exact h.set hcall rfl
  · exact h

/-- A return keeps the log in order. -/
theorem ret (h : Linearized method w s) (hret : s.ret k = some t) : Linearized method w t := by
  unfold Cell.ret at hret
  split at hret
  · rename_i hcall
    obtain rfl := Option.some.inj hret
    exact h.set hcall rfl
  · contradiction

end Linearized

/-- One cell comes after another: calls and effects are added, none is taken back. -/
structure Cell.Grows (s t : Cell M W R E) : Prop where
  log : s.log <+: t.log
  calls : s.calls.length ≤ t.calls.length

namespace Cell.Grows

variable {method : M → Method W R E} {s t u : Cell M W R E} {k : ℕ}

/-- A cell comes after itself. -/
theorem refl (s : Cell M W R E) : Grows s s := ⟨List.prefix_rfl, le_rfl⟩

/-- What comes after a later cell comes after an earlier one. -/
theorem trans (h : Grows s t) (h' : Grows t u) : Grows s u :=
  ⟨h.log.trans h'.log, h.calls.trans h'.calls⟩

/-- A call is added. -/
theorem call (m : M) : Grows s (s.call method m) := ⟨List.prefix_rfl, by simp [Cell.call]⟩

/-- An access adds an effect at most. -/
theorem access {fails : Bool} (h : Accessed method s k fails t) : Grows s t := by
  cases h with
  | effect hcall => exact ⟨List.prefix_append _ _, by simp [effect]⟩
  | again hcall hbehind => exact ⟨List.prefix_rfl, by simp⟩

/-- An action takes nothing back. -/
theorem resume (actions : List E) : Grows s (s.resume k actions) := by
  unfold Cell.resume
  split
  · exact ⟨List.prefix_rfl, by simp⟩
  · exact refl s

/-- A return takes nothing back. -/
theorem ret (h : s.ret k = some t) : Grows s t := by
  unfold Cell.ret at h
  split at h
  · obtain rfl := Option.some.inj h
    exact ⟨List.prefix_rfl, by simp⟩
  · contradiction

end Cell.Grows

/-- A call whose effect comes later had not taken effect before. -/
theorem Linearized.later {method : M → Method W R E} {w : W} {s t : Cell M W R E}
    (h : Linearized method w s) (h' : Linearized method w t) (hgrows : s.Grows t) :
    ∃ later, t.log = s.log ++ later ∧
      ∀ e ∈ later, ∀ call, s.calls[e.key]? = some call → ∃ next, call.phase = .pending next := by
  obtain ⟨later, hlog⟩ := hgrows.log
  refine ⟨later, hlog.symm, fun e he call hcall => ?_⟩
  obtain ⟨hlt, -⟩ := List.getElem?_eq_some_iff.mp hcall
  obtain ⟨call', hcall'⟩ : ∃ call', t.calls[e.key]? = some call' :=
    ⟨_, List.getElem?_eq_getElem (hlt.trans_le hgrows.calls)⟩
  have hlength := congrArg List.length (h'.entries e.key call' hcall')
  have hone : (call'.entries e.key).length ≤ 1 := by
    unfold SharedCall.entries
    split <;> simp
  have hpos : 0 < (later.filter fun f => f.key = e.key).length :=
    List.length_pos_of_mem (List.mem_filter.mpr ⟨he, by simp⟩)
  rw [← hlog, List.filter_append, List.length_append, h.entries _ _ hcall] at hlength
  have hnone : call.entries e.key = [] := List.eq_nil_of_length_eq_zero (by omega)
  obtain ⟨m, phase⟩ := call
  cases phase with
  | pending next => exact ⟨next, rfl⟩
  | done result actions => contradiction
  | returned result => contradiction

namespace Cell

variable [DecidableEq W] {method : M → Method W R E} {s t : Cell M W R E} {k : ℕ}

/-- One for a call that has not taken effect. -/
def outstanding (call : SharedCall M W R E) : ℕ :=
  match call.phase with
  | .pending _ => 1
  | _ => 0

/-- How many accesses a call needs if nobody gets ahead of it. -/
def distance (word : W) (call : SharedCall M W R E) : ℕ :=
  match call.phase with
  | .pending (.compare expected) => if word = expected then 1 else 2
  | .pending _ => 2
  | _ => 0

/-- A bound on the accesses the calls need: each of them may be overtaken by each other one. -/
def contention (s : Cell M W R E) : ℕ :=
  (s.calls.map (distance s.word)).sum +
    (s.calls.map outstanding).sum * (s.calls.map outstanding).sum

/-- A call needs one or two accesses, or none once it has taken effect. -/
theorem distance_bounds (word : W) (call : SharedCall M W R E) :
    outstanding call ≤ distance word call ∧ distance word call ≤ 2 * outstanding call := by
  obtain ⟨m, phase⟩ := call
  cases phase with
  | pending next =>
    cases next with
    | compare expected =>
      simp only [distance, outstanding]
      split <;> omega
    | load => simp [distance, outstanding]
    | exchange => simp [distance, outstanding]
  | done result actions => simp [distance, outstanding]
  | returned result => simp [distance, outstanding]

/-- A change of the word sets each pending call back by one access at most. -/
theorem distance_sum_le (v word : W) (calls : List (SharedCall M W R E)) :
    (calls.map (distance v)).sum ≤ (calls.map (distance word)).sum +
    (calls.map outstanding).sum := by
  induction calls with
  | nil => simp
  | cons call calls ih =>
    have hv := (distance_bounds v call).2
    have hword := (distance_bounds word call).1
    simp only [List.map_cons, List.sum_cons]
    omega

/-- A call that takes effect leaves less to be accessed. -/
theorem contention_effect {m : M} {next : Access W}
    (hcall : s.calls[k]? = some ⟨m, .pending next⟩) :
    (s.effect method k m).contention < s.contention := by
  have hcount : ((s.effect method k m).calls.map outstanding).sum + 1 =
      (s.calls.map outstanding).sum :=
    sum_map_set outstanding hcall _
  have hsum : ((s.effect method k m).calls.map (distance (s.effect method k m).word)).sum +
      distance (s.effect method k m).word ⟨m, .pending next⟩ =
      (s.calls.map (distance (s.effect method k m).word)).sum :=
    sum_map_set (distance (s.effect method k m).word) hcall _
  have hback := distance_sum_le (s.effect method k m).word s.word s.calls
  have hleast : 1 ≤ distance (s.effect method k m).word (⟨m, .pending next⟩ : SharedCall M W R E) :=
    (distance_bounds (s.effect method k m).word (⟨m, .pending next⟩ : SharedCall M W R E)).1
  simp only [contention, ← hcount, Nat.add_mul, Nat.mul_add, Nat.one_mul, Nat.mul_one]
  omega

/-- No access brings the calls further away from their ends, and one that does not fail for no
reason brings them nearer. -/
theorem contention_access {fails : Bool} (h : s.access method k fails = some t) :
    t.contention + (if fails then 0 else 1) ≤ s.contention := by
  cases access_cases h with
  | @effect m next hcall =>
    have hless : (s.effect method k m).contention < s.contention := contention_effect hcall
    split <;> omega
  | @again m next hcall hbehind =>
    have hcount := sum_map_set outstanding hcall ⟨m, .pending (.compare s.word)⟩
    have hsum := sum_map_set (distance s.word) hcall ⟨m, .pending (.compare s.word)⟩
    have hone : distance s.word (⟨m, .pending (.compare s.word)⟩ : SharedCall M W R E) = 1 :=
      if_pos rfl
    have hsame : ((s.calls.set k ⟨m, .pending (.compare s.word)⟩).map outstanding).sum =
        (s.calls.map outstanding).sum :=
      Nat.add_right_cancel hcount
    have hleast : 1 ≤ distance s.word (⟨m, .pending next⟩ : SharedCall M W R E) :=
      (distance_bounds s.word (⟨m, .pending next⟩ : SharedCall M W R E)).1
    have hbefore : fails = false →
        distance s.word (⟨m, .pending next⟩ : SharedCall M W R E) = 2 := by
      intro hfails
      have hne := hbehind.resolve_left (by simp [hfails])
      cases next with
      | compare expected => exact if_neg fun hword => hne (by rw [hword])
      | load => rfl
      | exchange => rfl
    simp only [contention, hsame]
    cases fails with
    | true => simp only [if_true]; omega
    | false => simp only [Bool.false_eq_true, if_false]; have := hbefore rfl; omega

/-- What a call does after its effect brings no other call further away from its end. -/
theorem contention_settled {call call' : SharedCall M W R E} (hcall : s.calls[k]? = some call)
    (hbefore : outstanding call = 0) (hafter : outstanding call' = 0) :
    { s with calls := s.calls.set k call' }.contention = s.contention := by
  have hcount := sum_map_set outstanding hcall call'
  have hsum := sum_map_set (distance s.word) hcall call'
  have hdistance := (distance_bounds s.word call).2
  have hdistance' := (distance_bounds s.word call').2
  have hsame : ((s.calls.set k call').map outstanding).sum = (s.calls.map outstanding).sum := by
    omega
  simp only [contention, hsame]
  omega

end Cell

end Foundation
