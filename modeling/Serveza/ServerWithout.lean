import Serveza.ServerGaps

/-!
# A server without one of its waits

What a server would be if one of its waits had not been called: it has the same control word and
the other operations, its listeners are without the waits that the operation has made on them, and
the threads that carry the operation out are not there. A wait that leaves the control word alone
is invisible: each step of the server is a step of the server without it, or none.
-/

namespace Serveza

open Foundation

namespace Action

/-- The operation an action is about. -/
def group? : Action → Option ℕ
  | .beginStart key | .startChild key _ | .waitChild key _ | .checkCancelled key _ | .emit key _
  | .reportInitiation key _ | .recheck key | .finish key _ => some key
  | _ => none

/-- The action as it is when the listeners are without some waits. -/
def without (gaps : ℕ → Option ℕ) : Action → Option Action
  | .postWait listener id => (closeGap (gaps listener) id).map (.postWait listener)
  | .postCancel listener id => (closeGap (gaps listener) id).map (.postCancel listener)
  | a => some a

/-- The action is carried out for one wait of the server. -/
def OfWait (key : ℕ) (gaps : ℕ → Option ℕ) : Action → Prop
  | .waitChild k _ | .checkCancelled k _ | .emit k _ | .reportInitiation k _ | .finish k _ =>
    k = key
  | .postWait listener id | .postCancel listener id => gaps listener = some id
  | .release _ => True
  | _ => False

/-- The action is carried out for something else, and what it then is. -/
def Stays (key : ℕ) (gaps : ℕ → Option ℕ) (a a' : Action) : Prop :=
  a.group? ≠ some key ∧ a.without gaps = some a'

/-- An action that refers to no wait stays what it is. -/
theorem stays_self {key : ℕ} {gaps : ℕ → Option ℕ} {a : Action} (hgroup : a.group? ≠ some key)
    (hnumber : a.number? = none) :
    a.Stays key gaps a := by
  refine ⟨hgroup, ?_⟩
  cases a <;> first | rfl | contradiction

/-- What stays as an action that refers to no wait is that action. -/
theorem Stays.eq {key : ℕ} {gaps : ℕ → Option ℕ} {a a' : Action} (h : a.Stays key gaps a')
    (hnumber : a'.number? = none) :
    a = a' := by
  cases a with
  | postWait | postCancel =>
    obtain ⟨_, -, rfl⟩ := Option.map_eq_some_iff.mp h.2
    contradiction
  | _ => exact Option.some.inj h.2

/-- Actions that refer to no wait stay what they are. -/
theorem forall_stays_self {key : ℕ} {gaps : ℕ → Option ℕ} {actions : List Action}
    (h : ∀ a ∈ actions, a.group? ≠ some key ∧ a.number? = none) :
    List.Forall₂ (Stays key gaps) actions actions :=
  List.forall₂_same.mpr fun a ha => stays_self (h a ha).1 (h a ha).2

end Action

/-- The threads of a server without those that carry out one of its waits. -/
inductive ThreadsWithout (key : ℕ) (gaps : ℕ → Option ℕ) :
    List (ℕ × List Action) → List (ℕ × List Action) → Prop where
  | nil : ThreadsWithout key gaps [] []
  | goes {t actions threads threads'} (hown : ∀ a ∈ actions, a.OfWait key gaps)
    (hrest : ThreadsWithout key gaps threads threads') : ThreadsWithout key gaps
    ((t, actions) :: threads) threads'
  | stays {t actions actions' threads threads'}
    (hactions : List.Forall₂ (Action.Stays key gaps) actions actions')
    (hrest : ThreadsWithout key gaps threads threads') :
    ThreadsWithout key gaps ((t, actions) :: threads) ((t, actions') :: threads')

namespace ThreadsWithout

variable {key t : ℕ} {gaps : ℕ → Option ℕ} {threads threads' : List (ℕ × List Action)}
  {actions : List Action}

/-- The threads that are left are threads of the server. -/
theorem mem (h : ThreadsWithout key gaps threads threads') {e : ℕ × List Action}
    (he : e ∈ threads') :
    ∃ actions, (e.1, actions) ∈ threads ∧ List.Forall₂ (Action.Stays key gaps) actions e.2 := by
  induction h with
  | nil => simp at he
  | goes hown hrest ih =>
    obtain ⟨actions, hmem, hstays⟩ := ih he
    exact ⟨actions, List.mem_cons_of_mem _ hmem, hstays⟩
  | stays hactions hrest ih =>
    rcases List.mem_cons.mp he with rfl | he
    · exact ⟨_, List.mem_cons_self, hactions⟩
    · obtain ⟨actions, hmem, hstays⟩ := ih he
      exact ⟨actions, List.mem_cons_of_mem _ hmem, hstays⟩

/-- A thread that is found goes, or it is found among those that stay. -/
theorem find (h : ThreadsWithout key gaps threads threads')
    (hfind : (threads.find? fun e => e.1 = t) = some (t, actions)) :
    (∀ a ∈ actions, a.OfWait key gaps) ∧ ThreadsWithout key gaps
    (threads.eraseP fun e => e.1 = t) threads' ∨
      ∃ actions', List.Forall₂ (Action.Stays key gaps) actions actions' ∧
        (threads'.find? fun e => e.1 = t) = some (t, actions') ∧
        ThreadsWithout key gaps (threads.eraseP fun e => e.1 = t)
          (threads'.eraseP fun e => e.1 = t) := by
  induction h with
  | nil => simp at hfind
  | @goes u own threads threads' hown hrest ih =>
    by_cases hu : u = t
    · subst hu
      obtain rfl : own = actions := by simpa using hfind
      exact Or.inl ⟨hown, by simpa using hrest⟩
    · rw [List.find?_cons_of_neg (by simpa using hu)] at hfind
      rw [List.eraseP_cons_of_neg (by simpa using hu)]
      exact (ih hfind).imp (fun ⟨h, hrest⟩ => ⟨h, .goes hown hrest⟩)
        fun ⟨actions', h, hfind', hrest⟩ => ⟨actions', h, hfind', .goes hown hrest⟩
  | @stays u kept kept' threads threads' hactions hrest ih =>
    by_cases hu : u = t
    · subst hu
      obtain rfl : kept = actions := by simpa using hfind
      exact Or.inr ⟨kept', hactions, by simp, by simpa using hrest⟩
    · rw [List.find?_cons_of_neg (by simpa using hu)] at hfind
      rw [List.eraseP_cons_of_neg (by simpa using hu)]
      refine (ih hfind).imp (fun ⟨h, hrest⟩ => ⟨h, .stays hactions hrest⟩) ?_
      rintro ⟨actions', h, hfind', hrest⟩
      refine ⟨actions', h, by rwa [List.find?_cons_of_neg (by simpa using hu)], ?_⟩
      rw [List.eraseP_cons_of_neg (by simpa using hu)]
      exact .stays hactions hrest

/-- More is known of the gaps, and what goes and stays is the same. -/
theorem mono {gaps' : ℕ → Option ℕ} (h : ThreadsWithout key gaps threads threads')
    (hown : ∀ e ∈ threads, ∀ a ∈ e.2, a.OfWait key gaps → a.OfWait key gaps')
    (hstays : ∀ e ∈ threads, ∀ a ∈ e.2, ∀ a', a.Stays key gaps a' → a.Stays key gaps' a') :
    ThreadsWithout key gaps' threads threads' := by
  induction h with
  | nil => exact .nil
  | goes hactions hrest ih =>
    refine .goes (fun a ha => hown _ List.mem_cons_self a ha (hactions a ha)) (ih ?_ ?_)
    · exact fun e he => hown e (List.mem_cons_of_mem _ he)
    · exact fun e he => hstays e (List.mem_cons_of_mem _ he)
  | stays hactions hrest ih =>
    refine .stays (forall₂_imp_mem hactions (hstays _ List.mem_cons_self)) (ih ?_ ?_)
    · exact fun e he => hown e (List.mem_cons_of_mem _ he)
    · exact fun e he => hstays e (List.mem_cons_of_mem _ he)

end ThreadsWithout

namespace Server

/-- Two servers agree but for one wait of the first, and but for their threads. -/
structure Agrees (key : ℕ) (gaps : ℕ → Option ℕ) (s s' : Server) : Prop where
  control : s'.control = s.control
  groups : ∀ k, s'.groups k = if k = key then none else s.groups k
  listeners : ∀ i, s'.listeners[i]? = (s.listeners[i]?).map (Listener.without (gaps i))

namespace Agrees

variable {key k i : ℕ} {gaps : ℕ → Option ℕ} {s s' : Server} {x y : Listener}

/-- There are as many listeners. -/
theorem length (h : Agrees key gaps s s') : s'.listeners.length = s.listeners.length := by
  refine Nat.le_antisymm ?_ ?_
  · refine List.getElem?_eq_none_iff.mp ?_
    rw [h.listeners, List.getElem?_eq_none le_rfl, Option.map_none]
  · refine List.getElem?_eq_none_iff.mp (Option.map_eq_none_iff.mp ((h.listeners _).symm.trans ?_))
    exact List.getElem?_eq_none le_rfl

/-- The other operations are there. -/
theorem group (h : Agrees key gaps s s') (hk : k ≠ key) : s'.groups k = s.groups k :=
  (h.groups k).trans (if_neg hk)

/-- The snapshots are the same. -/
theorem statuses (h : Agrees key gaps s s') (n : ℕ) : s'.statuses n = s.statuses n := by
  refine List.ext_getElem? fun i => ?_
  simp only [Server.statuses, List.getElem?_map, List.getElem?_take, h.listeners]
  split
  · rw [Option.map_map]
    exact congrArg (fun f => (s.listeners[i]?).map f) (funext fun x => x.without_status)
  · rfl

/-- The aggregate snapshot is the same. -/
theorem status (h : Agrees key gaps s s') : s'.status = s.status := by
  rw [Server.status, Server.status, h.control, h.length, h.statuses]

/-- The control words change together. -/
theorem setControl (h : Agrees key gaps s s') (control : ServerControl) :
    Agrees key gaps { s with control := control } { s' with control := control } :=
  ⟨rfl, h.groups, h.listeners⟩

/-- Another operation changes in both. -/
theorem setGroup (h : Agrees key gaps s s') (hk : k ≠ key) (group : OperationGroup) :
    Agrees key gaps (s.setGroup k group) (s'.setGroup k group) := by
  refine ⟨h.control, fun k' => ?_, h.listeners⟩
  by_cases hk' : k' = k
  · subst hk'
    simp [Server.setGroup, hk]
  · simp [Server.setGroup, hk', h.groups k']

/-- The operation changes in the one that has it. -/
theorem setOwn (h : Agrees key gaps s s') (group : OperationGroup) :
    Agrees key gaps (s.setGroup key group) s' := by
  refine ⟨h.control, fun k => ?_, h.listeners⟩
  rw [h.groups]
  by_cases hk : k = key <;> simp [Server.setGroup, hk]

/-- A listener changes in both. -/
theorem setListener (h : Agrees key gaps s s') (i : ℕ) (y : Listener) :
    Agrees key gaps (s.setListener i y) (s'.setListener i (y.without (gaps i))) := by
  refine ⟨h.control, h.groups, fun j => ?_⟩
  change (s'.listeners.set i _)[j]? = ((s.listeners.set i y)[j]?).map _
  rw [List.getElem?_set, List.getElem?_set, h.length, h.listeners]
  split
  · rename_i hij
    subst hij
    split <;> rfl
  · rfl

/-- A listener changes in nothing but the wait. -/
theorem setListener_same (h : Agrees key gaps s s') (hx : s.listeners[i]? = some x)
    (hsame : y.without (gaps i) = x.without (gaps i)) : Agrees key gaps (s.setListener i y) s' := by
  have hlt : i < s.listeners.length := (List.getElem?_eq_some_iff.mp hx).1
  refine ⟨h.control, h.groups, fun j => ?_⟩
  change _ = ((s.listeners.set i y)[j]?).map _
  rw [h.listeners, List.getElem?_set]
  split
  · rename_i hij
    subst hij
    rw [hx, Option.map_some, Option.map_some, hsame]
  · rfl

/-- A listener is added to both. -/
theorem addListener (h : Agrees key gaps s s') (config : ListenerConfig)
    (hnew : gaps s.listeners.length = none) :
    Agrees key gaps (s.addListener config) (s'.addListener config) := by
  refine ⟨h.control, h.groups, fun i => ?_⟩
  change (s'.listeners ++ [_])[i]? = ((s.listeners ++ [_])[i]?).map _
  rw [h.length]
  rcases Nat.lt_trichotomy i s.listeners.length with hlt | rfl | hgt
  · rw [List.getElem?_append_left (h.length ▸ hlt), List.getElem?_append_left hlt, h.listeners]
  · rw [List.getElem?_concat_length, hnew, Option.map_some, Listener.without_none, ← h.length,
      List.getElem?_concat_length]
  · rw [List.getElem?_eq_none, List.getElem?_eq_none, Option.map_none]
    · rw [List.length_append]
      exact hgt
    · rw [List.length_append, h.length]
      exact hgt

/-- The listener with the wait taken out is the one of the other server. -/
theorem found (h : Agrees key gaps s s') (hx : s.listeners[i]? = some x) :
    s'.listeners[i]? = some (x.without (gaps i)) := by
  rw [h.listeners, hx, Option.map_some]

/-- A call that stays is made on both. -/
theorem call (h : Agrees key gaps s s') {call call' : CoreLabel} (hcall : s.Calls i call x y)
    (hpos : 0 < x.core.handles) (hgap : ∀ n ∈ gaps i, 0 < n ∧ n ≤ x.core.nextWaiterId)
    (hl : call.without (gaps i) = some call') :
    s'.onListener i call' = some (s'.setListener i (y.without (gaps i))) := by
  refine Option.bind_eq_some_iff.mpr
    ⟨_, h.found hcall.found, Option.map_eq_some_iff.mpr ⟨_, ?_, rfl⟩⟩
  exact Listener.without_off hpos hgap hl hcall.step

end Agrees

end Server

end Serveza
