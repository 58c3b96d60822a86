import Serveza.Foundation.Gap
import Serveza.Reshaping
import Serveza.Steps

/-!
# A listener without one of its waits

What a listener would be if one of its waits had not been made: the wait is nowhere to be found
and the waits made after it have the next lower number. Whatever the listener does, it does
without the wait as well, except for the steps that move the wait itself along, and these change
nothing else.
-/

namespace Serveza

open Foundation

/-- The wait as it is without another one. -/
def WaitOperation.without (gap : Option ℕ) (w : WaitOperation) : Option WaitOperation :=
  (closeGap gap w.id).map fun id => { w with id := id }

/-- The completion as it is without a wait. -/
def Completion.without (gap : Option ℕ) (completion : Completion) : Option Completion :=
  match completion.wait with
  | none => some completion
  | some id => (closeGap gap id).map fun id => { completion with wait := some id }

/-- The message as it is without a wait. -/
def Message.without (gap : Option ℕ) : Message → Option Message
  | .wait w => (w.without gap).map .wait
  | .cancelWait id => (closeGap gap id).map .cancelWait
  | .complete completion => (completion.without gap).map .complete
  | m => some m

/-- A message that is not about waits stays what it is. -/
theorem Message.without_eq {gap : Option ℕ} {m m' : Message} (hwaits : m.isAboutWaits = false)
    (h : m.without gap = some m') :
    m' = m := by
  cases m with
  | wait | cancelWait | complete => contradiction
  | start | stop | sessionFinished => exact (Option.some.inj h).symm

/-- What is about waits is so without one of them. -/
theorem Message.without_isAboutWaits {gap : Option ℕ} {m m' : Message}
    (h : m.without gap = some m') :
    m'.isAboutWaits = m.isAboutWaits := by
  cases m with
  | wait | cancelWait | complete =>
    obtain ⟨_, -, rfl⟩ := Option.map_eq_some_iff.mp h
    rfl
  | start | stop | sessionFinished =>
    obtain rfl := Option.some.inj h
    rfl

/-- The step off the strand as it is without a wait. -/
def CoreLabel.without (gap : Option ℕ) : CoreLabel → Option CoreLabel
  | .postWait id => (closeGap gap id).map .postWait
  | .cancelWait id => (closeGap gap id).map .cancelWait
  | .postCancel id => (closeGap gap id).map .postCancel
  | l => some l

/-- The bookkeeping of a listener without one of its waits. -/
def Bookkeeping.without (gap : Option ℕ) (b : Bookkeeping) : Bookkeeping :=
  { b with
    nextWaiterId := b.nextWaiterId - gap.toList.length
    waiters := b.waiters.filterMap (WaitOperation.without gap)
    strand := b.strand.filterMap (Message.without gap)
    initiating := b.initiating.filterMap (WaitOperation.without gap)
    cancelled := b.cancelled.filterMap (closeGap gap)
    cancelling := b.cancelling.filterMap (closeGap gap)
    delivered := b.delivered.filterMap (Completion.without gap) }

variable {gap : Option ℕ} {id number : ℕ}

/-- Taking out a wait respects the completion of starts and the release of the other waits. -/
theorem Bookkeeping.without_neutral : Bookkeeping.Neutral (Bookkeeping.without gap) := by
  refine ⟨fun b completion hwait => ?_, fun b ec => ?_⟩
  · simp [without, completeOn, Message.without, Completion.without, hwait]
  · have hreleased :
        (b.waiters.map fun w => Message.complete ⟨w.handler, some w.id, ec, .stopped⟩).filterMap
        (Message.without gap) =
        (b.waiters.filterMap (WaitOperation.without gap)).map fun w =>
        .complete ⟨w.handler, some w.id, ec, .stopped⟩ := by
      rw [List.filterMap_map, List.map_filterMap]
      refine List.filterMap_congr fun w _ => ?_
      cases h : closeGap gap w.id <;>
        simp [Message.without, Completion.without, WaitOperation.without, h]
    simp [without, completeWaiters, hreleased]

/-- A wait is the one with a number exactly if it is so without another one. -/
theorem WaitOperation.without_any (h : closeGap gap id = some number) (w : WaitOperation) :
    (w.without gap).any (fun w => w.id = number) = decide (w.id = id) := by
  rw [Bool.eq_iff_iff, decide_eq_true_iff, ← closeGap_eq_iff h w.id]
  cases hw : closeGap gap w.id <;> simp [without, hw]

namespace ListenerCore

/-- The shared part of a listener without one of its waits. -/
def without (gap : Option ℕ) (c : ListenerCore) : ListenerCore :=
  c.reshape (Bookkeeping.without gap)

/-- The strand step of a message about waits. -/
def aboutWaits (c : ListenerCore) : Message → ListenerCore
  | .wait w => c.registerWait w
  | .cancelWait id => c.cancelWait id
  | .complete completion => c.deliver completion
  | _ => c

variable (c : ListenerCore)

/-- Nothing is taken out where there is no gap. -/
theorem without_none : c.without none = c := by
  have hwait : WaitOperation.without none = some := rfl
  have hcompletion : Completion.without none = some := by
    funext q
    obtain ⟨handler, wait, error, cause⟩ := q
    cases wait <;> rfl
  have hmessage : Message.without none = some := by
    funext m
    cases m with
    | complete q => simp [Message.without, hcompletion]
    | _ => rfl
  have hid : closeGap none = some := rfl
  simp [without, reshape, withBookkeeping, bookkeeping, Bookkeeping.without, hwait,
    hcompletion, hmessage, hid]

/-- Posting a message that stays. -/
theorem without_post {m m' : Message} (h : m.without gap = some m') :
    (c.without gap).post m' = (c.post m).without gap := by
  simp [without, reshape, withBookkeeping, bookkeeping, Bookkeeping.without, post, h]

/-- Posting a message that goes. -/
theorem without_post_gap {m : Message} (h : m.without gap = none) :
    (c.post m).without gap = c.without gap := by
  simp [without, reshape, withBookkeeping, bookkeeping, Bookkeeping.without, post, h]

/-- A number that stays is cancelled exactly if it was. -/
theorem without_cancelled (h : closeGap gap id = some number) :
    number ∈ (c.without gap).cancelled ↔ id ∈ c.cancelled := by
  have hmem : number ∈ c.cancelled.filterMap (closeGap gap) ↔ id ∈ c.cancelled := by
    simp only [List.mem_filterMap, closeGap_eq_iff h, exists_eq_right]
  exact hmem

/-- Completing a wait that stays. -/
theorem without_completeOn (h : closeGap gap id = some number) (handler : CompletionHandler)
    (ec : ErrorCode) (cause : Cause) :
    (c.without gap).completeOn ⟨handler, some number, ec, cause⟩ =
    (c.completeOn ⟨handler, some id, ec, cause⟩).without gap :=
  c.without_post (by simp [Message.without, Completion.without, h])

/-- Completing the wait that goes. -/
theorem without_completeOn_gap (h : closeGap gap id = none) (handler : CompletionHandler)
    (ec : ErrorCode) (cause : Cause) :
    (c.completeOn ⟨handler, some id, ec, cause⟩).without gap = c.without gap :=
  c.without_post_gap (by simp [Message.without, Completion.without, h])

/-- Registering a wait that stays. -/
theorem without_registerWait {w : WaitOperation} (h : closeGap gap w.id = some number) :
    (c.without gap).registerWait { w with id := number } = (c.registerWait w).without gap := by
  unfold registerWait
  rw [apply_ite (without gap), apply_ite (without gap), ← c.without_completeOn h,
    ← c.without_completeOn h]
  simp only [c.without_cancelled h]
  refine if_congr Iff.rfl rfl (if_congr Iff.rfl rfl ?_)
  simp [without, reshape, withBookkeeping, bookkeeping, Bookkeeping.without,
    WaitOperation.without, h]

/-- Registering the wait that goes. -/
theorem without_registerWait_gap {w : WaitOperation} (h : closeGap gap w.id = none) :
    (c.registerWait w).without gap = c.without gap := by
  unfold registerWait
  rw [apply_ite (without gap), apply_ite (without gap), c.without_completeOn_gap h,
    c.without_completeOn_gap h]
  have hregistered : without gap { c with waiters := c.waiters ++ [w] } = c.without gap := by
    simp [without, reshape, withBookkeeping, bookkeeping, Bookkeeping.without,
      WaitOperation.without, h]
  rw [hregistered, ite_self, ite_self]

/-- Cancelling a wait that stays. -/
theorem without_cancelWait (h : closeGap gap id = some number) :
    (c.without gap).cancelWait number = (c.cancelWait id).without gap := by
  have hfound : (c.without gap).waiters.find? (fun w => w.id = number) =
      (c.waiters.find? fun w => w.id = id).bind (WaitOperation.without gap) :=
    find?_translate fun w _ => WaitOperation.without_any h w
  have herased : { c.without gap with
      waiters := (c.without gap).waiters.eraseP fun w => w.id = number } =
      ({ c with waiters := c.waiters.eraseP fun w => w.id = id } : ListenerCore).without gap :=
    congrArg (fun ws => { c.without gap with waiters := ws })
      (eraseP_translate (WaitOperation.without_any h) c.waiters)
  unfold cancelWait
  rw [hfound, herased]
  cases hw : c.waiters.find? fun w => w.id = id with
  | none => rfl
  | some w =>
    have hid : w.id = id := by simpa using List.find?_some hw
    have hstays : w.without gap = some { w with id := number } := by
      simp [WaitOperation.without, hid, h]
    simp only [Option.bind_some, hstays]
    rw [without_completeOn _ (hid ▸ h)]

/-- Cancelling the wait that goes. -/
theorem without_cancelWait_gap (h : closeGap gap id = none) :
    (c.cancelWait id).without gap = c.without gap := by
  have hgoes (w : WaitOperation) (hw : decide (w.id = id) = true) : w.without gap = none := by
    simp [WaitOperation.without, of_decide_eq_true hw, h]
  have herased : ({ c with waiters := c.waiters.eraseP fun w => w.id = id } : ListenerCore).without
      gap = c.without gap :=
    congrArg (fun ws => { c.without gap with waiters := ws }) (eraseP_untranslated hgoes c.waiters)
  unfold cancelWait
  cases hw : c.waiters.find? fun w => w.id = id with
  | none => rfl
  | some w =>
    have hid : w.id = id := by simpa using List.find?_some hw
    exact (without_completeOn_gap _ (hid ▸ h) _ _ _).trans herased

/-- Running a message about waits that stays. -/
theorem without_aboutWaits {m m' : Message} (h : m.without gap = some m') :
    (c.without gap).aboutWaits m' = (c.aboutWaits m).without gap := by
  cases m with
  | wait w =>
    obtain ⟨w', hw, rfl⟩ := Option.map_eq_some_iff.mp h
    obtain ⟨number, hnumber, rfl⟩ := Option.map_eq_some_iff.mp hw
    exact c.without_registerWait hnumber
  | cancelWait id =>
    obtain ⟨number, hnumber, rfl⟩ := Option.map_eq_some_iff.mp h
    exact c.without_cancelWait hnumber
  | complete q =>
    obtain ⟨q', hq, rfl⟩ := Option.map_eq_some_iff.mp h
    simp [aboutWaits, deliver, without, reshape, withBookkeeping, bookkeeping,
      Bookkeeping.without, hq]
  | start | stop | sessionFinished =>
    obtain rfl := Option.some.inj h
    rfl

/-- Running a message about the wait that goes. -/
theorem without_aboutWaits_gap {m : Message} (h : m.without gap = none) :
    (c.aboutWaits m).without gap = c.without gap := by
  cases m with
  | wait w =>
    exact c.without_registerWait_gap (Option.map_eq_none_iff.mp (Option.map_eq_none_iff.mp h))
  | cancelWait id => exact c.without_cancelWait_gap (Option.map_eq_none_iff.mp h)
  | complete q =>
    have hq := Option.map_eq_none_iff.mp h
    simp [aboutWaits, deliver, without, reshape, withBookkeeping, bookkeeping,
      Bookkeeping.without, hq]
  | start | stop | sessionFinished => contradiction

/-- The connected waits are the others. -/
theorem without_connectedWaits :
    (c.without gap).connectedWaits = c.connectedWaits.filterMap (WaitOperation.without gap) := by
  have hstrand : (c.strand.filterMap (Message.without gap)).filterMap Message.wait? =
      (c.strand.filterMap Message.wait?).filterMap (WaitOperation.without gap) := by
    rw [List.filterMap_filterMap, List.filterMap_filterMap]
    refine List.filterMap_congr fun m _ => ?_
    cases m with
    | wait w => cases h : w.without gap <;> simp [Message.without, Message.wait?, h]
    | cancelWait id => cases h : closeGap gap id <;> simp [Message.without, Message.wait?, h]
    | complete q => cases h : q.without gap <;> simp [Message.without, Message.wait?, h]
    | start | stop | sessionFinished => rfl
  simp only [connectedWaits, List.filterMap_append, ← hstrand]
  rfl

variable {c} {b : ListenerCore} {l l' : CoreLabel}

/-- The strand begins with the next message if that stays. -/
theorem without_strand {m m' : Message} {rest : List Message} (hstrand : c.strand = m :: rest)
    (h : m.without gap = some m') :
    (c.without gap).strand = m' :: rest.filterMap (Message.without gap) := by
  change c.strand.filterMap (Message.without gap) = _
  rw [hstrand, List.filterMap_cons_some h]

/-- The strand is already at the rest if the next message goes. -/
theorem without_pop_gap {m : Message} {rest : List Message} (hstrand : c.strand = m :: rest)
    (h : m.without gap = none) :
    ({ c with strand := rest } : ListenerCore).without gap = c.without gap := by
  have hrest : rest.filterMap (Message.without gap) = c.strand.filterMap (Message.without gap) := by
    rw [hstrand, List.filterMap_cons_none h]
  exact congrArg (fun strand => { c.without gap with strand := strand }) hrest

/-- Making another wait keeps the gap. -/
theorem without_beginWait (hgap : ∀ n ∈ gap, 0 < n ∧ n ≤ c.nextWaiterId)
    (handler : CompletionHandler) :
    ({ c with
      nextWaiterId := c.nextWaiterId + 1
      initiating := c.initiating ++ [⟨c.nextWaiterId + 1, handler⟩] } : ListenerCore).without gap =
    { c.without gap with
      nextWaiterId := (c.without gap).nextWaiterId + 1
      initiating := (c.without gap).initiating ++
        [⟨(c.without gap).nextWaiterId + 1, handler⟩] } := by
  have hlast := closeGap_next hgap
  have hcount : c.nextWaiterId + 1 - gap.toList.length =
      c.nextWaiterId - gap.toList.length + 1 := by
    cases gap with
    | none => rfl
    | some n =>
      obtain ⟨hpos, hle⟩ := hgap n rfl
      exact Nat.sub_add_comm (Nat.le_trans hpos hle)
  simp [without, reshape, withBookkeeping, bookkeeping, Bookkeeping.without,
    WaitOperation.without, hlast, hcount]

/-- Cancelling a start leaves the waits on the strand alone. -/
theorem without_cancelStart (handler : CompletionHandler) (strand : List Message) :
    (strand.map (Message.cancelStart handler)).filterMap (Message.without gap) =
      (strand.filterMap (Message.without gap)).map (Message.cancelStart handler) := by
  rw [List.filterMap_map, List.map_filterMap]
  refine List.filterMap_congr fun m _ => ?_
  cases m with
  | wait w => cases h : w.without gap <;> simp [Message.without, Message.cancelStart, h]
  | cancelWait id => cases h : closeGap gap id <;> simp [Message.without, Message.cancelStart, h]
  | complete q => cases h : q.without gap <;> simp [Message.without, Message.cancelStart, h]
  | start | stop | sessionFinished => rfl

/-- Posting a wait that stays. -/
theorem without_postWait {w : WaitOperation} (hw : (c.initiating.find? fun w => w.id = id) = some w)
    (h : closeGap gap id = some number) : (c.without gap).call true (.postWait number) =
      some (({ c with initiating := c.initiating.eraseP fun w => w.id = id }.post (.wait w)).without
        gap) := by
  have hid : w.id = id := by simpa using List.find?_some hw
  have hstays : w.without gap = some { w with id := number } := by
    simp [WaitOperation.without, hid, h]
  have hfound : (c.without gap).initiating.find? (fun w => w.id = number) =
      some { w with id := number } := by
    refine (find?_translate (l := c.initiating) fun w _ => WaitOperation.without_any h w).trans ?_
    rw [hw, Option.bind_some, hstays]
  have herased : { c.without gap with
      initiating := (c.without gap).initiating.eraseP fun w => w.id = number } =
      ({ c with initiating := c.initiating.eraseP fun w => w.id = id } : ListenerCore).without
      gap :=
    congrArg (fun ws => { c.without gap with initiating := ws })
      (eraseP_translate (WaitOperation.without_any h) c.initiating)
  have hstays : (Message.wait w).without gap = some (.wait { w with id := number }) := by
    simp [Message.without, hstays]
  rw [call, hfound, Option.map_some, herased, without_post _ hstays]

/-- Posting the wait that goes. -/
theorem without_postWait_gap {w : WaitOperation}
    (hw : (c.initiating.find? fun w => w.id = id) = some w) (h : closeGap gap id = none) :
    ({ c with initiating := c.initiating.eraseP fun w => w.id = id }.post (.wait w)).without
    gap = c.without gap := by
  have hid : w.id = id := by simpa using List.find?_some hw
  have hgoes (w : WaitOperation) (hw : decide (w.id = id) = true) : w.without gap = none := by
    simp [WaitOperation.without, of_decide_eq_true hw, h]
  rw [without_post_gap _ (by simp [Message.without, hgoes w (by simp [hid])])]
  exact congrArg (fun ws => { c.without gap with initiating := ws })
    (eraseP_untranslated hgoes c.initiating)

/-- Whether a wait that stays is connected. -/
theorem without_connected (h : closeGap gap id = some number) :
    (c.without gap).connectedWaits.any (fun w => w.id = number) =
    c.connectedWaits.any fun w => w.id = id := by
  rw [without_connectedWaits]
  exact any_translate (WaitOperation.without_any h) c.connectedWaits

/-- A number that stays is the one looked for exactly if it was. -/
theorem closeGap_any (h : closeGap gap id = some number) (a : ℕ) :
    (closeGap gap a).any (· == number) = (a == id) := by
  rw [Bool.eq_iff_iff, beq_iff_eq, ← closeGap_eq_iff h a]
  cases closeGap gap a <;> simp

/-- Posting a cancellation that stays. -/
theorem without_postCancel (hmem : id ∈ c.cancelling) (h : closeGap gap id = some number) :
    (c.without gap).call true (.postCancel number) =
      some (({ c with cancelling := c.cancelling.erase id }.post (.cancelWait id)).without
        gap) := by
  have hstays : number ∈ (c.without gap).cancelling := List.mem_filterMap.mpr ⟨id, hmem, h⟩
  have herased : { c.without gap with cancelling := (c.without gap).cancelling.erase number } =
      ({ c with cancelling := c.cancelling.erase id } : ListenerCore).without gap := by
    refine congrArg (fun ids => { c.without gap with cancelling := ids }) ?_
    rw [List.erase_eq_eraseP', List.erase_eq_eraseP']
    exact eraseP_translate (closeGap_any h) c.cancelling
  rw [call, if_pos hstays]
  refine congrArg some ?_
  rw [if_pos rfl, herased]
  exact without_post _ (by simp [Message.without, h])

/-- Posting the cancellation of the wait that goes. -/
theorem without_postCancel_gap (h : closeGap gap id = none) :
    ({ c with cancelling := c.cancelling.erase id }.post (.cancelWait id)).without
    gap = c.without gap := by
  rw [without_post_gap _ (by simp [Message.without, h])]
  refine congrArg (fun ids => { c.without gap with cancelling := ids }) ?_
  rw [List.erase_eq_eraseP']
  refine eraseP_untranslated (fun a ha => ?_) c.cancelling
  rw [eq_of_beq ha, h]

/-- A call that stays has the same effect. -/
theorem without_call (hgap : ∀ n ∈ gap, 0 < n ∧ n ≤ c.nextWaiterId) (h : c.call true l = some b)
    (hl : l.without gap = some l') : (c.without gap).call true l' = some (b.without gap) := by
  cases call_cases h with
  | asyncStart hpos =>
    obtain rfl := Option.some.inj hl
    exact (if_pos hpos).trans (congrArg some (c.without_post rfl))
  | @cancelStart _ handler =>
    obtain rfl := Option.some.inj hl
    exact congrArg (fun strand => some { c.without gap with strand := strand })
      (without_cancelStart handler c.strand).symm
  | beginWait hpos =>
    obtain rfl := Option.some.inj hl
    exact (if_pos hpos).trans (congrArg some (without_beginWait hgap _).symm)
  | postWait hw =>
    obtain ⟨number, hnumber, rfl⟩ := Option.map_eq_some_iff.mp hl
    exact without_postWait hw hnumber
  | @cancelWait _ id hconnected =>
    obtain ⟨number, hnumber, rfl⟩ := Option.map_eq_some_iff.mp hl
    have hany : (c.without gap).connectedWaits.any (fun w => w.id = number) = true := by
      rw [without_connected hnumber]
      simpa using hconnected
    refine (if_pos hany).trans (congrArg some ?_)
    simp [without, reshape, withBookkeeping, bookkeeping, Bookkeeping.without, hnumber]
  | @cancelGone _ id hgone =>
    obtain ⟨number, hnumber, rfl⟩ := Option.map_eq_some_iff.mp hl
    have hnone : ¬(c.without gap).connectedWaits.any (fun w => w.id = number) = true := by
      rw [without_connected hnumber]
      simpa using hgone
    exact if_neg hnone
  | postCancel hmem =>
    obtain ⟨number, hnumber, rfl⟩ := Option.map_eq_some_iff.mp hl
    exact without_postCancel hmem hnumber
  | dropCancel hmem halive => contradiction
  | stopReturns hpos hs =>
    obtain rfl := Option.some.inj hl
    exact (if_pos hpos).trans (congrArg some (if_pos hs))
  | stopRead hpos hs =>
    obtain rfl := Option.some.inj hl
    exact (if_pos hpos).trans (congrArg some (if_neg hs))
  | stopPost hpos =>
    obtain rfl := Option.some.inj hl
    exact (if_pos hpos).trans
      (congrArg some (without_post { c with stopping := c.stopping - 1 } rfl))
  | graceExpires htimer =>
    obtain rfl := Option.some.inj hl
    exact Option.map_eq_some_iff.mpr ⟨_, htimer, rfl⟩
  | @session _ key l x x' report hx hstep =>
    obtain rfl := Option.some.inj hl
    refine Option.bind_eq_some_iff.mpr ⟨x, hx, Option.map_eq_some_iff.mpr ⟨(x', report), hstep, ?_⟩⟩
    cases report <;>
      simp [without, reshape, withBookkeeping, bookkeeping, Bookkeeping.without,
        Message.without, replaceSession]
  | cloneHandle hpos | dropHandle hpos =>
    obtain rfl := Option.some.inj hl
    exact if_pos hpos

/-- A call about the wait that goes changes nothing else. -/
theorem without_call_gap (h : c.call true l = some b) (hl : l.without gap = none) :
    b.without gap = c.without gap := by
  cases call_cases h with
  | postWait hw => exact without_postWait_gap hw (Option.map_eq_none_iff.mp hl)
  | cancelWait hconnected =>
    have hnone := Option.map_eq_none_iff.mp hl
    simp [without, reshape, withBookkeeping, bookkeeping, Bookkeeping.without, hnone]
  | cancelGone hgone => rfl
  | postCancel hmem => exact without_postCancel_gap (Option.map_eq_none_iff.mp hl)
  | dropCancel hmem halive => contradiction
  | asyncStart | cancelStart | beginWait | stopReturns | stopRead | stopPost | graceExpires
  | session | cloneHandle | dropHandle => contradiction

end ListenerCore

end Serveza
