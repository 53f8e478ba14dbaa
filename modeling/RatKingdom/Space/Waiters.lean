/-
The tuple space: one lock over the store and the waiter list.

Every definition here is one critical section, or one of the moves a blocked reader
makes outside the lock: receiving from its oneshot channel, deciding that its
deadline passed, dropping the receiving end.  `Op` lists them and `step` runs one,
so a list of `Op`s is an interleaving of any number of writers and readers.
-/
import RatKingdom.Lib.Run
import RatKingdom.Space.Evolve

namespace RatKingdom.Space

open Core Option Store

/-- A registered waiter.  `reader` names the call that holds the receiving end of the
channel `tx` sends on. -/
structure Waiter where
  id : Nat
  pattern : Pattern
  destructive : Bool
  reader : Nat

/-- Where a call of `blocking_read` stands. -/
inductive ReaderState where
  | waiting
  /-- The deadline was found to have passed; the receiver is not dropped yet. -/
  | expired
  /-- The receiver is dropped; the waiter is still to be removed under the lock. -/
  | released
  | returned (result : Option Row)

/-- A call of `take` or `rd`, with the receiving end of its channel.  A value in `slot`
was sent and not received yet. -/
structure Reader where
  destructive : Bool
  waiterId : Nat
  slot : Option Row
  state : ReaderState

def Reader.listening (r : Reader) : Bool :=
  match r.state with
  | .waiting => true
  | .expired => true
  | .released => false
  | .returned _ => false

/-- `Inner`, together with the calls made so far and the history of rows deleted
because a destructive reader consumed them. -/
structure Inner where
  store : Store
  waiters : List Waiter
  nextWaiterId : Nat
  readers : List Reader
  consumed : List Row

def Inner.empty : Inner :=
  { store := .empty, waiters := [], nextWaiterId := 0, readers := [], consumed := [] }

def listeningAt (readers : List Reader) (i : Nat) : Bool :=
  match readers[i]? with
  | none => false
  | some r => r.listening

/-- `tx.send`: the value goes into the channel of reader `i` while its receiver
exists. -/
def send (readers : List Reader) (i : Nat) (row : Row) : List Reader :=
  match readers[i]? with
  | none => readers
  | some r => if r.listening then readers.set i { r with slot := some row } else readers

/-- A waiter that keeps its place when `tuple` is offered: it does not match, or it is
destructive and the tuple is consumed already or not consumable. -/
def Waiter.passedOver (w : Waiter) (tuple : Tuple) (consumed : Bool) : Bool :=
  !w.pattern.matches tuple || (w.destructive && (consumed || tuple.lifecycle = .furniture))

/-- The drain-and-retain loop of `Inner::offer`: the waiters kept, the readers after
the sends, and whether a destructive waiter consumed the tuple. -/
def offerLoop (row : Row) : List Waiter → List Reader → Bool → List Waiter × List Reader × Bool
  | [], readers, consumed => ([], readers, consumed)
  | w :: rest, readers, consumed =>
    if w.passedOver row.tuple consumed then
      let after := offerLoop row rest readers consumed
      (w :: after.1, after.2)
    else
      -- A failed send means the receiver is gone: the waiter is dropped all the same.
      offerLoop row rest (send readers w.reader row)
        (consumed || (w.destructive && listeningAt readers w.reader))

section
variable (s : Inner)

def Inner.offer (row : Row) : Inner :=
  let after := offerLoop row s.waiters s.readers false
  { s with
    waiters := after.1
    readers := after.2.1
    store := if after.2.2 then s.store.erase row.tuple.id else s.store
    consumed := if after.2.2 then s.consumed ++ [row] else s.consumed }

def Inner.insertAndOffer (t : Tuple) : Except Error Inner :=
  match s.store.insert t with
  | .error e => .error e
  | .ok store => .ok ({ s with store }.offer ⟨store.lastSequence, t⟩)

def Inner.out (t : Tuple) : Except Error Inner := s.insertAndOffer t

def Inner.outIfNew (t : Tuple) : Except Error (Inner × Bool) :=
  if s.store.existsId t.id then .ok (s, false)
  else
    match s.insertAndOffer t with
    | .error e => .error e
    | .ok s' => .ok (s', true)

/-- `Space::out_coordinator`, with the journal sequence. -/
def Inner.outCoordinator (t : Tuple) : Except Error (Inner × Nat) :=
  let t := t.withLifecycle .furniture
  match s.store.insertCoordinator t with
  | .error e => .error e
  | .ok (store, seqno) => .ok ({ s with store }.offer ⟨store.lastSequence, t⟩, seqno)

/-- `Space::replace`, with whether the expected revision was there. -/
def Inner.replace (expected : RecordId) (t : Tuple) : Except Error (Inner × Bool) :=
  match s.store.replace expected t with
  | .error e => .error e
  | .ok (store, false) => .ok ({ s with store }, false)
  | .ok (store, true) => .ok ({ s with store }.offer ⟨store.lastSequence, t⟩, true)

/-- `Space::reinforce`, with the surviving tuple.  A refresh in place offers the tuple
to nobody. -/
def Inner.reinforce (t : Tuple) : Except Error (Inner × Tuple) :=
  let t := { t with strength := some fullStrength }
  match s.store.newestTrail t.category t.scope t.identity t.inst with
  | some id => .ok ({ s with store := s.store.reinforce id t }, { t with id })
  | none =>
    match s.insertAndOffer t with
    | .error e => .error e
    | .ok s' => .ok (s', t)

/-- `Space::accept_sdlc_signal`.  The projected tuples reach the event feed only. -/
def Inner.acceptSdlcSignal (g : Store.SdlcSignal) (acceptedAt : DateTime)
    (rollbackInjection : Bool) : Except Error (Inner × SignalReceipt) :=
  match s.store.acceptSdlcSignal g acceptedAt rollbackInjection with
  | .error e => .error e
  | .ok (store, receipt, _) => .ok ({ s with store }, receipt)

def Inner.delete (id : RecordId) : Inner × Bool :=
  ({ s with store := (s.store.delete id).1 }, (s.store.delete id).2)

def Inner.gcExpired (decayStep : Float) (now : DateTime) : Inner × Nat :=
  let faded := s.store.decayAndCollect decayStep
  let expired := faded.1.deleteExpired now
  ({ s with store := expired.1 }, faded.2 + expired.2)

/-- The critical section of `blocking_read`: the oldest match is returned, and deleted
by a destructive read; on a miss the waiter is registered. -/
def Inner.checkAndRegister (pattern : Pattern) (destructive : Bool) : Inner :=
  match s.store.query pattern destructive (some 1) with
  | row :: _ =>
    { s with
      store := if destructive then s.store.erase row.tuple.id else s.store
      consumed := if destructive then s.consumed ++ [row] else s.consumed
      readers := s.readers ++
        [{ destructive, waiterId := s.nextWaiterId, slot := none, state := .returned (some row) }] }
  | [] =>
    { s with
      waiters := s.waiters ++ [{ id := s.nextWaiterId, pattern, destructive,
                                 reader := s.readers.length }]
      nextWaiterId := (s.nextWaiterId + 1) % 2 ^ 64
      readers := s.readers ++ [{ destructive, waiterId := s.nextWaiterId, slot := none,
                                 state := .waiting }] }

/-- The timeout polls the channel before the deadline, so a value that is there is
received. -/
def Inner.receive (i : Nat) : Option Inner :=
  match s.readers[i]? with
  | some { destructive, waiterId, slot := some row, state := .waiting } =>
    some { s with readers := s.readers.set i { destructive, waiterId, slot := none, state := .returned (some row) } }
  | _ => none

def Inner.decideTimeout (i : Nat) : Option Inner :=
  match s.readers[i]? with
  | some { destructive, waiterId, slot := none, state := .waiting } =>
    some { s with readers := s.readers.set i { destructive, waiterId, slot := none,
                                               state := .expired } }
  | _ => none

def Inner.dropReceiver (i : Nat) : Option Inner :=
  match s.readers[i]? with
  | some { destructive, waiterId, slot := _, state := .expired } =>
    some { s with readers := s.readers.set i { destructive, waiterId, slot := none,
                                               state := .released } }
  | _ => none

/-- The channel reports a closed sender: the waiter is gone and nothing was sent. -/
def Inner.observeClosed (i : Nat) : Option Inner :=
  match s.readers[i]? with
  | some { destructive, waiterId, slot := none, state := .waiting } =>
    if s.waiters.any fun w => w.reader = i then none
    else some { s with readers := s.readers.set i { destructive, waiterId, slot := none,
                                                    state := .released } }
  | _ => none

def Inner.removeWaiter (i : Nat) : Option Inner :=
  match s.readers[i]? with
  | some { destructive, waiterId, slot, state := .released } =>
    some { s with
      waiters := s.waiters.filter fun w => w.id ≠ waiterId
      readers := s.readers.set i { destructive, waiterId, slot, state := .returned none } }
  | _ => none

end

/-- What one call or one reader does next. -/
inductive Op where
  | out (t : Tuple)
  | outIfNew (t : Tuple)
  | outCoordinator (t : Tuple)
  | reinforce (t : Tuple)
  | replace (expected : RecordId) (t : Tuple)
  | acceptSdlcSignal (g : Store.SdlcSignal) (acceptedAt : DateTime) (rollbackInjection : Bool)
  | delete (id : RecordId)
  | gcExpired (decayStep : Float) (now : DateTime)
  | checkAndRegister (pattern : Pattern) (destructive : Bool)
  | receive (reader : Nat)
  | decideTimeout (reader : Nat)
  | dropReceiver (reader : Nat)
  | observeClosed (reader : Nat)
  | removeWaiter (reader : Nat)

def settle {α : Type} (s : Inner) (r : Except Error α) (f : α → Inner) : Inner :=
  match r with
  | .error _ => s
  | .ok a => f a

def Inner.step (s : Inner) : Op → Option Inner
  | .out t => some (settle s (s.out t) id)
  | .outIfNew t => some (settle s (s.outIfNew t) Prod.fst)
  | .outCoordinator t => some (settle s (s.outCoordinator t) Prod.fst)
  | .reinforce t => some (settle s (s.reinforce t) Prod.fst)
  | .replace expected t => some (settle s (s.replace expected t) Prod.fst)
  | .acceptSdlcSignal g acceptedAt rollback =>
    some (settle s (s.acceptSdlcSignal g acceptedAt rollback) Prod.fst)
  | .delete id => some (s.delete id).1
  | .gcExpired decayStep now => some (s.gcExpired decayStep now).1
  | .checkAndRegister pattern destructive => some (s.checkAndRegister pattern destructive)
  | .receive i => s.receive i
  | .decideTimeout i => s.decideTimeout i
  | .dropReceiver i => s.dropReceiver i
  | .observeClosed i => s.observeClosed i
  | .removeWaiter i => s.removeWaiter i

/-! ## What a step can do

A write path either stores a tuple and offers it, or changes the tables without an
offer.  `offered` names the tuple of the first kind of step from the state before it. -/

/-- The insert of `t` goes through. -/
def accepts (s : Store) (t : Tuple) : Bool := !s.existsId t.id && s.lastSequence < maxSequence

def Inner.offered (s : Inner) : Op → Option Tuple
  | .out t => if accepts s.store t then some t else none
  | .outIfNew t => if accepts s.store t then some t else none
  | .outCoordinator t =>
    if accepts s.store t && !s.store.coordinator.any fun c => c.2.id = t.id then
      some (t.withLifecycle .furniture)
    else none
  | .reinforce t =>
    if (s.store.newestTrail t.category t.scope t.identity t.inst).isNone && accepts s.store t then
      some { t with strength := some fullStrength }
    else none
  | .replace expected t =>
    if expected ≠ t.id && s.store.rows.any (replaceable expected t) &&
        accepts { s.store with rows := s.store.rows.filter fun r => !replaceable expected t r } t then
      some t
    else none
  | _ => none

/-- `s'` is `s` with `t` stored last, some older rows possibly gone, and then offered. -/
def Inner.Wrote (s : Inner) (t : Tuple) (s' : Inner) : Prop :=
  ∃ store kept, kept.Sublist s.store.rows ∧ store.rows = kept ++ [⟨store.lastSequence, t⟩] ∧
    store.lastSequence = s.store.lastSequence + 1 ∧ s.store.Evolves (fun r : Row => r) store ∧
    s' = { s with store }.offer ⟨store.lastSequence, t⟩

variable {t : Tuple}

theorem insert_of_accepts {s : Store} (h : accepts s t = true) : s.insert t = .ok (s.push t) := by
  simp only [accepts, Bool.and_eq_true, Bool.not_eq_true', decide_eq_true_eq] at h
  simp [Store.insert, h.1, h.2]

theorem insert_of_not_accepts {s : Store} (h : accepts s t = false) :
    ∃ e, s.insert t = .error e := by
  unfold Store.insert
  split
  · exact ⟨_, rfl⟩
  · split
    · rename_i hx hl
      simp [accepts, hx, hl] at h
    · exact ⟨_, rfl⟩

variable {s : Inner}

theorem wrote_push (h : accepts s.store t = true) :
    s.Wrote t ({ s with store := s.store.push t }.offer ⟨s.store.lastSequence + 1, t⟩) :=
  ⟨s.store.push t, s.store.rows, List.Sublist.refl _, rfl, rfl,
    evolves_insert _ (insert_of_accepts h), rfl⟩

theorem insertAndOffer_spec (s : Inner) (t : Tuple) :
    (accepts s.store t = true ∧ ∃ s', s.insertAndOffer t = .ok s' ∧ s.Wrote t s') ∨
      (accepts s.store t = false ∧ ∃ e, s.insertAndOffer t = .error e) := by
  unfold Inner.insertAndOffer
  cases h : accepts s.store t with
  | true =>
    rw [insert_of_accepts h]
    exact .inl ⟨rfl, _, rfl, wrote_push h⟩
  | false =>
    obtain ⟨e, he⟩ := insert_of_not_accepts h
    rw [he]
    exact .inr ⟨rfl, e, rfl⟩

variable {s' : Inner}

theorem step_out (h : s.step (.out t) = some s') :
    (∃ u, s.offered (.out t) = some u ∧ s.Wrote u s') ∨ (s.offered (.out t) = none ∧ s' = s) := by
  simp only [Inner.step, Inner.out, some.injEq] at h
  rcases insertAndOffer_spec s t with ⟨ha, m, hm, hw⟩ | ⟨ha, e, he⟩
  · rw [hm] at h
    exact .inl ⟨t, by simp [Inner.offered, ha], h ▸ hw⟩
  · rw [he] at h
    exact .inr ⟨by simp [Inner.offered, ha], h.symm⟩

theorem step_outIfNew (h : s.step (.outIfNew t) = some s') :
    (∃ u, s.offered (.outIfNew t) = some u ∧ s.Wrote u s') ∨
      (s.offered (.outIfNew t) = none ∧ s' = s) := by
  simp only [Inner.step, some.injEq] at h
  unfold Inner.outIfNew at h
  by_cases hx : s.store.existsId t.id = true
  · simp only [hx, if_true, settle] at h
    exact .inr ⟨by simp [Inner.offered, accepts, hx], h.symm⟩
  · simp only [hx, Bool.false_eq_true, if_false] at h
    rcases insertAndOffer_spec s t with ⟨ha, m, hm, hw⟩ | ⟨ha, e, he⟩
    · rw [hm] at h
      exact .inl ⟨t, by simp [Inner.offered, ha], h ▸ hw⟩
    · rw [he] at h
      exact .inr ⟨by simp [Inner.offered, ha], h.symm⟩

theorem step_outCoordinator (h : s.step (.outCoordinator t) = some s') :
    (∃ u, s.offered (.outCoordinator t) = some u ∧ s.Wrote u s') ∨
      (s.offered (.outCoordinator t) = none ∧ s' = s) := by
  have hacc : accepts s.store (t.withLifecycle .furniture) = accepts s.store t := rfl
  simp only [Inner.step, some.injEq] at h
  unfold Inner.outCoordinator insertCoordinator at h
  dsimp only at h
  cases ha : accepts s.store t with
  | false =>
    obtain ⟨e, he⟩ := insert_of_not_accepts (hacc.trans ha)
    rw [he] at h
    exact .inr ⟨by simp [Inner.offered, ha], h.symm⟩
  | true =>
    rw [insert_of_accepts (hacc.trans ha)] at h
    by_cases hc : (s.store.coordinator.any fun c => decide (c.2.id = t.id)) = true
    · have hc' : ((s.store.push (t.withLifecycle .furniture)).coordinator.any
          fun c => decide (c.2.id = (t.withLifecycle .furniture).id)) = true := hc
      simp only [hc', if_true, settle] at h
      exact .inr ⟨by simp only [Inner.offered, ha, hc]; rfl, h.symm⟩
    · have hc' : ((s.store.push (t.withLifecycle .furniture)).coordinator.any
          fun c => decide (c.2.id = (t.withLifecycle .furniture).id)) = false :=
        eq_false_of_ne_true hc
      simp only [hc', Bool.false_eq_true, if_false, settle] at h
      refine .inl ⟨t.withLifecycle .furniture, by simp [Inner.offered, ha, hc], ?_⟩
      refine ⟨_, s.store.rows, List.Sublist.refl _, ?_, ?_, ?_, h.symm⟩
      · rfl
      · rfl
      · exact .rewrite (evolves_insert _ (insert_of_accepts (hacc.trans ha)))
          (rewrites_refl _ _) rfl rfl

theorem step_replace {expected : RecordId} (h : s.step (.replace expected t) = some s') :
    (∃ u, s.offered (.replace expected t) = some u ∧ s.Wrote u s') ∨
      (s.offered (.replace expected t) = none ∧ s' = s) := by
  simp only [Inner.step, some.injEq] at h
  unfold Inner.replace replace at h
  by_cases hid : expected = t.id
  · simp only [hid, if_true, settle] at h
    exact .inr ⟨by simp [Inner.offered, hid], h.symm⟩
  · simp only [hid, if_false] at h
    by_cases hany : s.store.rows.any (replaceable expected t) = true
    · simp only [hany, if_true] at h
      cases ha : accepts
          { s.store with rows := s.store.rows.filter fun r => !replaceable expected t r } t with
      | true =>
        rw [insert_of_accepts ha] at h
        refine .inl ⟨t, by simp [Inner.offered, hid, hany, ha], ?_⟩
        refine ⟨_, s.store.rows.filter fun r => !replaceable expected t r,
          List.filter_sublist, ?_, ?_, ?_, h.symm⟩
        · rfl
        · rfl
        · exact (evolves_rows _ (rewrites_filter _ _ _)).trans
            (evolves_insert _ (insert_of_accepts ha))
      | false =>
        obtain ⟨e, he⟩ := insert_of_not_accepts ha
        rw [he] at h
        exact .inr ⟨by simp [Inner.offered, ha], h.symm⟩
    · simp only [hany, Bool.false_eq_true, if_false, settle] at h
      exact .inr ⟨by simp [Inner.offered, hany], h.symm⟩

/-- Besides storing and offering, `reinforce` may refresh the newest row of its key in
place. -/
theorem step_reinforce (h : s.step (.reinforce t) = some s') :
    (∃ u, s.offered (.reinforce t) = some u ∧ s.Wrote u s') ∨ (s.offered (.reinforce t) = none ∧
        s.store.newestTrail t.category t.scope t.identity t.inst = none ∧ s' = s) ∨
      (s.offered (.reinforce t) = none ∧
        ∃ id, s.store.newestTrail t.category t.scope t.identity t.inst = some id ∧
          s' = { s with store := s.store.reinforce id { t with strength := some fullStrength } }) := by
  simp only [Inner.step, some.injEq] at h
  unfold Inner.reinforce at h
  cases hn : s.store.newestTrail t.category t.scope t.identity t.inst with
  | some id =>
    simp only [hn, settle] at h
    exact .inr (.inr ⟨by simp [Inner.offered, hn], id, rfl, h.symm⟩)
  | none =>
    simp only [hn] at h
    have hacc : accepts s.store { t with strength := some fullStrength } = accepts s.store t := rfl
    rcases insertAndOffer_spec s { t with strength := some fullStrength } with
      ⟨ha, m, hm, hw⟩ | ⟨ha, e, he⟩
    · rw [hm] at h
      rw [hacc] at ha
      have hs : m = s' := h
      rw [hs] at hw
      exact .inl ⟨_, by simp only [Inner.offered, hn, ha]; rfl, hw⟩
    · rw [he] at h
      rw [hacc] at ha
      exact .inr (.inl ⟨by simp [Inner.offered, ha], rfl, h.symm⟩)

theorem step_acceptSdlcSignal {g : Store.SdlcSignal} {acceptedAt : DateTime} {rollback : Bool}
    (h : s.step (.acceptSdlcSignal g acceptedAt rollback) = some s') :
    (s.store.sdlcCommits g acceptedAt rollback = false ∧ s' = s) ∨
      (s.store.sdlcCommits g acceptedAt rollback = true ∧ ∃ store, s.store.Evolves Row.stamp store ∧
        store.tuples = (s.store.tuples ++ [g.eventTuple]).map
            ((s.store.sdlcPlan g acceptedAt).refresh g acceptedAt) ++
          (s.store.sdlcPlan g acceptedAt).inserts g acceptedAt ∧
        s' = { s with store }) := by
  simp only [Inner.step, some.injEq] at h
  unfold Inner.acceptSdlcSignal at h
  rcases s.store.acceptSdlcSignal_spec g acceptedAt rollback with
    ⟨hc, store, receipt, projected, hg, hev, ht⟩ | ⟨hc, ⟨e, he⟩ | ⟨receipt, hd⟩⟩
  · rw [hg] at h
    exact .inr ⟨hc, store, hev, ht, h.symm⟩
  · rw [he] at h
    exact .inl ⟨hc, h.symm⟩
  · rw [hd] at h
    exact .inl ⟨hc, h.symm⟩

theorem checkAndRegister_cases (s : Inner) (pattern : Pattern) (destructive : Bool) :
    (∃ row rest, s.store.query pattern destructive (some 1) = row :: rest ∧
      s.checkAndRegister pattern destructive = { s with
          store := if destructive then s.store.erase row.tuple.id else s.store
          consumed := if destructive then s.consumed ++ [row] else s.consumed
          readers := s.readers ++ [⟨destructive, s.nextWaiterId, none, .returned (some row)⟩] }) ∨
      (s.store.query pattern destructive (some 1) = [] ∧ s.checkAndRegister pattern destructive =
          { s with
            waiters := s.waiters ++ [⟨s.nextWaiterId, pattern, destructive, s.readers.length⟩]
            nextWaiterId := (s.nextWaiterId + 1) % 2 ^ 64
            readers := s.readers ++ [⟨destructive, s.nextWaiterId, none, .waiting⟩] }) := by
  unfold Inner.checkAndRegister
  cases hq : s.store.query pattern destructive (some 1) with
  | nil => exact .inr ⟨rfl, rfl⟩
  | cons row rest => exact .inl ⟨row, rest, rfl, rfl⟩

variable {i : Nat}

theorem receive_some (h : s.receive i = some s') :
    ∃ r row, s.readers[i]? = some r ∧ r.state = .waiting ∧ r.slot = some row ∧ s' = { s with
        readers := s.readers.set i { r with slot := none, state := .returned (some row) } } := by
  unfold Inner.receive at h
  split at h
  · rename_i hr
    cases h
    exact ⟨_, _, hr, rfl, rfl, rfl⟩
  · cases h

theorem decideTimeout_some (h : s.decideTimeout i = some s') :
    ∃ r, s.readers[i]? = some r ∧ r.state = .waiting ∧ r.slot = none ∧
      s' = { s with readers := s.readers.set i { r with state := .expired } } := by
  unfold Inner.decideTimeout at h
  split at h
  · rename_i hr
    cases h
    exact ⟨_, hr, rfl, rfl, rfl⟩
  · cases h

theorem dropReceiver_some (h : s.dropReceiver i = some s') :
    ∃ r, s.readers[i]? = some r ∧ r.state = .expired ∧
      s' = { s with readers := s.readers.set i { r with slot := none, state := .released } } := by
  unfold Inner.dropReceiver at h
  split at h
  · rename_i hr
    cases h
    exact ⟨_, hr, rfl, rfl⟩
  · cases h

theorem observeClosed_some (h : s.observeClosed i = some s') :
    ∃ r, s.readers[i]? = some r ∧ r.state = .waiting ∧ r.slot = none ∧
      (∀ w ∈ s.waiters, w.reader ≠ i) ∧
      s' = { s with readers := s.readers.set i { r with state := .released } } := by
  unfold Inner.observeClosed at h
  split at h
  · rename_i hr
    split at h
    · cases h
    · rename_i hany
      cases h
      exact ⟨_, hr, rfl, rfl, by simpa using hany, rfl⟩
  · cases h

theorem removeWaiter_some (h : s.removeWaiter i = some s') :
    ∃ r, s.readers[i]? = some r ∧ r.state = .released ∧ s' = { s with
        waiters := s.waiters.filter fun w => w.id ≠ r.waiterId
        readers := s.readers.set i { r with state := .returned none } } := by
  unfold Inner.removeWaiter at h
  split at h
  · rename_i hr
    cases h
    exact ⟨_, hr, rfl, rfl⟩
  · cases h

section
variable {K : Type} (key : Row → K)

theorem evolves_offer (s : Inner) (row : Row) : s.store.Evolves key (s.offer row).store := by
  unfold Inner.offer
  dsimp only
  split
  · exact evolves_erase _ _ _
  · exact .refl _

theorem evolves_wrote {s s' : Inner} {t : Tuple} (h : s.Wrote t s') :
    s.store.Evolves key s'.store := by
  obtain ⟨store, kept, -, -, -, he, rfl⟩ := h
  exact (he.coarsen fun _ => rfl).trans (evolves_offer key { s with store } _)

theorem evolves_checkAndRegister (s : Inner) (pattern : Pattern) (destructive : Bool) :
    s.store.Evolves key (s.checkAndRegister pattern destructive).store := by
  rcases checkAndRegister_cases s pattern destructive with ⟨row, rest, -, he⟩ | ⟨-, he⟩
  · rw [he]
    split
    · exact evolves_erase _ _ _
    · exact .refl _
  · rw [he]
    exact .refl _

end

inductive Reader.Move (i : Nat) (waiters : List Waiter) (r : Reader) : List Waiter → Reader → Prop
  | receive {row : Row} : r.state = .waiting → r.slot = some row →
      Move i waiters r waiters { r with slot := none, state := .returned (some row) }
  | decideTimeout : r.state = .waiting → r.slot = none →
      Move i waiters r waiters { r with state := .expired }
  | dropReceiver : r.state = .expired →
      Move i waiters r waiters { r with slot := none, state := .released }
  | observeClosed : r.state = .waiting → r.slot = none → (∀ w ∈ waiters, w.reader ≠ i) →
      Move i waiters r waiters { r with state := .released }
  | removeWaiter : r.state = .released →
      Move i waiters r (waiters.filter fun w => w.id ≠ r.waiterId)
        { r with state := .returned none }

theorem Reader.Move.waiters_subset {waiters ws : List Waiter} {r r' : Reader}
    (h : Reader.Move i waiters r ws r') {w : Waiter} (hw : w ∈ ws) : w ∈ waiters := by
  cases h with
  | removeWaiter => exact (List.mem_filter.mp hw).1
  | _ => exact hw

variable {op : Op}

/-- Every step stores and offers a tuple, changes the store alone, is the critical
section of a read, or is the move of one reader. -/
theorem step_cases (h : s.step op = some s') :
    (∃ t, s.offered op = some t ∧ s.Wrote t s') ∨
      (s.offered op = none ∧ ∃ store, s.store.Evolves Row.stamp store ∧ s' = { s with store }) ∨
      (∃ p destructive, op = .checkAndRegister p destructive ∧
        s' = s.checkAndRegister p destructive) ∨
      (s.offered op = none ∧ ∃ i r r' ws, s.readers[i]? = some r ∧ Reader.Move i s.waiters r ws r' ∧
        s' = { s with waiters := ws, readers := s.readers.set i r' }) := by
  have still : ∃ store, s.store.Evolves Row.stamp store ∧ s = { s with store } :=
    ⟨s.store, .refl _, rfl⟩
  cases op with
  | out t =>
    rcases step_out h with hw | ⟨ho, rfl⟩
    · exact .inl hw
    · exact .inr (.inl ⟨ho, still⟩)
  | outIfNew t =>
    rcases step_outIfNew h with hw | ⟨ho, rfl⟩
    · exact .inl hw
    · exact .inr (.inl ⟨ho, still⟩)
  | outCoordinator t =>
    rcases step_outCoordinator h with hw | ⟨ho, rfl⟩
    · exact .inl hw
    · exact .inr (.inl ⟨ho, still⟩)
  | replace expected t =>
    rcases step_replace h with hw | ⟨ho, rfl⟩
    · exact .inl hw
    · exact .inr (.inl ⟨ho, still⟩)
  | reinforce t =>
    rcases step_reinforce h with hw | ⟨ho, -, rfl⟩ | ⟨ho, id, -, rfl⟩
    · exact .inl hw
    · exact .inr (.inl ⟨ho, still⟩)
    · exact .inr (.inl ⟨ho, _, evolves_reinforce _ _ _, rfl⟩)
  | acceptSdlcSignal g acceptedAt rollback =>
    rcases step_acceptSdlcSignal h with ⟨-, rfl⟩ | ⟨-, store, hev, -, rfl⟩
    · exact .inr (.inl ⟨rfl, still⟩)
    · exact .inr (.inl ⟨rfl, store, hev, rfl⟩)
  | delete id =>
    cases h
    exact .inr (.inl ⟨rfl, _, evolves_erase _ _ _, rfl⟩)
  | gcExpired decayStep now =>
    cases h
    exact .inr (.inl ⟨rfl, _, (evolves_decayAndCollect _ _).trans
      (evolves_deleteExpired _ _ _), rfl⟩)
  | checkAndRegister p destructive =>
    cases h
    exact .inr (.inr (.inl ⟨p, destructive, rfl, rfl⟩))
  | receive i =>
    obtain ⟨r, row, hr, hst, hslot, rfl⟩ := receive_some h
    exact .inr (.inr (.inr ⟨rfl, i, r, _, _, hr, .receive hst hslot, rfl⟩))
  | decideTimeout i =>
    obtain ⟨r, hr, hst, hslot, rfl⟩ := decideTimeout_some h
    exact .inr (.inr (.inr ⟨rfl, i, r, _, _, hr, .decideTimeout hst hslot, rfl⟩))
  | dropReceiver i =>
    obtain ⟨r, hr, hst, rfl⟩ := dropReceiver_some h
    exact .inr (.inr (.inr ⟨rfl, i, r, _, _, hr, .dropReceiver hst, rfl⟩))
  | observeClosed i =>
    obtain ⟨r, hr, hst, hslot, hno, rfl⟩ := observeClosed_some h
    exact .inr (.inr (.inr ⟨rfl, i, r, _, _, hr, .observeClosed hst hslot hno, rfl⟩))
  | removeWaiter i =>
    obtain ⟨r, hr, hst, rfl⟩ := removeWaiter_some h
    exact .inr (.inr (.inr ⟨rfl, i, r, _, _, hr, .removeWaiter hst, rfl⟩))

theorem step_evolves (h : s.step op = some s') : s.store.Evolves Row.stamp s'.store := by
  rcases step_cases h with ⟨t, -, hw⟩ | ⟨-, store, hev, rfl⟩ | ⟨p, d, -, rfl⟩ |
    ⟨-, i, r, r', ws, -, -, rfl⟩
  · exact evolves_wrote _ hw
  · exact hev
  · exact evolves_checkAndRegister _ s p d
  · exact .refl _

theorem wf_step (hwf : s.store.Wf) (h : s.step op = some s') :
    s'.store.Wf := (step_evolves h).wf hwf

end RatKingdom.Space
