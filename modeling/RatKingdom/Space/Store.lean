/-
The SQLite store behind the tuple space.

`rows` is the `tuples` table and `journal` the append-only persistence journal.  The
insert trigger stamps a row with the next value of one counter and writes the
journal entry in the same transaction, so a row and its journal entry share their
`sequence`.  A statement that fails leaves the store as it was.
-/
import Mathlib.Data.List.Sort
import RatKingdom.Core.Tuple

namespace RatKingdom.Space

open Core

inductive Error where
  | other (text : String)
  | invalidTuple (text : String)
  deriving DecidableEq

/-- A row of `tuples`, or of `tuple_persistence_events`. -/
structure Row where
  sequence : Nat
  tuple : Tuple

/-- A row of `sdlc_current_state`, without its key. -/
structure CurrentSdlcState where
  digest : String
  firstDeliveryId : String
  lastDeliveryId : String
  firstSeenAt : String
  lastSeenAt : String
  currentOccurredAt : Option DateTime
  currentObservedAt : Option DateTime
  factTupleId : RecordId

structure SdlcTransitionRecord where
  source : String
  scope : String
  subject : String
  deliveryId : String
  previousDigest : Option String
  currentDigest : String
  transitionTupleId : RecordId
  createdAt : DateTime

structure SignalReceipt where
  receiptId : String
  source : String
  deliveryId : String
  acceptedAt : DateTime
  digest : String
  projectedEventId : RecordId
  projectedFactIds : List RecordId
  transitionEmitted : Bool

structure Store where
  rows : List Row
  lastSequence : Nat
  journal : List Row
  coordinator : List (Nat × Tuple)
  receipts : List ((String × String) × SignalReceipt)
  current : List ((String × String × String) × CurrentSdlcState)
  transitions : List SdlcTransitionRecord

namespace Store

def empty : Store :=
  { rows := [], lastSequence := 0, journal := [], coordinator := []
    receipts := [], current := [], transitions := [] }

def tuples (s : Store) : List Tuple := s.rows.map Row.tuple

def existsId (s : Store) (id : RecordId) : Bool := s.rows.any fun r => r.tuple.id = id

def maxSequence : Nat := 9223372036854775807

def uniqueViolation (column : String) : Error :=
  .other ("sqlite: UNIQUE constraint failed: " ++ column)

def push (s : Store) (t : Tuple) : Store :=
  { s with
    lastSequence := s.lastSequence + 1
    rows := s.rows ++ [⟨s.lastSequence + 1, t⟩]
    journal := s.journal ++ [⟨s.lastSequence + 1, t⟩] }

/-- The `INSERT INTO tuples` shared by every write path, with its two failures: the
primary key is taken, or the trigger finds the counter exhausted. -/
def insert (s : Store) (t : Tuple) : Except Error Store :=
  if s.existsId t.id then .error (uniqueViolation "tuples.id")
  else if s.lastSequence < maxSequence then .ok (s.push t)
  else .error (.other "sqlite: invalid tuple persistence sequence state")

def erase (s : Store) (id : RecordId) : Store :=
  { s with rows := s.rows.filter fun r => r.tuple.id ≠ id }

/-- `Store::delete`, with whether a row was removed. -/
def delete (s : Store) (id : RecordId) : Store × Bool := (s.erase id, s.existsId id)

/-- The row `Store::replace` may remove: the exact revision, under the replacement's
key, and not furniture. -/
def replaceable (expected : RecordId) (t : Tuple) (r : Row) : Bool :=
  r.tuple.id = expected && r.tuple.category = t.category && r.tuple.scope = t.scope &&
    r.tuple.identity = t.identity && r.tuple.inst = t.inst && r.tuple.lifecycle ≠ .furniture

def replace (s : Store) (expected : RecordId) (t : Tuple) : Except Error (Store × Bool) :=
  if expected = t.id then .error (.other "replacement requires a fresh record id")
  else if s.rows.any (replaceable expected t) then
    match insert { s with rows := s.rows.filter fun r => !replaceable expected t r } t with
    | .ok s' => .ok (s', true)
    | .error e => .error e
  else .ok (s, false)

/-- The tuple and its coordinator journal row in one transaction.  Nothing deletes a
coordinator row, so the next automatic sequence is one more than their number. -/
def insertCoordinator (s : Store) (t : Tuple) : Except Error (Store × Nat) :=
  match s.insert t with
  | .error e => .error e
  | .ok s' =>
    if s'.coordinator.any fun c => c.2.id = t.id then
      .error (uniqueViolation "coordinator_events.tuple_id")
    else
      .ok ({ s' with coordinator := s'.coordinator ++ [(s'.coordinator.length + 1, t)] },
        s'.coordinator.length + 1)

/-- The conditions `append_pattern_filters` adds to a statement. -/
def patternFilters (p : Pattern) (consumableOnly : Bool) (t : Tuple) : Bool :=
  admits p.category t.category && admits p.scope t.scope && admits p.identity t.identity &&
    admits p.inst t.inst && admitsText p.payloadSearch t.payload.toText &&
    admitsText p.payloadSearchAnd t.payload.toText &&
    (match p.afterId with
      | none => true
      | some after => decide (after < t.id)) &&
    (!consumableOnly || t.lifecycle ≠ .furniture)

/-- `Store::query`: the matching rows in id order, at most `limit` of them. -/
def query (s : Store) (p : Pattern) (consumableOnly : Bool) (limit : Option Nat) : List Row :=
  let found := (s.rows.filter fun r => patternFilters p consumableOnly r.tuple).insertionSort
    fun a b => a.tuple.id ≤ b.tuple.id
  match limit with
  | none => found
  | some n => found.take n

def trailKey (category : Category) (scope identity inst : String) (r : Row) : Bool :=
  r.tuple.category = category && r.tuple.scope = scope && r.tuple.identity = identity &&
    r.tuple.inst = inst

def newestTrail (s : Store) (category : Category) (scope identity inst : String) :
    Option RecordId :=
  ((s.rows.filter (trailKey category scope identity inst)).map fun r => r.tuple.id).max?

/-- What `Store::reinforce` writes over a stored tuple: the id, the key and
`created_at` stay. -/
def reinforced (t stored : Tuple) : Tuple :=
  { stored with
    lifecycle := t.lifecycle, payload := t.payload
    expiresAt := t.expiresAt, strength := t.strength }

/-- An `UPDATE tuples … WHERE id = ?`. -/
def updateId (id : RecordId) (f : Tuple → Tuple) (rows : List Row) : List Row :=
  rows.map fun r => if r.tuple.id = id then { r with tuple := f r.tuple } else r

def reinforce (s : Store) (id : RecordId) (t : Tuple) : Store :=
  { s with rows := updateId id (reinforced t) s.rows }

def storedStrength (x : Float) : Option Float := if x.isNaN then none else some x

def decayed (step : Float) (t : Tuple) : Tuple :=
  { t with strength := t.strength.bind fun x => storedStrength (x - step) }

def faded (t : Tuple) : Bool :=
  match t.strength with
  | none => false
  | some x => x ≤ 0

/-- `Store::decay_and_collect`, with the number of rows collected. -/
def decayAndCollect (s : Store) (step : Float) : Store × Nat :=
  let rows := s.rows.map fun r => { r with tuple := decayed step r.tuple }
  ({ s with rows := rows.filter fun r => !faded r.tuple }, rows.countP fun r => faded r.tuple)

def expired (now : DateTime) (t : Tuple) : Bool :=
  match t.expiresAt with
  | none => false
  | some at_ => decide (DateTime.toRfc3339 at_ < DateTime.toRfc3339 now)

def deleteExpired (s : Store) (now : DateTime) : Store × Nat :=
  ({ s with rows := s.rows.filter fun r => !expired now r.tuple },
    s.rows.countP fun r => expired now r.tuple)

/-! ## SDLC signals

`SdlcSignal` is an envelope after its pure reading: the verdict of its validation, the
key and the digest derived from it, the ids hashed from its fields and the payloads of
the three tuples it may project.  What remains is the transaction. -/

structure SdlcSignal where
  rejection : Option Error
  source : String
  deliveryId : String
  principal : String
  scope : String
  subject : String
  family : String
  digest : String
  occurredAt : DateTime
  observedAt : DateTime
  eventId : RecordId
  stableFactId : RecordId
  transitionId : RecordId
  eventPayload : Value
  factPayload : String → String → String → DateTime → Value
  transitionPayload : Option String → Value

namespace SdlcSignal

def key (g : SdlcSignal) : String × String × String := (g.source, g.scope, g.subject)

def receiptId (g : SdlcSignal) : String := "sdlc:receipt:" ++ g.source ++ ":" ++ g.deliveryId

def eventTuple (g : SdlcSignal) : Tuple :=
  Tuple.new g.eventId g.observedAt .event g.scope
    ("sdlc:event:" ++ g.source ++ ":" ++ g.deliveryId) g.principal g.eventPayload

def factTuple (g : SdlcSignal) (id : RecordId) (firstDeliveryId firstSeenAt : String)
    (acceptedAt : DateTime) : Tuple :=
  (Tuple.new id acceptedAt .fact g.scope ("sdlc:current:" ++ g.source ++ ":" ++ g.subject)
    g.principal (g.factPayload firstDeliveryId firstSeenAt g.receiptId acceptedAt)).withLifecycle
      .furniture

def transitionTuple (g : SdlcSignal) (previous : Option String) : Tuple :=
  Tuple.new g.transitionId g.observedAt .event g.scope
    ("sdlc:transition:" ++ g.source ++ ":" ++ g.scope ++ ":" ++ g.subject) g.principal
    (g.transitionPayload previous)

/-- `occurrence_advances_current`: only deployments are ordered by their own clocks. -/
def advances (g : SdlcSignal) (c : CurrentSdlcState) : Bool :=
  if g.family ≠ "deployment" then true
  else
    match c.currentOccurredAt with
    | none => false
    | some occurred =>
      if g.occurredAt ≠ occurred then occurred < g.occurredAt
      else
        match c.currentObservedAt with
        | none => false
        | some observed => observed < g.observedAt

end SdlcSignal

def receiptOf (s : Store) (source deliveryId : String) : Option SignalReceipt :=
  (s.receipts.find? fun r => r.1 = (source, deliveryId)).map Prod.snd

def currentOf (s : Store) (key : String × String × String) : Option CurrentSdlcState :=
  (s.current.find? fun c => c.1 = key).map Prod.snd

structure SdlcPlan where
  current : Option CurrentSdlcState
  advancesCurrent : Bool
  factId : RecordId
  firstDeliveryId : String
  firstSeenAt : String
  transitionEmitted : Bool

def sdlcPlan (s : Store) (g : SdlcSignal) (acceptedAt : DateTime) : SdlcPlan :=
  let current := s.currentOf g.key
  let advancesCurrent := (current.map g.advances).getD true
  { current, advancesCurrent
    factId := (current.map (·.factTupleId)).getD g.stableFactId
    firstDeliveryId := (current.map (·.firstDeliveryId)).getD g.deliveryId
    firstSeenAt := (current.map (·.firstSeenAt)).getD (DateTime.toRfc3339 acceptedAt)
    transitionEmitted :=
      advancesCurrent && (current.map fun c => decide (c.digest ≠ g.digest)).getD true }

namespace SdlcPlan

def fact (p : SdlcPlan) (g : SdlcSignal) (acceptedAt : DateTime) : Tuple :=
  g.factTuple p.factId p.firstDeliveryId p.firstSeenAt acceptedAt

def transition (p : SdlcPlan) (g : SdlcSignal) : Tuple :=
  g.transitionTuple (p.current.map (·.digest))

def projected (p : SdlcPlan) (g : SdlcSignal) (acceptedAt : DateTime) : List Tuple :=
  g.eventTuple :: ((if p.advancesCurrent then [p.fact g acceptedAt] else []) ++
    (if p.transitionEmitted then [p.transition g] else []))

end SdlcPlan

def refreshedFact (fact : Tuple) (acceptedAt : DateTime) (stored : Tuple) : Tuple :=
  { stored with payload := fact.payload, createdAt := acceptedAt }

section
variable (s : Store) (p : SdlcPlan) (g : SdlcSignal) (acceptedAt : DateTime)

/-- The fact row: refreshed in place when the subject already has one, inserted
otherwise. -/
def writeFact : Except Error Store :=
  if p.advancesCurrent then
    if p.current.isSome then
      .ok { s with rows := updateId p.factId (refreshedFact (p.fact g acceptedAt) acceptedAt) s.rows }
    else s.insert (p.fact g acceptedAt)
  else .ok s

/-- The upsert into `sdlc_current_state`, whose fact id is unique across keys. -/
def writeCurrent : Except Error Store :=
  if p.advancesCurrent then
    if s.current.any fun c => c.2.factTupleId = p.factId && c.1 ≠ g.key then
      .error (uniqueViolation "sdlc_current_state.fact_tuple_id")
    else
      .ok { s with
        current := (g.key,
          { digest := g.digest, firstDeliveryId := p.firstDeliveryId
            lastDeliveryId := g.deliveryId, firstSeenAt := p.firstSeenAt
            lastSeenAt := DateTime.toRfc3339 acceptedAt
            currentOccurredAt := some g.occurredAt, currentObservedAt := some g.observedAt
            factTupleId := p.factId }) :: s.current.filter fun c => c.1 ≠ g.key }
  else .ok s

def writeTransition : Except Error Store :=
  if p.transitionEmitted then
    match s.insert (p.transition g) with
    | .error e => .error e
    | .ok s' =>
      if s'.transitions.any fun t => t.transitionTupleId = g.transitionId then
        .error (uniqueViolation "sdlc_transitions.transition_tuple_id")
      else
        .ok { s' with
          transitions := s'.transitions ++
            [{ source := g.source, scope := g.scope, subject := g.subject
               deliveryId := g.deliveryId, previousDigest := p.current.map (·.digest)
               currentDigest := g.digest, transitionTupleId := g.transitionId
               createdAt := acceptedAt }] }
  else .ok s

end

def sdlcReceipt (p : SdlcPlan) (g : SdlcSignal) (acceptedAt : DateTime) : SignalReceipt :=
  { receiptId := g.receiptId, source := g.principal, deliveryId := g.deliveryId
    acceptedAt, digest := g.digest, projectedEventId := g.eventId
    projectedFactIds := if p.advancesCurrent then [p.factId] else []
    transitionEmitted := p.transitionEmitted }

def sdlcWrite (s : Store) (p : SdlcPlan) (g : SdlcSignal) (acceptedAt : DateTime) :
    Except Error Store :=
  (s.insert g.eventTuple).bind fun s₁ =>
    (s₁.writeFact p g acceptedAt).bind fun s₂ =>
      (s₂.writeCurrent p g acceptedAt).bind fun s₃ => s₃.writeTransition p g acceptedAt

/-- `Store::accept_sdlc_signal`: one transaction, with the receipt and the projected
tuples.  A duplicate delivery returns its first receipt and writes nothing. -/
def acceptSdlcSignal (s : Store) (g : SdlcSignal) (acceptedAt : DateTime)
    (rollbackInjection : Bool) : Except Error (Store × SignalReceipt × List Tuple) :=
  match g.rejection with
  | some e => .error e
  | none =>
    match s.receiptOf g.source g.deliveryId with
    | some receipt => .ok (s, receipt, [])
    | none =>
      let p := s.sdlcPlan g acceptedAt
      match s.sdlcWrite p g acceptedAt with
      | .error e => .error e
      | .ok s₄ =>
        if rollbackInjection then .error (.other "injected sdlc rollback")
        else
          let receipt := sdlcReceipt p g acceptedAt
          .ok ({ s₄ with receipts := s₄.receipts ++ [((g.source, g.deliveryId), receipt)] },
            receipt, p.projected g acceptedAt)

structure PersistenceDelta where
  boundary : Nat
  tuples : List Tuple

def persistenceDelta (s : Store) (after : Option Nat) : Except Error PersistenceDelta :=
  let after := after.getD 0
  if s.lastSequence < after then
    .error (.other "tuple persistence cursor is ahead of the captured boundary")
  else
    .ok { boundary := s.lastSequence
          tuples := (s.journal.filter fun r => after < r.sequence && r.sequence ≤ s.lastSequence).map
            Row.tuple }

def hasPersistenceEvent (s : Store) (id : RecordId) : Bool := s.journal.any fun r => r.tuple.id = id

end Store

end RatKingdom.Space
