/-
The SQLite database behind the tuple space, as its tables hold it.

A tuple is stored column by column as text, and read back through the parsers of the two
text formats.  Numbering is the work of the triggers on `tuples`: an insert finds its row
without a `commit_sequence`, takes the next value of the one counter, stamps the row and
appends its snapshot to the journal `tuple_persistence_events`, all inside the statement
that inserts.  A statement or a transaction that fails leaves the database as it was.
-/
import RatKingdom.Core.Ulid
import RatKingdom.Space.Store

namespace RatKingdom
namespace Space

open Core

/-- The columns of a row of `tuples` that its writer supplies. -/
structure Columns where
  id : String
  category : String
  scope : String
  identity : String
  inst : String
  lifecycle : String
  payload : String
  createdAt : String
  expiresAt : Option String
  strength : Option Float

/-- The parameters every `INSERT INTO tuples` binds. -/
def columns (t : Tuple) : Columns :=
  { id := RecordId.toText t.id
    category := t.category.asStr
    scope := t.scope
    identity := t.identity
    inst := t.inst
    lifecycle := t.lifecycle.asStr
    payload := t.payload.toText
    createdAt := DateTime.toRfc3339 t.createdAt
    expiresAt := t.expiresAt.map DateTime.toRfc3339
    strength := t.strength.bind Store.storedStrength }

/-- A row of `tuples`.  A row of a table without the column `commit_sequence` is one whose
`commit_sequence` is NULL. -/
structure TupleRow where
  commitSequence : Option Int
  columns : Columns

/-- A row of `tuple_persistence_events`. -/
structure EventRow where
  commitSequence : Int
  columns : Columns

/-- The row of `tuple_sequence_state`. -/
structure SequenceState where
  lastSequence : Int
  legacyBackfillSequence : Int
  journalFloorSequence : Int

/-- The tables of a database file, with what its schema already has of the sequence
columns, the journal's guards and the migration marker. -/
structure Database where
  tuples : List TupleRow
  sequenceState : Option SequenceState
  events : List EventRow
  sequenceColumn : Bool
  stateTable : Bool
  floorColumn : Bool
  journalGuards : Bool
  journalMarker : Bool
  coordinator : List (Nat × Tuple)
  receipts : List ((String × String) × SignalReceipt)
  current : List ((String × String × String) × CurrentSdlcState)
  transitions : List SdlcTransitionRecord

/-- The parsers of the two text formats of the columns: `serde_json::from_str` and
`DateTime::parse_from_rfc3339`. -/
structure TextReader where
  json : String → Option Value
  rfc3339 : String → Option DateTime

def conversionError (index : Nat) : Error :=
  .other ("sqlite: Conversion error from type Text at index: " ++ toString index)

def converted {α : Type} (index : Nat) : Option α → Except Error α
  | some a => .ok a
  | none => .error (conversionError index)

/-- The columns of a tuple from the column `base` on. -/
def rowToTupleOffset (reader : TextReader) (base : Nat) (c : Columns) : Except Error Tuple := do
  let id ← converted base (RecordId.ofText c.id)
  let category ← converted (base + 1) (Category.ofStr c.category)
  let lifecycle ← converted (base + 5) (Lifecycle.ofStr c.lifecycle)
  let payload ← converted (base + 6) (reader.json c.payload)
  let createdAt ← converted (base + 7) (reader.rfc3339 c.createdAt)
  let expiresAt ← match c.expiresAt with
    | none => pure none
    | some s => (converted (base + 8) (reader.rfc3339 s)).map some
  pure
    { id, category, scope := c.scope, identity := c.identity, inst := c.inst
      lifecycle, payload, createdAt, expiresAt, strength := c.strength }

def rowToTuple (reader : TextReader) (c : Columns) : Except Error Tuple :=
  rowToTupleOffset reader 0 c

def epochReader : TextReader :=
  { json := fun s => if s = "null" then some .null else none
    rfc3339 := fun s => if s = "1970-01-01T00:00:00+00:00" then some 0 else none }

def epochTuple (id : RecordId) : Tuple := Tuple.new id 0 .event "system" "note" "castle" .null

namespace Database

def maxInteger : Int := 9223372036854775807

def blank : Database :=
  { tuples := [], sequenceState := none, events := []
    sequenceColumn := false, stateTable := false, floorColumn := false
    journalGuards := false, journalMarker := false
    coordinator := [], receipts := [], current := [], transitions := [] }

def existsId (db : Database) (id : String) : Bool := db.tuples.any fun r => r.columns.id = id

/-- `INSERT INTO tuple_persistence_events` under `tuple_persistence_events_ignore_duplicate`. -/
def appendEvent (db : Database) (e : EventRow) : Database :=
  if db.events.any fun o => o.commitSequence = e.commitSequence then db
  else { db with events := db.events ++ [e] }

/-- `UPDATE tuples SET commit_sequence = ?  WHERE id = ?`, under the unique index on
`commit_sequence`. -/
def stampTuple (db : Database) (id : String) (sequence : Int) : Except Error Database :=
  if db.tuples.any fun r => r.columns.id ≠ id && r.commitSequence = some sequence then
    .error (Store.uniqueViolation "tuples.commit_sequence")
  else
    .ok { db with
      tuples := db.tuples.map fun r =>
        if r.columns.id = id then { r with commitSequence := some sequence } else r }

/-- The state `tuples_assign_commit_sequence` accepts to number another row. -/
def numberable (st : SequenceState) : Bool :=
  0 ≤ st.lastSequence && st.lastSequence < maxInteger &&
    0 ≤ st.legacyBackfillSequence && st.legacyBackfillSequence ≤ st.lastSequence &&
    0 ≤ st.journalFloorSequence && st.journalFloorSequence ≤ st.lastSequence

/-- `tuples_assign_commit_sequence`, after the insert of a row. -/
def assignCommitSequence (db : Database) (new : Columns) : Except Error Database :=
  match db.sequenceState with
  | none => .error (.other "sqlite: invalid tuple persistence sequence state")
  | some st =>
    if numberable st then
      let sequence := st.lastSequence + 1
      let counted := { db with sequenceState := some { st with lastSequence := sequence } }
      match counted.stampTuple new.id sequence with
      | .error e => .error e
      | .ok stamped => .ok (stamped.appendEvent ⟨sequence, new⟩)
    else .error (.other "sqlite: invalid tuple persistence sequence state")

/-- The `INSERT INTO tuples` shared by every write path. -/
def insertTuple (db : Database) (new : Columns) : Except Error Database :=
  if db.existsId new.id then .error (Store.uniqueViolation "tuples.id")
  else assignCommitSequence { db with tuples := db.tuples ++ [⟨none, new⟩] } new

def insert (db : Database) (t : Tuple) : Except Error Database := db.insertTuple (columns t)

def deleteWhere (db : Database) (p : Columns → Bool) : Database :=
  { db with tuples := db.tuples.filter fun r => !p r.columns }

/-- An `UPDATE tuples` of columns other than `id` and `commit_sequence`. -/
def updateWhere (db : Database) (p : Columns → Bool) (f : Columns → Columns) : Database :=
  { db with
    tuples := db.tuples.map fun r => if p r.columns then { r with columns := f r.columns } else r }

def hasId (id : RecordId) (c : Columns) : Bool := c.id = RecordId.toText id

/-- `Store::delete`, with whether a row was removed. -/
def delete (db : Database) (id : RecordId) : Database × Bool :=
  (db.deleteWhere (hasId id), db.existsId (RecordId.toText id))

/-- The row `Store::replace` may remove: the exact revision, under the replacement's key,
and not furniture. -/
def replaceable (expected : RecordId) (t : Tuple) (c : Columns) : Bool :=
  c.id = RecordId.toText expected && c.category = t.category.asStr && c.scope = t.scope &&
    c.identity = t.identity && c.inst = t.inst && c.lifecycle ≠ "furniture"

def replace (db : Database) (expected : RecordId) (t : Tuple) : Except Error (Database × Bool) :=
  if expected = t.id then .error (.other "replacement requires a fresh record id")
  else if db.tuples.any fun r => replaceable expected t r.columns then
    match (db.deleteWhere (replaceable expected t)).insert t with
    | .ok db' => .ok (db', true)
    | .error e => .error e
  else .ok (db, false)

/-- `Store::insert_coordinator`, with the sequence of the coordinator's own journal. -/
def insertCoordinator (db : Database) (t : Tuple) : Except Error (Database × Nat) :=
  match db.insert t with
  | .error e => .error e
  | .ok db' =>
    if db'.coordinator.any fun c => c.2.id = t.id then
      .error (Store.uniqueViolation "coordinator_events.tuple_id")
    else
      .ok ({ db' with coordinator := db'.coordinator ++ [(db'.coordinator.length + 1, t)] },
        db'.coordinator.length + 1)

/-- What `Store::reinforce` writes over a row. -/
def reinforced (t : Tuple) (c : Columns) : Columns :=
  { c with
    lifecycle := t.lifecycle.asStr
    payload := t.payload.toText
    expiresAt := t.expiresAt.map DateTime.toRfc3339
    strength := t.strength.bind Store.storedStrength }

def reinforce (db : Database) (id : RecordId) (t : Tuple) : Database :=
  db.updateWhere (hasId id) (reinforced t)

def decayed (step : Float) (c : Columns) : Columns :=
  { c with strength := c.strength.bind fun x => Store.storedStrength (x - step) }

/-- The first statement of `Store::decay_and_collect`. -/
def decay (db : Database) (step : Float) : Database :=
  db.updateWhere (fun c => c.strength.isSome) (decayed step)

def faded (c : Columns) : Bool :=
  match c.strength with
  | none => false
  | some x => x ≤ 0

/-- The second statement of `Store::decay_and_collect`. -/
def collect (db : Database) : Database := db.deleteWhere faded

def decayAndCollect (db : Database) (step : Float) : Database := (db.decay step).collect

def expired (now : DateTime) (c : Columns) : Bool :=
  match c.expiresAt with
  | none => false
  | some s => decide (s < DateTime.toRfc3339 now)

def deleteExpired (db : Database) (now : DateTime) : Database := db.deleteWhere (expired now)

def sdlcPlan (db : Database) (g : Store.SdlcSignal) (acceptedAt : DateTime) : Store.SdlcPlan :=
  Store.sdlcPlan { Store.empty with current := db.current } g acceptedAt

def refreshedFact (fact : Tuple) (acceptedAt : DateTime) (c : Columns) : Columns :=
  { c with payload := fact.payload.toText, createdAt := DateTime.toRfc3339 acceptedAt }

section
variable (db : Database) (p : Store.SdlcPlan) (g : Store.SdlcSignal) (acceptedAt : DateTime)

def writeFact : Except Error Database :=
  if p.advancesCurrent then
    if p.current.isSome then
      .ok (db.updateWhere (hasId p.factId) (refreshedFact (p.fact g acceptedAt) acceptedAt))
    else db.insert (p.fact g acceptedAt)
  else .ok db

def writeCurrent : Except Error Database :=
  if p.advancesCurrent then
    if db.current.any fun c => c.2.factTupleId = p.factId && c.1 ≠ g.key then
      .error (Store.uniqueViolation "sdlc_current_state.fact_tuple_id")
    else
      .ok { db with
        current := (g.key,
          { digest := g.digest, firstDeliveryId := p.firstDeliveryId
            lastDeliveryId := g.deliveryId, firstSeenAt := p.firstSeenAt
            lastSeenAt := DateTime.toRfc3339 acceptedAt
            currentOccurredAt := some g.occurredAt, currentObservedAt := some g.observedAt
            factTupleId := p.factId }) :: db.current.filter fun c => c.1 ≠ g.key }
  else .ok db

def writeTransition : Except Error Database :=
  if p.transitionEmitted then
    match db.insert (p.transition g) with
    | .error e => .error e
    | .ok db' =>
      if db'.transitions.any fun t => t.transitionTupleId = g.transitionId then
        .error (Store.uniqueViolation "sdlc_transitions.transition_tuple_id")
      else
        .ok { db' with
          transitions := db'.transitions ++
            [{ source := g.source, scope := g.scope, subject := g.subject
               deliveryId := g.deliveryId, previousDigest := p.current.map (·.digest)
               currentDigest := g.digest, transitionTupleId := g.transitionId
               createdAt := acceptedAt }] }
  else .ok db

def sdlcWrite : Except Error Database :=
  (db.insert g.eventTuple).bind fun db₁ =>
    (db₁.writeFact p g acceptedAt).bind fun db₂ =>
      (db₂.writeCurrent p g acceptedAt).bind fun db₃ => db₃.writeTransition p g acceptedAt

end

/-- `Store::accept_sdlc_signal`: one transaction.  A duplicate delivery writes nothing. -/
def acceptSdlcSignal (db : Database) (g : Store.SdlcSignal) (acceptedAt : DateTime)
    (rollbackInjection : Bool) : Except Error (Database × SignalReceipt) :=
  match g.rejection with
  | some e => .error e
  | none =>
    match db.receipts.find? fun r => r.1 = (g.source, g.deliveryId) with
    | some receipt => .ok (db, receipt.2)
    | none =>
      let p := db.sdlcPlan g acceptedAt
      match db.sdlcWrite p g acceptedAt with
      | .error e => .error e
      | .ok db' =>
        if rollbackInjection then .error (.other "injected sdlc rollback")
        else
          let receipt := Store.sdlcReceipt p g acceptedAt
          .ok ({ db' with receipts := db'.receipts ++ [((g.source, g.deliveryId), receipt)] },
            receipt)

end Database

end Space
end RatKingdom
