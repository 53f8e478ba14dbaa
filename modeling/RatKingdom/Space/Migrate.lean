/-
Opening a database: the schema upgrade, and the two backfills of the sequence columns.

A file no daemon has numbered before gets its sequences in id order; one whose counter is
already there keeps what was assigned and numbers the rest above the counter.  The journal
is then filled with the rows it lacks.  Gaps that deleted rows left in an older journal are
cut off by the floor, below which nothing is checked.  `openStore_iff` says which files
without a trusted journal open, and `Migrated` what is true of them then.
-/
import RatKingdom.Lib.Contiguous
import RatKingdom.Space.Tables

namespace RatKingdom.Space

open Core List

namespace Database

/-- The sequences the rows of `tuples` carry. -/
def assigned (rows : List TupleRow) : List Int := rows.filterMap TupleRow.commitSequence

def sequences (events : List EventRow) : List Int := events.map EventRow.commitSequence

def upgradedTuples (db : Database) : List TupleRow :=
  if db.sequenceColumn then db.tuples
  else db.tuples.map fun r => { r with commitSequence := none }

def upgradedState (db : Database) : Option SequenceState :=
  if db.stateTable then
    if db.floorColumn then db.sequenceState
    else db.sequenceState.map fun st => { st with journalFloorSequence := 0 }
  else none

/-- `SCHEMA` and the `ALTER TABLE`s behind it. -/
def upgraded (db : Database) : Database :=
  { db with
    tuples := db.upgradedTuples, sequenceState := db.upgradedState
    sequenceColumn := true, stateTable := true, floorColumn := true }

/-- `SELECT id FROM tuples WHERE commit_sequence IS NULL ORDER BY id ASC`. -/
def missingIds (rows : List TupleRow) : List String :=
  ((rows.filter fun r => r.commitSequence.isNone).map fun r => r.columns.id).insertionSort
    fun a b => a ≤ b

/-- `UPDATE tuples SET commit_sequence = ?2 WHERE id = ?1`. -/
def stamped (id : String) (sequence : Int) (rows : List TupleRow) : List TupleRow :=
  rows.map fun r => if r.columns.id = id then { r with commitSequence := some sequence } else r

/-- The loop over the missing ids: `next` is an `i64` and must not overflow. -/
def numberMissing : List String → Int → List TupleRow → Except Error (Int × List TupleRow)
  | [], next, rows => .ok (next, rows)
  | id :: ids, next, rows =>
    if next + 1 ≤ maxInteger then numberMissing ids (next + 1) (stamped id (next + 1) rows)
    else .error (.other "tuple persistence sequence overflow")

def invalidState (st : SequenceState) (assignedMax : Int) : Bool :=
  st.lastSequence < 0 || st.legacyBackfillSequence < 0 ||
    st.legacyBackfillSequence > st.lastSequence || st.lastSequence < assignedMax

def backfillTupleSequences (db : Database) (preexisting : Bool) : Except Error Database :=
  match db.sequenceState with
  | none =>
    if preexisting then
      .error (.other "missing tuple persistence sequence state in migrated database")
    else
      (numberMissing (missingIds db.tuples) 0 db.tuples).map fun numbered =>
        { db with
          tuples := numbered.2
          sequenceState := some ⟨numbered.1, numbered.1, 0⟩ }
  | some st =>
    if invalidState st (Lib.greatest (assigned db.tuples)) then
      .error (.other "invalid tuple persistence sequence state")
    else
      (numberMissing (missingIds db.tuples) st.lastSequence db.tuples).map fun numbered =>
        { db with
          tuples := numbered.2
          sequenceState := some { st with lastSequence := numbered.1 } }

def eventOf (r : TupleRow) : Option EventRow := r.commitSequence.map fun q => ⟨q, r.columns⟩

/-- The rows `backfill_tuple_persistence_events` selects, in sequence order. -/
def unjournaled (db : Database) : List EventRow :=
  ((db.tuples.filterMap eventOf).filter fun e =>
    !db.events.any fun o => o.commitSequence = e.commitSequence).insertionSort
      fun a b => a.commitSequence ≤ b.commitSequence

def backfillTuplePersistenceEvents (db : Database) : Except Error Database :=
  if (sequences db.unjournaled).Nodup then .ok { db with events := db.events ++ db.unjournaled }
  else .error (Store.uniqueViolation "tuple_persistence_events.commit_sequence")

def noState : Error := .other "sqlite: Query returned no rows"

def journalIsFullyBackfilled (db : Database) : Except Error Bool :=
  match db.sequenceState with
  | none => .error noState
  | some st =>
    let last := st.lastSequence
    let count : Int := db.events.length
    let first := Lib.least (sequences db.events)
    let final := Lib.greatest (sequences db.events)
    .ok (if last = 0 then count = 0 && first = 0 && final = 0
      else 0 < last && count = last && first = 1 && final = last)

def suffix (db : Database) (floor : Int) : List Int :=
  (sequences db.events).filter fun q => floor < q

def suffixContiguous (db : Database) (st : SequenceState) : Bool :=
  let last := st.lastSequence
  let floor := st.journalFloorSequence
  let count : Int := (db.suffix floor).length
  let first := Lib.least (db.suffix floor)
  let final := Lib.greatest (db.suffix floor)
  if last = floor then count = 0 && first = 0 && final = 0
  else if last > floor then count = last - floor && first = floor + 1 && final = last
  else false

def validateSequenceJournal (db : Database) : Except Error Int :=
  match db.sequenceState with
  | none => .error noState
  | some st =>
    let invalidCount := (sequences db.events).countP fun q => q < 1 || q > st.lastSequence
    if st.lastSequence < 0 || st.legacyBackfillSequence < 0 ||
        st.legacyBackfillSequence > st.lastSequence || st.journalFloorSequence < 0 ||
        st.journalFloorSequence > st.lastSequence || invalidCount ≠ 0 ||
        !db.suffixContiguous st then
      .error (.other "tuple persistence sequence state disagrees with immutable journal")
    else .ok st.lastSequence

def validated (db : Database) : Except Error Database := db.validateSequenceJournal.map fun _ => db

def raisedFloor (db : Database) : Database :=
  { db with sequenceState := db.sequenceState.map fun st =>
      { st with journalFloorSequence := st.lastSequence } }

def validRfc3339Field (reader : TextReader) (payload : Value) (field : String) : Option DateTime :=
  (payload.getStr field).bind reader.rfc3339

/-- The ordering times one row of `sdlc_current_state` gets from its fact. -/
def orderedState (db : Database) (reader : TextReader) (key : String × String × String)
    (c : CurrentSdlcState) : CurrentSdlcState :=
  if key.2.1 = "deployment" && (c.currentOccurredAt.isNone || c.currentObservedAt.isNone) then
    match db.tuples.find? fun r => r.columns.id = RecordId.toText c.factTupleId with
    | none => c
    | some fact =>
      match reader.json fact.columns.payload with
      | none => c
      | some payload =>
        { c with
          currentOccurredAt := c.currentOccurredAt <|> validRfc3339Field reader payload "occurred_at"
          currentObservedAt :=
            c.currentObservedAt <|> validRfc3339Field reader payload "observed_at" }
  else c

/-- `backfill_legacy_deployment_ordering`: each row is selected and updated by its key. -/
def backfillLegacyDeploymentOrdering (db : Database) (reader : TextReader) : Database :=
  { db with current := db.current.map fun c => (c.1, db.orderedState reader c.1 c.2) }

def guarded (db : Database) : Except Error Database :=
  if (assigned db.tuples).Nodup then .ok { db with journalGuards := true, journalMarker := true }
  else .error (Store.uniqueViolation "tuples.commit_sequence")

/-- The journal a file without a trusted one is given. -/
def journaled (db : Database) (raise : Bool) : Except Error Database :=
  db.backfillTuplePersistenceEvents.bind fun filled =>
    if raise then
      filled.journalIsFullyBackfilled.bind fun fully =>
        if fully then filled.validated else filled.raisedFloor.validated
    else filled.validated

/-- `migrate`, inside its transaction. -/
def migrate (db : Database) (reader : TextReader) (preexisting trusted : Bool) :
    Except Error Database :=
  let floorExists := db.floorColumn || !db.stateTable
  (db.upgraded.backfillTupleSequences preexisting).bind fun numbered =>
    (if trusted then numbered.validated
      else numbered.journaled (preexisting && !floorExists)).bind fun checked =>
        (checked.backfillLegacyDeploymentOrdering reader).guarded

def trusted (db : Database) : Bool := db.journalGuards || db.floorColumn || db.journalMarker

/-- `Store::open`: the database it leaves, and how it ends.  A migration that fails is
rolled back. -/
def openStore (db : Database) (reader : TextReader) : Database × Except Error Unit :=
  match db.migrate reader db.sequenceColumn db.trusted with
  | .ok db' => (db', .ok ())
  | .error e => (db, .error e)

def numberedRow : List String → Int → TupleRow → TupleRow
  | [], _, r => r
  | id :: ids, next, r =>
    numberedRow ids (next + 1)
      (if r.columns.id = id then { r with commitSequence := some (next + 1) } else r)

theorem numberMissing_eq (ids : List String) (next : Int) (rows : List TupleRow) :
    numberMissing ids next rows = if ids = [] ∨ next + ids.length ≤ maxInteger then
        .ok (next + ids.length, rows.map (numberedRow ids next))
      else .error (.other "tuple persistence sequence overflow") := by
  induction ids generalizing next rows with
  | nil => simp [numberMissing, numberedRow]
  | cons id ids ih =>
    have hrows : (stamped id (next + 1) rows).map (numberedRow ids (next + 1)) =
        rows.map (numberedRow (id :: ids) next) := by
      rw [stamped, map_map]
      rfl
    have hlength : next + ((id :: ids).length : Int) = next + 1 + ids.length := by
      rw [length_cons]
      omega
    rw [numberMissing, ih, hrows, hlength]
    by_cases hroom : next + 1 ≤ maxInteger
    · rw [if_pos hroom]
      by_cases hids : ids = []
      · simp [hids, hroom]
      · simp [hids]
    · have hmore : ¬ (next + 1 + (ids.length : Int) ≤ maxInteger) := by omega
      simp [hroom, hmore]

theorem numberedRow_columns (ids : List String) (next : Int) (r : TupleRow) :
    (numberedRow ids next r).columns = r.columns := by
  induction ids generalizing next r with
  | nil => rfl
  | cons id ids ih =>
    rw [numberedRow, ih]
    split <;> rfl

variable {r : TupleRow}

theorem numberedRow_of_not_mem {ids : List String} (h : r.columns.id ∉ ids) (next : Int) :
    numberedRow ids next r = r := by
  induction ids generalizing next with
  | nil => rfl
  | cons id ids ih =>
    rw [mem_cons, not_or] at h
    rw [numberedRow, if_neg h.1, ih h.2]

/-- The row of the `i`-th missing id gets the `i`-th value above the counter. -/
theorem numberedRow_of_getElem {ids : List String} (hids : ids.Nodup) {i : Nat}
    (h : ids[i]? = some r.columns.id) (next : Int) :
    (numberedRow ids next r).commitSequence = some (next + 1 + i) := by
  induction ids generalizing next r i with
  | nil => simp at h
  | cons id ids ih =>
    obtain ⟨hid, hids⟩ := nodup_cons.mp hids
    cases i with
    | zero =>
      have heq : r.columns.id = id := by simpa using h.symm
      have hrest : numberedRow ids (next + 1) { r with commitSequence := some (next + 1) } =
          { r with commitSequence := some (next + 1) } :=
        numberedRow_of_not_mem (by rw [heq]; exact hid) _
      rw [numberedRow, if_pos heq, hrest]
      simp
    | succ i =>
      have hi : ids[i]? = some r.columns.id := by simpa using h
      have hne : r.columns.id ≠ id := by
        intro heq
        rw [← heq] at hid
        exact hid (mem_of_getElem? hi)
      rw [numberedRow, if_neg hne, ih hids hi]
      push_cast
      congr 1
      omega

variable {rows : List TupleRow}

theorem mem_missingIds {id : String} :
    id ∈ missingIds rows ↔ ∃ r ∈ rows, r.commitSequence = none ∧ r.columns.id = id := by
  rw [missingIds, mem_insertionSort]
  simp [and_assoc]

theorem missingIds_perm (rows : List TupleRow) :
    (missingIds rows).Perm
      ((rows.filter fun r => r.commitSequence.isNone).map fun r => r.columns.id) :=
  perm_insertionSort _ _

theorem missingIds_nodup (h : (rows.map fun r => r.columns.id).Nodup) : (missingIds rows).Nodup :=
  (missingIds_perm rows).nodup_iff.mpr (h.sublist (List.Sublist.map _ filter_sublist))

theorem missingIds_sorted (h : (rows.map fun r => r.columns.id).Nodup) :
    (missingIds rows).Pairwise (· < ·) := by
  have hle : (missingIds rows).Pairwise (· ≤ ·) := pairwise_insertionSort _ _
  exact ((missingIds_nodup h).and hle).imp fun hab => lt_of_le_of_ne hab.2 hab.1

/-- With distinct ids, a row is numbered once: a row that had its sequence keeps it, and
the others share out the values above the counter. -/
theorem numberedRow_cases (hids : (rows.map fun r => r.columns.id).Nodup) (hr : r ∈ rows)
    (next : Int) :
    (r.commitSequence.isSome ∧ numberedRow (missingIds rows) next r = r) ∨
      ∃ i : Nat, r.commitSequence = none ∧ (missingIds rows)[i]? = some r.columns.id ∧
        (numberedRow (missingIds rows) next r).commitSequence = some (next + 1 + i) := by
  cases hseq : r.commitSequence with
  | some q =>
    refine .inl ⟨rfl, numberedRow_of_not_mem ?_ _⟩
    intro hm
    obtain ⟨r', hr', hn, hid⟩ := mem_missingIds.mp hm
    have heq : r' = r := inj_on_of_nodup_map hids hr' hr hid
    rw [heq, hseq] at hn
    cases hn
  | none =>
    have hm : r.columns.id ∈ missingIds rows := mem_missingIds.mpr ⟨r, hr, hseq, rfl⟩
    obtain ⟨i, hi⟩ := mem_iff_getElem?.mp hm
    exact .inr ⟨i, rfl, hi, numberedRow_of_getElem (missingIds_nodup hids) hi next⟩

def numberedRows (rows : List TupleRow) (last : Int) : List TupleRow :=
  rows.map (numberedRow (missingIds rows) last)

variable {last : Int}

theorem mem_numberedRows {r' : TupleRow} :
    r' ∈ numberedRows rows last ↔ ∃ r ∈ rows, numberedRow (missingIds rows) last r = r' := by
  rw [numberedRows, mem_map]

section
variable (hids : (rows.map fun r => r.columns.id).Nodup)
include hids

theorem mem_assigned_numberedRows (last q : Int) : q ∈ assigned (numberedRows rows last) ↔
      q ∈ assigned rows ∨ last < q ∧ q ≤ last + (missingIds rows).length := by
  simp only [assigned, mem_filterMap, mem_numberedRows]
  constructor
  · intro h
    obtain ⟨r', ⟨r, hr, rfl⟩, hq⟩ := h
    rcases numberedRow_cases hids hr last with ⟨-, hsame⟩ | ⟨i, -, hi, hnew⟩
    · rw [hsame] at hq
      exact .inl ⟨r, hr, hq⟩
    · rw [hnew, Option.some.injEq] at hq
      obtain ⟨hlt, -⟩ := List.getElem?_eq_some_iff.mp hi
      right
      omega
  · intro h
    rcases h with ⟨r, hr, hq⟩ | ⟨hlow, hhigh⟩
    · refine ⟨_, ⟨r, hr, rfl⟩, ?_⟩
      rcases numberedRow_cases hids hr last with ⟨-, hsame⟩ | ⟨i, hn, -⟩
      · rw [hsame, hq]
      · rw [hn] at hq
        cases hq
    · have hlt : (q - last - 1).toNat < (missingIds rows).length := by omega
      obtain ⟨r, hr, hn, hid⟩ := mem_missingIds.mp (getElem_mem hlt)
      have hi : (missingIds rows)[(q - last - 1).toNat]? = some r.columns.id := by
        rw [getElem?_eq_getElem hlt, hid]
      refine ⟨_, ⟨r, hr, rfl⟩, ?_⟩
      rw [numberedRow_of_getElem (missingIds_nodup hids) hi]
      congr 1
      omega

theorem numberedRows_assigned {r' : TupleRow} (h : r' ∈ numberedRows rows last) :
    r'.commitSequence.isSome := by
  obtain ⟨r, hr, rfl⟩ := mem_numberedRows.mp h
  rcases numberedRow_cases hids hr last with ⟨hsome, hsame⟩ | ⟨i, -, -, hnew⟩
  · rw [hsame]
    exact hsome
  · rw [hnew]
    rfl

theorem nodup_assigned_numberedRows (hdistinct : (assigned rows).Nodup)
    (hle : ∀ q ∈ assigned rows, q ≤ last) : (assigned (numberedRows rows last)).Nodup := by
  have hrows := (pairwise_map.mp hids).and (pairwise_filterMap.mp hdistinct)
  refine pairwise_filterMap.mpr (pairwise_map.mpr (hrows.imp_of_mem ?_))
  intro a b ha hb hab q hq q' hq' heq
  subst heq
  have hin : ∀ r ∈ rows, ∀ x, r.commitSequence = some x → x ≤ last := fun r hr x hx =>
    hle x (mem_filterMap.mpr ⟨r, hr, hx⟩)
  rcases numberedRow_cases hids ha last with ⟨-, hsame⟩ | ⟨i, -, hi, hnew⟩
  · rw [hsame] at hq
    rcases numberedRow_cases hids hb last with ⟨-, hsame'⟩ | ⟨j, -, -, hnew'⟩
    · rw [hsame'] at hq'
      exact hab.2 q hq q hq' rfl
    · rw [hnew', Option.some.injEq] at hq'
      have := hin a ha q hq
      omega
  · rw [hnew, Option.some.injEq] at hq
    rcases numberedRow_cases hids hb last with ⟨-, hsame'⟩ | ⟨j, -, hj, hnew'⟩
    · rw [hsame'] at hq'
      have := hin b hb q hq'
      omega
    · rw [hnew', Option.some.injEq] at hq'
      have hij : i = j := by omega
      rw [hij, hj, Option.some.injEq] at hi
      exact hab.1 hi.symm

theorem nodup_assigned_of_numberedRows (h : (assigned (numberedRows rows last)).Nodup) :
    (assigned rows).Nodup := by
  refine pairwise_filterMap.mpr ((pairwise_map.mp (pairwise_filterMap.mp h)).imp_of_mem ?_)
  intro a b ha hb hab q hq q' hq'
  rcases numberedRow_cases hids ha last with ⟨-, hsame⟩ | ⟨i, hn, -⟩
  · rcases numberedRow_cases hids hb last with ⟨-, hsame'⟩ | ⟨j, hnone', -⟩
    · rw [hsame, hsame'] at hab
      exact hab q hq q' hq'
    · rw [hnone'] at hq'
      cases hq'
  · rw [hn] at hq
    cases hq

end

/-- The sequence state agrees with the sequences of the journal: all of them lie between 1
and the counter, and none above the floor is missing. -/
structure Agrees (st : SequenceState) (qs : List Int) : Prop where
  legacy : 0 ≤ st.legacyBackfillSequence ∧ st.legacyBackfillSequence ≤ st.lastSequence
  floor : 0 ≤ st.journalFloorSequence ∧ st.journalFloorSequence ≤ st.lastSequence
  within : ∀ q ∈ qs, 1 ≤ q ∧ q ≤ st.lastSequence
  complete : ∀ q, st.journalFloorSequence < q → q ≤ st.lastSequence → q ∈ qs

variable {db : Database} {st : SequenceState}

theorem suffixContiguous_iff (hnodup : (sequences db.events).Nodup)
    (hfloor : st.journalFloorSequence ≤ st.lastSequence)
    (hwithin : ∀ q ∈ sequences db.events, q ≤ st.lastSequence) :
    db.suffixContiguous st = true ↔
      ∀ q, st.journalFloorSequence < q → q ≤ st.lastSequence → q ∈ sequences db.events := by
  have hsuffix : ∀ q, q ∈ db.suffix st.journalFloorSequence ↔
      q ∈ sequences db.events ∧ st.journalFloorSequence < q := by
    intro q
    rw [suffix, mem_filter, decide_eq_true_eq]
  have hrun : Lib.Contiguous (db.suffix st.journalFloorSequence) st.journalFloorSequence
      st.lastSequence ↔
        ∀ q, st.journalFloorSequence < q → q ≤ st.lastSequence → q ∈ sequences db.events := by
    constructor
    · intro h q hlow hhigh
      exact ((hsuffix q).mp ((h q).mpr ⟨hlow, hhigh⟩)).1
    · intro h q
      rw [hsuffix]
      exact ⟨fun hq => ⟨hq.2, hwithin q hq.1⟩, fun hq => ⟨h q hq.1 hq.2, hq.1⟩⟩
  have hnodup' : (db.suffix st.journalFloorSequence).Nodup := hnodup.filter _
  rw [← hrun]
  by_cases heq : st.lastSequence = st.journalFloorSequence
  · rw [heq, Lib.contiguous_self]
    simp only [suffixContiguous, heq, if_pos]
    constructor
    · intro h
      simp only [Bool.and_eq_true, decide_eq_true_eq] at h
      exact length_eq_zero_iff.mp (by omega)
    · intro h
      simp [h, Lib.least, Lib.greatest]
  · have hlt : st.journalFloorSequence < st.lastSequence := by omega
    rw [Lib.contiguous_iff_aggregates hnodup' hlt]
    simp [suffixContiguous, heq, hlt, and_assoc]

theorem validateSequenceJournal_iff (hst : db.sequenceState = some st)
    (hnodup : (sequences db.events).Nodup) (n : Int) :
    db.validateSequenceJournal = .ok n ↔ n = st.lastSequence ∧ Agrees st (sequences db.events) := by
  have hcount : ((sequences db.events).countP fun q => decide (q < 1) || decide (q > st.lastSequence))
      = 0 ↔ ∀ q ∈ sequences db.events, 1 ≤ q ∧ q ≤ st.lastSequence := by
    simp [countP_eq_zero]
  simp only [validateSequenceJournal, hst]
  split
  · rename_i hbad
    constructor
    · nofun
    · intro h
      have hagrees := h.2
      have hlegacy := hagrees.legacy
      have hfloor := hagrees.floor
      have hcontiguous := (suffixContiguous_iff hnodup hfloor.2
        fun q hq => (hagrees.within q hq).2).mpr hagrees.complete
      have hzero := hcount.mpr hagrees.within
      simp only [hcontiguous, hzero, Bool.or_eq_true, decide_eq_true_eq, Bool.not_true, ne_eq,
        not_true_eq_false, decide_false, Bool.or_false] at hbad
      omega
  · rename_i hgood
    simp only [Bool.or_eq_true, decide_eq_true_eq, not_or, Bool.not_eq_true', Bool.not_eq_false,
      ne_eq, not_not] at hgood
    obtain ⟨⟨⟨⟨⟨⟨hl, hlegacy⟩, hlegacy'⟩, hfloor⟩, hfloor'⟩, hzero⟩, hcontiguous⟩ := hgood
    have hwithin := hcount.mp hzero
    have hcomplete := (suffixContiguous_iff hnodup (by omega)
      fun q hq => (hwithin q hq).2).mp hcontiguous
    constructor
    · intro h
      cases h
      exact ⟨rfl, ⟨by omega, by omega⟩, ⟨by omega, by omega⟩, hwithin, hcomplete⟩
    · intro h
      rw [h.1]

theorem journalIsFullyBackfilled_iff (hst : db.sequenceState = some st)
    (hnodup : (sequences db.events).Nodup) (hl : 0 ≤ st.lastSequence) :
    db.journalIsFullyBackfilled = .ok true ↔
      Lib.Contiguous (sequences db.events) 0 st.lastSequence := by
  have hlength : db.events.length = (sequences db.events).length := by
    rw [sequences, length_map]
  simp only [journalIsFullyBackfilled, hst, Except.ok.injEq]
  by_cases hzero : st.lastSequence = 0
  · rw [hzero, Lib.contiguous_self, hlength]
    constructor
    · intro h
      simp only [if_pos, Bool.and_eq_true, decide_eq_true_eq] at h
      exact length_eq_zero_iff.mp (by omega)
    · intro h
      simp [h, Lib.least, Lib.greatest]
  · have hpos : 0 < st.lastSequence := by omega
    rw [Lib.contiguous_iff_aggregates hnodup hpos, hlength]
    simp [hzero, hpos, and_assoc]

theorem mem_unjournaled {e : EventRow} :
    e ∈ db.unjournaled ↔
      (∃ r ∈ db.tuples, r.commitSequence = some e.commitSequence ∧ r.columns = e.columns) ∧
        e.commitSequence ∉ sequences db.events := by
  have hrow : ∀ r : TupleRow, eventOf r = some e ↔
      r.commitSequence = some e.commitSequence ∧ r.columns = e.columns := by
    intro r
    obtain ⟨sequence, cols⟩ := e
    simp [eventOf]
  rw [unjournaled, mem_insertionSort, mem_filter, mem_filterMap]
  simp [hrow, sequences]

theorem sequences_eventOf (rows : List TupleRow) :
    sequences (rows.filterMap eventOf) = assigned rows := by
  rw [sequences, map_filterMap, assigned]
  congr 1
  funext r
  cases r with
  | mk sequence cols => cases sequence <;> rfl

theorem nodup_unjournaled (h : (assigned db.tuples).Nodup) : (sequences db.unjournaled).Nodup := by
  have hperm := (perm_insertionSort (fun a b : EventRow => a.commitSequence ≤ b.commitSequence)
    ((db.tuples.filterMap eventOf).filter fun e =>
      !db.events.any fun o => o.commitSequence = e.commitSequence)).map EventRow.commitSequence
  refine hperm.nodup_iff.mpr (List.Nodup.sublist (List.Sublist.map _ filter_sublist) ?_)
  rw [← sequences_eventOf] at h
  exact h

def filled (db : Database) : Database := { db with events := db.events ++ db.unjournaled }

theorem backfillTuplePersistenceEvents_eq (h : (assigned db.tuples).Nodup) :
    db.backfillTuplePersistenceEvents = .ok db.filled :=
  if_pos (nodup_unjournaled h)

theorem mem_sequences_filled (q : Int) :
    q ∈ sequences db.filled.events ↔ q ∈ sequences db.events ∨ q ∈ assigned db.tuples := by
  have hnew : q ∈ sequences db.unjournaled ↔ q ∈ assigned db.tuples ∧ q ∉ sequences db.events := by
    constructor
    · intro h
      obtain ⟨e, he, rfl⟩ := mem_map.mp h
      obtain ⟨⟨r, hr, hq, -⟩, hnot⟩ := mem_unjournaled.mp he
      exact ⟨mem_filterMap.mpr ⟨r, hr, hq⟩, hnot⟩
    · intro h
      obtain ⟨r, hr, hq⟩ := mem_filterMap.mp h.1
      exact mem_map.mpr ⟨⟨q, r.columns⟩, mem_unjournaled.mpr ⟨⟨r, hr, hq, rfl⟩, h.2⟩, rfl⟩
  have happend : sequences db.filled.events = sequences db.events ++ sequences db.unjournaled := by
    simp [sequences, filled]
  rw [happend, mem_append, hnew]
  tauto

theorem nodup_sequences_filled (hevents : (sequences db.events).Nodup)
    (h : (assigned db.tuples).Nodup) : (sequences db.filled.events).Nodup := by
  have happend : sequences db.filled.events = sequences db.events ++ sequences db.unjournaled := by
    simp [sequences, filled]
  rw [happend, nodup_append]
  refine ⟨hevents, nodup_unjournaled h, fun q hq q' hq' heq => ?_⟩
  obtain ⟨e, he, rfl⟩ := mem_map.mp hq'
  rw [heq] at hq
  exact (mem_unjournaled.mp he).2 hq

theorem filled_journals (hr : r ∈ db.tuples) {q : Int} (hq : r.commitSequence = some q) :
    ∃ e ∈ db.filled.events, e.commitSequence = q ∧ (e ∈ db.events ∨ e.columns = r.columns) := by
  by_cases h : q ∈ sequences db.events
  · obtain ⟨e, he, heq⟩ := mem_map.mp h
    exact ⟨e, mem_append_left _ he, heq, .inl he⟩
  · refine ⟨⟨q, r.columns⟩, mem_append_right _ ?_, rfl, .inr rfl⟩
    exact mem_unjournaled.mpr ⟨⟨r, hr, hq, rfl⟩, h⟩

theorem validated_iff (hst : db.sequenceState = some st) (hnodup : (sequences db.events).Nodup)
    (d : Database) :
    db.validated = .ok d ↔ d = db ∧ Agrees st (sequences db.events) := by
  rw [validated]
  cases hv : db.validateSequenceJournal with
  | error e =>
    constructor
    · nofun
    · intro h
      have hok := (validateSequenceJournal_iff hst hnodup st.lastSequence).mpr ⟨rfl, h.2⟩
      rw [hok] at hv
      cases hv
  | ok n =>
    have hagrees := ((validateSequenceJournal_iff hst hnodup n).mp hv).2
    constructor
    · intro h
      cases h
      exact ⟨rfl, hagrees⟩
    · intro h
      rw [h.1]
      rfl

def withFloor (db : Database) (st : SequenceState) (floor : Int) : Database :=
  { db with sequenceState := some { st with journalFloorSequence := floor } }

/-- The floor an untrusted journal gets: 0, or the counter when it may be raised and rows
are missing below it. -/
def Floors (st : SequenceState) (qs : List Int) (raise : Bool) (floor : Int) : Prop :=
  ((raise = false ∨ Lib.Contiguous qs 0 st.lastSequence) ∧ floor = 0) ∨
    (raise = true ∧ ¬ Lib.Contiguous qs 0 st.lastSequence) ∧ floor = st.lastSequence

theorem journaled_iff (hst : db.sequenceState = some st) (hfloor : st.journalFloorSequence = 0)
    (hl : 0 ≤ st.lastSequence) (hevents : (sequences db.events).Nodup)
    (hassigned : (assigned db.tuples).Nodup) (raise : Bool) (d : Database) :
    db.journaled raise = .ok d ↔ ∃ floor, Floors st (sequences db.filled.events) raise floor ∧
        d = db.filled.withFloor st floor ∧
          Agrees { st with journalFloorSequence := floor } (sequences db.filled.events) := by
  have hnodup := nodup_sequences_filled hevents hassigned
  have hfilled : db.filled.sequenceState = some st := hst
  have hzero : { st with journalFloorSequence := 0 } = st := by rw [← hfloor]
  have hkeep : db.filled.withFloor st 0 = db.filled := by
    rw [withFloor, hzero, ← hfilled]
  have hraised : db.filled.raisedFloor = db.filled.withFloor st st.lastSequence := by
    rw [raisedFloor, withFloor, hfilled]
    rfl
  have hlow := validated_iff hfilled hnodup d
  have hhigh := @validated_iff (db.filled.withFloor st st.lastSequence) _ rfl hnodup d
  rw [journaled, backfillTuplePersistenceEvents_eq hassigned]
  show (if raise = true then _ else db.filled.validated) = .ok d ↔ _
  by_cases hraise : raise = true
  · rw [if_pos hraise]
    have hfully := journalIsFullyBackfilled_iff hfilled hnodup hl
    by_cases hrun : Lib.Contiguous (sequences db.filled.events) 0 st.lastSequence
    · rw [hfully.mpr hrun]
      show db.filled.validated = .ok d ↔ _
      rw [hlow]
      constructor
      · intro h
        refine ⟨0, .inl ⟨.inr hrun, rfl⟩, ?_, ?_⟩
        · rw [hkeep]
          exact h.1
        · rw [hzero]
          exact h.2
      · intro h
        obtain ⟨floor, hchosen, hd, hagrees⟩ := h
        rcases hchosen with ⟨-, rfl⟩ | ⟨⟨-, hnot⟩, -⟩
        · rw [hkeep] at hd
          rw [hzero] at hagrees
          exact ⟨hd, hagrees⟩
        · exact (hnot hrun).elim
    · have hfalse : db.filled.journalIsFullyBackfilled = .ok false := by
        cases hj : db.filled.journalIsFullyBackfilled with
        | error e =>
          simp only [journalIsFullyBackfilled, hfilled] at hj
          cases hj
        | ok b =>
          cases b with
          | false => rfl
          | true => exact (hrun (hfully.mp hj)).elim
      rw [hfalse]
      show db.filled.raisedFloor.validated = .ok d ↔ _
      rw [hraised, hhigh]
      constructor
      · intro h
        exact ⟨st.lastSequence, .inr ⟨⟨hraise, hrun⟩, rfl⟩, h.1, h.2⟩
      · intro h
        obtain ⟨floor, hchosen, hd, hagrees⟩ := h
        rcases hchosen with ⟨hwhy, -⟩ | ⟨-, rfl⟩
        · rcases hwhy with hno | hrun'
          · rw [hraise] at hno
            cases hno
          · exact (hrun hrun').elim
        · exact ⟨hd, hagrees⟩
  · rw [if_neg hraise, hlow]
    have hno : raise = false := by simpa using hraise
    constructor
    · intro h
      refine ⟨0, .inl ⟨.inl hno, rfl⟩, ?_, ?_⟩
      · rw [hkeep]
        exact h.1
      · rw [hzero]
        exact h.2
    · intro h
      obtain ⟨floor, hchosen, hd, hagrees⟩ := h
      rcases hchosen with ⟨-, rfl⟩ | ⟨⟨hyes, -⟩, -⟩
      · rw [hkeep] at hd
        rw [hzero] at hagrees
        exact ⟨hd, hagrees⟩
      · exact (hraise hyes).elim

/-- An untrusted journal passes when its sequences lie between 1 and the counter, and none
is missing where the floor may not be raised. -/
theorem journaled_ok_iff {db : Database} {st : SequenceState} (hst : db.sequenceState = some st)
    (hfloor : st.journalFloorSequence = 0) (hl : 0 ≤ st.lastSequence)
    (hlegacy : 0 ≤ st.legacyBackfillSequence ∧ st.legacyBackfillSequence ≤ st.lastSequence)
    (hevents : (sequences db.events).Nodup) (hassigned : (assigned db.tuples).Nodup)
    (raise : Bool) :
    (∃ d, db.journaled raise = .ok d) ↔
      (∀ q ∈ sequences db.filled.events, 1 ≤ q ∧ q ≤ st.lastSequence) ∧
        (raise = false → ∀ q, 1 ≤ q → q ≤ st.lastSequence → q ∈ sequences db.filled.events) := by
  simp only [journaled_iff hst hfloor hl hevents hassigned]
  constructor
  · intro h
    obtain ⟨d, floor, hchosen, -, hagrees⟩ := h
    refine ⟨hagrees.within, fun hno q hlow hhigh => ?_⟩
    rcases hchosen with ⟨-, rfl⟩ | ⟨⟨hyes, -⟩, -⟩
    · exact hagrees.complete q (by show (0 : Int) < q; omega) hhigh
    · rw [hno] at hyes
      cases hyes
  · intro h
    obtain ⟨hwithin, hcomplete⟩ := h
    by_cases hrun : Lib.Contiguous (sequences db.filled.events) 0 st.lastSequence
    · refine ⟨_, 0, .inl ⟨.inr hrun, rfl⟩, rfl, hlegacy, ⟨le_refl _, hl⟩, hwithin, ?_⟩
      intro q hlow hhigh
      exact (hrun q).mpr ⟨hlow, hhigh⟩
    · cases hraise : raise with
      | true =>
        refine ⟨_, st.lastSequence, .inr ⟨⟨rfl, hrun⟩, rfl⟩, rfl, hlegacy,
          ⟨hl, le_refl _⟩, hwithin, fun q hlow hhigh => ?_⟩
        exact (not_le.mpr hlow hhigh).elim
      | false =>
        refine (hrun fun q => ⟨fun hq => ?_, fun hq => ?_⟩).elim
        · have := hwithin q hq
          omega
        · exact hcomplete hraise q (by omega) hq.2

def startSequence (db : Database) : Int :=
  match db.upgradedState with
  | none => 0
  | some st => st.lastSequence

def endSequence (db : Database) : Int := db.startSequence + (missingIds db.upgradedTuples).length

def numberedState (db : Database) : SequenceState :=
  match db.upgradedState with
  | none => ⟨db.endSequence, db.endSequence, 0⟩
  | some st => { st with lastSequence := db.endSequence }

def numbered (db : Database) : Database :=
  { db.upgraded with
    tuples := numberedRows db.upgradedTuples db.startSequence
    sequenceState := some db.numberedState }

structure Numberable (db : Database) : Prop where
  state : db.sequenceColumn = true → db.upgradedState.isSome
  bounds : ∀ st, db.upgradedState = some st → 0 ≤ st.lastSequence ∧
    0 ≤ st.legacyBackfillSequence ∧ st.legacyBackfillSequence ≤ st.lastSequence
  counted : ∀ q ∈ assigned db.upgradedTuples, q ≤ db.startSequence
  room : missingIds db.upgradedTuples = [] ∨ db.endSequence ≤ maxInteger

theorem assigned_of_no_column (h : db.sequenceColumn = false) :
    assigned db.upgradedTuples = [] := by
  rw [assigned, upgradedTuples, h, filterMap_eq_nil_iff]
  intro r hr
  obtain ⟨r₀, -, rfl⟩ := mem_map.mp hr
  rfl

theorem upgradedTuples_ids (db : Database) :
    (db.upgradedTuples.map fun r => r.columns.id) = db.tuples.map fun r => r.columns.id := by
  rw [upgradedTuples]
  split
  · rfl
  · rw [map_map]
    rfl

theorem backfillTupleSequences_iff (d : Database) :
    db.upgraded.backfillTupleSequences db.sequenceColumn = .ok d ↔
      db.Numberable ∧ d = db.numbered := by
  have hstate : db.upgraded.sequenceState = db.upgradedState := rfl
  have htuples : db.upgraded.tuples = db.upgradedTuples := rfl
  cases hst : db.upgradedState with
  | none =>
    have hstart : db.startSequence = 0 := by rw [startSequence, hst]
    have hcounted : db.sequenceColumn = false → ∀ q ∈ assigned db.upgradedTuples,
        q ≤ db.startSequence := by
      intro h q hq
      rw [assigned_of_no_column h] at hq
      exact (not_mem_nil hq).elim
    have hend : (0 : Int) + (missingIds db.upgradedTuples).length = db.endSequence := by
      rw [endSequence, hstart]
    rw [backfillTupleSequences, hstate, hst, htuples]
    cases hcolumn : db.sequenceColumn with
    | true =>
      constructor
      · nofun
      · intro h
        have hsome := h.1.state hcolumn
        rw [hst] at hsome
        cases hsome
    | false =>
      rw [if_neg (by decide), numberMissing_eq, hend]
      have hnumbered : db.numbered = { db.upgraded with
          tuples := db.upgradedTuples.map (numberedRow (missingIds db.upgradedTuples) 0)
          sequenceState := some ⟨db.endSequence, db.endSequence, 0⟩ } := by
        rw [numbered, numberedState, hst, numberedRows, hstart]
      by_cases hroom : missingIds db.upgradedTuples = [] ∨ db.endSequence ≤ maxInteger
      · rw [if_pos hroom, hnumbered]
        constructor
        · intro h
          cases h
          refine ⟨⟨fun h => ?_, fun st h => ?_, hcounted hcolumn, hroom⟩, rfl⟩
          · rw [hcolumn] at h
            cases h
          · rw [hst] at h
            cases h
        · intro h
          rw [h.2]
          rfl
      · rw [if_neg hroom]
        constructor
        · nofun
        · intro h
          exact (hroom h.1.room).elim
  | some st =>
    have hstart : db.startSequence = st.lastSequence := by rw [startSequence, hst]
    have hend : st.lastSequence + (missingIds db.upgradedTuples).length = db.endSequence := by
      rw [endSequence, hstart]
    have hinvalid : invalidState st (Lib.greatest (assigned db.upgradedTuples)) = false ↔
        (0 ≤ st.lastSequence ∧ 0 ≤ st.legacyBackfillSequence ∧
          st.legacyBackfillSequence ≤ st.lastSequence) ∧
            ∀ q ∈ assigned db.upgradedTuples, q ≤ st.lastSequence := by
      constructor
      · intro h
        simp only [invalidState, Bool.or_eq_false_iff, decide_eq_false_iff_not] at h
        refine ⟨⟨by omega, by omega, by omega⟩, ?_⟩
        exact (Lib.greatest_le_iff (by omega)).mp (by omega)
      · intro h
        have := (Lib.greatest_le_iff h.1.1).mpr h.2
        simp only [invalidState, Bool.or_eq_false_iff, decide_eq_false_iff_not]
        omega
    have hnumbered : db.numbered = { db.upgraded with
        tuples := db.upgradedTuples.map (numberedRow (missingIds db.upgradedTuples) st.lastSequence)
        sequenceState := some { st with lastSequence := db.endSequence } } := by
      rw [numbered, numberedState, hst, numberedRows, hstart]
    rw [backfillTupleSequences, hstate, hst, htuples]
    dsimp only
    cases hbad : invalidState st (Lib.greatest (assigned db.upgradedTuples)) with
    | true =>
      constructor
      · nofun
      · intro h
        have hgood := hinvalid.mpr ⟨h.1.bounds st hst, by rw [← hstart]; exact h.1.counted⟩
        rw [hbad] at hgood
        cases hgood
    | false =>
      obtain ⟨hbounds, hcounted⟩ := hinvalid.mp hbad
      rw [if_neg (by decide), numberMissing_eq, hend, hnumbered]
      by_cases hroom : missingIds db.upgradedTuples = [] ∨ db.endSequence ≤ maxInteger
      · rw [if_pos hroom]
        constructor
        · intro h
          cases h
          refine ⟨⟨fun _ => by rw [hst]; rfl, fun st' h => ?_, ?_, hroom⟩, rfl⟩
          · rw [hst] at h
            cases h
            exact hbounds
          · rw [hstart]
            exact hcounted
        · intro h
          rw [h.2]
          rfl
      · rw [if_neg hroom]
        constructor
        · nofun
        · intro h
          exact (hroom h.1.room).elim

theorem mem_assigned_numbered (hids : (db.tuples.map fun r => r.columns.id).Nodup) (q : Int) :
    q ∈ assigned db.numbered.tuples ↔
      q ∈ assigned db.upgradedTuples ∨ db.startSequence < q ∧ q ≤ db.endSequence :=
  mem_assigned_numberedRows (by rw [upgradedTuples_ids]; exact hids) db.startSequence q

theorem guarded_iff (d : Database) :
    db.guarded = .ok d ↔
      (assigned db.tuples).Nodup ∧ d = { db with journalGuards := true, journalMarker := true } := by
  rw [guarded]
  split
  · rename_i h
    constructor
    · intro hd
      cases hd
      exact ⟨h, rfl⟩
    · intro hd
      rw [hd.2]
  · rename_i h
    constructor
    · nofun
    · intro hd
      exact (h hd.1).elim

theorem validated_eq {d : Database} (h : db.validated = .ok d) : d = db := by
  rw [validated] at h
  cases hv : db.validateSequenceJournal with
  | error e =>
    rw [hv] at h
    cases h
  | ok n =>
    rw [hv] at h
    cases h
    rfl

theorem journaled_tuples {d : Database} {raise : Bool} (h : db.journaled raise = .ok d) :
    d.tuples = db.tuples := by
  rw [journaled] at h
  cases hb : db.backfillTuplePersistenceEvents with
  | error e =>
    rw [hb] at h
    cases h
  | ok filled =>
    have hfilled : filled.tuples = db.tuples := by
      rw [backfillTuplePersistenceEvents] at hb
      split at hb
      · cases hb
        rfl
      · cases hb
    rw [hb] at h
    change (if raise = true then _ else filled.validated) = .ok d at h
    split at h
    · cases hf : filled.journalIsFullyBackfilled with
      | error e =>
        rw [hf] at h
        cases h
      | ok fully =>
        rw [hf] at h
        change (if fully = true then filled.validated else filled.raisedFloor.validated) = _ at h
        split at h
        · rw [validated_eq h, hfilled]
        · rw [validated_eq h]
          exact hfilled
    · rw [validated_eq h, hfilled]

theorem orElse_orElse {α : Type} (a b : Option α) : ((a <|> b) <|> b) = (a <|> b) := by
  cases a <;> cases b <;> rfl

theorem orderedState_idem (db : Database) (reader : TextReader) (key : String × String × String)
    (c : CurrentSdlcState) :
    db.orderedState reader key (db.orderedState reader key c) = db.orderedState reader key c := by
  by_cases h : (key.2.1 = "deployment" &&
      (c.currentOccurredAt.isNone || c.currentObservedAt.isNone)) = true
  · cases hfact : db.tuples.find? fun r => r.columns.id = RecordId.toText c.factTupleId with
    | none =>
      have heq : db.orderedState reader key c = c := by simp only [orderedState, h, if_true, hfact]
      rw [heq, heq]
    | some fact =>
      cases hjson : reader.json fact.columns.payload with
      | none =>
        have heq : db.orderedState reader key c = c := by
          simp only [orderedState, h, if_true, hfact, hjson]
        rw [heq, heq]
      | some payload =>
        have heq : db.orderedState reader key c = { c with
              currentOccurredAt :=
                c.currentOccurredAt <|> validRfc3339Field reader payload "occurred_at"
              currentObservedAt :=
                c.currentObservedAt <|> validRfc3339Field reader payload "observed_at" } := by
          simp only [orderedState, h, if_true, hfact, hjson]
        rw [heq, orderedState]
        split
        · simp only [hfact, hjson, orElse_orElse]
        · rfl
  · have heq : db.orderedState reader key c = c := if_neg h
    rw [heq, heq]

theorem backfillLegacyDeploymentOrdering_idem (db : Database) (reader : TextReader) :
    (db.backfillLegacyDeploymentOrdering reader).backfillLegacyDeploymentOrdering reader =
      db.backfillLegacyDeploymentOrdering reader := by
  have hstate : ∀ key c, (db.backfillLegacyDeploymentOrdering reader).orderedState reader key c =
      db.orderedState reader key c := fun _ _ => rfl
  simp only [backfillLegacyDeploymentOrdering, map_map]
  congr 1
  refine map_congr_left fun c _ => ?_
  show (c.1, (db.backfillLegacyDeploymentOrdering reader).orderedState reader c.1
    (db.orderedState reader c.1 c.2)) = (c.1, db.orderedState reader c.1 c.2)
  rw [hstate, orderedState_idem]

/-- A database the store works on: everything installed, every row numbered and journaled,
and the counter in agreement with the journal. -/
structure Settled (db : Database) (st : SequenceState) : Prop where
  installed : db.sequenceColumn = true ∧ db.stateTable = true ∧ db.floorColumn = true ∧
    db.journalGuards = true ∧ db.journalMarker = true
  ids : (db.tuples.map fun r => r.columns.id).Nodup
  events : (sequences db.events).Nodup
  state : db.sequenceState = some st
  agrees : Agrees st (sequences db.events)
  numbered : ∀ r ∈ db.tuples, r.commitSequence.isSome
  distinct : (assigned db.tuples).Nodup
  journaled : ∀ q ∈ assigned db.tuples, q ∈ sequences db.events

theorem openStore_settled (h : db.Settled st) (reader : TextReader) :
    db.openStore reader = (db.backfillLegacyDeploymentOrdering reader, .ok ()) := by
  obtain ⟨hcolumn, htable, hfloor, hguards, hmarker⟩ := h.installed
  have htrusted : db.trusted = true := by rw [trusted, hguards]; rfl
  have htuples : db.upgradedTuples = db.tuples := by rw [upgradedTuples, if_pos hcolumn]
  have hstate : db.upgradedState = some st := by
    rw [upgradedState, if_pos htable, if_pos hfloor, h.state]
  have hmissing : missingIds db.upgradedTuples = [] := by
    rw [htuples, eq_nil_iff_forall_not_mem]
    intro id hid
    obtain ⟨r, hr, hn, -⟩ := mem_missingIds.mp hid
    have hsome := h.numbered r hr
    rw [hn] at hsome
    cases hsome
  have hend : db.endSequence = st.lastSequence := by
    simp [endSequence, startSequence, hstate, hmissing]
  have hl : 0 ≤ st.lastSequence := le_trans h.agrees.legacy.1 h.agrees.legacy.2
  have hready : db.Numberable := by
    refine ⟨fun _ => by rw [hstate]; rfl, fun st' hst' => ?_, fun q hq => ?_, .inl hmissing⟩
    · rw [hstate] at hst'
      cases hst'
      exact ⟨hl, h.agrees.legacy⟩
    · rw [htuples] at hq
      rw [startSequence, hstate]
      exact (h.agrees.within q (h.journaled q hq)).2
  have hsame : db.numbered = db := by
    have hrows : numberedRows db.upgradedTuples db.startSequence = db.tuples := by
      rw [numberedRows, hmissing, htuples]
      exact map_id _
    have hst : some db.numberedState = db.sequenceState := by
      rw [numberedState, hstate, hend, h.state]
    rw [numbered, hrows, hst, upgraded]
    cases db with
    | mk tuples sequenceState events sequenceColumn stateTable floorColumn guards marker
        coordinator receipts current transitions =>
      dsimp only at hcolumn htable hfloor
      rw [hcolumn, htable, hfloor]
  have hvalid := (validated_iff h.state h.events db).mpr ⟨rfl, h.agrees⟩
  have hguarded : (db.backfillLegacyDeploymentOrdering reader).guarded =
      .ok (db.backfillLegacyDeploymentOrdering reader) := by
    refine (guarded_iff _).mpr ⟨h.distinct, ?_⟩
    simp only [backfillLegacyDeploymentOrdering, hguards, hmarker]
  rw [openStore, htrusted, migrate, (backfillTupleSequences_iff db).mpr ⟨hready, hsame.symm⟩]
  show (match (db.validated.bind fun checked =>
      (checked.backfillLegacyDeploymentOrdering reader).guarded) with
    | .ok db' => (db', Except.ok ())
    | .error e => (db, Except.error e)) = _
  rw [hvalid]
  show (match (db.backfillLegacyDeploymentOrdering reader).guarded with
    | .ok db' => (db', Except.ok ())
    | .error e => (db, Except.error e)) = _
  rw [hguarded]

/-- A file the migration can take over, read from the columns it has: the counter is there
when the column is, bounds what was assigned, and leaves room for the rest; the assigned
sequences are positive and distinct; and the rows of a journal nobody vouched for lie
between 1 and the new counter, none missing below the counter of a file that has no
column. -/
structure Migratable (db : Database) : Prop where
  state : db.sequenceColumn = true → db.upgradedState.isSome
  bounds : ∀ st, db.upgradedState = some st → 0 ≤ st.lastSequence ∧
    0 ≤ st.legacyBackfillSequence ∧ st.legacyBackfillSequence ≤ st.lastSequence
  assigned : ∀ q ∈ assigned db.upgradedTuples, 1 ≤ q ∧ q ≤ db.startSequence
  distinct : (Database.assigned db.upgradedTuples).Nodup
  room : missingIds db.upgradedTuples = [] ∨ db.endSequence ≤ maxInteger
  journal : ∀ q ∈ sequences db.events, 1 ≤ q ∧ q ≤ db.endSequence
  covered : db.sequenceColumn = false → ∀ q, 1 ≤ q → q ≤ db.startSequence → q ∈ sequences db.events

structure Migrated (db : Database) (reader : TextReader) (db' : Database) : Prop where
  rows : List.Forall₂ (fun r r' => r'.columns = r.columns ∧
    ∀ q, r.commitSequence = some q → r'.commitSequence = some q) db.upgradedTuples db'.tuples
  fresh : ∃ ids : List String,
    ids.Perm ((db.upgradedTuples.filter fun r => r.commitSequence.isNone).map
      fun r => r.columns.id) ∧
    ids.Pairwise (· < ·) ∧
    ∀ (i : Nat) (id : String), ids[i]? = some id → ∃ r' ∈ db'.tuples, r'.columns.id = id ∧
        r'.commitSequence = some (db.startSequence + 1 + i)
  journaled : ∀ r' ∈ db'.tuples, ∃ e ∈ db'.events,
    r'.commitSequence = some e.commitSequence ∧ (e ∈ db.events ∨ e.columns = r'.columns)
  kept : db.events <+: db'.events
  valid : db'.validateSequenceJournal = .ok db.endSequence
  again : db'.openStore reader = (db', .ok ())

theorem upgradedState_floor (h : db.trusted = false) (hst : db.upgradedState = some st) :
    st.journalFloorSequence = 0 := by
  have hfloor : db.floorColumn = false := by
    simp only [trusted, Bool.or_eq_false_iff] at h
    exact h.1.2
  rw [upgradedState, hfloor] at hst
  split at hst
  · rw [if_neg (by decide)] at hst
    obtain ⟨st₀, -, rfl⟩ := Option.map_eq_some_iff.mp hst
    rfl
  · cases hst

theorem numberedState_facts (h : db.trusted = false) (hn : db.Numberable) :
    db.numberedState.journalFloorSequence = 0 ∧ db.numberedState.lastSequence = db.endSequence ∧
      0 ≤ db.endSequence ∧ 0 ≤ db.numberedState.legacyBackfillSequence ∧
        db.numberedState.legacyBackfillSequence ≤ db.endSequence := by
  have hgrow : db.startSequence ≤ db.endSequence := by
    rw [endSequence]
    omega
  cases hst : db.upgradedState with
  | none =>
    have hstart : db.startSequence = 0 := by rw [startSequence, hst]
    rw [hstart] at hgrow
    rw [numberedState, hst]
    exact ⟨rfl, rfl, hgrow, hgrow, le_refl _⟩
  | some st =>
    have hstart : db.startSequence = st.lastSequence := by rw [startSequence, hst]
    have hbounds := hn.bounds st hst
    have hfloor := upgradedState_floor h hst
    rw [numberedState, hst]
    refine ⟨hfloor, rfl, ?_, hbounds.2.1, ?_⟩
    · omega
    · show st.legacyBackfillSequence ≤ db.endSequence
      omega

theorem raise_eq (h : db.trusted = false) (hn : db.Numberable) :
    (db.sequenceColumn && !(db.floorColumn || !db.stateTable)) = db.sequenceColumn := by
  have hfloor : db.floorColumn = false := by
    simp only [trusted, Bool.or_eq_false_iff] at h
    exact h.1.2
  cases hcolumn : db.sequenceColumn with
  | false => rfl
  | true =>
    have htable : db.stateTable = true := by
      have hsome := hn.state hcolumn
      rw [upgradedState] at hsome
      by_contra hno
      rw [if_neg hno] at hsome
      cases hsome
    rw [hfloor, htable]
    rfl

theorem openStore_ok_iff (h : db.trusted = false) (reader : TextReader) (db' : Database) :
    db.openStore reader = (db', .ok ()) ↔
      db.Numberable ∧ ∃ d, db.numbered.journaled db.sequenceColumn = .ok d ∧
        (assigned db.numbered.tuples).Nodup ∧ db' = { d.backfillLegacyDeploymentOrdering reader with
            journalGuards := true, journalMarker := true } := by
  have hopen : db.openStore reader = (db', .ok ()) ↔
      db.migrate reader db.sequenceColumn db.trusted = .ok db' := by
    rw [openStore]
    cases hm : db.migrate reader db.sequenceColumn db.trusted with
    | ok d | error e => simp
  rw [hopen, h, migrate]
  cases hb : db.upgraded.backfillTupleSequences db.sequenceColumn with
  | error e =>
    constructor
    · nofun
    · intro hm
      have hok := (backfillTupleSequences_iff db.numbered).mpr ⟨hm.1, rfl⟩
      rw [hok] at hb
      cases hb
  | ok n =>
    obtain ⟨hn, rfl⟩ := (backfillTupleSequences_iff n).mp hb
    show ((db.numbered.journaled (db.sequenceColumn && !(db.floorColumn || !db.stateTable))).bind
      fun checked => (checked.backfillLegacyDeploymentOrdering reader).guarded) = .ok db' ↔ _
    rw [raise_eq h hn]
    cases hj : db.numbered.journaled db.sequenceColumn with
    | error e =>
      constructor
      · nofun
      · intro hm
        obtain ⟨-, d, hd, -⟩ := hm
        cases hd
    | ok d =>
      show (d.backfillLegacyDeploymentOrdering reader).guarded = .ok db' ↔ _
      rw [guarded_iff]
      show (assigned d.tuples).Nodup ∧ _ ↔ _
      rw [journaled_tuples hj]
      constructor
      · intro hm
        exact ⟨hn, d, rfl, hm⟩
      · intro hm
        obtain ⟨-, d', hd', hm⟩ := hm
        cases hd'
        exact hm

theorem mem_sequences_numbered (hids : (db.tuples.map fun r => r.columns.id).Nodup) (q : Int) :
    q ∈ sequences db.numbered.filled.events ↔
      q ∈ sequences db.events ∨ q ∈ assigned db.upgradedTuples ∨
        db.startSequence < q ∧ q ≤ db.endSequence := by
  rw [mem_sequences_filled, mem_assigned_numbered hids]
  rfl

/-- Exactly the migratable files without a trusted journal open. -/
theorem openStore_iff (hids : (db.tuples.map fun r => r.columns.id).Nodup)
    (hevents : (sequences db.events).Nodup) (h : db.trusted = false) (reader : TextReader) :
    (∃ db', db.openStore reader = (db', .ok ())) ↔ db.Migratable := by
  have hids' : (db.upgradedTuples.map fun r => r.columns.id).Nodup := by
    rw [upgradedTuples_ids]
    exact hids
  have hstart : db.Numberable → 0 ≤ db.startSequence := by
    intro hn
    rw [startSequence]
    split
    · exact le_refl _
    · rename_i st hst
      exact (hn.bounds st hst).1
  have hpasses : db.Numberable → (assigned db.numbered.tuples).Nodup →
      ((∃ d, db.numbered.journaled db.sequenceColumn = .ok d) ↔
        (∀ q ∈ sequences db.numbered.filled.events, 1 ≤ q ∧ q ≤ db.endSequence) ∧
          (db.sequenceColumn = false → ∀ q, 1 ≤ q → q ≤ db.endSequence →
            q ∈ sequences db.numbered.filled.events)) := by
    intro hn hnodup
    obtain ⟨hfloor, hl, hpos, hlegacy⟩ := numberedState_facts h hn
    have hiff := @journaled_ok_iff db.numbered _ rfl hfloor (by omega) (by omega) hevents
      hnodup db.sequenceColumn
    rw [hl] at hiff
    exact hiff
  simp only [openStore_ok_iff h]
  constructor
  · intro hopen
    obtain ⟨db', hn, d, hd, hnodup, -⟩ := hopen
    obtain ⟨hwithin, hcomplete⟩ := (hpasses hn hnodup).mp ⟨d, hd⟩
    refine ⟨hn.state, hn.bounds, fun q hq => ⟨?_, hn.counted q hq⟩,
      nodup_assigned_of_numberedRows hids' hnodup, hn.room, fun q hq => ?_, ?_⟩
    · exact (hwithin q ((mem_sequences_numbered hids q).mpr (.inr (.inl hq)))).1
    · exact hwithin q ((mem_sequences_numbered hids q).mpr (.inl hq))
    · intro hcolumn q hlow hhigh
      have hle : q ≤ db.endSequence := by
        rw [endSequence]
        omega
      rcases (mem_sequences_numbered hids q).mp (hcomplete hcolumn q hlow hle) with
        hq | hq | hq
      · exact hq
      · rw [assigned_of_no_column hcolumn] at hq
        exact (not_mem_nil hq).elim
      · omega
  · intro hm
    have hn : db.Numberable :=
      ⟨hm.state, hm.bounds, fun q hq => (hm.assigned q hq).2, hm.room⟩
    have hnodup : (assigned db.numbered.tuples).Nodup :=
      nodup_assigned_numberedRows hids' hm.distinct fun q hq => (hm.assigned q hq).2
    have hpos := hstart hn
    have hgrow : db.startSequence ≤ db.endSequence := by
      rw [endSequence]
      omega
    obtain ⟨d, hd⟩ := (hpasses hn hnodup).mpr (by
      constructor
      · intro q hq
        rcases (mem_sequences_numbered hids q).mp hq with hq | hq | hq
        · exact hm.journal q hq
        · have := hm.assigned q hq
          omega
        · omega
      · intro hcolumn q hlow hhigh
        rw [mem_sequences_numbered hids]
        by_cases hq : q ≤ db.startSequence
        · exact .inl (hm.covered hcolumn q hlow hq)
        · exact .inr (.inr ⟨by omega, hhigh⟩))
    exact ⟨_, hn, d, hd, hnodup, rfl⟩

theorem mem_sequences {events : List EventRow} {q : Int} :
    q ∈ sequences events ↔ ∃ e ∈ events, e.commitSequence = q := by
  rw [sequences, mem_map]

section
variable (hids : (db.tuples.map fun r => r.columns.id).Nodup)
  (hevents : (sequences db.events).Nodup) (h : db.trusted = false) {reader : TextReader}
  {db' : Database} (hopen : db.openStore reader = (db', .ok ()))
include hids hevents h hopen

theorem settled_of_openStore :
    ∃ floor, db'.Settled { db.numberedState with journalFloorSequence := floor } ∧
      db' = { (db.numbered.filled.withFloor db.numberedState floor).backfillLegacyDeploymentOrdering
          reader with journalGuards := true, journalMarker := true } := by
  obtain ⟨hn, d, hd, hnodup, rfl⟩ := (openStore_ok_iff h reader db').mp hopen
  obtain ⟨hfloor, hl, hpos, -⟩ := numberedState_facts h hn
  have hids' : (db.upgradedTuples.map fun r => r.columns.id).Nodup := by
    rw [upgradedTuples_ids]
    exact hids
  obtain ⟨floor, -, rfl, hagrees⟩ := (@journaled_iff db.numbered _ rfl hfloor (by omega)
    hevents hnodup db.sequenceColumn d).mp hd
  refine ⟨floor, ⟨⟨rfl, rfl, rfl, rfl, rfl⟩, ?_, ?_, rfl, hagrees, ?_, hnodup, ?_⟩, rfl⟩
  · have hcolumns : (numberedRows db.upgradedTuples db.startSequence).map (fun r => r.columns.id) =
        db.upgradedTuples.map fun r => r.columns.id := by
      rw [numberedRows, map_map]
      refine map_congr_left fun r _ => ?_
      simp only [Function.comp_apply, numberedRow_columns]
    show ((numberedRows db.upgradedTuples db.startSequence).map fun r => r.columns.id).Nodup
    rw [hcolumns]
    exact hids'
  · exact @nodup_sequences_filled db.numbered hevents hnodup
  · intro r hr
    exact numberedRows_assigned hids' hr
  · intro q hq
    exact (@mem_sequences_filled db.numbered q).mpr (.inr hq)

/-- What the migration of a file keeps, adds and leaves true. -/
theorem migrated_of_openStore : db.Migrated reader db' := by
  have hids' : (db.upgradedTuples.map fun r => r.columns.id).Nodup := by
    rw [upgradedTuples_ids]
    exact hids
  obtain ⟨floor, hsettled, hdb⟩ := settled_of_openStore hids hevents h hopen
  have htuples : db'.tuples = numberedRows db.upgradedTuples db.startSequence := by
    rw [hdb]
    rfl
  have hjournal : db'.events = db.numbered.filled.events := by
    rw [hdb]
    rfl
  have hnumbered := (openStore_ok_iff h reader db').mp hopen
  refine ⟨?_, ⟨missingIds db.upgradedTuples, missingIds_perm _, missingIds_sorted hids', ?_⟩,
    ?_, ?_, ?_, ?_⟩
  · rw [htuples, numberedRows, forall₂_map_right_iff, forall₂_same]
    intro r hr
    refine ⟨numberedRow_columns _ _ r, fun q hq => ?_⟩
    rcases numberedRow_cases hids' hr db.startSequence with ⟨-, hsame⟩ | ⟨i, hn, -⟩
    · rw [hsame, hq]
    · rw [hn] at hq
      cases hq
  · intro i id hi
    obtain ⟨r, hr, -, hid⟩ := mem_missingIds.mp (mem_of_getElem? hi)
    rw [← hid] at hi
    refine ⟨numberedRow (missingIds db.upgradedTuples) db.startSequence r, ?_, ?_, ?_⟩
    · rw [htuples]
      exact mem_numberedRows.mpr ⟨r, hr, rfl⟩
    · rw [numberedRow_columns, hid]
    · exact numberedRow_of_getElem (missingIds_nodup hids') hi _
  · intro r' hr'
    obtain ⟨q, hq⟩ := Option.isSome_iff_exists.mp (hsettled.numbered r' hr')
    have hm : r' ∈ db.numbered.tuples := by
      rw [htuples] at hr'
      exact hr'
    obtain ⟨e, he, heq, hwho⟩ := filled_journals hm hq
    rw [hjournal]
    exact ⟨e, he, by rw [hq, heq], hwho⟩
  · rw [hjournal]
    exact prefix_append _ _
  · have hl := (numberedState_facts h hnumbered.1).2.1
    rw [← hl]
    exact (validateSequenceJournal_iff hsettled.state hsettled.events _).mpr ⟨rfl, hsettled.agrees⟩
  · rw [openStore_settled hsettled reader]
    have hagain : db'.backfillLegacyDeploymentOrdering reader = db' := by
      have hidem := backfillLegacyDeploymentOrdering_idem
        (db.numbered.filled.withFloor db.numberedState floor) reader
      have hcurrent : ((db.numbered.filled.withFloor db.numberedState floor
          |>.backfillLegacyDeploymentOrdering reader).backfillLegacyDeploymentOrdering
            reader).current = db'.current := by
        rw [hidem, hdb]
      rw [hdb] at hcurrent ⊢
      rw [Database.mk.injEq]
      exact ⟨rfl, rfl, rfl, rfl, rfl, rfl, rfl, rfl, rfl, rfl, hcurrent, rfl⟩
    rw [hagain]

end

/-- `Store::open` over every file without a trusted journal: the migratable ones open and
are migrated, and a file that does not open is left as it was. -/
theorem openStore_migrates {db : Database} (hids : (db.tuples.map fun r => r.columns.id).Nodup)
    (hevents : (sequences db.events).Nodup) (h : db.trusted = false) (reader : TextReader) :
    ((∃ db', db.openStore reader = (db', .ok ())) ↔ db.Migratable) ∧
      (∀ db', db.openStore reader = (db', .ok ()) → db.Migrated reader db') ∧
        ∀ db' e, db.openStore reader = (db', .error e) → db' = db := by
  refine ⟨openStore_iff hids hevents h reader,
    fun db' hopen => migrated_of_openStore hids hevents h hopen, fun db' e hopen => ?_⟩
  rw [openStore] at hopen
  cases hm : db.migrate reader db.sequenceColumn db.trusted with
  | ok d =>
    rw [hm] at hopen
    cases hopen
  | error e' =>
    rw [hm] at hopen
    cases hopen
    rfl

def unnumberedFile : Database :=
  { blank with tuples := [⟨none, columns (epochTuple 7)⟩, ⟨none, columns (epochTuple 3)⟩] }

theorem unnumberedFile_migrates :
    ∃ db', unnumberedFile.openStore epochReader = (db', .ok ()) ∧
      unnumberedFile.Migrated epochReader db' := by
  have h := @openStore_migrates unnumberedFile (by decide) (by decide) rfl epochReader
  have hfile : unnumberedFile.Migratable := by
    refine ⟨nofun, nofun, fun q hq => ?_, by decide,
      .inr ?_, fun q hq => (not_mem_nil hq).elim, fun _ q hlow hhigh => ?_⟩
    · rw [assigned_of_no_column rfl] at hq
      exact (not_mem_nil hq).elim
    · have hcount : (missingIds unnumberedFile.upgradedTuples).length = 2 := by
        rfl
      decide
    · change q ≤ 0 at hhigh
      omega
  obtain ⟨db', hopen⟩ := h.1.mpr hfile
  exact ⟨db', hopen, h.2.1 db' hopen⟩

/-- A legacy file as a daemon without the journal left it: distinct ids, and either no
column, or the column with a counter that bounds distinct positive sequences. -/
def Legacy (db : Database) : Prop :=
  db.trusted = false ∧ (db.tuples.map fun r => r.columns.id).Nodup ∧ (db.sequenceColumn = false ∨
      ∃ st, db.stateTable = true ∧ db.sequenceState = some st ∧
        0 ≤ st.legacyBackfillSequence ∧ st.legacyBackfillSequence ≤ st.lastSequence ∧
          (assigned db.tuples).Nodup ∧ ∀ q ∈ assigned db.tuples, 1 ≤ q ∧ q ≤ st.lastSequence)

def spentFile : Database :=
  { blank with
    tuples := [⟨none, columns (epochTuple 7)⟩]
    sequenceColumn := true, stateTable := true
    sequenceState := some ⟨maxInteger, 0, 0⟩ }

theorem not_legacy_migrates :
    spentFile.Legacy ∧ spentFile.openStore epochReader =
        (spentFile, .error (.other "tuple persistence sequence overflow")) := by
  refine ⟨⟨rfl, by decide, .inr ⟨_, rfl, rfl, by decide, by decide, by decide, ?_⟩⟩, rfl⟩
  intro q hq
  cases hq

end Database

end RatKingdom.Space
