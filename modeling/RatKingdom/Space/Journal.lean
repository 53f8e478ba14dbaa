/-
The persistence journal over the life of a store.

A store runs one statement after another: an insert that takes the next sequence and
journals its row, or a change of rows that keeps their ids, scopes and sequences, or
something beside the tuples.  `Stmt` says so for every statement of every operation, and
`Journal` is what all of them keep: the sequences of the journal are 1 up to the counter,
and each live row owns one of them.
-/
import RatKingdom.Lib.Run
import RatKingdom.Space.Migrate
import RatKingdom.Space.Query

namespace RatKingdom.Space

open Core List

namespace Database

/-- The operations of a store.  `fails` is any of them failing for a reason of its own
before it commits, and `reopen` is the next daemon opening the file. -/
inductive Action where
  | insert (t : Tuple)
  | insertCoordinator (t : Tuple)
  | replace (expected : RecordId) (t : Tuple)
  | reinforce (id : RecordId) (t : Tuple)
  | delete (id : RecordId)
  | decayAndCollect (step : Float) (cut : Bool)
  | deleteExpired (now : DateTime)
  | acceptSdlcSignal (g : Store.SdlcSignal) (acceptedAt : DateTime) (rollbackInjection : Bool)
  | reopen (reader : TextReader)
  | fails

def committed (db : Database) : Except Error Database → Database
  | .ok db' => db'
  | .error _ => db

/-- The database after an action.  `decay_and_collect` is two statements, each committed by
itself, so that it can stop between them. -/
def next (db : Database) : Action → Database
  | .insert t => db.committed (db.insert t)
  | .insertCoordinator t => db.committed ((db.insertCoordinator t).map Prod.fst)
  | .replace expected t => db.committed ((db.replace expected t).map Prod.fst)
  | .reinforce id t => db.reinforce id t
  | .delete id => (db.delete id).1
  | .decayAndCollect step cut => if cut then db.decay step else db.decayAndCollect step
  | .deleteExpired now => db.deleteExpired now
  | .acceptSdlcSignal g acceptedAt rollbackInjection =>
    db.committed ((db.acceptSdlcSignal g acceptedAt rollbackInjection).map Prod.fst)
  | .reopen reader => (db.openStore reader).1
  | .fails => db

def step (db : Database) (a : Action) : Option Database := some (db.next a)

def fresh : Database :=
  { blank with
    sequenceState := some ⟨0, 0, 0⟩
    sequenceColumn := true, stateTable := true, floorColumn := true
    journalGuards := true, journalMarker := true }

/-- What opening a new file leaves. -/
theorem blank_openStore (reader : TextReader) : blank.openStore reader = (fresh, .ok ()) := rfl

def sdlcMoments (db : Database) (g : Store.SdlcSignal) (acceptedAt : DateTime) : List Database :=
  let p := db.sdlcPlan g acceptedAt
  match db.insert g.eventTuple with
  | .error _ => []
  | .ok db₁ =>
    match db₁.writeFact p g acceptedAt with
    | .error _ => []
    | .ok db₂ =>
      match db₂.writeCurrent p g acceptedAt with
      | .error _ => []
      | .ok db₃ =>
        match db₃.writeTransition p g acceptedAt with
        | .error _ => []
        | .ok db₄ => [db₁, db₂, db₃, db₄]

/-- The databases the statements of a committed action pass through, the last one being the
one it leaves. -/
def moments (db : Database) (a : Action) : List Database :=
  match a with
  | .replace expected t =>
    match db.replace expected t with
    | .ok (_, true) => [db.deleteWhere (replaceable expected t), db.next a]
    | _ => [db.next a]
  | .decayAndCollect step _ => [db.decay step, db.next a]
  | .acceptSdlcSignal g acceptedAt rollbackInjection =>
    match db.acceptSdlcSignal g acceptedAt rollbackInjection with
    | .error _ => [db.next a]
    | .ok _ =>
      if db.receipts.any fun r => r.1 = (g.source, g.deliveryId) then [db.next a]
      else db.sdlcMoments g acceptedAt ++ [db.next a]
  | _ => [db.next a]

def rowKey (r : TupleRow) : Option Int × String × String :=
  (r.commitSequence, r.columns.id, r.columns.scope)

/-- Nothing that numbers or journals a row has changed. -/
def SameJournal (db db' : Database) : Prop :=
  db'.sequenceState = db.sequenceState ∧ db'.events = db.events ∧
    db'.sequenceColumn = db.sequenceColumn ∧ db'.stateTable = db.stateTable ∧
      db'.floorColumn = db.floorColumn ∧ db'.journalGuards = db.journalGuards ∧
        db'.journalMarker = db.journalMarker

/-- What one statement does to the tuples: it inserts one, with what else it writes beside
the tuples, or keeps the sequence, id and scope of every row it leaves. -/
inductive Stmt (db db' : Database) : Prop where
  | inserts (t : Tuple) (mid : Database) (h : db.insert t = .ok mid)
      (tuples : db'.tuples = mid.tuples) (same : SameJournal mid db')
  | keeps (rows : (db'.tuples.map rowKey).Sublist (db.tuples.map rowKey)) (same : SameJournal db db')

theorem SameJournal.refl (db : Database) : SameJournal db db := ⟨rfl, rfl, rfl, rfl, rfl, rfl, rfl⟩

theorem Stmt.refl (db : Database) : Stmt db db := .keeps (List.Sublist.refl _) (.refl db)

theorem stmt_deleteWhere (db : Database) (p : Columns → Bool) : Stmt db (db.deleteWhere p) :=
  .keeps (List.Sublist.map _ filter_sublist) ⟨rfl, rfl, rfl, rfl, rfl, rfl, rfl⟩

section
variable (db : Database) (p : Columns → Bool) {f : Columns → Columns}
  (hf : ∀ c, (f c).id = c.id ∧ (f c).scope = c.scope)
include hf

theorem rowKeys_updateWhere : (db.updateWhere p f).tuples.map rowKey = db.tuples.map rowKey := by
  rw [updateWhere, map_map]
  refine map_congr_left fun r _ => ?_
  rw [Function.comp_apply]
  split
  · simp only [rowKey, hf]
  · rfl

theorem stmt_updateWhere : Stmt db (db.updateWhere p f) := by
  refine .keeps ?_ ⟨rfl, rfl, rfl, rfl, rfl, rfl, rfl⟩
  rw [rowKeys_updateWhere db p hf]

end

variable {db db' : Database}

theorem stmt_aside (h : db'.tuples = db.tuples) (hs : SameJournal db db') : Stmt db db' :=
  .keeps (by rw [h]) hs

variable {t : Tuple}

theorem stmt_insert (h : db.insert t = .ok db') : Stmt db db' := .inserts _ db' h rfl (.refl db')

variable {p : Store.SdlcPlan} {g : Store.SdlcSignal} {acceptedAt : DateTime}

theorem stmt_writeFact (h : db.writeFact p g acceptedAt = .ok db') : Stmt db db' := by
  rw [writeFact] at h
  split at h
  · split at h
    · cases h
      exact stmt_updateWhere db _ fun c => ⟨rfl, rfl⟩
    · exact stmt_insert h
  · cases h
    exact .refl db

theorem stmt_writeCurrent (h : db.writeCurrent p g acceptedAt = .ok db') : Stmt db db' := by
  rw [writeCurrent] at h
  split at h
  · split at h
    · cases h
    · cases h
      exact stmt_aside rfl ⟨rfl, rfl, rfl, rfl, rfl, rfl, rfl⟩
  · cases h
    exact .refl db

theorem stmt_writeTransition (h : db.writeTransition p g acceptedAt = .ok db') : Stmt db db' := by
  rw [writeTransition] at h
  split at h
  · cases hi : db.insert (p.transition g) with
    | error e =>
      rw [hi] at h
      cases h
    | ok mid =>
      rw [hi] at h
      dsimp only at h
      split at h
      · cases h
      · cases h
        exact .inserts _ mid hi rfl ⟨rfl, rfl, rfl, rfl, rfl, rfl, rfl⟩
  · cases h
    exact .refl db

theorem stmt_insertCoordinator {out : Database × Nat} (h : db.insertCoordinator t = .ok out) :
    Stmt db out.1 := by
  rw [insertCoordinator] at h
  cases hi : db.insert t with
  | error e =>
    rw [hi] at h
    cases h
  | ok mid =>
    rw [hi] at h
    dsimp only at h
    split at h
    · cases h
    · cases h
      exact .inserts _ mid hi rfl ⟨rfl, rfl, rfl, rfl, rfl, rfl, rfl⟩

theorem replace_cases {expected : RecordId} {out : Database × Bool}
    (h : db.replace expected t = .ok out) :
    (out.2 = false ∧ out.1 = db) ∨
      out.2 = true ∧ (db.deleteWhere (replaceable expected t)).insert t = .ok out.1 := by
  rw [replace] at h
  split at h
  · cases h
  · split at h
    · cases hi : (db.deleteWhere (replaceable expected t)).insert t with
      | error e =>
        rw [hi] at h
        cases h
      | ok d =>
        rw [hi] at h
        cases h
        exact .inr ⟨rfl, rfl⟩
    · cases h
      exact .inl ⟨rfl, rfl⟩

/-- An accepted delivery is a duplicate that changes nothing, or its four writes and the
receipt. -/
theorem acceptSdlcSignal_cases {rollbackInjection : Bool} {out : Database × SignalReceipt}
    (h : db.acceptSdlcSignal g acceptedAt rollbackInjection = .ok out) :
    ((db.receipts.any fun r => r.1 = (g.source, g.deliveryId)) = true ∧ out.1 = db) ∨
      (db.receipts.any fun r => r.1 = (g.source, g.deliveryId)) = false ∧
        ∃ db₁ db₂ db₃ db₄, db.insert g.eventTuple = .ok db₁ ∧
          db₁.writeFact (db.sdlcPlan g acceptedAt) g acceptedAt = .ok db₂ ∧
            db₂.writeCurrent (db.sdlcPlan g acceptedAt) g acceptedAt = .ok db₃ ∧
              db₃.writeTransition (db.sdlcPlan g acceptedAt) g acceptedAt = .ok db₄ ∧
                out.1.tuples = db₄.tuples ∧ SameJournal db₄ out.1 := by
  rw [acceptSdlcSignal] at h
  cases hr : g.rejection with
  | some e =>
    rw [hr] at h
    cases h
  | none =>
    rw [hr] at h
    cases hf : db.receipts.find? fun r => r.1 = (g.source, g.deliveryId) with
    | some receipt =>
      rw [hf] at h
      cases h
      have hany : (db.receipts.any fun r => r.1 = (g.source, g.deliveryId)) = true := by
        have hkey := find?_some hf
        rw [any_eq_true]
        exact ⟨receipt, mem_of_find?_eq_some hf, hkey⟩
      exact .inl ⟨hany, rfl⟩
    | none =>
      rw [hf] at h
      dsimp only at h
      have hany : (db.receipts.any fun r => r.1 = (g.source, g.deliveryId)) = false := by
        rw [any_eq_false]
        exact find?_eq_none.mp hf
      refine .inr ⟨hany, ?_⟩
      cases hw : db.sdlcWrite (db.sdlcPlan g acceptedAt) g acceptedAt with
      | error e =>
        rw [hw] at h
        cases h
      | ok db₄ =>
        rw [hw] at h
        dsimp only at h
        split at h
        · cases h
        · cases h
          rw [sdlcWrite] at hw
          cases h₁ : db.insert g.eventTuple with
          | error e =>
            rw [h₁] at hw
            cases hw
          | ok db₁ =>
            rw [h₁] at hw
            cases h₂ : db₁.writeFact (db.sdlcPlan g acceptedAt) g acceptedAt with
            | error e =>
              simp only [Except.bind, h₂] at hw
              cases hw
            | ok db₂ =>
              cases h₃ : db₂.writeCurrent (db.sdlcPlan g acceptedAt) g acceptedAt with
              | error e =>
                simp only [Except.bind, h₂, h₃] at hw
                cases hw
              | ok db₃ =>
                simp only [Except.bind, h₂, h₃] at hw
                exact ⟨db₁, db₂, db₃, db₄, rfl, h₂, h₃, hw, rfl, rfl, rfl, rfl, rfl, rfl, rfl, rfl⟩

/-- The sequences 1 up to `n`. -/
def numbers (n : Nat) : List Int := (List.range n).map fun i : Nat => (i : Int) + 1

variable {n : Nat}

theorem mem_numbers {q : Int} : q ∈ numbers n ↔ 1 ≤ q ∧ q ≤ n := by
  rw [numbers, mem_map]
  constructor
  · intro h
    obtain ⟨i, hi, rfl⟩ := h
    have := mem_range.mp hi
    omega
  · intro h
    exact ⟨(q - 1).toNat, mem_range.mpr (by omega), by omega⟩

theorem numbers_succ (n : Nat) : numbers (n + 1) = numbers n ++ [(n : Int) + 1] := by
  rw [numbers, range_succ, map_append]
  rfl

theorem nodup_numbers (n : Nat) : (numbers n).Nodup := by
  refine List.Nodup.map (fun a b hab => ?_) nodup_range
  omega

/-- A store whose journal is whole: its sequences are 1 up to the counter, in order; each
live row owns the newest journal row of its id; and no two rows share an id or a
sequence. -/
structure Journal (db : Database) (n : Nat) : Prop where
  installed : db.sequenceColumn = true ∧ db.stateTable = true ∧ db.floorColumn = true ∧
    db.journalGuards = true ∧ db.journalMarker = true
  state : db.sequenceState = some ⟨n, 0, 0⟩
  bound : (n : Int) ≤ maxInteger
  sequences : Database.sequences db.events = numbers n
  live : ∀ r ∈ db.tuples, ∃ e ∈ db.events, r.commitSequence = some e.commitSequence ∧
    e.columns.id = r.columns.id ∧ e.columns.scope = r.columns.scope
  newest : ∀ r ∈ db.tuples, ∀ e ∈ db.events, e.columns.id = r.columns.id →
    ∀ q, r.commitSequence = some q → e.commitSequence ≤ q
  distinct : (assigned db.tuples).Nodup
  ids : (db.tuples.map fun r => r.columns.id).Nodup

theorem journal_fresh : Journal fresh 0 := by
  refine ⟨⟨rfl, rfl, rfl, rfl, rfl⟩, rfl, by decide, rfl, ?_, ?_, nodup_nil, nodup_nil⟩
  · nofun
  · nofun

theorem Journal.mem_events (h : Journal db n) {e : EventRow} (he : e ∈ db.events) :
    1 ≤ e.commitSequence ∧ e.commitSequence ≤ n := by
  rw [← mem_numbers, ← h.sequences]
  exact mem_sequences.mpr ⟨e, he, rfl⟩

theorem Journal.mem_assigned (h : Journal db n) {q : Int} (hq : q ∈ assigned db.tuples) :
    q ∈ Database.sequences db.events := by
  obtain ⟨r, hr, hseq⟩ := mem_filterMap.mp hq
  obtain ⟨e, he, hre, -⟩ := h.live r hr
  rw [hseq, Option.some.injEq] at hre
  exact mem_sequences.mpr ⟨e, he, hre.symm⟩

theorem Journal.settled (h : Journal db n) : db.Settled ⟨n, 0, 0⟩ := by
  refine ⟨h.installed, h.ids, ?_, h.state, ⟨⟨le_refl _, by simp⟩, ⟨le_refl _, by simp⟩, ?_, ?_⟩,
    ?_, h.distinct, fun q hq => h.mem_assigned hq⟩
  · rw [h.sequences]
    exact nodup_numbers n
  · intro q hq
    rw [h.sequences] at hq
    exact mem_numbers.mp hq
  · intro q hlow hhigh
    rw [h.sequences]
    exact mem_numbers.mpr ⟨hlow, hhigh⟩
  · intro r hr
    obtain ⟨e, -, hseq, -⟩ := h.live r hr
    rw [hseq]
    rfl

theorem Journal.valid (h : Journal db n) : db.validateSequenceJournal = .ok n :=
  (validateSequenceJournal_iff h.state h.settled.events _).mpr ⟨rfl, h.settled.agrees⟩

theorem Journal.of_same (h : Journal db n) (htuples : db'.tuples = db.tuples)
    (hsame : SameJournal db db') : Journal db' n := by
  obtain ⟨hstate, hevents, hcolumn, htable, hfloor, hguards, hmarker⟩ := hsame
  obtain ⟨hc, ht, hf, hg, hm⟩ := h.installed
  refine ⟨⟨?_, ?_, ?_, ?_, ?_⟩, ?_, h.bound, ?_, ?_, ?_, ?_, ?_⟩
  · rw [hcolumn, hc]
  · rw [htable, ht]
  · rw [hfloor, hf]
  · rw [hguards, hg]
  · rw [hmarker, hm]
  · rw [hstate, h.state]
  · rw [hevents, h.sequences]
  · rw [htuples, hevents]
    exact h.live
  · rw [htuples, hevents]
    exact h.newest
  · rw [htuples]
    exact h.distinct
  · rw [htuples]
    exact h.ids

theorem assigned_eq_keys (rows : List TupleRow) :
    assigned rows = (rows.map rowKey).filterMap Prod.fst := by
  rw [assigned, filterMap_map]
  rfl

theorem ids_eq_keys (rows : List TupleRow) :
    (rows.map fun r => r.columns.id) = (rows.map rowKey).map fun k => k.2.1 := by
  rw [map_map]
  rfl

theorem exists_of_rowKeys {rows rows' : List TupleRow}
    (h : (rows'.map rowKey).Sublist (rows.map rowKey)) {r' : TupleRow} (hr' : r' ∈ rows') :
    ∃ r ∈ rows, rowKey r = rowKey r' := by
  have hm := h.subset (mem_map_of_mem hr')
  exact mem_map.mp hm

theorem Journal.of_keeps (h : Journal db n)
    (hrows : (db'.tuples.map rowKey).Sublist (db.tuples.map rowKey)) (hsame : SameJournal db db') :
    Journal db' n := by
  have hbase : Journal { db' with tuples := db.tuples } n := h.of_same rfl hsame
  have hevents : db'.events = db.events := hsame.2.1
  refine ⟨hbase.installed, hbase.state, h.bound, hbase.sequences, ?_, ?_, ?_, ?_⟩
  · intro r' hr'
    obtain ⟨r, hr, hkey⟩ := exists_of_rowKeys hrows hr'
    simp only [rowKey, Prod.mk.injEq] at hkey
    rw [← hkey.1, ← hkey.2.1, ← hkey.2.2, hevents]
    exact h.live r hr
  · intro r' hr' e he hid q hq
    obtain ⟨r, hr, hkey⟩ := exists_of_rowKeys hrows hr'
    simp only [rowKey, Prod.mk.injEq] at hkey
    rw [hevents] at he
    exact h.newest r hr e he (by rw [hid, hkey.2.1]) q (by rw [hkey.1, hq])
  · have hdistinct := h.distinct
    rw [assigned_eq_keys] at hdistinct ⊢
    exact hdistinct.sublist (hrows.filterMap _)
  · have hids := h.ids
    rw [ids_eq_keys] at hids ⊢
    exact hids.sublist (hrows.map _)

theorem Journal.insertTuple_ok (h : Journal db n) {new : Columns}
    (hok : db.insertTuple new = .ok db') :
    (∀ r ∈ db.tuples, r.columns.id ≠ new.id) ∧ (n : Int) < maxInteger ∧ db' = { db with
        tuples := db.tuples ++ [⟨some ((n : Int) + 1), new⟩]
        sequenceState := some ⟨(n : Int) + 1, 0, 0⟩
        events := db.events ++ [⟨(n : Int) + 1, new⟩] } := by
  rw [insertTuple] at hok
  split at hok
  · cases hok
  · rename_i hid
    have hfresh : ∀ r ∈ db.tuples, r.columns.id ≠ new.id := by
      intro r hr heq
      refine hid ?_
      rw [existsId, any_eq_true]
      exact ⟨r, hr, decide_eq_true heq⟩
    rw [assignCommitSequence] at hok
    simp only [h.state] at hok
    split at hok
    · rename_i hnumberable
      have hroom : (n : Int) < maxInteger := by
        simp only [numberable, Bool.and_eq_true, decide_eq_true_eq] at hnumberable
        omega
      refine ⟨hfresh, hroom, ?_⟩
      have hunused : (∀ r ∈ db.tuples ++ [(⟨none, new⟩ : TupleRow)],
          (r.columns.id ≠ new.id && r.commitSequence = some ((n : Int) + 1)) = false) := by
        intro r hr
        rcases mem_append.mp hr with hr | hr
        · obtain ⟨e, he, hseq, -⟩ := h.live r hr
          have hle := (h.mem_events he).2
          simp only [Bool.and_eq_false_iff, decide_eq_false_iff_not]
          right
          rw [hseq, Option.some.injEq]
          omega
        · rw [mem_singleton.mp hr]
          simp
      have hstamp : (db.tuples ++ [(⟨none, new⟩ : TupleRow)]).map (fun r =>
          if r.columns.id = new.id then { r with commitSequence := some ((n : Int) + 1) } else r) =
            db.tuples ++ [⟨some ((n : Int) + 1), new⟩] := by
        rw [map_append]
        have hold : db.tuples.map (fun r => if r.columns.id = new.id then
            { r with commitSequence := some ((n : Int) + 1) } else r) = db.tuples := by
          refine (map_congr_left fun r hr => if_neg (hfresh r hr)).trans (map_id _)
        rw [hold]
        simp
      have hnoevent : (db.events.any fun o => o.commitSequence = (n : Int) + 1) = false := by
        rw [any_eq_false]
        intro o ho
        have := (h.mem_events ho).2
        simp only [decide_eq_true_eq]
        omega
      rw [stampTuple] at hok
      have hany := any_eq_false.mpr fun r hr => Bool.eq_false_iff.mp (hunused r hr)
      simp only [hany, Bool.false_eq_true, if_false, hstamp, appendEvent, hnoevent] at hok
      exact (Except.ok.inj hok).symm
    · cases hok

theorem Journal.insertTuple (h : Journal db n) {new : Columns}
    (hok : db.insertTuple new = .ok db') : Journal db' (n + 1) := by
  obtain ⟨hfresh, hroom, rfl⟩ := h.insertTuple_ok hok
  have hnotin : ∀ q ∈ assigned db.tuples, q ≤ n := by
    intro q hq
    have hm := h.mem_assigned hq
    rw [h.sequences] at hm
    exact (mem_numbers.mp hm).2
  refine ⟨h.installed, ?_, ?_, ?_, ?_, ?_, ?_, ?_⟩
  · push_cast
    rfl
  · push_cast
    omega
  · show Database.sequences (db.events ++ [⟨(n : Int) + 1, new⟩]) = numbers (n + 1)
    rw [numbers_succ, ← h.sequences]
    simp [Database.sequences]
  · intro r hr
    rcases mem_append.mp hr with hr | hr
    · obtain ⟨e, he, hrest⟩ := h.live r hr
      exact ⟨e, mem_append_left _ he, hrest⟩
    · rw [mem_singleton.mp hr]
      exact ⟨_, mem_concat_self, rfl, rfl, rfl⟩
  · intro r hr e he hid q hq
    rcases mem_append.mp hr with hr | hr
    · rcases mem_append.mp he with he | he
      · exact h.newest r hr e he hid q hq
      · rw [mem_singleton.mp he] at hid
        exact (hfresh r hr hid.symm).elim
    · rw [mem_singleton.mp hr] at hq
      cases hq
      rcases mem_append.mp he with he | he
      · have := (h.mem_events he).2
        omega
      · rw [mem_singleton.mp he]
  · show (assigned (db.tuples ++ [⟨some ((n : Int) + 1), new⟩])).Nodup
    rw [assigned, filterMap_append]
    refine nodup_append.mpr ⟨h.distinct, by simp, fun q hq q' hq' => ?_⟩
    have hle := hnotin q hq
    have heq : q' = (n : Int) + 1 := by simpa using hq'
    omega
  · show ((db.tuples ++ [(⟨some ((n : Int) + 1), new⟩ : TupleRow)]).map fun r => r.columns.id).Nodup
    rw [map_append]
    refine nodup_append.mpr ⟨h.ids, by simp, fun id hid id' hid' => ?_⟩
    obtain ⟨r, hr, rfl⟩ := mem_map.mp hid
    have heq : id' = new.id := by simpa using hid'
    rw [heq]
    exact hfresh r hr

/-- What a later journal still shows of an earlier one: its rows unchanged in front, and
its sequences owned by no new row. -/
structure Continues (db db' : Database) : Prop where
  events : db.events <+: db'.events
  owned : ∀ r' ∈ db'.tuples, ∀ q, r'.commitSequence = some q → q ∈ Database.sequences db.events →
    ∃ r ∈ db.tuples, r.commitSequence = some q ∧ r.columns.id = r'.columns.id

theorem Continues.refl (db : Database) : Continues db db :=
  ⟨prefix_refl _, fun r hr _ hq _ => ⟨r, hr, hq, rfl⟩⟩

theorem Continues.trans {a b c : Database} (h : Continues a b) (h' : Continues b c) :
    Continues a c := by
  refine ⟨h.events.trans h'.events, fun r hr q hq hmem => ?_⟩
  have hmem' : q ∈ Database.sequences b.events := by
    obtain ⟨e, he, heq⟩ := mem_sequences.mp hmem
    exact mem_sequences.mpr ⟨e, h.events.subset he, heq⟩
  obtain ⟨m, hm, hmq, hmid⟩ := h'.owned r hr q hq hmem'
  obtain ⟨o, ho, hoq, hoid⟩ := h.owned m hm q hmq hmem
  exact ⟨o, ho, hoq, hoid.trans hmid⟩

theorem Stmt.keeps_journal (h : Journal db n) (hs : Stmt db db') :
    (∃ n', Journal db' n') ∧ Continues db db' := by
  cases hs with
  | inserts t mid hok htuples hsame =>
    refine ⟨⟨n + 1, (h.insertTuple hok).of_same htuples hsame⟩, ?_, ?_⟩
    · rw [hsame.2.1, (h.insertTuple_ok hok).2.2]
      exact prefix_append _ _
    · intro r' hr' q hq hm
      rw [htuples, (h.insertTuple_ok hok).2.2] at hr'
      rcases mem_append.mp hr' with hr' | hr'
      · exact ⟨r', hr', hq, rfl⟩
      · rw [mem_singleton.mp hr'] at hq
        cases hq
        rw [h.sequences] at hm
        have := (mem_numbers.mp hm).2
        omega
  | keeps hrows hsame =>
    refine ⟨⟨n, h.of_keeps hrows hsame⟩, ?_, ?_⟩
    · rw [hsame.2.1]
    · intro r' hr' q hq _
      obtain ⟨r, hr, hkey⟩ := exists_of_rowKeys hrows hr'
      simp only [rowKey, Prod.mk.injEq] at hkey
      exact ⟨r, hr, by rw [hkey.1, hq], hkey.2.1⟩

/-- The databases of an action are each one statement after the one before. -/
theorem moments_chain (h : Journal db n) (a : Action) : List.IsChain Stmt (db :: db.moments a) := by
  have hone : ∀ {d : Database}, Stmt db d → List.IsChain Stmt [db, d] := fun hs =>
    isChain_cons_cons.mpr ⟨hs, isChain_singleton _⟩
  cases a with
  | insert t =>
    refine hone ?_
    show Stmt db (db.committed (db.insert t))
    cases hi : db.insert t with
    | error e => exact .refl db
    | ok d => exact stmt_insert hi
  | insertCoordinator t =>
    refine hone ?_
    show Stmt db (db.committed ((db.insertCoordinator t).map Prod.fst))
    cases hi : db.insertCoordinator t with
    | error e => exact .refl db
    | ok out => exact stmt_insertCoordinator hi
  | replace expected t =>
    cases hr : db.replace expected t with
    | error e =>
      simp only [moments, next, hr]
      exact hone (.refl db)
    | ok out =>
      obtain ⟨d, removed⟩ := out
      rcases replace_cases hr with ⟨rfl, hd⟩ | ⟨rfl, hd⟩
      · simp only [moments, next, hr]
        have hsame : d = db := hd
        rw [hsame]
        exact hone (.refl db)
      · simp only [moments, next, hr]
        exact isChain_cons_cons.mpr ⟨stmt_deleteWhere db _,
          isChain_cons_cons.mpr ⟨stmt_insert hd, isChain_singleton _⟩⟩
  | reinforce id t => exact hone (stmt_updateWhere db _ fun c => ⟨rfl, rfl⟩)
  | delete id | deleteExpired now => exact hone (stmt_deleteWhere db _)
  | decayAndCollect step cut =>
    refine isChain_cons_cons.mpr ⟨stmt_updateWhere db _ fun c => ⟨rfl, rfl⟩,
      isChain_cons_cons.mpr ⟨?_, isChain_singleton _⟩⟩
    cases cut with
    | true => exact .refl _
    | false => exact stmt_deleteWhere (db.decay step) _
  | acceptSdlcSignal g acceptedAt rollbackInjection =>
    cases hr : db.acceptSdlcSignal g acceptedAt rollbackInjection with
    | error e =>
      simp only [moments, next, hr]
      exact hone (.refl db)
    | ok out =>
      rcases acceptSdlcSignal_cases hr with ⟨hany, hd⟩ |
        ⟨hany, db₁, db₂, db₃, db₄, h₁, h₂, h₃, h₄, htuples, hsame⟩
      · simp only [moments, next, hr, hany, if_true]
        show List.IsChain Stmt [db, out.1]
        rw [hd]
        exact hone (.refl db)
      · have hmoments : db.moments (.acceptSdlcSignal g acceptedAt rollbackInjection) =
            [db₁, db₂, db₃, db₄, out.1] := by
          simp only [moments, next, hr, hany, Bool.false_eq_true, if_false, sdlcMoments, h₁, h₂,
            h₃, h₄]
          rfl
        rw [hmoments]
        exact isChain_cons_cons.mpr ⟨stmt_insert h₁, isChain_cons_cons.mpr ⟨stmt_writeFact h₂,
            isChain_cons_cons.mpr ⟨stmt_writeCurrent h₃,
              isChain_cons_cons.mpr ⟨stmt_writeTransition h₄,
                isChain_cons_cons.mpr ⟨stmt_aside htuples hsame, isChain_singleton _⟩⟩⟩⟩⟩
  | reopen reader =>
    refine hone ?_
    show Stmt db (db.openStore reader).1
    rw [openStore_settled h.settled reader]
    exact stmt_aside rfl ⟨rfl, rfl, rfl, rfl, rfl, rfl, rfl⟩
  | fails => exact hone (.refl db)

theorem moments_last (db : Database) (a : Action) :
    ∃ before, db.moments a = before ++ [db.next a] := by
  cases a with
  | insert t | insertCoordinator t | reinforce id t | delete id | deleteExpired now
  | reopen reader | fails => exact ⟨[], rfl⟩
  | replace expected t =>
    simp only [moments]
    split
    · exact ⟨[_], rfl⟩
    · exact ⟨[], rfl⟩
  | decayAndCollect step cut => exact ⟨[_], rfl⟩
  | acceptSdlcSignal g acceptedAt rollbackInjection =>
    simp only [moments]
    split
    · exact ⟨[], rfl⟩
    · split
      · exact ⟨[], rfl⟩
      · exact ⟨_, rfl⟩

/-- Along a chain of statements every database has a whole journal that continues the
first. -/
theorem journal_of_chain (h : Journal db n) {ds : List Database}
    (hchain : List.IsChain Stmt (db :: ds)) :
    ∀ d ∈ ds, (∃ n', Journal d n') ∧ Continues db d := by
  induction ds generalizing db n with
  | nil =>
    intro d hd
    cases hd
  | cons m ds ih =>
    obtain ⟨hs, hrest⟩ := isChain_cons_cons.mp hchain
    obtain ⟨⟨n', hm⟩, hcont⟩ := hs.keeps_journal h
    intro d hd
    rcases mem_cons.mp hd with rfl | hd
    · exact ⟨⟨n', hm⟩, hcont⟩
    · obtain ⟨hj, hcont'⟩ := ih hm hrest d hd
      exact ⟨hj, hcont.trans hcont'⟩

theorem journal_next (h : Journal db n) (a : Action) :
    (∃ n', Journal (db.next a) n') ∧ Continues db (db.next a) := by
  obtain ⟨before, hb⟩ := moments_last db a
  refine journal_of_chain h (moments_chain h a) _ ?_
  rw [hb]
  exact mem_concat_self

theorem journal_run (h : Journal db n) {as : List Action} (hrun : Lib.run step db as = some db') :
    (∃ n', Journal db' n') ∧ Continues db db' := by
  refine Lib.run_invariant (I := fun d => (∃ n', Journal d n') ∧ Continues db d) ?_
    ⟨⟨n, h⟩, .refl db⟩ hrun
  intro d a d' hd hs
  obtain ⟨⟨m, hm⟩, hcont⟩ := hd
  cases hs
  obtain ⟨hj, hcont'⟩ := journal_next hm a
  exact ⟨hj, hcont.trans hcont'⟩

/-- The journal of a store, as a reader of the file sees it: sequences exactly 1 up to the
counter, every live row under a journal row of its id, no two live rows under one sequence,
and a validation that succeeds. -/
structure Whole (db : Database) : Prop where
  counted : ∃ st, db.sequenceState = some st ∧
    ∃ n : Nat, st.lastSequence = n ∧ Database.sequences db.events = numbers n ∧
      db.validateSequenceJournal = .ok st.lastSequence
  live : ∀ r ∈ db.tuples, ∃ e ∈ db.events, r.commitSequence = some e.commitSequence ∧
    e.columns.id = r.columns.id
  distinct : db.tuples.Pairwise fun r r' => r.commitSequence ≠ r'.commitSequence

theorem Journal.whole (h : Journal db n) : Whole db := by
  refine ⟨⟨_, h.state, n, rfl, h.sequences, h.valid⟩, ?_, ?_⟩
  · intro r hr
    obtain ⟨e, he, hseq, hid, -⟩ := h.live r hr
    exact ⟨e, he, hseq, hid⟩
  · refine (pairwise_filterMap.mp h.distinct).imp_of_mem ?_
    intro r r' hr hr' hne heq
    obtain ⟨e, -, hseq, -⟩ := h.live r hr
    exact hne _ hseq _ (by rw [← heq, hseq]) rfl

/-- Over every run from a new file the journal is whole in every state reached, and a later
state continues an earlier one: journal rows never change, and a sequence once given out is
never found on another row. -/
theorem journal_whole {as bs : List Action} {s s' : Database}
    (hs : Lib.run step fresh as = some s) (hs' : Lib.run step s bs = some s') :
    Whole s ∧ Whole s' ∧ Continues s s' := by
  obtain ⟨⟨n, hn⟩, -⟩ := journal_run journal_fresh hs
  obtain ⟨⟨n', hn'⟩, hcont⟩ := journal_run hn hs'
  exact ⟨hn.whole, hn'.whole, hcont⟩

theorem journal_whole_reopened :
    ∃ s s', Lib.run step fresh [.insert (epochTuple 7), .insert (epochTuple 7),
        .delete 7, .insert (epochTuple 3)] = some s ∧
      Lib.run step s [.reopen epochReader, .replace 3 (epochTuple 9)] = some s' ∧
        Whole s ∧ Whole s' ∧ Continues s s' :=
  ⟨_, _, rfl, rfl, @journal_whole [.insert (epochTuple 7), .insert (epochTuple 7), .delete 7,
    .insert (epochTuple 3)] [.reopen epochReader, .replace 3 (epochTuple 9)] _ _ rfl rfl⟩

end Database

end RatKingdom.Space
