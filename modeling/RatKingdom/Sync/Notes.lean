/-
Replication over git notes: signed records, per-actor refs and the union a reader
computes from them.

A ref is the list of its lines, in order; a line that does not parse is `none`.  The
fetched refs of all actors live under `refs/notes/rk-remote`, the writer's own under
`refs/notes/rk`, and git enumerates them by name, so the fetched ones come first.
-/
import RatKingdom.Core.Tuple
import RatKingdom.Lib.Collect

namespace RatKingdom.Sync

open Core Lib Std List

inductive SyncOp where
  | out (tuple : Tuple)
  | take (tupleId : RecordId)

/-- What a signature covers: the id, the timestamp and the op. -/
abbrev Message := RecordId × DateTime × SyncOp

structure SyncRecord where
  id : RecordId
  actor : String
  pubkey : String
  sig : String
  writtenAt : DateTime
  op : SyncOp

/-- What lies outside the repository: decoding a hex public key into the hex of its bytes,
checking a hex signature, and parsing the text of a double, which `serde_json` does to
another double at times. -/
structure Ed25519 where
  verifyingKey : String → Option String
  verify : String → String → Message → Bool
  reads : String → String := id

def actorHexLen : Nat := 16

def actorFromPubkey (key : String) : String :=
  "castle-" ++ String.ofList (key.toList.take actorHexLen)

def actorFromPubkeyHex (c : Ed25519) (pubkeyHex : String) : Option String :=
  (c.verifyingKey pubkeyHex).map actorFromPubkey

def verifySig (c : Ed25519) (pubkeyHex sigHex : String) (msg : Message) : Bool :=
  match c.verifyingKey pubkeyHex with
  | none => false
  | some key => c.verify key sigHex msg

def SyncRecord.verify (c : Ed25519) (r : SyncRecord) : Bool :=
  match actorFromPubkeyHex c r.pubkey with
  | none => false
  | some a => decide (a = r.actor) && verifySig c r.pubkey r.sig (r.id, r.writtenAt, r.op)

structure CastleIdentity (c : Ed25519) where
  key : String
  publicKeyHex : String
  sign : Message → String
  decodes : c.verifyingKey publicKeyHex = some key
  signs : ∀ m, c.verify key (sign m) m = true

def CastleIdentity.actor {c : Ed25519} (i : CastleIdentity c) : String := actorFromPubkey i.key

/-- `SyncRecord::signed`, with the id and the clock made explicit. -/
def SyncRecord.signed {c : Ed25519} (i : CastleIdentity c) (id : RecordId) (now : DateTime)
    (op : SyncOp) : SyncRecord :=
  { id, actor := i.actor, pubkey := i.publicKeyHex, sig := i.sign (id, now, op), writtenAt := now, op }

def SyncOp.reread (c : Ed25519) : SyncOp → SyncOp
  | .out t => .out { t with payload := t.payload.reread c.reads }
  | .take id => .take id

/-- The record a line is parsed as.  The strength of a tuple that leaves a castle is
`fullStrength`, which is read as itself. -/
def SyncRecord.reread (c : Ed25519) (r : SyncRecord) : SyncRecord :=
  { r with op := r.op.reread c }

/-- The doubles of the payload are parsed as themselves. -/
def Ed25519.exact (c : Ed25519) (t : Tuple) : Bool := t.payload.doubles.all fun d => c.reads d = d

variable {c : Ed25519}

theorem SyncRecord.reread_of_take {r : SyncRecord} {id : RecordId} (h : r.op = .take id) :
    r.reread c = r := by
  cases r
  cases h
  rfl

theorem SyncRecord.reread_of_out {r : SyncRecord} {t : Tuple} (h : r.op = .out t)
    (ht : c.exact t = true) : r.reread c = r := by
  simp only [Ed25519.exact, all_eq_true, decide_eq_true_eq] at ht
  cases r
  cases h
  simp only [SyncRecord.reread, SyncOp.reread, t.payload.reread_eq ht]

theorem SyncRecord.reread_op_take {r : SyncRecord} {id : RecordId} :
    (r.reread c).op = .take id ↔ r.op = .take id := by
  unfold SyncRecord.reread
  cases r.op <;> simp [SyncOp.reread]

@[simp] theorem SyncRecord.signed_verify (i : CastleIdentity c) (id : RecordId) (now : DateTime)
    (op : SyncOp) : (SyncRecord.signed i id now op).verify c = true := by
  simp [SyncRecord.verify, SyncRecord.signed, actorFromPubkeyHex, verifySig, i.decodes, i.signs,
    CastleIdentity.actor]

abbrev Line := Option SyncRecord

/-- A namespace of refs, keyed by the actor their name ends in. -/
abbrev Refs := ExtTreeMap String (List Line)

/-- The refs of one sync repository: `refs/notes/rk/*` and `refs/notes/rk-remote/*`. -/
structure Repo where
  notes : Refs
  tracking : Refs

def notesLocalPrefix : String := "refs/notes/rk"
def notesRemotePrefix : String := "refs/notes/rk-remote"

def refName (p actor : String) : String := p ++ "/" ++ actor

/-- `for-each-ref` over both namespaces. -/
def Repo.allRefs (r : Repo) : List (String × List Line) :=
  r.tracking.toList.map (fun p => (refName notesRemotePrefix p.1, p.2)) ++
    r.notes.toList.map fun p => (refName notesLocalPrefix p.1, p.2)

def recordsInRef (c : Ed25519) (lines : List Line) : List SyncRecord :=
  lines.filterMap fun l => l.filter fun r => r.verify c

def Repo.records (c : Ed25519) (r : Repo) : List SyncRecord :=
  r.allRefs.flatMap fun p => recordsInRef c p.2

variable {r : SyncRecord}

theorem mem_recordsInRef {lines : List Line} :
    r ∈ recordsInRef c lines ↔ some r ∈ lines ∧ r.verify c = true := by
  simp only [recordsInRef, mem_filterMap, Option.filter_eq_some_iff]
  constructor
  · intro h
    obtain ⟨l, hl, rfl, hv⟩ := h
    exact ⟨hl, hv⟩
  · intro h
    exact ⟨some r, h.1, rfl, h.2⟩

theorem recordsInRef_own (l : List SyncRecord) :
    recordsInRef c (l.map some) = l.filter fun r => r.verify c := by
  rw [recordsInRef, filterMap_map, ← filterMap_eq_filter]
  rfl

theorem recordsInRef_map_some {l : List SyncRecord} (h : ∀ r ∈ l, r.verify c = true) :
    recordsInRef c (l.map some) = l := by
  rw [recordsInRef_own]
  exact filter_eq_self.mpr h

variable {repo : Repo}

theorem mem_records :
    r ∈ repo.records c ↔ r.verify c = true ∧ ∃ (refs : Refs) (actor : String) (lines : List Line),
      (refs = repo.tracking ∨ refs = repo.notes) ∧ refs[actor]? = some lines ∧ some r ∈ lines := by
  simp only [Repo.records, Repo.allRefs, mem_flatMap, mem_append, mem_map,
    Prod.exists, mem_recordsInRef]
  constructor
  · intro h
    obtain ⟨name, lines, ⟨a, l, hm, he⟩ | ⟨a, l, hm, he⟩, hr, hv⟩ := h
    · cases he
      exact ⟨hv, repo.tracking, a, lines, .inl rfl,
        ExtTreeMap.mem_toList_iff_getElem?_eq_some.mp hm, hr⟩
    · cases he
      exact ⟨hv, repo.notes, a, lines, .inr rfl,
        ExtTreeMap.mem_toList_iff_getElem?_eq_some.mp hm, hr⟩
  · intro h
    obtain ⟨hv, refs, a, lines, rfl | rfl, hm, hr⟩ := h
    · exact ⟨_, lines, .inl ⟨a, lines, ExtTreeMap.mem_toList_iff_getElem?_eq_some.mpr hm, rfl⟩,
        hr, hv⟩
    · exact ⟨_, lines, .inr ⟨a, lines, ExtTreeMap.mem_toList_iff_getElem?_eq_some.mpr hm, rfl⟩,
        hr, hv⟩

def materialize (c : Ed25519) (r : Repo) : List SyncRecord :=
  collected SyncRecord.id (fun x => x) (r.records c)

abbrev IdSet := ExtTreeMap RecordId Unit

/-- Every tuple that was ever written, by id, and the ids a take consumed. -/
structure LogView where
  tuples : ExtTreeMap RecordId Tuple
  taken : IdSet

def LogView.add (v : LogView) (r : SyncRecord) : LogView :=
  match r.op with
  | .out t => { v with tuples := v.tuples.insert t.id t }
  | .take id => { v with taken := v.taken.insert id () }

def readLog (c : Ed25519) (r : Repo) : LogView := (materialize c r).foldl LogView.add ⟨∅, ∅⟩

def outOf (r : SyncRecord) : Option Tuple :=
  match r.op with
  | .out t => some t
  | .take _ => none

def takeOf (r : SyncRecord) : Option RecordId :=
  match r.op with
  | .out _ => none
  | .take id => some id

theorem foldl_add (l : List SyncRecord) :
    l.foldl LogView.add ⟨∅, ∅⟩ = ⟨collect Tuple.id (fun t => t) (l.filterMap outOf),
        collect (fun id : RecordId => id) (fun _ => ()) (l.filterMap takeOf)⟩ := by
  induction l using List.reverseRecOn with
  | nil => rfl
  | append_singleton l r ih =>
    rw [foldl_append, ih, filterMap_append, filterMap_append]
    simp only [foldl_cons, foldl_nil, LogView.add]
    cases hop : r.op with
    | out t | take id => simp [outOf, takeOf, hop, collect_concat]

theorem readLog_eq (c : Ed25519) (r : Repo) :
    readLog c r = ⟨collect Tuple.id (fun t => t) ((materialize c r).filterMap outOf),
        collect (fun id : RecordId => id) (fun _ => ()) ((materialize c r).filterMap takeOf)⟩ :=
  foldl_add _

theorem mem_records_of_materialize (h : r ∈ materialize c repo) : r ∈ repo.records c := by
  obtain ⟨k, hk⟩ := mem_collected.mp h
  obtain ⟨x, hx, -, rfl⟩ := exists_of_getElem?_collect hk
  exact hx

theorem mem_materialize_of_unique (h : r ∈ repo.records c)
    (huniq : ∀ r' ∈ repo.records c, r'.id = r.id → r' = r) :
    r ∈ materialize c repo := by
  have hget : (collect SyncRecord.id (fun x => x) (repo.records c))[r.id]? = some r :=
    getElem?_collect_of_agree h huniq
  exact mem_collected.mpr ⟨r.id, hget⟩

theorem outOf_eq_some {t : Tuple} : outOf r = some t ↔ r.op = .out t := by
  unfold outOf
  cases r.op <;> simp

variable {id : RecordId}

theorem takeOf_eq_some : takeOf r = some id ↔ r.op = .take id := by
  unfold takeOf
  cases r.op <;> simp

theorem mem_taken : id ∈ (readLog c repo).taken ↔ ∃ r ∈ materialize c repo, r.op = .take id := by
  rw [readLog_eq]
  simp only [mem_collect, mem_filterMap, takeOf_eq_some]
  constructor
  · intro h
    obtain ⟨x, ⟨r, hr, hop⟩, rfl⟩ := h
    exact ⟨r, hr, hop⟩
  · intro h
    obtain ⟨r, hr, hop⟩ := h
    exact ⟨id, ⟨r, hr, hop⟩, rfl⟩

theorem mem_tuples :
    id ∈ (readLog c repo).tuples ↔ ∃ r ∈ materialize c repo, ∃ t, r.op = .out t ∧ t.id = id := by
  rw [readLog_eq]
  simp only [mem_collect, mem_filterMap, outOf_eq_some]
  constructor
  · intro h
    obtain ⟨t, ⟨r, hr, hop⟩, hid⟩ := h
    exact ⟨r, hr, t, hop, hid⟩
  · intro h
    obtain ⟨r, hr, t, hop, hid⟩ := h
    exact ⟨t, ⟨r, hr, hop⟩, hid⟩

theorem exists_out_of_tuples {t : Tuple} (h : (readLog c repo).tuples[id]? = some t) :
    t.id = id ∧ ∃ r ∈ materialize c repo, r.op = .out t := by
  rw [readLog_eq] at h
  obtain ⟨x, hx, hid, rfl⟩ := exists_of_getElem?_collect h
  obtain ⟨r, hr, hop⟩ := mem_filterMap.mp hx
  exact ⟨hid, r, hr, outOf_eq_some.mp hop⟩

/-- The winners so far, by (scope, identity). -/
abbrev Winners := String × String → Option (RecordId × String)

def notAfter (a b : RecordId × String) : Bool :=
  decide (a.1 < b.1) || (decide (a.1 = b.1) && decide (a.2 ≤ b.2))

def contend (w : Winners) (t : Tuple) : Winners :=
  if t.category ≠ .claim then w
  else
    match w (t.scope, t.identity) with
    | some current =>
      if notAfter current (t.id, t.inst) then w
      else Function.update w (t.scope, t.identity) (some (t.id, t.inst))
    | none => Function.update w (t.scope, t.identity) (some (t.id, t.inst))

def arbitrateClaims (tuples : List Tuple) : List Tuple :=
  let winners := tuples.foldl contend fun _ => none
  tuples.filter fun t =>
    if t.category ≠ .claim then true
    else
      match winners (t.scope, t.identity) with
      | some (id, inst) => decide (t.id = id) && decide (t.inst = inst)
      | none => true

def LogView.survivors (v : LogView) : List Tuple :=
  (v.tuples.toList.filter fun p => !v.taken.contains p.1).map Prod.snd

def materializeTuples (c : Ed25519) (r : Repo) : List Tuple :=
  arbitrateClaims (readLog c r).survivors

/-- What compaction keeps: an `Out` nobody took, a `Take` whose `Out` is in the union. -/
def LogView.keeps (v : LogView) (r : SyncRecord) : Bool :=
  match r.op with
  | .out t => !v.taken.contains t.id
  | .take id => v.tuples.contains id

/-! ## Every reader's view

Two castles that hold the same authentic records, in whatever refs, order and number
of copies, are compared here. -/

def SameRecords (c : Ed25519) (a b : Repo) : Prop := ∀ r, r ∈ a.records c ↔ r ∈ b.records c

def NoConflict (records : List SyncRecord) : Prop :=
  ∀ r ∈ records, ∀ r' ∈ records, r.id = r'.id → r.op = r'.op

def mergedOps (c : Ed25519) (r : Repo) : List (RecordId × SyncOp) :=
  (collect SyncRecord.id SyncRecord.op (r.records c)).toList

theorem materialize_ops (c : Ed25519) (r : Repo) :
    (materialize c r).map SyncRecord.op = (mergedOps c r).map Prod.snd :=
  collected_map SyncRecord.op (r.records c)

theorem filterMap_op {β : Type} (f : SyncOp → Option β) (l : List SyncRecord) :
    l.filterMap (fun r => f r.op) = (l.map SyncRecord.op).filterMap f := by
  rw [filterMap_map]
  rfl

theorem readLog_congr {a b : Repo} (h : mergedOps c a = mergedOps c b) :
    readLog c a = readLog c b := by
  have hops : (materialize c a).map SyncRecord.op = (materialize c b).map SyncRecord.op := by
    rw [materialize_ops, materialize_ops, h]
  have hpart : ∀ {β : Type} (f : SyncOp → Option β), (materialize c a).filterMap (fun r => f r.op) =
        (materialize c b).filterMap fun r => f r.op := by
    intro β f
    rw [filterMap_op, filterMap_op, hops]
  rw [readLog_eq, readLog_eq]
  congr 2
  · exact hpart fun op => match op with | .out t => some t | .take _ => none
  · exact hpart fun op => match op with | .out _ => none | .take id => some id

theorem mergedOps_eq {a b : Repo} (hsame : SameRecords c a b) (h : NoConflict (a.records c)) :
    mergedOps c a = mergedOps c b := by
  rw [mergedOps, mergedOps, collect_congr hsame fun r hr r' hr' he => h r hr r' hr' he]

def oneRef (records : List SyncRecord) (last : SyncRecord) : Repo :=
  { notes := (∅ : Refs).insert "castle" ((records ++ [last]).map some), tracking := ∅ }

theorem records_oneRef {records : List SyncRecord} {last : SyncRecord}
    (h : ∀ r ∈ records, r.verify c = true) (hl : last ∈ records) :
    (oneRef records last).records c = records ++ [last] := by
  have hv : ∀ r ∈ records ++ [last], r.verify c = true := by
    intro r hr
    rcases mem_append.mp hr with hr | hr
    · exact h r hr
    · rw [mem_singleton.mp hr]
      exact h last hl
  have hrefs : (oneRef records last).allRefs =
      [(refName notesLocalPrefix "castle", (records ++ [last]).map some)] := rfl
  rw [Repo.records, hrefs, flatMap_singleton, recordsInRef_map_some hv]

theorem verify_of_mem_records (h : r ∈ repo.records c) : r.verify c = true := (mem_records.mp h).1

/-- The castles that hold the records of `a` agree on the merged log exactly when no
record id among them stands for two ops, and then they agree on the view. -/
theorem view_agrees_iff (c : Ed25519) (a : Repo) :
    (NoConflict (a.records c) ↔
      ∀ b b', SameRecords c a b → SameRecords c a b' → mergedOps c b = mergedOps c b') ∧
    (NoConflict (a.records c) →
      ∀ b, SameRecords c a b → materializeTuples c b = materializeTuples c a) := by
  refine ⟨⟨?_, ?_⟩, ?_⟩
  · intro h b b' hb hb'
    rw [← mergedOps_eq hb h, ← mergedOps_eq hb' h]
  · intro h r hr r' hr' hid
    -- Two castles that read the records in an order that ends in `r`, and in `r'`.
    have hv : ∀ x ∈ a.records c, x.verify c = true := fun x hx => verify_of_mem_records hx
    have hsame : ∀ {x}, x ∈ a.records c → SameRecords c a (oneRef (a.records c) x) := by
      intro x hx y
      rw [records_oneRef hv hx]
      constructor
      · exact fun hy => mem_append_left _ hy
      · intro hy
        rcases mem_append.mp hy with hy | hy
        · exact hy
        · rw [mem_singleton.mp hy]
          exact hx
    have hops : collect SyncRecord.id SyncRecord.op (a.records c ++ [r]) =
        collect SyncRecord.id SyncRecord.op (a.records c ++ [r']) := by
      have heq := h _ _ (hsame hr) (hsame hr')
      rw [mergedOps, mergedOps, records_oneRef hv hr, records_oneRef hv hr'] at heq
      exact ExtTreeMap.toList_inj.mp heq
    have hlook : (collect SyncRecord.id SyncRecord.op (a.records c ++ [r]))[r.id]? =
        (collect SyncRecord.id SyncRecord.op (a.records c ++ [r']))[r.id]? := by rw [hops]
    rw [getElem?_collect_concat, getElem?_collect_concat, if_pos rfl, if_pos hid.symm] at hlook
    exact Option.some.inj hlook
  · intro h b hb
    rw [materializeTuples, materializeTuples, readLog_congr (mergedOps_eq hb h)]

def namedScheme : Ed25519 where
  verifyingKey := some
  verify key sig msg := sig = key ++ "/" ++ toString msg.1

def namedIdentity (key : String) : CastleIdentity namedScheme where
  key := key
  publicKeyHex := key
  sign msg := key ++ "/" ++ toString msg.1
  decodes := rfl
  signs _ := decide_eq_true rfl

def leftRecord : SyncRecord :=
  .signed (namedIdentity "aaaaaaaaaaaaaaaaaaaa") 7 0
    (.out (Tuple.new 1 0 .fact "repo" "left" "a" .null))

def rightRecord : SyncRecord :=
  .signed (namedIdentity "bbbbbbbbbbbbbbbbbbbb") 7 0
    (.out (Tuple.new 2 0 .fact "repo" "right" "b" .null))

def leftCastle : Repo :=
  { notes := (∅ : Refs).insert leftRecord.actor [some leftRecord]
    tracking := (∅ : Refs).insert rightRecord.actor [some rightRecord] }

def rightCastle : Repo :=
  { notes := (∅ : Refs).insert rightRecord.actor [some rightRecord]
    tracking := (∅ : Refs).insert leftRecord.actor [some leftRecord] }

theorem shared_record_id_splits_views :
    SameRecords namedScheme leftCastle rightCastle ∧
      materializeTuples namedScheme leftCastle ≠ materializeTuples namedScheme rightCastle := by
  constructor
  · have hl : leftCastle.records namedScheme = [rightRecord, leftRecord] := rfl
    have hr : rightCastle.records namedScheme = [leftRecord, rightRecord] := rfl
    intro r
    rw [hl, hr]
    simp only [mem_cons, not_mem_nil, or_false]
    exact Or.comm
  · intro h
    have hids := congrArg (List.map Tuple.id) h
    revert hids
    decide +kernel

end RatKingdom.Sync
