/-
The sync cycle of one castle.

`Site` is what survives a restart: the space, the castle's own notes ref, the fetched
refs, and the cursor and presence files.  Tuples and records stand as their rows and lines
are parsed.  A cycle reads and writes these at different
moments, with other calls on the space in between, so it is a machine over `Phase`:
each `Label` is one of its steps, a step of the space, an error that ends the cycle, or
a crash.
-/
import RatKingdom.Space.Handoff
import RatKingdom.Sync.Notes

namespace RatKingdom.Sync

open Core Lib Space Std

/-- A castle: its key pair, the label it authors tuples under, and whether a remote is
configured. -/
structure Castle (c : Ed25519) where
  identity : CastleIdentity c
  label : String
  remoteConfigured : Bool

structure Site where
  space : Inner
  own : List SyncRecord
  tracking : Refs
  cursor : Option Nat
  presence : List RecordId

variable {c : Ed25519}

def Site.repo (k : Castle c) (s : Site) : Repo :=
  { notes := (∅ : Refs).insert k.identity.actor (s.own.map some), tracking := s.tracking }

def Site.log (k : Castle c) (s : Site) : LogView := readLog c (s.repo k)

def castlePresence : String := "castle_presence"

def announcement (k : Castle c) (tupleId recordId : RecordId) (now : DateTime) : SyncRecord :=
  .signed k.identity recordId now (.out (Tuple.new tupleId now .fact systemScope castlePresence k.label
    (.object [("castle", .string k.label), ("since", .string (DateTime.toRfc3339 now))])))

def Site.fresh (k : Castle c) (tupleId recordId : RecordId) (now : DateTime) : Site :=
  { space := .empty, own := [announcement k tupleId recordId now], tracking := ∅
    cursor := none, presence := [] }

def liveIds (s : Store) : List RecordId :=
  ((s.query Pattern.any false none).filter fun r => r.tuple.lifecycle ≠ .ephemeral).map fun r =>
    r.tuple.id

def ours (k : Castle c) (delta : Store.PersistenceDelta) (live : List RecordId) : List Tuple :=
  delta.tuples.filter fun t =>
    t.lifecycle ≠ .ephemeral && t.inst = k.label && live.contains t.id

def LogView.aliveInLog (v : LogView) : List RecordId :=
  (v.tuples.toList.filter fun p => !v.taken.contains p.1).map Prod.fst

def LogView.missing (v : LogView) (live : List RecordId) : List RecordId :=
  v.aliveInLog.filter fun id => !live.contains id

def syntheticCastlePresence (t : Tuple) : Bool :=
  t.scope = systemScope && t.identity = castlePresence

def observedLocally (k : Castle c) (store : Store) (prevKnown : List RecordId)
    (delta : Store.PersistenceDelta) (id : RecordId) (t : Tuple) : Bool :=
  prevKnown.contains id || (delta.tuples.any fun u => u.id = id) || store.hasPersistenceEvent id ||
    (t.inst = k.label && !syntheticCastlePresence t)

abbrev Stamp := RecordId × DateTime

def outRecord (k : Castle c) (stamp : Stamp) (t : Tuple) : SyncRecord :=
  .signed k.identity stamp.1 stamp.2 (.out t)

def takeRecord (k : Castle c) (stamp : Stamp) (id : RecordId) : SyncRecord :=
  .signed k.identity stamp.1 stamp.2 (.take id)

def syncFailure (k : Castle c) (id : RecordId) (now : DateTime) (error : String) : Tuple :=
  (Tuple.new id now .obstacle systemScope "sync_failure" k.label
    (.object [("error", .string error)])).intoTrail defaultTrailTtl now

def Site.compact (k : Castle c) (s : Site) : Site :=
  let view := s.log k
  let own := recordsInRef c (s.own.map some)
  let kept := own.filter view.keeps
  if own.length - kept.length > 0 then { s with own := kept.map (.reread c) } else s

structure Capture where
  cursor : Nat
  delta : Store.PersistenceDelta

/-- The locals after the scan.  `scanned` is the store the scan read. -/
structure Scan extends Capture where
  live : List RecordId
  outs : List SyncRecord
  scanned : Store

/-- The locals of the take-detection loop. -/
structure Collect extends Scan where
  view : LogView
  prevKnown : List RecordId
  pending : List RecordId
  takes : List (SyncRecord × Tuple)

inductive Phase where
  | idle
  | captured (l : Capture)
  | scanned (l : Scan)
  | collecting (l : Collect)
  | appended (l : Collect)
  | syncing (l : Collect)
  | pushing (l : Collect)
  | failing (l : Collect)
  | viewing (l : Collect)
  | importing (view : LogView) (pending : List (RecordId × Tuple))
  | deleting (pending : List RecordId)
  | ending
  | ended (live : List RecordId)
  | compacting

/-- A castle in the middle of its cycle.  `takes` is the history of exported takes with
the tuple of the log each was for, `resurrected` that of imports of an id that had been
stored here before and was gone. -/
structure State where
  site : Site
  phase : Phase
  takes : List (RecordId × Tuple)
  resurrected : List RecordId

def State.fresh (k : Castle c) (tupleId recordId : RecordId) (now : DateTime) : State :=
  { site := .fresh k tupleId recordId now, phase := .idle, takes := [], resurrected := [] }

inductive Label where
  | space (op : Op)
  | next
  | scan (stamps : List Stamp)
  | collect (stamp : Stamp)
  | fetch (refs : Refs)
  | unreachable | push | pushFailed
  | obstacle (id : RecordId) (now : DateTime) (error : String)
  /-- A step fails and the cycle returns its error. -/
  | stop | crash

def freshStamps (own : List SyncRecord) (stamps : List Stamp) : Bool :=
  decide (stamps.map Prod.fst).Nodup && stamps.all fun st => own.all fun r => r.id ≠ st.1

def Site.captureDelta (s : Site) : Option Capture :=
  match s.space.store.persistenceDelta (some (s.cursor.getD 0)) with
  | .error _ => none
  | .ok delta => some { cursor := s.cursor.getD 0, delta }

def Site.scan (k : Castle c) (s : Site) (l : Capture) (stamps : List Stamp) : Scan :=
  let live := liveIds s.space.store
  { l with
    live
    outs := (stamps.zip (ours k l.delta live)).map fun p => outRecord k p.1 p.2
    scanned := s.space.store }

def Site.beginCollect (k : Castle c) (s : Site) (l : Scan) : Collect :=
  let view := s.log k
  { l with view, prevKnown := s.presence, pending := view.missing l.live, takes := [] }

/-- One turn of the take-detection loop. -/
def Site.collectOne (k : Castle c) (s : Site) (l : Collect) (id : RecordId)
    (rest : List RecordId) (stamp : Stamp) : Collect :=
  match l.view.tuples[id]? with
  | none => { l with pending := rest }
  | some t =>
    if observedLocally k s.space.store l.prevKnown l.delta id t then
      { l with pending := rest, takes := l.takes ++ [(takeRecord k stamp id, t)] }
    else { l with pending := rest }

def Collect.records (l : Collect) : List SyncRecord := l.outs ++ l.takes.map Prod.fst

def Site.importOne (k : Castle c) (s : Site) (view : LogView) (id : RecordId) (t : Tuple) :
    Except Error (Site × Bool) :=
  if view.taken.contains id || t.inst = k.label then .ok (s, false)
  else
    match s.space.outIfNew t with
    | .error e => .error e
    | .ok (space, new) => .ok ({ s with space }, new)

/-- The steps that need no choice of the environment. -/
def State.next (k : Castle c) (s : State) : Option State :=
  match s.phase with
  | .idle =>
    match s.site.captureDelta with
    | none => some { s with phase := .idle }
    | some l => some { s with phase := .captured l }
  | .captured _ => none
  | .scanned l => some { s with phase := .collecting (s.site.beginCollect k l) }
  | .collecting l =>
    match l.pending with
    | _ :: _ => none
    | [] =>
      some { s with
        site := { s.site with own := s.site.own ++ l.records.map (.reread c) }
        takes := s.takes ++ l.takes.map fun p => (p.2.id, p.2)
        phase := .appended l }
  | .appended l =>
    some { s with
      site := if l.delta.boundary > l.cursor then { s.site with cursor := some l.delta.boundary }
        else s.site
      phase := .syncing l }
  | .syncing l => if k.remoteConfigured then none else some { s with phase := .viewing l }
  | .pushing _ => none
  | .failing _ => none
  | .viewing _ =>
    some { s with phase := .importing (s.site.log k) (s.site.log k).tuples.toList }
  | .importing view ((id, t) :: rest) =>
    match s.site.importOne k view id t with
    | .error _ => some { s with phase := .idle }
    | .ok (site, new) =>
      some { s with
        site
        resurrected :=
          if new && s.site.space.store.hasPersistenceEvent id then s.resurrected ++ [id]
          else s.resurrected
        phase := .importing view rest }
  | .importing view [] => some { s with phase := .deleting (view.taken.toList.map Prod.fst) }
  | .deleting (id :: rest) =>
    some { s with
      site := { s.site with space := (s.site.space.delete id).1 }
      phase := .deleting rest }
  | .deleting [] => some { s with phase := .ending }
  | .ending => some { s with phase := .ended (liveIds s.site.space.store) }
  | .ended live => some { s with site := { s.site with presence := live }, phase := .compacting }
  | .compacting => some { s with site := s.site.compact k, phase := .idle }

def State.step (k : Castle c) (s : State) : Label → Option State
  | .space op => (s.site.space.step op).map fun space => { s with site := { s.site with space } }
  | .next => s.next k
  | .scan stamps =>
    match s.phase with
    | .captured l =>
      if stamps.length = (ours k l.delta (liveIds s.site.space.store)).length &&
          freshStamps s.site.own stamps then
        some { s with phase := .scanned (s.site.scan k l stamps) }
      else none
    | _ => none
  | .collect stamp =>
    match s.phase with
    | .collecting l =>
      match l.pending with
      | [] => none
      | id :: rest =>
        if freshStamps (s.site.own ++ l.records) [stamp] then
          some { s with phase := .collecting (s.site.collectOne k l id rest stamp) }
        else none
    | _ => none
  | .fetch refs =>
    match s.phase with
    | .syncing l =>
      if k.remoteConfigured then
        some { s with
          site := { s.site with tracking := s.site.tracking ∪ refs }
          phase := .pushing l }
      else none
    | _ => none
  | .unreachable =>
    match s.phase with
    | .syncing l => if k.remoteConfigured then some { s with phase := .failing l } else none
    | _ => none
  | .push =>
    match s.phase with
    | .pushing l => some { s with phase := .viewing l }
    | _ => none
  | .pushFailed =>
    match s.phase with
    | .pushing l => some { s with phase := .failing l }
    | _ => none
  | .obstacle id now error =>
    match s.phase with
    | .failing l =>
      match s.site.space.out (syncFailure k id now error) with
      | .error _ => some { s with phase := .idle }
      | .ok space => some { s with site := { s.site with space }, phase := .viewing l }
    | _ => none
  | .stop => some { s with phase := .idle }
  | .crash =>
    some { s with
      site := { s.site with space := { s.site.space with waiters := [], readers := [] } }
      phase := .idle }

end RatKingdom.Sync
