/-
Where the workflow engine keeps its instances: a snapshot for each in the live or the
archive directory, and a map in memory for each directory.

Every file operation takes its fate from a script: it succeeds, it fails, or the process
dies at it.  A snapshot is never written in place, so a hard link is a second name for the
same bytes.  What is read of a file is its instance, or nothing where the text is torn.

The locks of the two maps make each entry point one step.  `archive` picks its instances
before it takes them; a request carries what was picked from one step to another.
-/
import RatKingdom.Lib.Attempt
import RatKingdom.Lib.Run
import RatKingdom.Lib.Table
import Mathlib.Data.List.Sort

namespace RatKingdom.Snapshots

open Lib

/-- A workflow instance, with what the engine does not look at here as its text. -/
structure Instance where
  id : String
  revision : Nat
  running : Bool
  startedAt : Nat
  completedAt : Option Nat
  archivedAt : Option Nat
  body : String
  deriving DecidableEq

def settledAt (i : Instance) : Nat := i.completedAt.getD i.startedAt

inductive Side where
  | live | archive
  deriving DecidableEq

/-- What makes the names of one write its own: the process and `PERSIST_SEQ`. -/
structure Stamp where
  pid : Nat
  seq : Nat
  deriving DecidableEq

inductive Name where
  | snapshot (id : String)
  | tmp (id : String) (stamp : Stamp)
  | backup (id : String) (stamp : Stamp)
  | restore (id : String) (stamp : Stamp)
  deriving DecidableEq

/-- A directory, which may not have been created yet. -/
structure Dir where
  present : Bool := false
  files : Table Name (Option Instance) := .empty

inductive Fate where
  | done | fails | dies

structure World where
  up : Bool
  dirs : Side → Dir
  live : Table String Instance
  archived : Table String Instance
  pid : Nat
  seq : Nat
  /-- The instances each `archive` under way has picked. -/
  requests : List (List Instance)
  acked : Table String Nat
  tried : String → List Nat

namespace World

def init : World :=
  { up := false, dirs := fun _ => {}, live := .empty, archived := .empty, pid := 0, seq := 0
    requests := [], acked := .empty, tried := fun _ => [] }

def file (w : World) (side : Side) (name : Name) : Option (Option Instance) :=
  (w.dirs side).files.get name

def setDir (w : World) (side : Side) (d : Dir) : World :=
  { w with dirs := Function.update w.dirs side d }

def setFile (w : World) (side : Side) (name : Name) (content : Option Instance) : World :=
  w.setDir side { w.dirs side with files := (w.dirs side).files.set name content }

def eraseFile (w : World) (side : Side) (name : Name) : World :=
  w.setDir side { w.dirs side with files := (w.dirs side).files.erase name }

def readable (w : World) (side : Side) (id : String) : Option Instance :=
  (w.file side (.snapshot id)).join

/-- `i` stands in the live map under `id`, about to be persisted. -/
def puts (w : World) (id : String) (i : Instance) : World :=
  { w with live := w.live.set id i, tried := Function.update w.tried id (w.tried id ++ [i.revision]) }

def acknowledges (w : World) (id : String) (revision : Nat) : World :=
  { w with acked := w.acked.set id revision, tried := Function.update w.tried id [] }

end World

/-- A program of the engine: what it does to the world, and the fates it has left. -/
abbrev Op := Act (World × List Fate) String

def world : Op World := fun s => (.ok s.1, s)

def change (f : World → World) : Op PUnit := fun s => (.ok ⟨⟩, (f s.1, s.2))

def ioError : String := "Input/output error (os error 5)"

/-- One call of the file system, which may be refused on its own account. -/
def sys (f : World → Except String World) : Op PUnit := fun s =>
  match s.2 with
  | .fails :: rest => (.error (.error ioError), (s.1, rest))
  | .dies :: rest => (.error .gone, (s.1, rest))
  | script =>
    match f s.1 with
    | .ok w => (.ok ⟨⟩, (w, script.tail))
    | .error e => (.error (.error e), (s.1, script.tail))

def createNew (side : Side) (name : Name) : Op PUnit :=
  sys fun w =>
    if (w.file side name).isSome then .error "File exists (os error 17)"
    else .ok (w.setFile side name none)

def writeAll (side : Side) (name : Name) (i : Instance) : Op PUnit :=
  sys fun w => .ok (w.setFile side name (some i))

def syncAll : Op PUnit := sys fun w => .ok w

def hardLink (side : Side) (source target : Name) : Op PUnit :=
  sys fun w =>
    match w.file side source with
    | none => .error "No such file or directory (os error 2)"
    | some content =>
      if (w.file side target).isSome then .error "File exists (os error 17)"
      else .ok (w.setFile side target content)

def rename (side : Side) (source target : Name) : Op PUnit :=
  sys fun w =>
    match w.file side source with
    | none => .error "No such file or directory (os error 2)"
    | some content => .ok ((w.eraseFile side source).setFile side target content)

def removeFile (side : Side) (name : Name) : Op PUnit :=
  sys fun w =>
    if (w.file side name).isSome then .ok (w.eraseFile side name)
    else .error "No such file or directory (os error 2)"

def syncDirectory : Op PUnit := sys fun w => .ok w

def bestEffort (m : Op PUnit) : Op PUnit := do
  let _ ← m.attempt
  pure ⟨⟩

/-- `create_dir_all`, and the sync of the parent of a new directory. -/
def ensureDir (side : Side) : Op PUnit := do
  let w ← world
  sys fun w => .ok (w.setDir side { w.dirs side with present := true })
  if (w.dirs side).present then pure ⟨⟩ else syncDirectory

section
variable (side : Side) (id : String) (stamp : Stamp)

def restoreSnapshotFromBackup : Op PUnit := do
  hardLink side (.backup id stamp) (.restore id stamp)
  let replaced ← (rename side (.restore id stamp) (.snapshot id)).attempt
  match replaced with
  | .error e => do
    bestEffort (removeFile side (.restore id stamp))
    Act.raise e
  | .ok _ => syncDirectory

def dropBackup (hadPrevious : Bool) : Op PUnit :=
  if hadPrevious then do
    bestEffort (removeFile side (.backup id stamp))
    bestEffort syncDirectory
  else pure ⟨⟩

def rollBack (hadPrevious : Bool) (commitError : String) : Op PUnit := do
  let rollback ← (if hadPrevious then restoreSnapshotFromBackup side id stamp else do
      removeFile side (.snapshot id)
      syncDirectory).attempt
  match rollback with
  | .error e =>
    Act.raise ("workflow snapshot commit failed: " ++ commitError ++ "; rollback failed: " ++ e ++
      "; recovery backup retained")
  | .ok _ => do
    dropBackup side id stamp hadPrevious
    Act.raise commitError

def linkBackup (hadPrevious : Bool) : Op PUnit :=
  if hadPrevious then do
    hardLink side (.snapshot id) (.backup id stamp)
    syncDirectory
  else pure ⟨⟩

end

/-- The closure of `persist_bytes_atomically`. -/
def commit (side : Side) (i : Instance) (stamp : Stamp) : Op PUnit := do
  createNew side (.tmp i.id stamp)
  writeAll side (.tmp i.id stamp) i
  syncAll
  let w ← world
  let hadPrevious := (w.file side (.snapshot i.id)).isSome
  linkBackup side i.id stamp hadPrevious
  rename side (.tmp i.id stamp) (.snapshot i.id)
  let synced ← syncDirectory.attempt
  match synced with
  | .error e => rollBack side i.id stamp hadPrevious e
  | .ok _ => dropBackup side i.id stamp hadPrevious

def persistTo (side : Side) (i : Instance) : Op PUnit := do
  ensureDir side
  let w ← world
  let stamp : Stamp := ⟨w.pid, w.seq⟩
  change fun w => { w with seq := w.seq + 1 }
  let result ← (commit side i stamp).attempt
  match result with
  | .ok _ => pure ⟨⟩
  | .error e => do
    bestEffort (removeFile side (.tmp i.id stamp))
    Act.raise e

def removeSnapshotDurably (side : Side) (id : String) : Op PUnit := do
  removeFile side (.snapshot id)
  syncDirectory

def storeIfAbsent (i : Instance) : Op (Option Instance) := do
  let w ← world
  match (w.live.get i.id).or (w.archived.get i.id) with
  | some existing => pure (some existing)
  | none => do
    change fun w => w.puts i.id i
    let persisted ← (persistTo .live i).attempt
    match persisted with
    | .error e => do
      change fun w => { w with live := w.live.erase i.id }
      Act.raise e
    | .ok _ => do
      change fun w => w.acknowledges i.id i.revision
      pure none

/-- What a mutation leaves in the fields it may write. -/
structure Mutation where
  running : Bool
  completedAt : Option Nat
  body : String

def Mutation.apply (m : Mutation) (i : Instance) : Instance :=
  { i with running := m.running, completedAt := m.completedAt, body := m.body }

def revisionMax : Nat := 2 ^ 64 - 1

def tryUpdate (id : String) (mutate : Mutation) : Op Bool := do
  let w ← world
  match w.live.get id with
  | none => pure false
  | some before =>
    if mutate.apply before = before then pure false
    else do
      let snapshot := { mutate.apply before with revision := min (before.revision + 1) revisionMax }
      change fun w => w.puts id snapshot
      let persisted ← (persistTo .live snapshot).attempt
      match persisted with
      | .error e => do
        change fun w => { w with live := w.live.set id before }
        Act.raise e
      | .ok _ => do
        change fun w => w.acknowledges id snapshot.revision
        pure true

def failRecoveryInMemory (id : String) (now : Nat) (body : String) : Op PUnit := do
  let w ← world
  match w.live.get id with
  | none => pure ⟨⟩
  | some i =>
    let failed := { i with running := false, completedAt := some now, body }
    change fun w => { w with live := w.live.set id failed }

inductive Selection where
  | before (cutoff : Nat)
  | ids (ids : List String)

def pickIds (w : World) : List String → Except String (List Instance)
  | [] => .ok []
  | id :: rest =>
    match w.live.get id with
    | none =>
      .error (if (w.archived.get id).isSome then "workflow instance " ++ id ++ " is already archived"
        else "no such workflow instance: " ++ id)
    | some i =>
      if i.running then
        .error ("workflow instance " ++ id ++ " is still running — let it settle, or reject its " ++
          "gate, before pruning it")
      else (pickIds w rest).map (i :: ·)

/-- `dedup_by` on the id: an element is dropped when it has the id of the last one kept. -/
def dedupById : List Instance → List Instance
  | [] => []
  | [i] => [i]
  | i :: j :: rest => if i.id = j.id then dedupById (i :: rest) else i :: dedupById (j :: rest)
  termination_by l => l.length

/-- `archivable`; `order` is the order the map of the live instances is gone through in. -/
def archivable (w : World) (order : List String) (selection : Selection) :
    Except String (List Instance) :=
  let picked : Except String (List Instance) := match selection with
    | .before cutoff => .ok ((order.filterMap w.live.get).filter fun i =>
        !i.running && decide (settledAt i < cutoff))
    | .ids ids => pickIds w ids
  picked.map fun eligible =>
    dedupById (eligible.insertionSort fun a b => a.startedAt ≤ b.startedAt)

/-- The first half of `archive`: what it picks, stamped. -/
def pickForArchive (order : List String) (selection : Selection) (now : Nat) : Op PUnit := do
  let w ← world
  match archivable w order selection with
  | .error e => Act.raise e
  | .ok moved => change fun w => { w with
      requests := w.requests ++ [moved.map fun i => { i with archivedAt := some now }] }

/-- The check under the locks: what was picked has not changed. -/
def originalsOf (w : World) : List Instance → Except String (List Instance)
  | [] => .ok []
  | i :: rest =>
    match w.live.get i.id with
    | none => .error ("workflow instance " ++ i.id ++ " changed while it was being archived")
    | some current =>
      if current.revision ≠ i.revision ∨ current.running then
        .error ("workflow instance " ++ i.id ++ " changed while it was being archived")
      else (originalsOf w rest).map (current :: ·)

def persistAll (side : Side) : List Instance → Op PUnit
  | [] => pure ⟨⟩
  | i :: rest => do
    persistTo side i
    persistAll side rest

/-- The rollback of `archive`: every live snapshot is written again, and what fails is told. -/
def restoreAll : List Instance → Op (List String)
  | [] => pure []
  | i :: rest => do
    let restored ← (persistTo .live i).attempt
    let errors ← restoreAll rest
    match restored with
    | .error e => pure (("restore " ++ i.id ++ " failed: " ++ e) :: errors)
    | .ok _ => pure errors

def removeAll (originals : List Instance) : List Instance → Op PUnit
  | [] => pure ⟨⟩
  | original :: rest => do
    let removed ← (removeSnapshotDurably .live original.id).attempt
    match removed with
    | .error e => do
      let errors ← restoreAll originals
      Act.raise (if errors.isEmpty then
          "could not durably remove live workflow snapshot: " ++ e
        else
          "could not durably remove live workflow snapshot: " ++ e ++ "; rollback failed: " ++
            "; ".intercalate errors)
    | .ok _ => removeAll originals rest

def World.moves (w : World) (i : Instance) : World :=
  { w with live := w.live.erase i.id, archived := w.archived.set i.id i }

/-- The second half of `archive`, under the locks of both maps. -/
def moveToArchive (moved : List Instance) : Op (List Instance) := do
  let w ← world
  match originalsOf w moved with
  | .error e => Act.raise e
  | .ok originals => do
    persistAll .archive moved
    removeAll originals originals
    change fun w => moved.foldl World.moves w
    pure moved

/-- The way back of an `unarchive` whose archive snapshot could not be removed. -/
def keepArchived (id : String) (archivedSnapshot : Instance) (removeError : String) :
    Op (Option Instance) := do
  let restored ← (persistTo .archive archivedSnapshot).attempt
  match restored with
  | .error e =>
    Act.raise ("could not durably remove archived workflow snapshot: " ++ removeError ++
      "; rollback failed: " ++ e ++ "; live recovery copy retained")
  | .ok _ => do
    let removed ← (removeSnapshotDurably .live id).attempt
    match removed with
    | .error e =>
      Act.raise ("could not durably remove archived workflow snapshot: " ++ removeError ++
        "; rollback failed: " ++ e)
    | .ok _ => Act.raise removeError

def unarchive (id : String) : Op (Option Instance) := do
  let w ← world
  if (w.live.get id).isSome then
    Act.raise ("cannot unarchive " ++ id ++ ": a live instance already holds that id")
  else
    match w.archived.get id with
    | none => pure none
    | some archivedSnapshot => do
      let i := { archivedSnapshot with archivedAt := none }
      persistTo .live i
      let removed ← (removeSnapshotDurably .archive id).attempt
      match removed with
      | .error e => keepArchived id archivedSnapshot e
      | .ok _ => do
        change fun w => { w with live := w.live.set id i, archived := w.archived.erase id }
        pure (some i)

/-- `read_instance_dir`: every snapshot that can be read; the other names end otherwise. -/
def readInstanceDir (d : Dir) : List Instance :=
  d.files.rows.filterMap fun r =>
    match r with
    | (.snapshot _, some i) => some i
    | _ => none

/-- `rehydrate` into the empty maps of a new process: the live copy wins. -/
def World.rehydrate (w : World) : World :=
  let live := (readInstanceDir (w.dirs .live)).foldl (fun m i => m.set i.id i) .empty
  let archived := (readInstanceDir (w.dirs .archive)).foldl
    (fun m i => if (live.get i.id).isSome then m else m.set i.id i) .empty
  { w with live, archived }

def World.crash (w : World) : World :=
  { w with up := false, live := .empty, archived := .empty, requests := [] }

def World.restart (w : World) (pid : Nat) : World := { w with up := true, pid, seq := 0 }.rehydrate

/-- The engine's `status_any`. -/
def World.statusAny (w : World) (id : String) : Option Instance :=
  (w.live.get id).or (w.archived.get id)

inductive Label where
  | create (i : Instance) (script : List Fate)
  | update (id : String) (mutate : Mutation) (script : List Fate)
  | failInMemory (id : String) (now : Nat) (body : String)
  | pick (order : List String) (selection : Selection) (now : Nat)
  | archive (request : Nat) (script : List Fate)
  | unarchive (id : String) (script : List Fate)
  | crash
  | restart (pid : Nat)

/-- Runs `m` against a script; the process may die in it. -/
def World.execute {α : Type} (w : World) (script : List Fate) (m : Op α) : World :=
  match m (w, script) with
  | (.error .gone, s) => s.1.crash
  | (_, s) => s.1

def step (w : World) : Label → Option World
  | .create i script => if w.up then some (w.execute script (storeIfAbsent i)) else none
  | .update id mutate script => if w.up then some (w.execute script (tryUpdate id mutate)) else none
  | .failInMemory id now body =>
    if w.up then some (w.execute [] (failRecoveryInMemory id now body)) else none
  | .pick order selection now =>
    if w.up then some (w.execute [] (pickForArchive order selection now)) else none
  | .archive request script =>
    if w.up then
      match w.requests[request]? with
      | none => none
      | some moved => some ({ w with requests := w.requests.eraseIdx request }.execute script
          (moveToArchive moved))
    else none
  | .unarchive id script => if w.up then some (w.execute script (unarchive id)) else none
  | .crash => if w.up then some w.crash else none
  | .restart pid => if w.up then none else some (w.restart pid)

end RatKingdom.Snapshots
