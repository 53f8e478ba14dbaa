/-
What the reactor reads and writes: the tuple journal, its own records in it, the
workflow engine's instances, the cursor file and the in-memory fire window.

Everything else in the castle goes on while a cycle runs.  A `Turn` is what happens
before one operation of the reactor: tuples others write, rows they remove or refresh,
instances that finish, time that passes, and whether the operation itself succeeds,
fails or is the one the process dies at.  A cycle is run against a list of turns, one
for each of its operations in order.

The reactor's records stand under identities of its own, and no other writer uses
them: an agent may write no event but `task_done` and no furniture.  They are kept here
in the form they are read back in.
-/
import RatKingdom.Lib.Attempt
import RatKingdom.Space.Store

namespace RatKingdom.Reactor

open Core Lib

def reactorInstance : String := "reactor"

/-- The `key` of a marker, printed `head@tuple`.  A trigger's name has no `@` in it, so
the two parts are read back from the text. -/
structure Key where
  head : String
  tuple : RecordId
  deriving DecidableEq

/-- What a `reactor_fired` marker says besides its key: the trigger path names the
instance it stands for, the SDLC reactions a kind. -/
inductive Mark where
  | fired (trigger : String) (inst : String)
  | reacted (kind : String)

/-- A `reactor_queued_fire` row. -/
structure QueuedFire where
  id : RecordId
  key : Key
  trigger : String
  run : String
  repoName : String
  repoPath : String
  params : List (String × Value)
  tuple : RecordId
  seq : Nat

/-- An `sdlc_ci_diagnostic` need or an `sdlc_ci_recovered` fact. -/
structure CiReaction where
  source : Option String
  subject : String
  deliveryId : Option String
  transition : RecordId
  currentFact : RecordId

/-- An `sdlc_alert_diagnosis` need. -/
structure AlertDiagnosis where
  source : String
  subject : String
  deliveryId : String
  receiptId : String
  occurrence : RecordId
  transition : RecordId
  currentFact : Option RecordId
  alert : Value
  refs : Value
  attributes : Value
  provenance : Value

inductive Record where
  | foreign (t : Tuple)
  | marker (key : Key) (mark : Mark)
  | attempt (key : Key) (attempt : Nat)
  | queued (row : QueuedFire)
  | ciDiagnostic (r : CiReaction)
  | ciRecovered (r : CiReaction)
  | alertDiagnosis (d : AlertDiagnosis)
  | alertProcessed (key : Key) (kind : String) (transition : RecordId)
  | note (identity : String) (trigger : String) (tuple : RecordId) (reason : String)

/-- A workflow instance of the engine, live or archived, with the key it was launched
for. -/
structure Instance where
  id : String
  key : Key
  trigger : String
  workflow : String
  repo : String
  params : List (String × Value)
  running : Bool

inductive TriggerAction where
  | workflow | land
  deriving DecidableEq

structure TriggerMatch where
  category : Option String := none
  scope : Option String := none
  identity : Option String := none
  inst : Option String := none
  search : Option String := none
  deriving DecidableEq

structure Trigger where
  name : String
  matcher : TriggerMatch := {}
  action : TriggerAction := .workflow
  run : String := ""
  repo : Option String := none
  params : List (String × String) := []
  exclude : List String := []
  maxFires : Option Nat := none
  maxInFlight : Option Nat := none
  deriving DecidableEq

structure Loaded where
  trigger : Trigger
  sourceRepo : Option String

structure ReactorConfig where
  windowSecs : Nat := 60
  maxFires : Nat := 20
  excludeInstances : List String := []

/-- A launch as the process saw it: the trigger, the instant, whether it created the
instance it returned, and how many instances of the trigger were live right after. -/
structure Launch where
  trigger : Trigger
  time : Nat
  fresh : Bool
  live : Nat

/-- A fire as the queue stood when it was decided on. -/
structure Fire where
  key : Key
  trigger : String
  waiting : List QueuedFire

/-- A fire at the admission check: whether the trigger was at its cap, and the number the
queue counter stood at. -/
structure Admission extends Fire where
  full : Bool
  counter : Nat

/-- The tables behind `get_sdlc_transition`, `get_sdlc_receipt` and
`current_sdlc_facts`. -/
structure SdlcTables where
  transitions : List Space.SdlcTransitionRecord := []
  receipts : List ((String × String) × Space.SignalReceipt) := []
  current : List ((String × String × String) × RecordId) := []

/-- The operations that can fail on their own. -/
inductive Site where
  | attempt | note | gaveUpMarker | queueSeq | queueRow | queuedMarker | launch | firedMarker
  | landing | landMarker | drainedRow | abandonedRow | ciFact | ciMarker | alertDiagnosis
  | alertProcessed | alertMarker | cursor | builtin
  deriving DecidableEq

inductive Fate where
  | done | fails | dies
  deriving DecidableEq

structure Turn where
  arrivals : List Tuple := []
  removed : List RecordId := []
  refreshed : List (RecordId × Value) := []
  tables : Option SdlcTables := none
  finished : List String := []
  elapsed : Nat := 0
  fate : Site → Fate := fun _ => .done
  /-- What the source check of a landing completion says, and what the queue answers. -/
  sourceError : Option String := none
  enqueued : Except String (Option Nat) := .ok none
  torn : Nat := 0

structure Host where
  up : Bool
  /-- `tuple_persistence_events`: the entry at index `i` has commit sequence `i + 1`. -/
  journal : List Record
  rows : List Tuple
  queue : List QueuedFire
  tables : SdlcTables
  instances : List Instance
  cursorFile : Option Nat
  queueSeqFile : Option Nat
  queueSeq : Option Nat
  fires : List (String × Nat)
  clock : Nat
  /-- The spans of the journal that cycles have read, and the launches of this process. -/
  reads : List (Nat × Nat)
  launches : List Launch
  /-- Every admission check and every instance created since the castle was built. -/
  admissions : List Admission := []
  dispatches : List Fire := []
  turns : List Turn

namespace Host

def empty : Host :=
  { up := false, journal := [], rows := [], queue := [], tables := {},
                                                                    instances := [], cursorFile := none
    queueSeqFile := none, queueSeq := none, fires := [], clock := 0, reads := []
    launches := [], turns := [] }

/-- A refresh writes over the payload of a fact or a trail; no statement rewrites an
event. -/
def refresh (refreshed : List (RecordId × Value)) (t : Tuple) : Tuple :=
  if t.category = .event then t
  else
    match refreshed.find? fun r => r.1 = t.id with
    | none => t
    | some r => { t with payload := r.2 }

def finish (finished : List String) (i : Instance) : Instance :=
  { i with running := i.running && !finished.contains i.id }

def known (h : Host) (id : RecordId) : Bool :=
  h.journal.any fun r =>
    match r with
    | .foreign t => t.id = id
    | _ => false

def accept (h : Host) (t : Tuple) : Host :=
  if h.known t.id then h
  else { h with journal := h.journal ++ [.foreign t], rows := h.rows ++ [t] }

def settle (h : Host) (turn : Turn) : Host :=
  { h with
    rows := (h.rows.filter fun t => !turn.removed.contains t.id).map (refresh turn.refreshed)
    tables := turn.tables.getD h.tables
    instances := h.instances.map (finish turn.finished)
    clock := h.clock + turn.elapsed }

def pass (h : Host) (turn : Turn) : Host := (turn.arrivals.foldl accept h).settle turn

/-- `Space::scan` over the tuples of others: what matches, in id order. -/
def scan (h : Host) (p : Tuple → Bool) : List Tuple :=
  (h.rows.filter p).insertionSort fun a b => a.id ≤ b.id

def latestPersistenceSequence (h : Host) : Nat := h.journal.length

def liveCount (instances : List Instance) (trigger : String) : Nat :=
  instances.countP fun i => i.running && i.trigger = trigger

def liveCountForTrigger (h : Host) (trigger : String) : Nat := liveCount h.instances trigger

/-- A launch of `trigger` that leaves the engine with `instances`. -/
def launched (h : Host) (trigger : Trigger) (fresh : Bool) (instances : List Instance) : Host :=
  { h with
    instances
    launches := h.launches ++
      [{ trigger, time := h.clock, fresh, live := liveCount instances trigger.name }] }

def dispatched (h : Host) (key : Key) (trigger : Trigger) : Host :=
  { h with dispatches := h.dispatches ++ [{ key, trigger := trigger.name, waiting := h.queue }] }

def counter (h : Host) : Nat := h.queueSeq.getD (h.queueSeqFile.getD 0)

def restart (h : Host) : Host :=
  { h with up := false, queueSeq := none, fires := [], launches := [], turns := [] }

end Host

abbrev Op := Act Host String

def nextTurn : Op Turn := fun h =>
  match h.turns with
  | [] => (.ok {}, h)
  | turn :: rest => (.ok turn, { h.pass turn with turns := rest })

/-- One operation at `site`: what the turn brings, then the operation's own fate. -/
def proceed (site : Site) : Op Turn := do
  let turn ← nextTurn
  match turn.fate site with
  | .done => pure turn
  | .fails => Act.raise "space write failed"
  | .dies => Act.die

/-- `Space::out` of one of the reactor's records. -/
def out (site : Site) (r : Record) : Op PUnit := do
  let _ ← proceed site
  Act.modify fun h => { h with journal := h.journal ++ [r] }

/-- `let _ = self.space.out(..)`. -/
def outBestEffort (r : Record) : Op PUnit := do
  let _ ← (out .note r).attempt
  pure ⟨⟩

/-- `Instant::now()`, read after some time has passed. -/
def now : Op Nat := do
  let _ ← nextTurn
  let h ← Act.get
  pure h.clock

def Host.marked (h : Host) (key : Key) : Bool :=
  h.journal.any fun r =>
    match r with
    | .marker k _ => k = key
    | _ => false

def alreadyFired (key : Key) : Op Bool := do
  let h ← Act.get
  pure (h.marked key)

def tornWrite (old : Option Nat) (torn new : Nat) : Option Nat :=
  if torn = 0 then old else some (min (torn - 1) new)

def saveCursor (sequence : Nat) : Op PUnit := do
  let turn ← nextTurn
  match turn.fate .cursor with
  | .done => Act.modify fun h => { h with cursorFile := some sequence }
  | .fails => do
    Act.modify fun h => { h with cursorFile := tornWrite h.cursorFile turn.torn sequence }
    Act.raise "cursor save failed"
  | .dies => do
    Act.modify fun h => { h with cursorFile := tornWrite h.cursorFile turn.torn sequence }
    Act.die

/-- `next_queue_seq`: the counter file is written before the cached value moves. -/
def nextQueueSeq : Op Nat := do
  let h ← Act.get
  let next := (h.queueSeq.getD (h.queueSeqFile.getD 0)) + 1
  let turn ← nextTurn
  match turn.fate .queueSeq with
  | .done => do
    Act.modify fun h => { h with queueSeqFile := some next, queueSeq := some next }
    pure next
  | .fails => do
    Act.modify fun h => { h with queueSeqFile := tornWrite h.queueSeqFile turn.torn next }
    Act.raise "queue sequence save failed"
  | .dies => do
    Act.modify fun h => { h with queueSeqFile := tornWrite h.queueSeqFile turn.torn next }
    Act.die

/-- `run_owned_with_id_from_trigger`: an instance that exists, live or archived, is
returned as it is. -/
def runOwnedWithIdFromTrigger (id : String) (key : Key) (trigger : Trigger) (workflow repo : String)
    (params : List (String × Value)) : Op String := do
  let _ ← proceed .launch
  let h ← Act.get
  if h.instances.any fun i => i.id = id then do
    Act.modify fun h => h.launched trigger false h.instances
    pure id
  else do
    Act.modify fun h => (h.dispatched key trigger).launched trigger true (h.instances ++
      [{ id, key, trigger := trigger.name, workflow, repo, params, running := true }])
    pure id

end RatKingdom.Reactor
