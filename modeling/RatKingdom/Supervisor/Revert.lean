/-
Undoing a delivery.

A revert goes from an intent on record to a candidate that is parked, the target, the generation's
record, its ticket and a fact, and writes down how far it is before it goes on.  Whoever retries
it takes it up where the journal says.  One call at a time works on a target; other users of the
repository, the deliveries and the tickets go on as they like.
-/
import RatKingdom.Lib.Latest
import RatKingdom.Supervisor.Delivery
import RatKingdom.Tickets.Backlog

namespace RatKingdom.Revert

open Lib Delivery

abbrev RecordId := Nat

/-- A branch of a repository. -/
abbrev Place := String × String

section
variable (C : Type)

structure AgentRecord extends Delivery.AgentRecord C where
  repoName : String
  task : Option String

structure Registry where
  agents : Table String (AgentRecord C)
  archived : List (AgentRecord C)

/-- What a ticket has under `delivery`. -/
inductive DeliveryField where
  | absent
  | recorded (delivery : DeliveryRecord C)
  | malformed

structure Ticket where
  delivery : DeliveryField C
  status : String
  /-- The operations that have settled it; `none` is no list. -/
  revertOperations : Option (List RecordId)

/-- A revert that is built, and what it was built on.  Its ref is named after it. -/
structure Candidate where
  commit : C
  base : C
  deriving DecidableEq

inductive Phase where
  | intent
  | prepared (candidate : Candidate C)
  | advanced (candidate : Candidate C)
  | complete (candidate : Candidate C)
  deriving DecidableEq

structure RevertOperation where
  id : RecordId
  revision : Nat
  requestedAt : Int
  agent : String
  spawn : SpawnId
  repoRoot : String
  repo : String
  branch : Option String
  target : String
  task : Option String
  mergeCommit : C
  block : Bool
  factId : RecordId
  phase : Phase C
  deriving DecidableEq

structure RevertResult where
  operationId : RecordId
  agent : String
  spawn : SpawnId
  mergeCommit : C
  revertCommit : Option C
  target : String
  task : Option String
  ticketStatus : Option String
  detail : String

/-- `merge-reverted-<agent>`. -/
structure Fact where
  id : RecordId
  createdAt : Int
  scope : String
  identity : String
  branch : Option String
  result : RevertResult C

end

variable {C : Type}

def AgentRecord.place (r : AgentRecord C) : Place := (r.repoRoot, r.targetBranch)

def Phase.candidate : Phase C → Option (Candidate C)
  | .intent => none
  | .prepared candidate => some candidate
  | .advanced candidate => some candidate
  | .complete candidate => some candidate

namespace RevertOperation

def place (op : RevertOperation C) : Place := (op.repoRoot, op.target)

def candidate (op : RevertOperation C) : Option (Candidate C) := op.phase.candidate

def isComplete (op : RevertOperation C) : Bool :=
  match op.phase with
  | .complete _ => true
  | _ => false

def status (op : RevertOperation C) : Option String :=
  (op.task.filter fun task => (Tickets.stripPrefix Tickets.idPrefix task).isSome).map fun _ =>
    if op.block then "blocked" else "open"

def result (op : RevertOperation C) (commit : Option C) (detail : String) : RevertResult C where
  operationId := op.id
  agent := op.agent
  spawn := op.spawn
  mergeCommit := op.mergeCommit
  revertCommit := commit
  target := op.target
  task := op.task
  ticketStatus := if commit.isSome then op.status else none
  detail := detail

def fact (op : RevertOperation C) (candidate : Candidate C) : Fact C where
  id := op.factId
  createdAt := op.requestedAt
  scope := op.repo
  identity := "merge-reverted-" ++ op.agent
  branch := op.branch
  result := op.result (some candidate.commit) "reverted recorded merge"

def next (op : RevertOperation C) (phase : Phase C) : RevertOperation C :=
  { op with revision := op.revision + 1, phase }

def unsettled (op : RevertOperation C) (name error : String) : String :=
  "revert operation " ++ toString op.id ++ " remains unsettled: " ++ error ++
    "; retry rk revert " ++ name ++ " --operation " ++ toString op.id ++
    (if op.block then " --block" else "")

end RevertOperation

namespace Registry

def records (reg : Registry C) : List (AgentRecord C) :=
  reg.agents.rows.map Prod.snd ++ reg.archived

def getAny (reg : Registry C) (name : String) : Option (AgentRecord C) :=
  (reg.agents.get name).or
    (maxByKey (fun r => r.createdAt) (reg.archived.filter fun r => r.name = name))

def recordsOf (reg : Registry C) (name : String) : List (AgentRecord C) :=
  dedupByKey (fun r => r.createdAt)
    (((reg.agents.get name).toList ++ reg.archived.filter fun r => r.name = name).insertionSort
      fun a b => a.createdAt ≤ b.createdAt)

def change (reg : Registry C) (f : AgentRecord C → AgentRecord C) : Registry C where
  agents := reg.agents.filterMap fun r => some (f r)
  archived := reg.archived.map f

def matching (name : String) (spawn : SpawnId) (r : AgentRecord C) : Bool :=
  r.name = name && r.spawn = spawn

def unnamed (name : String) (spawn : SpawnId) (r : AgentRecord C) : AgentRecord C :=
  if matching name spawn r && r.mergeCommit.isSome then { r with mergeCommit := none } else r

/-- A write that fails leaves the registry as it was in memory. -/
def settleRevert [DecidableEq C] (reg : Registry C) (name : String) (spawn : SpawnId) (commit : C)
    (writes : Except String Unit) : Except String (Registry C) :=
  let records := reg.records.filter (matching name spawn)
  if records.isEmpty then .error "reverted agent generation is no longer in the registry"
  else if records.any fun r => r.mergeCommit.any fun value => value ≠ commit then
    .error "reverted agent generation has a different delivery pointer"
  else if records.any fun r => r.mergeCommit.isSome then
    writes.map fun _ => reg.change (unnamed name spawn)
  else .ok reg

def update (reg : Registry C) (name : String) (f : AgentRecord C → AgentRecord C) : Registry C :=
  { reg with agents := reg.agents.modify name f }

/-- The write of the live file comes first. -/
def liveChanges (reg : Registry C) (name : String) (spawn : SpawnId) : Bool :=
  (reg.agents.get name).any fun r => matching name spawn r && r.mergeCommit.isSome

/-- The archive is written first; `whole` if the live file is written too. -/
def archive (reg : Registry C) (name : String) (whole : Bool) : Registry C where
  agents := if whole then reg.agents.erase name else reg.agents
  archived := reg.archived ++ ((reg.agents.get name).toList.filter fun r =>
    !reg.archived.any fun a => a.name = r.name && a.spawn = r.spawn)

end Registry

def DeliveryField.refuses [DecidableEq C] (field : DeliveryField C) (id : String) (mergeCommit : C)
    (target : String) : Option String :=
  match field with
  | .absent => none
  | .recorded delivery =>
    if delivery.mergeCommit ≠ mergeCommit ∨ delivery.target ≠ target then
      some ("ticket " ++ id ++ " has a different delivery; revert remains unsettled")
    else none
  | .malformed => some "malformed ticket delivery; revert remains unsettled"

def DeliveryField.commit (field : DeliveryField C) : Option C :=
  match field with
  | .recorded delivery => some delivery.mergeCommit
  | _ => none

/-- `revert_delivery`: what the ticket becomes.  `writes` is the replacement of the revision that
was read. -/
def revertDelivery [DecidableEq C] (ticket : Option (Ticket C)) (id : String) (mergeCommit : C)
    (target : String) (operation : RecordId) (status : String) (writes : Except String Unit) :
    Except String (Ticket C) :=
  match ticket with
  | none => .error ("no such ticket: " ++ id)
  | some existing =>
    if existing.revertOperations.any fun ids => ids.contains operation then .ok existing
    else
      match existing.delivery.refuses id mergeCommit target with
      | some text => .error text
      | none =>
        match existing.revertOperations with
        | none => .error "malformed ticket revert receipts"
        | some receipts => writes.map fun _ =>
          ⟨.absent, status, some (receipts ++ [operation])⟩

/-- What becomes of a target that stands where it is expected: it is fast-forwarded, a checkout
that has been switched to another branch is, or nothing is. -/
inductive Swap where
  | moves | elsewhere
  | blocked (path detail : String)
  | fails (text : String)

inductive AdvanceOutcome where
  | advanced | stale
  | blocked (path detail : String)

def advanceTargetTo [PartialOrder C] [DecidableEq C] [DecidableLE C] (tip commit expected : C)
    (swap : Swap) : Except String AdvanceOutcome × Bool :=
  if commit ≠ expected ∧ ¬ expected ≤ commit then (.error "refusing to advance", false)
  else if tip ≠ expected then (.ok .stale, false)
  else if commit = expected then (.ok .advanced, false)
  else
    match swap with
    | .moves => (.ok .advanced, true)
    | .elsewhere => (.ok .advanced, false)
    | .blocked path detail => (.ok (.blocked path detail), false)
    | .fails text => (.error text, false)

abbrev Answer (C : Type) := Except String (RevertResult C)

/-- Where a call is, between two of its writes. -/
inductive Stage (C : Type) where
  | asked
  | queued (record : AgentRecord C)
  | holding (record : AgentRecord C)
  /-- `run_revert`, where it asks for the phase. -/
  | running (op : RevertOperation C)
  | made (op : RevertOperation C) (candidate : Candidate C)
  | tested (op : RevertOperation C) (candidate : Candidate C) (landed : Bool)
  | swapped (op : RevertOperation C) (candidate : Candidate C)
  | refused (op : RevertOperation C) (candidate : Candidate C)
  | confirmed (op : RevertOperation C) (candidate : Candidate C)
  | settled (op : RevertOperation C) (candidate : Candidate C)
  | reopened (op : RevertOperation C) (candidate : Candidate C)
  | evidenced (op : RevertOperation C) (candidate : Candidate C)
  | released (op : RevertOperation C) (candidate : Candidate C)
  | answered (answer : Answer C)
  | lost

structure Call (C : Type) where
  name : String
  block : Bool
  exact : Option RecordId
  stage : Stage C

/-- What a turn of a call meets. -/
structure Io (C : Type) where
  now : Int := 0
  git : Except String Unit := .ok ()
  answers : Bool := true
  made : Except String C := .error "conflict"
  swap : Swap := .moves
  writes : Except String Unit := .ok ()
  /-- The write that fails is the second of two files. -/
  halfway : Bool := false

structure Undo (C : Type) where
  tips : Place → C
  parked : List C
  registry : Registry C
  /-- The generations whose record the live file has cleared, and memory has not. -/
  torn : List (String × SpawnId)
  tickets : String → Option (Ticket C)
  facts : List (Fact C)
  journal : List (RevertOperation C)
  calls : List (Call C)
  merging : Place → Option Nat
  nextId : RecordId
  put : List (RecordId × C)
  refused : List (RecordId × C)
  moved : List (RecordId × String × String)
  cleared : List (C × C)

def latestOf (journal : List (RevertOperation C)) : List (RevertOperation C) :=
  latest RevertOperation.id RevertOperation.revision journal

namespace Undo

def operations (w : Undo C) (repo : Option String) : List (RevertOperation C) :=
  match repo with
  | none => latestOf w.journal
  | some repo => latestOf (w.journal.filter fun op => op.repo = repo)

def goto (w : Undo C) (i : Nat) (c : Call C) (stage : Stage C) : Undo C :=
  { w with calls := w.calls.set i { c with stage } }

def answer (w : Undo C) (i : Nat) (c : Call C) (a : Answer C) : Undo C :=
  { w.goto i c (.answered a) with
    merging := fun place => if w.merging place = some i then none else w.merging place }

def fails (w : Undo C) (i : Nat) (c : Call C) (op : RevertOperation C) (text : String) : Undo C :=
  w.answer i c (.error (op.unsettled c.name text))

def finds (w : Undo C) (i : Nat) (c : Call C) (io : Io C) : Undo C :=
  let record : Except String (Option (AgentRecord C)) :=
    match c.exact with
    | some id =>
      match (w.operations none).find? fun op => op.id = id && op.agent = c.name with
      | none => .error "no such revert operation for this agent"
      | some op => .ok ((w.registry.recordsOf c.name).find? fun r => r.spawn = op.spawn)
    | none => .ok (w.registry.getAny c.name)
  match record with
  | .error text => w.answer i c (.error text)
  | .ok none => w.answer i c (.error ("no such agent generation: " ++ c.name))
  | .ok (some record) =>
    match io.git with
    | .error text => w.answer i c (.error text)
    | .ok _ => w.goto i c (.queued record)

def takes (w : Undo C) (i : Nat) (c : Call C) (record : AgentRecord C) : Undo C :=
  match (w.registry.recordsOf c.name).find? fun current =>
      current.spawn = record.spawn && current.repoRoot = record.repoRoot &&
        current.targetBranch = record.targetBranch with
  | none => w.answer i c (.error "agent changed while waiting to revert")
  | some current =>
    { w.goto i c (.holding current) with
      merging := fun place => if place = record.place then some i else w.merging place }

def retried [DecidableEq C] (w : Undo C) (c : Call C) (record : AgentRecord C) :
    Option (RevertOperation C) :=
  maxByKey (fun op => op.requestedAt) <| (w.operations (some record.repoName)).filter fun op =>
      op.agent = record.name && op.spawn = record.spawn && match c.exact with
        | some id => op.id = id
        | none => !op.isComplete || record.mergeCommit.all fun commit => commit = op.mergeCommit

def opened (w : Undo C) (c : Call C) (record : AgentRecord C) (commit : C) (now : Int) :
    RevertOperation C where
  id := w.nextId
  revision := 0
  requestedAt := now
  agent := record.name
  spawn := record.spawn
  repoRoot := record.repoRoot
  repo := record.repoName
  branch := record.branch
  target := record.targetBranch
  task := record.task
  mergeCommit := commit
  block := c.block
  factId := w.nextId + 1
  phase := .intent

def chooses [DecidableEq C] (w : Undo C) (i : Nat) (c : Call C) (record : AgentRecord C)
    (io : Io C) : Undo C :=
  match w.retried c record with
  | some op =>
    if op.block ≠ c.block then
      w.answer i c (.error "retry must preserve the original revert --block decision")
    else if op.repoRoot ≠ record.repoRoot ∨ op.target ≠ record.targetBranch ∨
        op.task ≠ record.task ∨ op.branch ≠ record.branch then
      w.answer i c (.error "revert operation no longer matches its recorded source")
    else w.goto i c (.running op)
  | none =>
    if c.exact.isSome then
      w.answer i c (.error "revert operation source is no longer available")
    else
      match record.mergeCommit with
      | none => w.answer i c (.error (record.name ++ " has no recorded merge commit to revert"))
      | some commit =>
        match io.writes with
        | .error text => w.answer i c (.error text)
        | .ok _ =>
          let op := w.opened c record commit io.now
          { w.goto i c (.running op) with
            journal := w.journal ++ [op], nextId := w.nextId + 2 }

/-- `advance_revert_phase`, and where the call goes on from there. -/
def advancePhase (w : Undo C) (i : Nat) (c : Call C) (op : RevertOperation C) (phase : Phase C)
    (io : Io C) (onward : Undo C → RevertOperation C → Undo C) : Undo C :=
  match io.writes with
  | .error text => w.fails i c op text
  | .ok _ => onward { w with journal := w.journal ++ [op.next phase] } (op.next phase)

section
variable [PartialOrder C] [DecidableEq C] [DecidableLE C]

/-- `is_ancestor` of the target: where git cannot say, it is said not to be. -/
def onTarget (w : Undo C) (op : RevertOperation C) (commit : C) (io : Io C) : Bool :=
  io.answers && decide (commit ≤ w.tips op.place)

def prepares (w : Undo C) (i : Nat) (c : Call C) (op : RevertOperation C) (io : Io C) : Undo C :=
  match io.git with
  | .error text => w.fails i c op text
  | .ok _ =>
    if !w.onTarget op op.mergeCommit io then
      w.fails i c op "reverted merge is not on the recorded target"
    else
      match io.made with
      | .error detail => w.answer i c (.ok (op.result none detail))
      | .ok commit =>
        { w.goto i c (.made op ⟨commit, w.tips op.place⟩) with parked := w.parked ++ [commit] }

def tests (w : Undo C) (i : Nat) (c : Call C) (op : RevertOperation C) (candidate : Candidate C)
    (io : Io C) : Undo C :=
  match io.git with
  | .error text => w.fails i c op text
  | .ok _ => w.goto i c (.tested op candidate (w.onTarget op candidate.commit io))

def swaps (w : Undo C) (i : Nat) (c : Call C) (op : RevertOperation C) (candidate : Candidate C)
    (landed : Bool) (io : Io C) : Undo C :=
  if landed then w.goto i c (.swapped op candidate)
  else
    match io.git with
    | .error text => w.fails i c op text
    | .ok _ =>
      match advanceTargetTo (w.tips op.place) candidate.commit candidate.base io.swap with
      | (.error text, _) => w.fails i c op text
      | (.ok .advanced, moves) =>
        let w := w.goto i c (.swapped op candidate)
        if moves then
          { w with
            tips := fun place => if place = op.place then candidate.commit else w.tips place
            put := w.put ++ [(op.id, candidate.commit)] }
        else w
      | (.ok .stale, _) =>
        { w.goto i c (.refused op candidate) with
          refused := w.refused ++ [(op.id, candidate.commit)] }
      | (.ok (.blocked path detail), _) =>
        w.fails i c op ("refusing to advance " ++ op.target ++ " at " ++ path ++ ": " ++ detail)

def confirms (w : Undo C) (i : Nat) (c : Call C) (op : RevertOperation C)
    (candidate : Candidate C) (io : Io C) : Undo C :=
  match io.git with
  | .error text => w.fails i c op text
  | .ok _ =>
    if w.onTarget op candidate.commit io then w.goto i c (.confirmed op candidate)
    else w.fails i c op "recorded revert is no longer on its target; refusing to finalize"

end

section
variable [DecidableEq C]

def settles (w : Undo C) (i : Nat) (c : Call C) (op : RevertOperation C) (candidate : Candidate C)
    (io : Io C) : Undo C :=
  match w.registry.settleRevert op.agent op.spawn op.mergeCommit io.writes with
  | .error text =>
    let stopped := io.halfway && w.registry.liveChanges op.agent op.spawn &&
      (w.registry.settleRevert op.agent op.spawn op.mergeCommit (.ok ())).isOk
    { w.fails i c op text with
      torn := if stopped then (op.agent, op.spawn) :: w.torn else w.torn }
  | .ok registry =>
    { w.goto i c (.settled op candidate) with
      registry
      torn := if w.registry.liveChanges op.agent op.spawn then [] else w.torn
      cleared := w.cleared ++
        ((w.registry.records.filter (Registry.matching op.agent op.spawn)).filterMap
          fun r => r.mergeCommit).map fun commit => (op.mergeCommit, commit) }

def reopens (w : Undo C) (i : Nat) (c : Call C) (op : RevertOperation C) (candidate : Candidate C)
    (io : Io C) : Undo C :=
  match op.task, op.status with
  | some task, some status =>
    match revertDelivery (w.tickets task) task op.mergeCommit op.target op.id status io.writes with
    | .error text => w.fails i c op text
    | .ok ticket =>
      let w' := w.goto i c (.reopened op candidate)
      if (w.tickets task).any fun t => t.revertOperations.any fun ids => ids.contains op.id then w'
      else { w' with
        tickets := fun id => if id = task then some ticket else w.tickets id
        moved := w.moved ++ [(op.id, task, status)]
        cleared := w.cleared ++ ((w.tickets task).bind fun t => t.delivery.commit).toList.map
          fun commit => (op.mergeCommit, commit) }
  | _, _ => w.goto i c (.reopened op candidate)

end

/-- `out_if_new`. -/
def evidences (w : Undo C) (i : Nat) (c : Call C) (op : RevertOperation C)
    (candidate : Candidate C) (io : Io C) : Undo C :=
  match io.writes with
  | .error text => w.fails i c op text
  | .ok _ =>
    { w.goto i c (.evidenced op candidate) with
      facts := if w.facts.any fun f => f.id = op.factId then w.facts
        else w.facts ++ [op.fact candidate] }

/-- `discard_candidate`: a ref that is gone is no error. -/
def releases [DecidableEq C] (w : Undo C) (i : Nat) (c : Call C) (op : RevertOperation C)
    (candidate : Candidate C) : Undo C :=
  { w.goto i c (.released op candidate) with
    parked := w.parked.filter fun commit => commit ≠ candidate.commit }

def turn [PartialOrder C] [DecidableEq C] [DecidableLE C] (w : Undo C) (i : Nat) (c : Call C)
    (io : Io C) : Option (Undo C) :=
  match c.stage with
  | .asked => some (w.finds i c io)
  | .queued record =>
    if (w.merging record.place).isNone then some (w.takes i c record) else none
  | .holding record => some (w.chooses i c record io)
  | .running op =>
    match op.phase with
    | .intent => some (w.prepares i c op io)
    | .prepared candidate => some (w.tests i c op candidate io)
    | .advanced candidate => some (w.confirms i c op candidate io)
    | .complete candidate =>
      some (w.answer i c (.ok (op.result (some candidate.commit) "revert already completed")))
  | .made op candidate =>
    some (w.advancePhase i c op (.prepared candidate) io fun w op => w.goto i c (.running op))
  | .tested op candidate landed => some (w.swaps i c op candidate landed io)
  | .swapped op candidate =>
    some (w.advancePhase i c op (.advanced candidate) io fun w op => w.goto i c (.running op))
  | .refused op _ =>
    some (w.advancePhase i c op .intent io fun w op =>
      w.answer i c (.ok (op.result none "target moved; retry revert on the new target tip")))
  | .confirmed op candidate => some (w.settles i c op candidate io)
  | .settled op candidate => some (w.reopens i c op candidate io)
  | .reopened op candidate => some (w.evidences i c op candidate io)
  | .evidenced op candidate => some (w.releases i c op candidate)
  | .released op candidate =>
    some (w.advancePhase i c op (.complete candidate) io fun w op =>
      w.answer i c (.ok (op.result (some candidate.commit) "reverted recorded merge")))
  | .answered _ => none
  | .lost => none

def lose (c : Call C) : Call C :=
  match c.stage with
  | .answered _ => c
  | _ => { c with stage := .lost }

def pendingRevertCandidates (w : Undo C) : List C :=
  (w.operations none).filterMap fun op =>
    if op.isComplete then none else op.candidate.map Candidate.commit

def reload (w : Undo C) : Registry C :=
  w.torn.foldl (fun reg g => reg.update g.1 (Registry.unnamed g.1 g.2)) w.registry

/-- The daemon comes up, and sweeps the candidates that nobody waits for; `kept` are those that
landings wait for. -/
def restart [DecidableEq C] (w : Undo C) (kept : List C) : Undo C :=
  { w with
    registry := w.reload
    torn := []
    parked := w.parked.filter fun commit =>
      w.pendingRevertCandidates.contains commit || kept.contains commit
    calls := w.calls.map lose
    merging := fun _ => none }

end Undo

inductive UndoMove (C : Type) where
  /-- `revert`, or `revert_exact` with the operation. -/
  | call (name : String) (block : Bool) (exact : Option RecordId)
  | turn (i : Nat) (io : Io C)
  | forward (place : Place) (commit : C)
  | reset (place : Place) (commit : C)
  /-- What `finalize_delivery` writes to the registry. -/
  | deliver (name : String) (commit : C)
  | close (task : String) (delivery : DeliveryRecord C)
  /-- Any other edit of a ticket; none of them touches its receipts. -/
  | edit (task : String) (delivery : DeliveryField C) (status : String)
  | archive (name : String) (whole : Bool)
  | amend (name : String) (mutate : AgentRecord C → AgentRecord C)
  | restart (kept : List C)

namespace Undo

def amended (mutate : AgentRecord C → AgentRecord C) (r : AgentRecord C) : AgentRecord C :=
  { mutate r with name := r.name, spawn := r.spawn, mergeCommit := r.mergeCommit }

def edited (w : Undo C) (task : String) (delivery : DeliveryField C) (status : String) : Undo C :=
  { w with tickets := fun id =>
      if id = task then (w.tickets id).map fun t => { t with delivery, status }
      else w.tickets id }

def step [PartialOrder C] [DecidableEq C] [DecidableLE C] (w : Undo C) :
    UndoMove C → Option (Undo C)
  | .call name block exact => some { w with calls := w.calls ++ [⟨name, block, exact, .asked⟩] }
  | .turn i io => w.calls[i]?.bind fun c => w.turn i c io
  | .forward place commit =>
    if w.tips place ≤ commit then
      some { w with tips := fun p => if p = place then commit else w.tips p }
    else none
  | .reset place commit =>
    some { w with tips := fun p => if p = place then commit else w.tips p }
  | .deliver name commit =>
    some { w with
      registry := w.registry.update name fun r => { r with mergeCommit := some commit }
      torn := [] }
  | .close task delivery => some (w.edited task (.recorded delivery) "closed")
  | .edit task delivery status => some (w.edited task delivery status)
  | .archive name whole =>
    some { w with
      registry := w.registry.archive name whole
      torn := if whole then [] else w.torn }
  | .amend name mutate =>
    some { w with registry := w.registry.update name (amended mutate), torn := [] }
  | .restart kept => some (w.restart kept)

def fresh (tips : Place → C) (registry : Registry C) (tickets : String → Option (Ticket C)) :
    Undo C where
  tips := tips
  parked := []
  registry := registry
  torn := []
  tickets := fun id => (tickets id).map fun t => { t with revertOperations := some [] }
  facts := []
  journal := []
  calls := []
  merging := fun _ => none
  nextId := 0
  put := []
  refused := []
  moved := []
  cleared := []

end Undo

end RatKingdom.Revert
