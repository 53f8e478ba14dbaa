/-
The contradictions a convergence report raises about tickets.

A delivered ticket that is not closed is named by the ticket alone, an active ticket whose
owner has settled by the ticket and the generation of that owner.  Both predicates are pure
over the tickets, the agents and the landings they are given.
-/
import RatKingdom.Agents.Registry
import RatKingdom.Core.Ulid
import RatKingdom.Tickets.Mutations

namespace RatKingdom.Reconcile

open Core Tickets List
open Agents (AgentRecord AgentState secondsBetween)

inductive Authority where
  | mechanical | orchestrator | human
  deriving DecidableEq

namespace Kind

def deliveredButOpen : String := "delivered-but-open"

def terminalAssigneeActiveWork : String := "terminal-assignee-active-work"

end Kind

structure Violation where
  id : String
  kind : String
  scope : String
  subject : String
  detail : String
  evidence : List String
  authority : Authority
  deriving DecidableEq

/-- `str::get(0..n)`: a prefix of that many bytes, when it ends between two characters. -/
def bytePrefix : List Char → Nat → Option (List Char)
  | _, 0 => some []
  | [], _ + 1 => none
  | c :: cs, n + 1 =>
    if c.utf8Size ≤ n + 1 then (bytePrefix cs (n + 1 - c.utf8Size)).map (c :: ·) else none

def short (sha : String) : String :=
  match bytePrefix sha.toList 8 with
  | some cs => String.ofList cs
  | none => sha

def stateText : AgentState → String
  | .spawning => "Spawning"
  | .running => "Running"
  | .paused => "Paused"
  | .completed => "Completed"
  | .failed => "Failed"
  | .stopped => "Stopped"
  | .dismissed => "Dismissed"
  | .orphaned => "Orphaned"

def deliveredButOpenId (ticketId : String) : String := Kind.deliveredButOpen ++ ":" ++ ticketId

def isSettledStatus (status : String) : Bool := status = "done" || status = "closed"

def openDelivery (t : Tuple) : Option DeliveryRecord :=
  match deliveryOf t with
  | none => none
  | some record =>
    if record.mergeCommit = "" then none
    else if isSettledStatus (statusOf t) then none
    else some record

def deliveredViolation (t : Tuple) (record : DeliveryRecord) : Violation where
  id := deliveredButOpenId t.identity
  kind := Kind.deliveredButOpen
  scope := t.scope
  subject := t.identity
  detail := t.identity ++ " carries a delivery record (merge " ++ short record.mergeCommit ++
    " -> " ++ record.target ++ ") but tracker status is still '" ++ statusOf t ++ "'"
  evidence := ["ticket:" ++ t.identity, "delivery.merge_commit:" ++ record.mergeCommit,
    "delivery.target:" ++ record.target, "ticket.status:" ++ statusOf t]
  authority := .mechanical

def deliveredButOpen (tickets : List Tuple) : List Violation :=
  tickets.filterMap fun t => (openDelivery t).map (deliveredViolation t)

/-- One turn of the fold of `latest_by`. -/
def newer (existing candidate : AgentRecord) : AgentRecord :=
  if !existing.state.isLive &&
      (candidate.state.isLive || existing.createdAt < candidate.createdAt) then candidate
  else existing

def latestBy (agents : List AgentRecord) (key : AgentRecord → Option String) (k : String) :
    Option AgentRecord :=
  match agents.filter fun a => key a = some k with
  | [] => none
  | a :: rest => some (rest.foldl newer a)

def resolveOwner (ticketId : String) (assignee : Option String) (agents : List AgentRecord) :
    Option AgentRecord :=
  match assignee with
  | some name => latestBy agents (fun a => some a.name) name
  | none => latestBy agents AgentRecord.task ticketId

def spawnText (agent : AgentRecord) : String := RecordId.toText agent.spawn

def terminalAssigneeViolationId (ticketId : String) (spawn : String) : String :=
  Kind.terminalAssigneeActiveWork ++ ":" ++ ticketId ++ ":" ++ spawn

def isActiveStatus (status : String) : Bool := status = "claimed" || status = "in_progress"

def assigneeOf (t : Tuple) : Option String := t.payload.getStr "assignee"

def settledOwner (agents : List AgentRecord) (handedOn : String → Bool) (t : Tuple) :
    Option AgentRecord :=
  match t.payload.getStr "status" with
  | none => none
  | some status =>
    if !isActiveStatus status || handedOn t.identity then none
    else (resolveOwner t.identity (assigneeOf t) agents).filter fun a => a.state.isArchivable

def statusShown (t : Tuple) : String := (t.payload.getStr "status").getD "?"

def ownerEvidence (t : Tuple) (agent : AgentRecord) : List String :=
  ["ticket:" ++ t.identity, "agent:" ++ agent.name, "agent.spawn:" ++ spawnText agent,
    "agent.state:" ++ stateText agent.state]

def workflowEvidence (agent : AgentRecord) : List String :=
  match agent.workflowInstance with
  | none => []
  | some wi => ["workflow_instance:" ++ wi]

def noHandoffDetail (t : Tuple) (agent : AgentRecord) : String :=
  t.identity ++ " is still '" ++ statusShown t ++ "' but its owner " ++ agent.name ++
    " settled to " ++ stateText agent.state ++ " with no hand-off recorded"

def terminalViolation (t : Tuple) (agent : AgentRecord) (detail : String) (evidence : List String) :
    Violation where
  id := terminalAssigneeViolationId t.identity (spawnText agent)
  kind := Kind.terminalAssigneeActiveWork
  scope := t.scope
  subject := t.identity
  detail := detail
  evidence := ownerEvidence t agent ++ evidence ++ workflowEvidence agent
  authority := .orchestrator

def terminalAssigneeActiveWork (tickets : List Tuple) (agents : List AgentRecord)
    (landed queued : List String) : List Violation :=
  tickets.filterMap fun t =>
    (settledOwner agents (fun id => landed.contains id || queued.contains id) t).map fun agent =>
      terminalViolation t agent (noHandoffDetail t agent) []

structure CompletionHandoff where
  eventId : String
  task : String
  agent : String
  spawn : String
  recordedAt : DateTime

structure LandingHandoff where
  task : String
  sourceSpawn : Option String
  status : String
  ageSecs : Int

structure HeldLanding where
  task : String
  sourceSpawn : Option String
  outcome : String
  ageSecs : Int

structure HandoffFacts where
  now : DateTime := 0
  admissionGraceSecs : Int := 0
  completions : List CompletionHandoff := []
  landings : List LandingHandoff := []
  heldLandings : List HeldLanding := []
  idSpellings : String → Option (List String) := fun _ => none

structure ActiveHandoff where
  task : String
  agent : String
  spawn : String
  phase : String
  status : Option String
  ageSecs : Int

namespace HandoffFacts

variable (facts : HandoffFacts)

def spellings (ticketId : String) : List String := (facts.idSpellings ticketId).getD [ticketId]

def completionOf (t : Tuple) (agent : AgentRecord) : Option (CompletionHandoff × Int) :=
  (facts.completions.find? fun c => (facts.spellings t.identity).contains c.task &&
    c.agent = agent.name && c.spawn = spawnText agent).map fun c =>
      (c, max (secondsBetween c.recordedAt facts.now) 0)

/-- The transition a settled owner is in: in flight, held, or not admitted yet. -/
def handoffOf (t : Tuple) (agent : AgentRecord) : Option ActiveHandoff :=
  let handoff (phase : String) (status : Option String) (ageSecs : Int) : ActiveHandoff :=
    { task := t.identity, agent := agent.name, spawn := spawnText agent, phase, status, ageSecs }
  let names := facts.spellings t.identity
  match facts.landings.find? fun l =>
      names.contains l.task && l.sourceSpawn = some (spawnText agent) with
  | some landing => some (handoff "landing" (some landing.status) (max landing.ageSecs 0))
  | none =>
    match facts.heldLandings.find? fun h =>
        names.contains h.task && h.sourceSpawn = some (spawnText agent) with
    | some held => some (handoff "held" (some held.outcome) (max held.ageSecs 0))
    | none =>
      match facts.completionOf t agent with
      | none => none
      | some (_, age) =>
        if age ≤ max facts.admissionGraceSecs 0 then
          some (handoff "completion_pending_admission" none age)
        else none

def abandoned (t : Tuple) (agent : AgentRecord) : Violation :=
  match facts.completionOf t agent with
  | none => terminalViolation t agent (noHandoffDetail t agent) []
  | some (completion, age) =>
    terminalViolation t agent
      (t.identity ++ " is still '" ++ statusShown t ++ "' after owner " ++ agent.name ++
        " completed; its clean delivery handoff has waited " ++ toString age ++
        "s without entering the landing queue")
      ["harness_result:" ++ completion.eventId, "handoff.age_secs:" ++ toString age,
        "handoff.grace_secs:" ++ toString (max facts.admissionGraceSecs 0)]

end HandoffFacts

def terminalAssigneeWithHandoffs (tickets : List Tuple) (agents : List AgentRecord)
    (landed : List String) (facts : HandoffFacts) : List ActiveHandoff × List Violation :=
  let settled := tickets.filterMap fun t =>
    (settledOwner agents landed.contains t).map fun agent => (t, agent)
  let handoffs := settled.filterMap fun (t, agent) => facts.handoffOf t agent
  let violations := settled.filterMap fun (t, agent) =>
    if (facts.handoffOf t agent).isSome then none else some (facts.abandoned t agent)
  (handoffs.insertionSort fun a b => a.task ≤ b.task, violations)

/-- The violations of `build_with_handoffs` that are about tickets. -/
def ticketViolations (tickets : List Tuple) (agents : List AgentRecord) (landed : List String)
    (facts : HandoffFacts) : List Violation :=
  (deliveredButOpen tickets ++ (terminalAssigneeWithHandoffs tickets agents landed facts).2
    ).insertionSort fun a b => a.id ≤ b.id

variable {tickets : List Tuple} {v : Violation}

theorem mem_deliveredButOpen :
    v ∈ deliveredButOpen tickets ↔
      ∃ t ∈ tickets, ∃ record, openDelivery t = some record ∧ deliveredViolation t record = v := by
  simp [deliveredButOpen, mem_filterMap, Option.map_eq_some_iff]

variable {agents : List AgentRecord}

theorem mem_terminalAssigneeActiveWork {landed queued : List String} :
    v ∈ terminalAssigneeActiveWork tickets agents landed queued ↔ ∃ t ∈ tickets, ∃ agent,
        settledOwner agents (fun id => landed.contains id || queued.contains id) t = some agent ∧
          terminalViolation t agent (noHandoffDetail t agent) [] = v := by
  simp [terminalAssigneeActiveWork, mem_filterMap, Option.map_eq_some_iff]

theorem mem_terminalAssigneeWithHandoffs {landed : List String} {facts : HandoffFacts}
    (h : v ∈ (terminalAssigneeWithHandoffs tickets agents landed facts).2) :
    ∃ t ∈ tickets, ∃ agent, settledOwner agents landed.contains t = some agent ∧
      facts.handoffOf t agent = none ∧ facts.abandoned t agent = v := by
  obtain ⟨⟨t, agent⟩, hp, hv⟩ := mem_filterMap.mp h
  obtain ⟨u, hu, hagent⟩ := mem_filterMap.mp hp
  obtain ⟨owner, howner, heq⟩ := Option.map_eq_some_iff.mp hagent
  cases heq
  have hn : facts.handoffOf t agent = none ∧ facts.abandoned t agent = v := by simpa using hv
  exact ⟨t, hu, agent, howner, hn.1, hn.2⟩

theorem abandoned_names (facts : HandoffFacts) (t : Tuple) (agent : AgentRecord) :
    (facts.abandoned t agent).id = terminalAssigneeViolationId t.identity (spawnText agent) ∧
      (facts.abandoned t agent).kind = Kind.terminalAssigneeActiveWork ∧
      (facts.abandoned t agent).subject = t.identity := by
  unfold HandoffFacts.abandoned
  split
  · exact ⟨rfl, rfl, rfl⟩
  · exact ⟨rfl, rfl, rfl⟩

variable {status : String}

theorem isActiveStatus_eq_true :
    isActiveStatus status = true ↔ status = "claimed" ∨ status = "in_progress" := by
  simp [isActiveStatus]

theorem isSettledStatus_of_active (h : isActiveStatus status = true) :
    isSettledStatus status = false := by
  rcases isActiveStatus_eq_true.mp h with rfl | rfl
  · rfl
  · rfl

theorem settledOwner_eq_some {handedOn : String → Bool} {t : Tuple} {agent : AgentRecord}
    (h : settledOwner agents handedOn t = some agent) :
    (∃ status, t.payload.getStr "status" = some status ∧ isActiveStatus status = true) ∧
      resolveOwner t.identity (assigneeOf t) agents = some agent ∧
      agent.state.isArchivable = true := by
  unfold settledOwner at h
  split at h
  · cases h
  · rename_i status hs
    split at h
    · cases h
    · rename_i hcond
      obtain ⟨hactive, -⟩ : isActiveStatus status = true ∧ handedOn t.identity = false := by
        simpa using hcond
      obtain ⟨ho, ha⟩ := Option.filter_eq_some_iff.mp h
      exact ⟨⟨status, hs, hactive⟩, ho, ha⟩

theorem settledOwner_eq_none {handedOn : String → Bool} {t : Tuple}
    (hs : t.payload.getStr "status" = some status) (h : isActiveStatus status = false) :
    settledOwner agents handedOn t = none := by
  simp only [settledOwner, hs, h, Bool.not_false, Bool.true_or, if_true]

variable {a b : String}

theorem append_cancel_left {c : String} (h : a ++ b = a ++ c) : b = c := by
  have hl : a.toList ++ b.toList = a.toList ++ c.toList := by
    rw [← String.toList_append, ← String.toList_append, h]
  exact String.toList_injective (List.append_cancel_left hl)

theorem deliveredButOpenId_inj (h : deliveredButOpenId a = deliveredButOpenId b) : a = b :=
  append_cancel_left h

theorem length_spawnText (agent : AgentRecord) : (spawnText agent).toList.length = 26 := by
  simp [spawnText, RecordId.toText]

theorem terminalAssigneeViolationId_inj {a b : String} {x y : AgentRecord}
    (h : terminalAssigneeViolationId a (spawnText x) = terminalAssigneeViolationId b (spawnText y)) :
    a = b := by
  have hl := congrArg String.toList h
  simp only [terminalAssigneeViolationId, String.toList_append, append_assoc] at hl
  have hrest := List.append_cancel_left (List.append_cancel_left hl)
  have hlen : (":".toList ++ (spawnText x).toList).length =
      (":".toList ++ (spawnText y).toList).length := by
    simp only [length_append, length_spawnText]
  exact String.toList_injective (append_inj_left' hrest hlen)

theorem deliveredButOpenId_ne {s : String} :
    deliveredButOpenId a ≠ terminalAssigneeViolationId b s := by
  intro h
  have hl := congrArg String.toList h
  simp only [deliveredButOpenId, terminalAssigneeViolationId, String.toList_append,
    append_assoc] at hl
  have hd : Kind.deliveredButOpen.toList = 'd' :: "elivered-but-open".toList := by decide
  have ht : Kind.terminalAssigneeActiveWork.toList =
      't' :: "erminal-assignee-active-work".toList := by decide
  rw [hd, ht] at hl
  have hc := (List.cons.inj hl).1
  exact absurd hc (by decide)

end RatKingdom.Reconcile
