/-
Repairs and decisions about the tickets of one repository, as a machine.

Its durable part are the tickets, the agents and landings, the markers of repairs and the
journal of decisions.  Calls of `reconcile.repair` and `attention.decide` are under way
next to each other, one step of each at a time, and a restart forgets them.
-/
import RatKingdom.Reconcile.Repair

namespace RatKingdom.Reconcile

open Core Tickets
open Agents (AgentRecord)

structure AuthorityPolicy where
  overrides : String → Option Authority := fun _ => none
  orchestratorAllowlist : List String := []

namespace AuthorityPolicy

def effectiveAuthority (policy : AuthorityPolicy) (v : Violation) : Authority :=
  (policy.overrides v.kind).getD v.authority

def orchestratorMayAct (policy : AuthorityPolicy) (kind : String) : Bool :=
  policy.orchestratorAllowlist.contains kind

end AuthorityPolicy

def mechanicalActionFor (v : Violation) : Option String :=
  if v.kind = Kind.deliveredButOpen then some "ticket.set_status(closed)" else none

def orchestratorActionFor (v : Violation) : Option String :=
  if v.kind = Kind.terminalAssigneeActiveWork then some "ticket.repair_clear_stale_ownership"
  else none

structure DeferGate where
  requestedDecision : String
  reason : String
  blastRadius : String
  resolvingAction : String

structure Decider where
  authority : Authority
  decidedBy : String
  generation : Option Nat := none
  action : String

/-- The payload of an `orchestrator_decision` event. -/
structure Decision where
  violationId : String
  kind : String
  scope : String
  subject : String
  evidence : List String
  decider : Decider
  outcome : String
  resolved : Bool
  gate : Option DeferGate := none
  terminal : Bool

def decision (v : Violation) (decider : Decider) (outcome : String) (resolved terminal : Bool)
    (gate : Option DeferGate := none) : Decision :=
  { violationId := v.id, kind := v.kind, scope := v.scope, subject := v.subject,
    evidence := v.evidence, decider, outcome, resolved, gate, terminal }

def Decision.settles (d : Decision) : Bool :=
  d.terminal && d.resolved && d.decider.authority ≠ .human

/-- The parameters of `attention.decide`. -/
structure Request where
  item : String
  holder : Option String := none
  generation : Option Nat := none
  disposition : Option String := none
  reason : Option String := none
  requestedDecision : Option String := none
  blastRadius : Option String := none
  resolvingAction : Option String := none

/-- The violation a repair is narrowed down to, when a decision makes it. -/
abbrev Target := Option (Violation × Decider)

inductive Call where
  | planning (target : Target) (agents : List AgentRecord)
  /-- The plan is made; the agents are listed again before it is applied. -/
  | fetching (target : Target) (items : List RepairItem)
  | applying (target : Target) (a : Applying)
  | reporting (req : Request) (agents : List AgentRecord)
  | intending (v : Violation) (d : Decider)
  /-- `execute_orchestrator` in front of its reads, and in front of its swap. -/
  | inspecting (v : Violation) (d : Decider)
  | swapping (v : Violation) (d : Decider) (status : String) (assignee : Option String)
  /-- A deferral whose intent is still to be recorded, and one that is to be concluded. -/
  | deferring (v : Violation) (d : Decider) (outcome : String) (gate : DeferGate) (intended : Bool)
  | concluding (v : Violation) (d : Decider) (outcome : String) (succeeded : Bool)

def Call.settling : Call → Option String
  | .applying _ a =>
    if a.phase = .announce then a.items.head?.map RepairItem.violationId else none
  | .concluding v _ _ succeeded => if succeeded then some v.id else none
  | _ => none

/-- An answer that a repair is done: `AlreadyApplied`, or the replay of a decision. -/
structure Answer where
  item : String
  replayed : Option Decision
  world : World

structure State where
  policy : AuthorityPolicy
  world : World
  /-- The violation ids of the `reconcile_repair_applied` events. -/
  repairs : List String := []
  decisions : List Decision := []
  calls : List Call := []
  answers : List Answer := []

/-- What a step draws from outside: facts of git and of the hand-offs, the answers of the
lease and of the rate cap, the record id and the clock of a write. -/
structure Input where
  facts : RepairFacts := {}
  handoffs : Option HandoffFacts := none
  renewed : Bool := true
  heldByCap : Bool := false
  stamp : Stamp := {}

namespace State

def init (policy : AuthorityPolicy) (world : World) : State := { policy, world }

variable (s : State)

def becomes (i : Nat) (c : Call) : State := { s with calls := s.calls.set i c }

def ends (i : Nat) : State := { s with calls := s.calls.eraseIdx i }

def wrote (b : Backlog) : State := { s with world := { s.world with backlog := b } }

def record (d : Decision) : State := { s with decisions := s.decisions ++ [d] }

def mark (id : String) : State := { s with repairs := s.repairs ++ [id] }

def answer (item : String) (replayed : Option Decision) : State :=
  { s with answers := s.answers ++ [⟨item, replayed, s.world⟩] }

def start (c : Call) : State := { s with calls := s.calls ++ [c] }

def effect : Effect → State
  | .none => s
  | .wrote b => s.wrote b
  | .marked id => s.mark id
  | .answered id => s.answer id none

def findDecision (item : String) : Option Decision :=
  s.decisions.find? fun d => d.violationId = item && d.terminal

end State

def errorText : Space.Error → String
  | .other text => text
  | .invalidTuple text => "invalid tuple: " ++ text

def State.failed (s : State) (i : Nat) (error : String) : Call → State
  | .planning (some (v, d)) _ | .fetching (some (v, d)) _ | .applying (some (v, d)) _
  | .inspecting v d | .swapping v d _ _ =>
    s.becomes i (.concluding v d ("error: " ++ error) false)
  | _ => s.ends i

/-- `build_repair_plan`, narrowed by `retain_matching_violation` for a decision. -/
def plannedItems (w : World) (agents : List AgentRecord) (input : Input) :
    Target → List RepairItem
  | none =>
    match input.handoffs with
    | none => plan w.backlog.tickets agents w.landed w.queued input.facts
    | some handoffs => planWithHandoffs w.backlog.tickets agents w.landed input.facts handoffs
  | some (v, _) =>
    (planWithHandoffs w.backlog.tickets agents w.landed input.facts
      (input.handoffs.getD {})).filter fun item =>
        item.violationId = v.id && item.kind = v.kind && item.subject = v.subject

/-- The result of `execute_mechanical`. -/
def mechanicalOutcome (v : Violation) : List (RepairItem × Outcome) → String × Bool
  | [] =>
    ("error: " ++ v.subject ++ " no longer trips delivered-but-open — nothing to repair", false)
  | (_, .applied detail _) :: _ => (detail, true)
  | (_, .alreadyApplied detail) :: _ => (detail, true)
  | (_, .held reason detail) :: _ => ("error: held (" ++ reason.text ++ "): " ++ detail, false)

/-- The checks of `execute_orchestrator`: the status and assignee its swap expects. -/
def inspect (w : World) (v : Violation) : Except String (String × Option String) :=
  if v.kind ≠ Kind.terminalAssigneeActiveWork then
    .error ("no orchestrator repair implemented for kind " ++ v.kind)
  else
    match w.backlog.resolve v.subject with
    | .error e => .error (errorText e)
    | .ok none => .error (v.subject ++ " no longer exists")
    | .ok (some ticket) =>
      let status := statusOf ticket
      let assignee := assigneeOf ticket
      if !isActiveStatus status then
        .error (v.subject ++ " ownership repair drifted: status is now " ++ status)
      else
        match (resolveOwner v.subject assignee w.live).filter fun a => a.state.isArchivable with
        | none => .error (v.subject ++ " ownership repair drifted: no terminal owner remains")
        | some owner =>
          let evidenced := (v.evidence.findSome? (stripPrefix "agent:")).map String.ofList
          if evidenced = some owner.name then .ok (status, assignee)
          else .error (v.subject ++ " ownership repair drifted: evidenced owner " ++
            debugText evidenced ++ ", current owner " ++ owner.name)

def nonBlank (text : Option String) : Option String := text.filter fun s => trim s ≠ ""

def deferToHuman (v : Violation) (authority : Authority) (req : Request) (input : Input) :
    Option Call := do
  guard (authority = .orchestrator)
  let holder ← req.holder
  let generation ← req.generation
  let reason ← nonBlank req.reason
  let requestedDecision ← nonBlank req.requestedDecision
  guard input.renewed
  let gate : DeferGate :=
    { requestedDecision, reason
      blastRadius := (nonBlank req.blastRadius).getD (v.subject ++ " in " ++ v.scope ++
        " — deferred, nothing mutated: no ticket, repository, or agent action was taken")
      resolvingAction := (nonBlank req.resolvingAction).getD ("resolve " ++ v.subject ++ " in " ++
        v.scope ++ " by hand, then re-run " ++ "`rk attention next " ++ v.scope ++
        "` to confirm the item has cleared") }
  let decider : Decider :=
    { authority, decidedBy := holder, generation := some generation
      action := "attention.defer_to_human" }
  some (.deferring v decider ("deferred to human by " ++ holder ++ ": " ++ reason ++
    " — requested decision: " ++ requestedDecision) gate false)

/-- The arm of an orchestrator up to its first record. -/
def orchestrate (policy : AuthorityPolicy) (v : Violation) (authority : Authority)
    (req : Request) (input : Input) : Option Call := do
  let holder ← req.holder
  let generation ← req.generation
  guard (policy.orchestratorMayAct v.kind)
  let action ← orchestratorActionFor v
  guard input.renewed
  let decider : Decider :=
    { authority, decidedBy := holder, generation := some generation, action }
  some (if input.heldByCap then
    .concluding v decider "held: fleet-wide orchestrator rate cap exceeded" false
  else .intending v decider)

/-- `attention_decide` from the report to its first record: the call that goes on, unless
it is refused. -/
def dispatch (policy : AuthorityPolicy) (req : Request) (v : Violation) (input : Input) :
    Option Call :=
  let authority := policy.effectiveAuthority v
  if req.disposition = some "defer_to_human" then deferToHuman v authority req input
  else if req.disposition ≠ none ∧ req.disposition ≠ some "execute" then none
  else
    match authority with
    | .human => none
    | .mechanical =>
      (mechanicalActionFor v).map fun action =>
        .intending v { authority, decidedBy := "mechanical", action }
    | .orchestrator => orchestrate policy v authority req input

def State.advance (s : State) (i : Nat) (input : Input) : Call → State
  | .planning target agents => s.becomes i (.fetching target (plannedItems s.world agents input target))
  | .fetching target items => s.becomes i (.applying target { agents := s.world.agents, items })
  | .applying target a =>
    match a.items with
    | [] =>
      match target with
      | none => s.ends i
      | some (v, d) =>
        let outcome := mechanicalOutcome v a.results
        s.becomes i (.concluding v d outcome.1 outcome.2)
    | item :: rest =>
      match a.step s.world.backlog s.repairs input.stamp item rest with
      | .error e => s.failed i (errorText e) (.applying target a)
      | .ok (effect, a') => (s.effect effect).becomes i (.applying target a')
  | .reporting req agents =>
    let report := ticketViolations s.world.backlog.tickets agents s.world.landed
      (input.handoffs.getD {})
    match report.find? fun v => v.id = req.item with
    | none => s.ends i
    | some v =>
      match dispatch s.policy req v input with
      | none => s.ends i
      | some c => s.becomes i c
  | .intending v d =>
    let s := s.record (decision v d "attempting" false false)
    match d.authority with
    | .mechanical => s.becomes i (.planning (some (v, d)) s.world.agents)
    | _ => s.becomes i (.inspecting v d)
  | .inspecting v d =>
    match inspect s.world v with
    | .error e => s.failed i e (.inspecting v d)
    | .ok (status, assignee) => s.becomes i (.swapping v d status assignee)
  | .swapping v d status assignee =>
    match repairClearStaleOwnership s.world.backlog v.subject status assignee input.stamp with
    | .error e => s.failed i (errorText e) (.swapping v d status assignee)
    | .ok (b, .applied) =>
      (s.wrote b).becomes i
        (.concluding v d (v.subject ++ " reopened and stale assignee cleared") true)
    | .ok (b, .drifted detail) =>
      (s.wrote b).failed i (v.subject ++ " ownership repair drifted: " ++ detail)
        (.swapping v d status assignee)
    | .ok (b, .gone) =>
      (s.wrote b).failed i (v.subject ++ " no longer exists") (.swapping v d status assignee)
  | .deferring v d outcome gate intended =>
    if intended then (s.record (decision v d outcome false true (some gate))).ends i
    else (s.record (decision v d outcome false false (some gate))).becomes i
      (.deferring v d outcome gate true)
  | .concluding v d outcome succeeded =>
    (s.record (decision v d outcome succeeded succeeded)).ends i

/-- What others change: a ticket created, edited, claimed, delivered or put in another
status, one taken out, agents launched, settled or archived, landings queued and landed. -/
inductive Change where
  | put (t : Tuple)
  | remove (identity : String)
  | registry (agents live : List AgentRecord)
  | landings (landed queued : List String)

def Change.apply (w : World) : Change → World
  | .put t => { w with backlog := w.backlog.put t }
  | .remove identity => { w with backlog := w.backlog.remove identity }
  | .registry agents live => { w with agents, live }
  | .landings landed queued => { w with landed, queued }

inductive Label where
  | change (c : Change)
  | restart (policy : AuthorityPolicy)
  | repair
  | decide (req : Request)
  | invalidate (v : Violation) (reason : Option String)
  | advance (i : Nat) (input : Input)
  | fail (i : Nat) (error : String)

def invalidated (v : Violation) (reason : Option String) : Decision :=
  decision v { authority := .human, decidedBy := "human-operator", action := "attention.invalidate" }
    ("human operator invalidated this current attention item: " ++
      (nonBlank reason).getD "invalidated by human operator") true true

def State.step (s : State) : Label → Option State
  | .change c => some { s with world := c.apply s.world }
  | .restart policy => some { s with policy, calls := [] }
  | .repair => some (s.start (.planning none s.world.agents))
  | .decide req =>
    match s.findDecision req.item with
    | some d => some (s.answer req.item (some d))
    | none => some (s.start (.reporting req s.world.agents))
  | .invalidate v reason => some (s.record (invalidated v reason))
  | .advance i input => s.calls[i]?.map (s.advance i input)
  | .fail i error => s.calls[i]?.map (s.failed i error)

/-- The answer reports a repair as done: `AlreadyApplied`, or resolved by replaying a
decision of the machine or of an orchestrator. -/
def Answer.Reports (a : Answer) : Prop :=
  match a.replayed with
  | none => True
  | some d => d.resolved = true ∧ d.decider.authority ≠ .human

instance : ∀ a : Answer, Decidable a.Reports
  | ⟨_, none, _⟩ => isTrue trivial
  | ⟨_, some d, _⟩ => inferInstanceAs (Decidable (_ ∧ _))

/-- No answer reports a repair as done while its contradiction stands. -/
def Truthful (s : State) : Prop := ∀ a ∈ s.answers, a.Reports → a.item ∉ a.world.contradictions
deriving Decidable

end RatKingdom.Reconcile
