/-
Digest-bound action approvals: the store of `action_approval.rs` over the action
records of `rk_core::action`.

A proposal is filed under the digest of its payload, an operator's grant is bound
to that digest, and an executor brackets its work between `begin_execute_action`
and one of the finishing calls.  SHA-256 stands behind two functions here, the
digest of a payload and the workflow instance id bound to an approval; both are
parameters.
-/
import Std.Data.TreeMap
import RatKingdom.Core.Text
import RatKingdom.Lib.Run

namespace RatKingdom.Factory

open Function

open Core (DateTime)

inductive ActionKind where
  | workflowRun | ticketGraphApply | productToCodeDispatch
deriving DecidableEq

inductive ActionRisk where
  | read | mutation | dangerous

structure RepoScope where
  identity : String
  path : String
deriving DecidableEq

structure ActionScope where
  repo : RepoScope
deriving DecidableEq

/-- A canonical factory action.  `body` is what the three kinds carry besides
their repository; only the digest reads it. -/
structure FactoryAction (Body : Type) where
  kind : ActionKind
  repoIdentity : String
  repoPath : String
  body : Body

def FactoryAction.risk {Body : Type} (a : FactoryAction Body) : ActionRisk :=
  match a.kind with
  | .workflowRun => .mutation
  | .ticketGraphApply => .mutation
  | .productToCodeDispatch => .mutation

def FactoryAction.repoScope {Body : Type} (a : FactoryAction Body) : RepoScope :=
  { identity := a.repoIdentity, path := a.repoPath }

structure ActionProposal (Body : Type) where
  schema : Nat
  id : String
  digest : String
  kind : ActionKind
  risk : ActionRisk
  scope : ActionScope
  requester : String
  action : FactoryAction Body
  nonce : String
  createdAt : DateTime
  expiresAt : DateTime
  status : String

/-- The part of a proposal its digest covers: not the id, the digest, the creation
time or the status. -/
structure ActionDigestPayload (Body : Type) where
  schema : Nat
  kind : ActionKind
  risk : ActionRisk
  scope : ActionScope
  requester : String
  action : FactoryAction Body
  nonce : String
  expiresAt : DateTime

def ActionDigestPayload.fromProposal {Body : Type} (p : ActionProposal Body) :
    ActionDigestPayload Body :=
  { schema := p.schema, kind := p.kind, risk := p.risk, scope := p.scope
    requester := p.requester, action := p.action, nonce := p.nonce, expiresAt := p.expiresAt }

inductive ApprovalStatus where
  | approved | executing | consumed | failed
deriving DecidableEq

structure ApprovalGrant where
  schema : Nat
  proposalId : String
  digest : String
  kind : ActionKind
  scope : ActionScope
  requester : String
  approvedBy : String
  status : ApprovalStatus
  approvedAt : DateTime
  expiresAt : DateTime
  executionId : Option String
  instanceId : Option String
  failure : Option String
  consumedAt : Option DateTime

structure TicketGraphAppliedEdge where
  blockedTicketId : String
  dependencyTicketId : String
deriving DecidableEq

structure TicketGraphApplyExecutionResult where
  executionId : String
  graphId : String
  graphNodeToTicketId : Std.TreeMap String String
  createdTicketIds : List String
  createdDependencyEdges : List TicketGraphAppliedEdge
  idempotentReplay : Bool
  status : String

structure ProductToCodeBlockedNode where
  graphNodeId : String
  reasons : List String

structure ProductToCodeDispatchedWorkflow where
  graphNodeId : String
  ticketId : String
  workflow : String
  instanceId : String

structure ProductToCodeDispatchExecutionResult where
  executionId : String
  graphId : String
  dispatched : List ProductToCodeDispatchedWorkflow
  blocked : List ProductToCodeBlockedNode
  idempotentReplay : Bool
  status : String

structure StoreData (Body : Type) where
  proposals : String → Option (ActionProposal Body)
  grants : String → Option ApprovalGrant
  ticketGraphResults : String → Option TicketGraphApplyExecutionResult
  productToCodeResults : String → Option ProductToCodeDispatchExecutionResult

def StoreData.empty {Body : Type} : StoreData Body :=
  { proposals := fun _ => none, grants := fun _ => none
    ticketGraphResults := fun _ => none, productToCodeResults := fun _ => none }

/-- What a call computes under the lock before the file is written: an error, an
answer that changes nothing, or new data to write out and an answer. -/
inductive Outcome (Body α : Type) where
  | refuse (error : String)
  | keep (out : α)
  | write (data : StoreData Body) (out : α)

section
variable {Body : Type} (digestOf : ActionDigestPayload Body → Except String String)
  (boundInstanceId : String → String → String)

def proposalNonce (now : DateTime) (requester : String) : String := s!"{now}:{requester}"

def proposalTtl (ttlSeconds : Option Int) : Int :=
  max 1 (min (ttlSeconds.getD 3600) 86400) * DateTime.nanosPerSecond

def ActionProposal.draft (requester : String) (action : FactoryAction Body)
    (ttlSeconds : Option Int) (now : DateTime) : ActionProposal Body :=
  { schema := 1, id := s!"act-{now}", digest := "", kind := action.kind, risk := action.risk
    scope := { repo := action.repoScope }, requester := requester, action := action
    nonce := proposalNonce now requester, createdAt := now
    expiresAt := now + proposalTtl ttlSeconds, status := "proposed" }

def proposeAction (data : StoreData Body) (requester : String) (action : FactoryAction Body)
    (ttlSeconds : Option Int) (now : DateTime) : Outcome Body (ActionProposal Body) :=
  let draft := ActionProposal.draft requester action ttlSeconds now
  match digestOf (.fromProposal draft) with
  | .error e => .refuse e
  | .ok digest =>
    let proposal := { draft with digest := digest, id := digest }
    .write { data with proposals := update data.proposals proposal.id (some proposal) } proposal

def alreadyGranted : ApprovalStatus → String
  | .approved => "approval already approved"
  | .executing => "approval already executing"
  | .consumed => "approval already consumed"
  | .failed => "approval already failed"

def ActionProposal.grant (p : ActionProposal Body) (approvedBy : String) (now : DateTime) :
    ApprovalGrant :=
  { schema := 1, proposalId := p.id, digest := p.digest, kind := p.kind, scope := p.scope
    requester := p.requester, approvedBy := approvedBy, status := .approved, approvedAt := now
    expiresAt := p.expiresAt, executionId := none
    instanceId := if p.kind = .workflowRun then some (boundInstanceId p.id p.digest) else none
    failure := none, consumedAt := none }

def approve (data : StoreData Body) (proposalId digest approvedBy : String) (now : DateTime) :
    Outcome Body ApprovalGrant :=
  match data.proposals proposalId with
  | none => .refuse "unknown proposal"
  | some proposal =>
    if proposal.digest ≠ digest then .refuse "approval digest mismatch"
    else if proposal.expiresAt ≤ now then .refuse "proposal expired"
    else match data.grants proposalId with
      | some existing =>
        if existing.digest ≠ digest ∨ existing.scope ≠ proposal.scope ∨
            existing.requester ≠ proposal.requester then
          .refuse "approval binding mismatch"
        else .refuse (alreadyGranted existing.status)
      | none =>
        let grant := proposal.grant boundInstanceId approvedBy now
        .write { data with grants := update data.grants proposal.id (some grant) } grant

def recomputeProposalDigest (p : ActionProposal Body) (action : FactoryAction Body) :
    Except String String :=
  digestOf (.fromProposal
    { p with digest := "", action := action, scope := { repo := action.repoScope } })

def ApprovalGrant.begun (grant : ApprovalGrant) (p : ActionProposal Body)
    (action : FactoryAction Body) (now : DateTime) : ApprovalGrant :=
  { grant with
    status := .executing
    executionId :=
      if grant.executionId.isNone then some s!"exec-{now}" else grant.executionId
    instanceId :=
      if grant.instanceId.isNone ∧ action.kind = .workflowRun then
        some (boundInstanceId p.id p.digest)
      else grant.instanceId
    failure := none }

def beginExecuteAction (data : StoreData Body) (proposalId digest caller : String)
    (action : FactoryAction Body) (now : DateTime) : Outcome Body ApprovalGrant :=
  match data.proposals proposalId with
  | none => .refuse "unknown proposal"
  | some proposal =>
    match recomputeProposalDigest digestOf proposal action with
    | .error e => .refuse e
    | .ok recomputed =>
      if proposal.digest ≠ digest ∨ recomputed ≠ digest then
        .refuse s!"action digest mismatch: expected={proposal.digest} provided={digest} recomputed={recomputed}"
      else if proposal.requester ≠ caller then .refuse "caller mismatch"
      else match data.grants proposalId with
        | none => .refuse "proposal is not approved"
        | some grant =>
          if grant.digest ≠ digest ∨ grant.scope ≠ proposal.scope ∨ grant.requester ≠ caller then
            .refuse "approval binding mismatch"
          else match grant.status with
            | .approved | .failed =>
              if proposal.expiresAt ≤ now then .refuse "proposal expired"
              else
                let begun := grant.begun boundInstanceId proposal action now
                .write { data with grants := update data.grants proposalId (some begun) } begun
            -- a second executor is let in while the first one runs
            | .executing => .keep grant
            | .consumed =>
              if grant.instanceId.isSome then .keep grant else .refuse "approval already consumed"

def finishSuccess (data : StoreData Body) (proposalId instanceId : String) (now : DateTime) :
    Outcome Body ApprovalGrant :=
  match data.grants proposalId with
  | none => .refuse "unknown approval"
  | some grant =>
    let out := { grant with status := .consumed, instanceId := some instanceId,
                            consumedAt := some now }
    .write { data with grants := update data.grants proposalId (some out) } out

def finishFailed (data : StoreData Body) (proposalId failure : String) :
    Outcome Body ApprovalGrant :=
  match data.grants proposalId with
  | none => .refuse "unknown approval"
  | some grant =>
    let out := { grant with status := .failed, failure := some failure }
    .write { data with grants := update data.grants proposalId (some out) } out

def mergeNode (merged : Std.TreeMap String String) (node : String × String) :
    Except String (Std.TreeMap String String) :=
  match merged[node.1]? with
  | some existing =>
    if existing ≠ node.2 then .error "ticket graph node mapping checkpoint mismatch"
    else .ok merged
  | none => .ok (merged.insert node.1 node.2)

def pushNew {α : Type} [DecidableEq α] (xs : List α) (x : α) : List α :=
  if x ∈ xs then xs else xs ++ [x]

def mergeTicketGraphCheckpoint (data : StoreData Body) (proposalId : String)
    (checkpoint : TicketGraphApplyExecutionResult) :
    Except String (TicketGraphApplyExecutionResult × StoreData Body) :=
  let merged := (data.ticketGraphResults proposalId).getD checkpoint
  if merged.executionId ≠ checkpoint.executionId ∨ merged.graphId ≠ checkpoint.graphId then
    .error "ticket graph execution checkpoint binding mismatch"
  else
    match checkpoint.graphNodeToTicketId.toList.foldlM mergeNode merged.graphNodeToTicketId with
    | .error e => .error e
    | .ok nodes =>
      let out := { merged with
        graphNodeToTicketId := nodes
        createdTicketIds := checkpoint.createdTicketIds.foldl pushNew merged.createdTicketIds
        createdDependencyEdges :=
          checkpoint.createdDependencyEdges.foldl pushNew merged.createdDependencyEdges
        status := if checkpoint.status = "completed" then checkpoint.status else merged.status
        idempotentReplay := false }
      .ok (out, { data with
        ticketGraphResults := update data.ticketGraphResults proposalId (some out) })

def pushDispatched (xs : List ProductToCodeDispatchedWorkflow)
    (x : ProductToCodeDispatchedWorkflow) : List ProductToCodeDispatchedWorkflow :=
  if xs.any fun existing => existing.ticketId = x.ticketId then xs else xs ++ [x]

def mergeProductToCodeCheckpoint (data : StoreData Body) (proposalId : String)
    (checkpoint : ProductToCodeDispatchExecutionResult) :
    Except String (ProductToCodeDispatchExecutionResult × StoreData Body) :=
  let merged := (data.productToCodeResults proposalId).getD checkpoint
  if merged.executionId ≠ checkpoint.executionId ∨ merged.graphId ≠ checkpoint.graphId then
    .error "product_to_code dispatch execution checkpoint binding mismatch"
  else
    let out := { merged with
      dispatched := checkpoint.dispatched.foldl pushDispatched merged.dispatched
      blocked := checkpoint.blocked
      status := if checkpoint.status = "completed" then checkpoint.status else merged.status
      idempotentReplay := false }
    .ok (out, { data with
      productToCodeResults := update data.productToCodeResults proposalId (some out) })

def checkpointTicketGraphResult (data : StoreData Body) (proposalId : String)
    (checkpoint : TicketGraphApplyExecutionResult) :
    Outcome Body TicketGraphApplyExecutionResult :=
  match mergeTicketGraphCheckpoint data proposalId checkpoint with
  | .error e => .refuse e
  | .ok (out, data) => .write data out

def checkpointProductToCodeResult (data : StoreData Body) (proposalId : String)
    (checkpoint : ProductToCodeDispatchExecutionResult) :
    Outcome Body ProductToCodeDispatchExecutionResult :=
  match mergeProductToCodeCheckpoint data proposalId checkpoint with
  | .error e => .refuse e
  | .ok (out, data) => .write data out

def ApprovalGrant.completed (grant : ApprovalGrant) (executionId : String) (now : DateTime) :
    ApprovalGrant :=
  { grant with
    status := .consumed
    instanceId := some executionId
    failure := none
    consumedAt := some (grant.consumedAt.getD now) }

/-- The two completions of a checkpointed execution differ in the action kind, the
words of their errors and the checkpoint they merge. -/
def finishCheckpointed {α : Type} (kind : ActionKind) (what : String) (status : String)
    (executionId : String) (resultId : α → String)
    (merge : StoreData Body → Except String (α × StoreData Body))
    (data : StoreData Body) (proposalId : String) (now : DateTime) :
    Outcome Body (α × ApprovalGrant) :=
  if status ≠ "completed" then .refuse s!"{what} completion requires completed checkpoint"
  else match data.grants proposalId with
    | none => .refuse "unknown approval"
    | some existing =>
      if existing.kind ≠ kind ∨ existing.executionId ≠ some executionId then
        .refuse s!"{what} completion approval binding mismatch"
      else if existing.status ≠ .executing ∧ existing.status ≠ .consumed then
        .refuse s!"{what} completion approval is not executing"
      else match merge data with
        | .error e => .refuse e
        | .ok (result, data) =>
          let grant := existing.completed (resultId result) now
          .write { data with grants := update data.grants proposalId (some grant) } (result, grant)

def finishTicketGraphSuccess (data : StoreData Body) (proposalId : String)
    (checkpoint : TicketGraphApplyExecutionResult) (now : DateTime) :
    Outcome Body (TicketGraphApplyExecutionResult × ApprovalGrant) :=
  finishCheckpointed .ticketGraphApply "ticket graph" checkpoint.status checkpoint.executionId
    TicketGraphApplyExecutionResult.executionId
    (fun data => mergeTicketGraphCheckpoint data proposalId checkpoint) data proposalId now

def finishProductToCodeSuccess (data : StoreData Body) (proposalId : String)
    (checkpoint : ProductToCodeDispatchExecutionResult) (now : DateTime) :
    Outcome Body (ProductToCodeDispatchExecutionResult × ApprovalGrant) :=
  finishCheckpointed .productToCodeDispatch "product_to_code dispatch" checkpoint.status
    checkpoint.executionId ProductToCodeDispatchExecutionResult.executionId
    (fun data => mergeProductToCodeCheckpoint data proposalId checkpoint) data proposalId now

end

end RatKingdom.Factory
