/-
Deciding a post-commit recovery.

`continue_recovery` and `abandon_recovery` read the record, and acknowledge their decision in a
later update of it.  A continuation holds the dispatch lock from its first read to its
acknowledgement; an abandonment takes no lock but the registry's, twice.
-/
import RatKingdom.Supervisor.Events

namespace RatKingdom.Supervisor

open Core Lib Agents Agents.Registry

/-- What a call answers. -/
inductive Answer where
  | ok (outcome : RecoveryOutcome)
  | error (text : String)
  deriving DecidableEq

/-- `replay_or_refuse`: only the key that was acknowledged gets its outcome again. -/
def replayOrRefuse (name actionId : String) (ack : RecoveryAck) : Answer :=
  if ack.actionId = actionId then .ok ack.outcome
  else .error (name ++ "'s recovery was already acknowledged by a different action (" ++
    ack.actionId ++ " != " ++ actionId ++ ")")

section
variable {Usd : Type}

def replayReceiptOrRefuse (name actionId : String) (record : Agent Usd) : Answer :=
  match record.recoveryReceipt with
  | some receipt =>
    if receipt.spawn = record.spawn then replayOrRefuse name actionId receipt.ack
    else .error (name ++ " has no pending recovery")
  | none => .error (name ++ " has no pending recovery")

end

inductive RecoveryAction where
  /-- `continue_recovery`, on the harness of the record or on another one. -/
  | resume (targetHarness : Option String)
  | abandon
  deriving DecidableEq

/-- Where a call is, between the locks it takes. -/
inductive RecoveryStage where
  | begun
  | checked (harness : String) (outcome : RecoveryOutcome)
  | launched (harness : String) (outcome : RecoveryOutcome)
  | answered (answer : Answer)
  | lost
  deriving DecidableEq

structure RecoveryCall where
  action : RecoveryAction
  actionId : String
  stage : RecoveryStage
  /-- The decision that had been acknowledged to a caller when this call was made. -/
  before : Option (String × RecoveryOutcome)

structure ContinueIo where
  /-- `ensure_review_dispatch_open`. -/
  dispatch : Except String Unit
  /-- The role, the worktree and task, the harness, the repository and the attempt. -/
  prepared : Except String Unit

/-- A name with the recovery calls on it. -/
structure Recovery (Usd : Type) where
  name : String
  slot : NameSlot Usd
  /-- The call that holds `review_dispatch`. -/
  dispatching : Option Nat
  calls : List RecoveryCall
  nextId : SpawnId
  /-- The first decision that was acknowledged to a caller. -/
  acknowledged : Option (String × RecoveryOutcome)
  launchedAfterAbandon : Bool

namespace Recovery
variable {Usd : Type}

def goto (d : Recovery Usd) (i : Nat) (c : RecoveryCall) (stage : RecoveryStage) : Recovery Usd :=
  { d with calls := d.calls.set i { c with stage } }

def answer (d : Recovery Usd) (i : Nat) (c : RecoveryCall) (a : Answer) : Recovery Usd :=
  { d.goto i c (.answered a) with
    dispatching := if d.dispatching = some i then none else d.dispatching
    acknowledged := d.acknowledged <|> (match a with
      | .ok outcome => some (c.actionId, outcome)
      | .error _ => none) }

def fails (d : Recovery Usd) (i : Nat) (c : RecoveryCall) (text : String) : Recovery Usd :=
  d.answer i c (.error text)

def decided (d : Recovery Usd) (actionId : String) (record : Agent Usd) : Option Answer :=
  match record.recovery with
  | none => some (replayReceiptOrRefuse d.name actionId record)
  | some recovery => recovery.ack.map (replayOrRefuse d.name actionId)

def continueRead (d : Recovery Usd) (i : Nat) (c : RecoveryCall) (target : Option String)
    (io : ContinueIo) : Recovery Usd :=
  match d.slot.record with
  | none => d.fails i c ("no such agent: " ++ d.name)
  | some record =>
    match io.dispatch with
    | .error text => d.fails i c text
    | .ok _ =>
      match d.decided c.actionId record with
      | some a => d.answer i c a
      | none =>
        if record.recovery.any fun recovery => recovery.spawn ≠ record.spawn then
          d.fails i c (d.name ++ "'s recovery record is stale: a newer generation is active")
        else if record.state.isLive || record.pid.isSome then
          d.fails i c (d.name ++ " already has a live owner — refusing to continue")
        else
          match io.prepared with
          | .error text => d.fails i c text
          | .ok _ =>
            let harness := target.getD record.harness
            let outcome :=
              if harness = record.harness then .resumedSameProvider record.spawn
              else .continuedAlternateProvider harness record.spawn
            { d.goto i c (.checked harness outcome) with dispatching := some i }

def launch (d : Recovery Usd) (i : Nat) (c : RecoveryCall) (harness : String)
    (outcome : RecoveryOutcome) (launched : Except String Unit) : Recovery Usd :=
  match launched with
  | .error text => d.fails i c text
  | .ok _ =>
    { d.goto i c (.launched harness outcome) with
      launchedAfterAbandon := d.launchedAfterAbandon ||
        d.acknowledged.any fun a => a.2 = .abandoned }

def acknowledge (actionId : String) (outcome : RecoveryOutcome) (now : DateTime)
    (record : Agent Usd) : Agent Usd :=
  { record with recovery := record.recovery.map fun recovery =>
      { recovery with ack := some ⟨actionId, outcome, now⟩ } }

def continued (c : RecoveryCall) (harness : String) (outcome : RecoveryOutcome) (pid : Option Nat)
    (now : DateTime) (record : Agent Usd) : Agent Usd :=
  acknowledge c.actionId outcome now { record with
    harness, state := .running, pid, result := none, crashed := false, stderrTail := none }

/-- `publish_launch`, with the acknowledgement.  `failure` is what a write that fails reports. -/
def publish (d : Recovery Usd) (i : Nat) (c : RecoveryCall) (harness : String)
    (outcome : RecoveryOutcome) (pid : Option Nat) (io : EventIo) (failure : String) : Recovery Usd :=
  match d.slot.update io (continued c harness outcome pid io.now) with
  | (slot, none) =>
    { d with slot }.fails i c
      (if d.slot.record.isNone then "record vanished: " ++ d.name else failure)
  | (slot, some _) =>
    { d with
      slot := { slot with completion := none, token := some d.nextId, control := some d.nextId }
      nextId := d.nextId + 1 }.answer i c (.ok outcome)

def abandonRead (d : Recovery Usd) (i : Nat) (c : RecoveryCall) : Recovery Usd :=
  match d.slot.record with
  | none => d.fails i c ("no such agent: " ++ d.name)
  | some record =>
    match d.decided c.actionId record with
    | some a => d.answer i c a
    | none => d.goto i c (.checked record.harness .abandoned)

def abandonWrite (d : Recovery Usd) (i : Nat) (c : RecoveryCall) (io : EventIo) (failure : String) :
    Recovery Usd :=
  let slot := (d.slot.update io (acknowledge c.actionId .abandoned io.now)).1
  if io.writes || d.slot.record.isNone then { d with slot }.answer i c (.ok .abandoned)
  else { d with slot }.fails i c failure

end Recovery

inductive RecoveryMove (Usd : Type) where
  | call (action : RecoveryAction) (actionId : String)
  /-- The first registry lock of a call. -/
  | read (i : Nat) (io : ContinueIo)
  | launch (i : Nat) (launched : Except String Unit)
  | write (i : Nat) (pid : Option Nat) (io : EventIo) (failure : String)
  | started (session : SpawnId) (sessionId : Option String) (io : EventIo)
  /-- Anything else that happens to the record, its generation and its recovery apart. -/
  | elsewhere (mutate : Agent Usd → Agent Usd) (token : Option SpawnId)
  | restart (now : DateTime)

namespace Recovery
variable {Usd : Type}

def orphaned (now : DateTime) (record : Agent Usd) : Agent Usd :=
  if record.state.isLive then { record with state := .orphaned, pid := none, updatedAt := now }
  else record

def elsewhere (mutate : Agent Usd → Agent Usd) (record : Agent Usd) : Agent Usd :=
  { mutate record with
    spawn := record.spawn, recovery := record.recovery, recoveryReceipt := record.recoveryReceipt }

def lose (c : RecoveryCall) : RecoveryCall :=
  match c.stage with
  | .answered _ => c
  | _ => { c with stage := .lost }

def read (d : Recovery Usd) (i : Nat) (c : RecoveryCall) (io : ContinueIo) : Option (Recovery Usd) :=
  match c.stage, c.action with
  | .begun, .resume target =>
    if d.dispatching.isNone then some (d.continueRead i c target io) else none
  | .begun, .abandon => some (d.abandonRead i c)
  | _, _ => none

def write (d : Recovery Usd) (i : Nat) (c : RecoveryCall) (pid : Option Nat) (io : EventIo)
    (failure : String) : Option (Recovery Usd) :=
  match c.stage, c.action with
  | .launched harness outcome, .resume _ =>
    some (d.publish i c harness outcome pid io failure)
  | .checked _ _, .abandon => some (d.abandonWrite i c io failure)
  | _, _ => none

def launching (d : Recovery Usd) (i : Nat) (c : RecoveryCall) (launched : Except String Unit) :
    Option (Recovery Usd) :=
  match c.stage, c.action with
  | .checked harness outcome, .resume _ => some (d.launch i c harness outcome launched)
  | _, _ => none

def step (d : Recovery Usd) : RecoveryMove Usd → Option (Recovery Usd)
  | .call action actionId =>
    some { d with calls := d.calls ++ [⟨action, actionId, .begun, d.acknowledged⟩] }
  | .read i io => d.calls[i]?.bind fun c => d.read i c io
  | .launch i launched => d.calls[i]?.bind fun c => d.launching i c launched
  | .write i pid io failure => d.calls[i]?.bind fun c => d.write i c pid io failure
  | .started session sessionId io =>
    some { d with slot := d.slot.started session sessionId io }
  | .elsewhere mutate token =>
    some { d with slot := { d.slot with record := d.slot.record.map (elsewhere mutate), token } }
  | .restart now =>
    some { d with
      slot := { d.slot with record := d.slot.record.map (orphaned now), token := none, control := none }
      dispatching := none
      calls := d.calls.map lose }

def opened (name : String) (slot : NameSlot Usd) : Recovery Usd :=
    ⟨name, slot, none, [], 0, none, false⟩

end Recovery

end RatKingdom.Supervisor
