/-
What becomes of a generation that failed.

Three ways lead on: `respawn_sweep`, `transport_retry_sweep` and `continue_recovery`.  Each asks
the record whether it is its own to take, and each leaves what another has set to that other one.
A sweep asks when it draws its list, and launches from the list.
-/
import RatKingdom.Supervisor.Recovery

namespace RatKingdom.Supervisor

open Core Lib Agents Agents.Registry

structure SupervisorConfig where
  respawnEnabled : Bool
  respawnMaxAttempts : Nat
  respawnBackoffSecs : Nat
  transportRetryMaxAttempts : Nat
  transportRetryBackoffSecs : Nat

/-- How often a name was respawned. -/
structure RespawnState where
  attempts : Nat
  lastAttempt : DateTime
  escalated : Bool

inductive RespawnDecision where
  | wait | respawn | escalate

def maxU64 : Nat := 18446744073709551615

def backoffSecs (secs attempts : Nat) : Nat := min (secs * 2 ^ min (attempts - 1) 16) maxU64

def waitedSecs (since now : DateTime) : Nat := (secondsBetween since now).toNat

def decideRespawn (cfg : SupervisorConfig) (state : Option RespawnState) (now : DateTime) :
    RespawnDecision :=
  if (state.elim 0 RespawnState.attempts) ≥ cfg.respawnMaxAttempts then
    if state.any RespawnState.escalated then .wait else .escalate
  else
    match state with
    | none => .respawn
    | some st =>
      if waitedSecs st.lastAttempt now ≥ backoffSecs cfg.respawnBackoffSecs st.attempts then
        .respawn
      else .wait

def decideTransportRetry (cfg : SupervisorConfig) (outage : Option TransportOutageState)
    (now : DateTime) (breakerOpen : Bool) (jitter : Nat) : RespawnDecision :=
  match outage with
  | none => .wait
  | some outage =>
    if outage.ceilingHit then .wait
    else if !outage.retryable || outage.attempts ≥ cfg.transportRetryMaxAttempts then .escalate
    else if breakerOpen then .wait
    else if waitedSecs outage.lastFailureAt now ≥
        min (backoffSecs cfg.transportRetryBackoffSecs outage.attempts + jitter) maxU64 then
      .respawn
    else .wait

section
variable {Usd : Type}

def Agent.isAutoRespawnCandidate (record : Agent Usd) : Bool :=
  record.state = .orphaned || record.state = .failed

inductive Sweep where
  | respawn | transportRetry

def Sweep.enabled (cfg : SupervisorConfig) : Sweep → Bool
  | .respawn => cfg.respawnEnabled && cfg.respawnMaxAttempts ≠ 0
  | .transportRetry => cfg.transportRetryMaxAttempts ≠ 0

def Sweep.lists (sweep : Sweep) (record : Agent Usd) : Bool :=
  match sweep with
  | .respawn =>
    record.isAutoRespawnCandidate && record.transportOutage.isNone && record.recovery.isNone
  | .transportRetry => record.transportOutage.isSome && record.isAutoRespawnCandidate

/-- What `continue_recovery` asks of the record, of a call whose key is new. -/
def Agent.continuable (record : Agent Usd) (worktree : Option String) : Bool :=
  (record.recovery.any fun recovery =>
    recovery.ack.isNone && decide (recovery.spawn = record.spawn)) &&
    !record.state.isLive && record.pid.isNone && worktree.isSome && record.task.isSome

def Agent.abandoned (record : Agent Usd) : Bool :=
  record.recovery.any fun recovery => recovery.ack.any fun ack => ack.outcome = .abandoned

namespace NameSlot

def exits (office : Office Usd) (s : NameSlot Usd) (launch : Launch) (code : Option Int)
    (io : EventIo) : NameSlot Usd × Option (Agent Usd) :=
  let gone : NameSlot Usd := s.cancelAgent (some launch.spawn) "agent_terminal_death"
  let gone : NameSlot Usd := { gone with control := none }
  if s.record.isNone then (gone.retire launch.session, none)
  else
    let floorless : NameSlot Usd := { gone with budgetStopFloor := none }
    floorless.update io (exitedAgent office s.budgetStopFloor code)

def inspects (s : NameSlot Usd) (launch : Launch) (record : Agent Usd) (io : EventIo) : NameSlot Usd :=
  let s := (s.detectPostCommitOutage record io).retire launch.session
  match flushWithheldCompletion s.completion launch.generation with
  | (completion, true) =>
    { s with completion, results := s.results ++ [resultOf record.toAgentRecord true false] }
  | (completion, false) => { s with completion }

end NameSlot

inductive RespawnStage (Usd : Type) where
  | idle
  | listed (sweep : Sweep) (record : Agent Usd)
  /-- `respawn` is called. -/
  | called | launching

/-- The writing of one generation, and whoever may launch it again. -/
structure Revival (Usd : Type) where
  recovery : Recovery Usd
  saved : Option (Agent Usd)
  worktree : Option String
  pumps : List Launch
  pending : List (Launch × HarnessEvent Usd)
  inspecting : Option (Launch × Agent Usd)
  sweep : RespawnStage Usd
  respawnState : Option RespawnState

/-- What a sweep meets on its way from the list to the launch. -/
structure SweepIo where
  branchGone : Bool
  breakerOpen : Bool
  jitter : Nat
  overBudget : Bool
  announced : Bool
  event : EventIo

inductive RevivalMove (Usd : Type) where
  /-- `spawn` publishes its launch, of a session that can be observed or of a pane. -/
  | spawned (observable : Bool) (pid : Option Nat) (io : EventIo)
  | spawnFailed (detail : String) (io : EventIo)
  | event (pump : Nat) (event : HarnessEvent Usd) (io : EventIo)
  /-- The rest of an event; of an exit, its first write. -/
  | arm (pending : Nat) (io : EventIo)
  | inspects (io : EventIo)
  | lists (sweep : Sweep)
  | decides (io : SweepIo)
  | respawns (ready : Bool) (attempt : SpawnId) (io : EventIo)
  | launched (launched : Bool) (pid : Option Nat) (io : EventIo)
  /-- The end of `respawn_sweep`. -/
  | forgets
  | call (action : RecoveryAction) (actionId : String)
  | read (i : Nat) (io : ContinueIo)
  | launch (i : Nat) (launched : Except String Unit)
  | write (i : Nat) (pid : Option Nat) (io : EventIo) (failure : String)
  | restart (io : EventIo)

namespace Revival

abbrev slot (s : Revival Usd) : NameSlot Usd := s.recovery.slot

/-- The slot after a change that the registry writes, or does not.  Where there is nothing to
write, either may be said of it. -/
def settle (s : Revival Usd) (slot : NameSlot Usd) (io : EventIo) : Revival Usd :=
  { s with
    recovery := { s.recovery with slot }
    saved := if io.writes then slot.record else s.saved }

/-- `publish_launch` without a decision. -/
def publish (s : Revival Usd) (observable : Bool) (reset : Agent Usd → Agent Usd) (io : EventIo) :
    Revival Usd :=
  match s.slot.update io reset with
  | (slot, none) => s.settle slot io
  | (slot, some record) =>
    let launch : Launch := ⟨s.recovery.nextId, record.createdAt, record.spawn⟩
    let s := s.settle { slot with
      completion := none
      token := some launch.session
      control := if observable then some launch.session else none
      watches := if observable then
        slot.watches ++ [⟨launch.session, record.costUsd, record.usage⟩] else slot.watches } io
    { s with
      recovery := { s.recovery with nextId := s.recovery.nextId + 1 }
      pumps := if observable then launch :: s.pumps else s.pumps }

def spawnFailed (s : Revival Usd) (detail : String) (io : EventIo) : Revival Usd :=
  s.settle (s.slot.update io fun record =>
    { record with state := .failed, result := some detail, pid := none }).1 io

def arm (office : Office Usd) (s : Revival Usd) (launch : Launch) (io : EventIo) :
    HarnessEvent Usd → Revival Usd
  | .exited code =>
    if s.slot.own launch.session then
      match s.slot.exits office launch code io with
      | (slot, updated) =>
        { s.settle slot io with inspecting := updated.map fun record => (launch, record) }
    else s.settle (s.slot.retire launch.session) io
  | event => s.settle (s.slot.handleEvent office launch io event) io

def lists (cfg : SupervisorConfig) (s : Revival Usd) (sweep : Sweep) : Revival Usd :=
  match s.slot.record with
  | some record =>
    if sweep.enabled cfg && sweep.lists record then { s with sweep := .listed sweep record } else s
  | none => s

def recordRespawnAttempt (state : Option RespawnState) (now : DateTime) : RespawnState :=
  { attempts := state.elim 0 RespawnState.attempts + 1
    lastAttempt := now
    escalated := state.any RespawnState.escalated }

/-- A sweep comes to the name on its list. -/
def decides (cfg : SupervisorConfig) (s : Revival Usd) (sweep : Sweep) (record : Agent Usd)
    (io : SweepIo) : Revival Usd :=
  let done : Revival Usd := { s with sweep := .idle }
  if record.mergeCommit.isSome || io.branchGone then
    match sweep with
    | .respawn => { done with respawnState := none }
    | .transportRetry => done
  else
    let decision := match sweep with
      | .respawn => decideRespawn cfg s.respawnState io.event.now
      | .transportRetry =>
        decideTransportRetry cfg record.transportOutage io.event.now io.breakerOpen io.jitter
    match decision with
    | .wait => done
    | .respawn =>
      if io.overBudget || !io.announced then done
      else
        match sweep with
        | .respawn => { s with
            sweep := .called
            respawnState := some (recordRespawnAttempt s.respawnState io.event.now) }
        | .transportRetry => { s with sweep := .called }
    | .escalate =>
      match sweep with
      | .respawn => { done with
          respawnState := s.respawnState.map fun st => { st with escalated := true } }
      | .transportRetry => done.settle (s.slot.update io.event fun record =>
          { record with
            transportOutage := record.transportOutage.map fun o => { o with ceilingHit := true } }).1
          io.event

/-- `respawn_mode`, up to the launch: it asks for the state of the record, and no more of it.
`ready` is what the role, the harness, the repository and the dispatch of a review say. -/
def respawns (s : Revival Usd) (ready : Bool) (attempt : SpawnId) (io : EventIo) : Revival Usd :=
  let refused : Revival Usd := { s with sweep := .idle }
  match s.slot.record with
  | none => refused
  | some record =>
    if record.state.isLive || !ready || s.worktree.isNone || record.task.isNone then refused
    else
      let s := s.settle (s.slot.update io fun record =>
        { record with currentAttempt := some attempt }).1 io
      { s with sweep := if io.writes then .launching else .idle }

/-- `respawn_mode`, from the launch on. -/
def launched (s : Revival Usd) (launched : Bool) (pid : Option Nat) (io : EventIo) : Revival Usd :=
  let s : Revival Usd := { s with sweep := .idle }
  if launched then
    s.publish true (fun record =>
      { record with
        state := .running, pid, result := none, crashed := false, stderrTail := none }) io
  else s

/-- The end of `respawn_sweep`: only a name that may fail again is kept count of. -/
def forgets (s : Revival Usd) : Revival Usd :=
  { s with respawnState := s.respawnState.filter fun _ =>
      s.slot.record.any fun record => record.state ≠ .completed && record.state ≠ .dismissed }

/-- The last write of a call.  The session of a continuation is watched and pumped. -/
def decided (s : Revival Usd) (recovery : Recovery Usd) (io : EventIo) : Revival Usd :=
  let s' : Revival Usd :=
    { s with recovery, saved := if io.writes then recovery.slot.record else s.saved }
  if recovery.nextId = s.recovery.nextId then s'
  else
    match recovery.slot.record with
    | none => s'
    | some record => { s' with
        recovery := { recovery with slot := { recovery.slot with
          watches := recovery.slot.watches ++ [⟨s.recovery.nextId, record.costUsd, record.usage⟩] } }
        pumps := ⟨s.recovery.nextId, record.createdAt, record.spawn⟩ :: s.pumps }

/-- A daemon comes up with what was written. -/
def restart (s : Revival Usd) (io : EventIo) : Revival Usd :=
  let record := s.saved.map (Recovery.orphaned io.now)
  { s with
    recovery := { s.recovery with
      slot := { s.slot with
        record, token := none, control := none, completion := none, runs := [], watches := []
        budgetWarned := false, budgetStopFloor := none, timers := [] }
      dispatching := none
      calls := s.recovery.calls.map Recovery.lose }
    saved := if io.writes then record else s.saved
    pumps := []
    pending := []
    inspecting := none
    sweep := .idle
    respawnState := none }

end Revival

def RespawnStage.isLaunching : RespawnStage Usd → Bool
  | .launching => true
  | _ => false

namespace Revival

def waits (s : Revival Usd) (i : Nat) : Bool :=
  (s.recovery.calls[i]?.any fun c => c.action ≠ .abandon) &&
    (s.sweep.isLaunching || s.inspecting.isSome)

def step (office : Office Usd) (cfg : SupervisorConfig) (s : Revival Usd) :
    RevivalMove Usd → Option (Revival Usd)
  | .spawned observable pid io =>
    if (s.slot.record.any fun record => record.state = .spawning) && s.inspecting.isNone then
      some (s.publish observable (fun record =>
        { record with state := .running, pid := if observable then pid else none }) io)
    else none
  | .spawnFailed detail io =>
    if s.slot.record.any fun record => record.state = .spawning then
      some (s.spawnFailed detail io)
    else none
  | .event i event io =>
    if s.inspecting.isNone then
      s.pumps[i]?.map fun launch =>
        { s.settle (s.slot.resumeOn launch event io) io with
          pending := s.pending ++ [(launch, event)] }
    else none
  | .arm i io =>
    if s.inspecting.isNone then
      s.pending[i]?.map fun p =>
        { s.arm office p.1 io p.2 with pending := s.pending.eraseIdx i }
    else none
  | .inspects io =>
    s.inspecting.map fun p =>
      { s.settle (s.slot.inspects p.1 p.2 io) io with inspecting := none }
  | .lists sweep =>
    match s.sweep with
    | .idle => some (s.lists cfg sweep)
    | _ => none
  | .decides io =>
    match s.sweep with
    | .listed sweep record => some (s.decides cfg sweep record io)
    | _ => none
  | .respawns ready attempt io =>
    match s.sweep with
    | .called => if s.recovery.dispatching.isNone then some (s.respawns ready attempt io) else none
    | _ => none
  | .launched launched pid io =>
    match s.sweep with
    | .launching => if s.inspecting.isNone then some (s.launched launched pid io) else none
    | _ => none
  | .forgets => some s.forgets
  | .call action actionId => (s.recovery.step (.call action actionId)).map fun recovery =>
    { s with recovery }
  | .read i io =>
    if s.waits i then none else (s.recovery.step (.read i io)).map fun recovery => { s with recovery }
  | .launch i launched => (s.recovery.step (.launch i launched)).map fun recovery => { s with recovery }
  | .write i pid io failure =>
    if s.waits i then none
    else (s.recovery.step (.write i pid io failure)).map fun recovery => s.decided recovery io
  | .restart io => some (s.restart io)

def opened (base : Agent Usd) (task worktree : String) : Revival Usd :=
  let record := { base with
    task := some task, state := .spawning, pid := none
    transportOutage := none, recovery := none, recoveryReceipt := none }
  { recovery := Recovery.opened record.name { record := some record }
    saved := some record
    worktree := some worktree
    pumps := []
    pending := []
    inspecting := none
    sweep := .idle
    respawnState := none }

end Revival

end

end RatKingdom.Supervisor
