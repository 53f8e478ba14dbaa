/-
The agent registry: one record for each generation, the reservations of spawns in flight and
the waiters of the capacity lanes.

A change is made in memory and then written to its file whole.  What becomes of a write is
an argument of the function that makes it: a write that fails leaves the file as it was.
-/
import RatKingdom.Core.Names
import RatKingdom.Core.Text
import RatKingdom.Lib.Table

namespace RatKingdom.Agents

open Core Lib

abbrev SpawnId := Nat

inductive AgentState where
  | spawning | running | paused | completed | failed | stopped | dismissed | orphaned
  deriving DecidableEq

namespace AgentState

def isLive : AgentState → Bool
  | spawning | running | paused => true
  | _ => false

/-- The settled states: `orphaned` is kept back for a respawn. -/
def isArchivable : AgentState → Bool
  | completed | failed | stopped | dismissed => true
  | _ => false

end AgentState

structure AgentRecord where
  name : String
  spawn : SpawnId
  role : String
  repoName : String
  task : Option String
  workflowInstance : Option String := none
  attachTarget : Option String := none
  pid : Option Nat := none
  mergeCommit : Option String := none
  state : AgentState
  crashed : Bool := false
  result : Option String := none
  /-- `cost_usd`, as the text the double is written with. -/
  costText : String := "0.0"
  currentAttempt : Option SpawnId := none
  createdAt : DateTime
  updatedAt : DateTime
  archivedAt : Option DateTime := none
  deriving DecidableEq

/-- A record read back from its file.  `reads` is what `serde_json` makes of the text of a
double: the text of a double that may be a neighbour. -/
def AgentRecord.reread (reads : String → String) (r : AgentRecord) : AgentRecord :=
  { r with costText := reads r.costText }

def AgentRecord.generation (r : AgentRecord) : String × SpawnId := (r.name, r.spawn)

inductive Lane where
  | implementation | review
  deriving DecidableEq

def Lane.forRole (role : String) : Lane := if role = "reviewer" then .review else .implementation

/-- `Lane::key`: one repository's one lane. -/
abbrev Place := String × Lane

structure LaneWaiter where
  place : Place
  key : String
  requestedAt : DateTime
  lastSeen : DateTime

def laneWaitStaleSecs : Int := 600

def laneWaitHeartbeatPersistSecs : Int := 60

/-- `TimeDelta::num_seconds` of the time from one instant to another. -/
def secondsBetween (earlier later : DateTime) : Int :=
  (later - earlier).tdiv DateTime.nanosPerSecond

/-- The three files. -/
structure Disk where
  agents : Table String AgentRecord := Table.empty
  archived : List AgentRecord := []
  laneWaiters : List LaneWaiter := []

structure Registry where
  agents : Table String AgentRecord := Table.empty
  archived : List AgentRecord := []
  reserved : List String := []
  wipReservations : Nat := 0
  laneReservations : List Place := []
  laneWaiters : List LaneWaiter := []
  taskReservations : List String := []
  disk : Disk := {}

namespace Registry

def records (r : Registry) : List AgentRecord := r.agents.rows.map Prod.snd

def get (r : Registry) (name : String) : Option AgentRecord := r.agents.get name

def persist (r : Registry) (writes : Bool) : Registry :=
  if writes then { r with disk := { r.disk with agents := r.agents } } else r

def persistArchive (r : Registry) (writes : Bool) : Registry :=
  if writes then { r with disk := { r.disk with archived := r.archived } } else r

def persistLaneWaiters (r : Registry) (writes : Bool) : Registry :=
  if writes then { r with disk := { r.disk with laneWaiters := r.laneWaiters } } else r

/-- `load`: nothing but the files outlives a process. -/
def load (reads : String → String) (disk : Disk) : Registry :=
  { agents := disk.agents.filterMap fun record => some (record.reread reads)
    archived := disk.archived.map (AgentRecord.reread reads)
    laneWaiters := disk.laneWaiters, disk }

def orphan (now : DateTime) (record : AgentRecord) : AgentRecord :=
  if record.state.isLive then { record with state := .orphaned, pid := none, updatedAt := now }
  else record

def orphanLiveAgents (r : Registry) (now : DateTime) (writes : Bool) : Registry :=
  persist { r with agents := r.agents.filterMap fun record => some (orphan now record) } writes

theorem orphan_not_live (now : DateTime) (record : AgentRecord) :
    (orphan now record).state.isLive = false := by
  unfold orphan
  by_cases hl : record.state.isLive = true
  · rw [if_pos hl]
    rfl
  · rw [if_neg hl]
    exact Bool.eq_false_iff.mpr hl

/-- No agent is live after the start of a daemon. -/
theorem orphaned_none {r : Registry} {now : DateTime} {writes : Bool} {row : String × AgentRecord}
    (h : row ∈ (r.orphanLiveAgents now writes).agents.rows) : row.2.state.isLive = false := by
  have hagents : (r.orphanLiveAgents now writes).agents =
      r.agents.filterMap fun record => some (orphan now record) := by
    cases writes <;> rfl
  rw [hagents] at h
  obtain ⟨old, -, he⟩ := List.mem_filterMap.mp h
  cases he
  exact orphan_not_live now old.2

section
variable (r : Registry)

def liveCount (p : AgentRecord → Bool) : Nat :=
  (r.records.filter fun record => record.state.isLive && p record).length

def liveOrReservedWip : Nat := r.liveCount (fun _ => true) + r.wipReservations

def tryReserveWip (cap : Nat) : Registry × Bool :=
  if cap = 0 then (r, true)
  else if r.liveOrReservedWip ≥ cap then (r, false)
  else ({ r with wipReservations := r.wipReservations + 1 }, true)

def releaseWip (cap : Nat) : Registry :=
  if cap = 0 then r else { r with wipReservations := r.wipReservations - 1 }

def takenNames : List String := r.agents.keys ++ r.reserved ++ r.archived.map AgentRecord.name

def freeName : String := nextName r.takenNames

def reserveName : Registry × String := ({ r with reserved := r.freeName :: r.reserved }, r.freeName)

def releaseName (name : String) : Registry :=
  { r with reserved := r.reserved.filter fun n => n ≠ name }

def reservedAt (place : Place) : Nat := r.laneReservations.count place

def liveAt (place : Place) : Nat :=
  r.liveCount fun record => (record.repoName, Lane.forRole record.role) = place

def liveOrReservedLaneWip (place : Place) : Nat := r.liveAt place + r.reservedAt place

end

def stale (now : DateTime) (w : LaneWaiter) : Bool :=
  secondsBetween w.lastSeen now > laneWaitStaleSecs

def evictStaleLaneWaiters (r : Registry) (place : Place) (now : DateTime) (writes : Bool) :
    Registry :=
  let kept := r.laneWaiters.filter fun w => !(w.place = place && stale now w)
  if kept.length = r.laneWaiters.length then { r with laneWaiters := kept }
  else persistLaneWaiters { r with laneWaiters := kept } writes

/-- A heartbeat of a waiter whose file is old enough, or a new waiter at the end.  After a
failed write the next refusal writes again at once. -/
def recordLaneWait (r : Registry) (place : Place) (key : String) (now : DateTime) (writes : Bool) :
    Registry :=
  match r.laneWaiters.findIdx? fun w => w.place = place && w.key = key with
  | some i =>
    match r.laneWaiters[i]? with
    | none => r
    | some w =>
      if secondsBetween w.lastSeen now < laneWaitHeartbeatPersistSecs then r
      else if writes then
        persistLaneWaiters
          { r with laneWaiters := r.laneWaiters.set i { w with lastSeen := now } } true
      else r
  | none =>
    if writes then
      persistLaneWaiters { r with laneWaiters := r.laneWaiters ++ [⟨place, key, now, now⟩] } true
    else
      let lastSeen := now - laneWaitHeartbeatPersistSecs * DateTime.nanosPerSecond
      { r with laneWaiters := r.laneWaiters ++ [⟨place, key, now, lastSeen⟩] }

/-- `clear_lane_wait`, with whether it returned without an error. -/
def clearLaneWait (r : Registry) (place : Place) (key : String) (writes : Bool) : Registry × Bool :=
  let kept := r.laneWaiters.filter fun w => !(w.place = place && w.key = key)
  if kept.length = r.laneWaiters.length then ({ r with laneWaiters := kept }, true)
  else (persistLaneWaiters { r with laneWaiters := kept } writes, writes)

def abandonLaneWait (r : Registry) (place : Place) (key : String) (writes : Bool) : Registry × Bool :=
  r.clearLaneWait place key writes

/-- The clock readings of a lane call, and what becomes of its writes. -/
structure LaneEnv where
  evictAt : DateTime
  recordAt : DateTime
  evictWrites : Bool := true
  writes : Bool := true

def blockedBehind (r : Registry) (place : Place) (key : String) : Bool :=
  match r.laneWaiters.find? fun w => w.place = place with
  | none => false
  | some head => head.key ≠ key

def tryReserveLaneWip (r : Registry) (place : Place) (cap : Nat) (key : String) (env : LaneEnv) :
    Registry × Bool :=
  if cap = 0 then (r, true)
  else
    let r := r.evictStaleLaneWaiters place env.evictAt env.evictWrites
    if r.blockedBehind place key || r.liveOrReservedLaneWip place ≥ cap then
      (r.recordLaneWait place key env.recordAt env.writes, false)
    else
      match r.clearLaneWait place key env.writes with
      | (r, false) => (r, false)
      | (r, true) => ({ r with laneReservations := place :: r.laneReservations }, true)

def releaseLaneWip (r : Registry) (place : Place) (cap : Nat) : Registry :=
  if cap = 0 then r else { r with laneReservations := r.laneReservations.erase place }

def taskKey (repo task : String) : String := repo ++ "\x00" ++ task

def reviewTaskKey (repo task : String) (workflowInstance : Option String) : String :=
  repo ++ "\x00" ++ task ++ "\x00" ++ workflowInstance.getD ""

section
variable (r : Registry)

def liveTaskOwner (repo task : String) : Option String :=
  (r.records.find? fun record =>
    record.repoName = repo && record.task = some task && record.state.isLive).map AgentRecord.name

def liveReviewTaskOwner (repo task : String) (workflowInstance : Option String) : Option String :=
  (r.records.find? fun record =>
    record.repoName = repo && record.task = some task && record.state.isLive &&
      record.workflowInstance = workflowInstance).map AgentRecord.name

def reserveTaskKey (owner : Option String) (key : String) : Except String Registry :=
  match owner with
  | some owner => .error owner
  | none =>
    if r.taskReservations.contains key then .error ""
    else .ok { r with taskReservations := key :: r.taskReservations }

def releaseTaskKey (key : String) : Registry :=
  { r with taskReservations := r.taskReservations.filter fun k => k ≠ key }

def tryReserveTask (repo task : String) : Except String Registry :=
  if task = "" then .ok r else r.reserveTaskKey (r.liveTaskOwner repo task) (taskKey repo task)

def releaseTask (repo task : String) : Registry :=
  if task = "" then r else r.releaseTaskKey (taskKey repo task)

def tryReserveReviewTask (repo task : String) (workflowInstance : Option String) :
    Except String Registry :=
  if task = "" then .ok r
  else r.reserveTaskKey (r.liveReviewTaskOwner repo task workflowInstance)
    (reviewTaskKey repo task workflowInstance)

def releaseReviewTask (repo task : String) (workflowInstance : Option String) : Registry :=
  if task = "" then r else r.releaseTaskKey (reviewTaskKey repo task workflowInstance)

def releaseTaskForLane (repo : String) (lane : Lane) (task : String)
    (workflowInstance : Option String) : Registry :=
  match lane with
  | .implementation => r.releaseTask repo task
  | .review => r.releaseReviewTask repo task workflowInstance

/-- `insert`, with whether it returned without an error: a failed write takes the row back. -/
def insert (record : AgentRecord) (writes : Bool) : Registry × Bool :=
  let r := r.releaseName record.name
  if writes then (persist { r with agents := r.agents.set record.name record } true, true)
  else (r, false)

/-- `update`: a failed write leaves the change in memory. -/
def update (name : String) (mutate : AgentRecord → AgentRecord) (now : DateTime) (writes : Bool) :
    Registry :=
  match r.agents.get name with
  | none => r
  | some _ =>
    persist { r with agents := r.agents.modify name fun record =>
      { mutate record with updatedAt := now } } writes

end

end Registry
end RatKingdom.Agents
