/-
A spawn: admission, the journal row, the worktree, the attempt and the launch.

The four reservations of a spawn are taken in one critical section and given back by hand on
every way out.  From the insertion on the row itself counts, so what fails later has to take
the row out of the live states; a failed write that is only handed on does not.
-/
import RatKingdom.Agents.Archive

namespace RatKingdom.Supervisor

open Core Lib Agents Agents.Registry List

structure SpawnParams where
  role : String
  repo : String
  task : String
  workflowInstance : Option String := none
  attach : Bool := false
  /-- `0` for a caller that enforces no ceiling. -/
  fleetWipCap : Nat

open SpawnParams

/-- What everything outside the registry comes to, and the ids and times that are drawn. -/
structure SpawnEnv where
  /-- The first of the checks before admission that refuses. -/
  refusal : Option String := none
  laneCap : Nat
  lane : LaneEnv
  spawn : SpawnId
  createdAt : DateTime
  worktreeError : Option String := none
  attempt : SpawnId
  attemptAt : DateTime
  launchError : Option String := none
  pid : Option Nat := none
  target : String := ""
  endedAt : DateTime
  insertWrites : Bool := true
  attemptWrites : Bool := true
  publishWrites : Bool := true
  failureWrites : Bool := true
  writeError : String := "write failed"

def onboarderRole : String := "onboarder"

def fleetWipCapRefused : String := "fleet WIP cap reached: no free slot to admit this spawn"

def laneRefused : Lane → String
  | .implementation =>
    "implementation lane at capacity for this repository: no free slot to admit this spawn"
  | .review => "review lane at capacity for this repository: no free slot to admit this spawn"

def duplicateTaskRefused (task owner : String) : String :=
  s!"duplicate dispatch refused for task '{task}': " ++
    if owner = "" then "another spawn for the same task is already being admitted"
    else s!"'{owner}' already holds a live generation for it"

def onboarderTaskRefused : String := "onboarder task must be a stable onb- session id"

def onboarderTask (task : String) : Bool :=
  task.startsWith "onb-" && task.all fun c => c.isLower || c.isDigit || c = '-'

def laneWaitKey (params : SpawnParams) : String :=
  match params.workflowInstance with
  | some instance_ => s!"workflow:{instance_}:{params.task}"
  | none => s!"{params.role}:{params.task}"

namespace SpawnParams

def lane (params : SpawnParams) : Lane := Lane.forRole params.role

def place (params : SpawnParams) : Place := (params.repo, params.lane)

def refusedTask (params : SpawnParams) : Bool :=
  params.role = onboarderRole && !onboarderTask params.task

end SpawnParams

def reserveTask (r : Registry) (params : SpawnParams) : Except String Registry :=
  match params.lane with
  | .implementation => r.tryReserveTask params.repo params.task
  | .review => r.tryReserveReviewTask params.repo params.task params.workflowInstance

/-- The critical section of the admission: a slot of the fleet, a slot of the lane, the task
and a name, or nothing. -/
def admission (r : Registry) (params : SpawnParams) (env : SpawnEnv) :
    Registry × Except String String :=
  match r.tryReserveWip params.fleetWipCap with
  | (r, false) => (r, .error fleetWipCapRefused)
  | (r, true) =>
    match r.tryReserveLaneWip params.place env.laneCap (laneWaitKey params) env.lane with
    | (r, false) => (r.releaseWip params.fleetWipCap, .error (laneRefused params.lane))
    | (r, true) =>
      match reserveTask r params with
      | .error owner =>
        ((r.releaseWip params.fleetWipCap).releaseLaneWip params.place env.laneCap,
          .error (duplicateTaskRefused params.task owner))
      | .ok r => (r.reserveName.1, .ok r.reserveName.2)

def releaseAdmission (r : Registry) (params : SpawnParams) (laneCap : Nat) : Registry :=
  ((r.releaseWip params.fleetWipCap).releaseLaneWip params.place laneCap).releaseTaskForLane
    params.repo params.lane params.task params.workflowInstance

def spawningRecord (params : SpawnParams) (env : SpawnEnv) (name : String) : AgentRecord where
  name
  spawn := env.spawn
  role := params.role
  repoName := params.repo
  task := some params.task
  workflowInstance := params.workflowInstance
  state := .spawning
  createdAt := env.createdAt
  updatedAt := env.createdAt

def updated (r : Registry) (name : String) (mutate : AgentRecord → AgentRecord) (now : DateTime)
    (writes : Bool) : Registry × Except Unit (Option AgentRecord) :=
  match r.get name with
  | none => (r, .ok none)
  | some _ =>
    let r := r.update name mutate now writes
    if writes then (r, .ok (r.get name)) else (r, .error ())

def markSpawnFailed (r : Registry) (name detail : String) (now : DateTime) (writes : Bool) : Registry :=
  (updated r name (fun record =>
    { record with state := .failed, result := some detail, pid := none }) now writes).1

def beginAttempt (r : Registry) (name : String) (attempt : SpawnId) (now : DateTime) (writes : Bool) :
    Registry × Bool :=
  match updated r name (fun record => { record with currentAttempt := some attempt }) now writes with
  | (r, .error _) => (r, false)
  | (r, .ok _) => (r, true)

def started (params : SpawnParams) (env : SpawnEnv) (record : AgentRecord) : AgentRecord :=
  if params.attach then { record with state := .running, attachTarget := some env.target }
  else { record with state := .running, pid := env.pid }

/-- `publish_launch` of a headless launch, and what stands for it in `spawn_attached`. -/
def publish (r : Registry) (params : SpawnParams) (env : SpawnEnv) (name : String) :
    Registry × Except String AgentRecord :=
  match updated r name (started params env) env.endedAt env.publishWrites with
  | (r, .error _) => (r, .error env.writeError)
  | (r, .ok none) =>
    (r, .error (if params.attach then "spawn journal row vanished" else s!"record vanished: {name}"))
  | (r, .ok (some record)) => (r, .ok record)

def launch (r : Registry) (params : SpawnParams) (env : SpawnEnv) (name : String) :
    Registry × Except String AgentRecord :=
  match env.worktreeError with
  | some error => (markSpawnFailed r name error env.endedAt env.failureWrites, .error error)
  | none =>
    match beginAttempt r name env.attempt env.attemptAt env.attemptWrites with
    | (r, false) => (r, .error env.writeError)
    | (r, true) =>
      match env.launchError with
      | some error => (markSpawnFailed r name error env.endedAt env.failureWrites, .error error)
      | none => publish r params env name

def spawn (r : Registry) (params : SpawnParams) (env : SpawnEnv) :
    Registry × Except String AgentRecord :=
  match env.refusal with
  | some error => (r, .error error)
  | none =>
    match admission r params env with
    | (r, .error error) => (r, .error error)
    | (r, .ok name) =>
      if params.refusedTask then
        (releaseAdmission (r.releaseName name) params env.laneCap, .error onboarderTaskRefused)
      else
        match r.insert (spawningRecord params env name) env.insertWrites with
        | (r, false) =>
          (releaseAdmission (r.releaseName name) params env.laneCap, .error env.writeError)
        | (r, true) => launch (releaseAdmission r params env.laneCap) params env name

/-- The four kinds of reservation. -/
structure Slots where
  fleet : Nat
  lanes : List Place
  tasks : List String
  names : List String

def slots (r : Registry) : Slots :=
  ⟨r.wipReservations, r.laneReservations, r.taskReservations, r.reserved⟩

def liveOf (r : Registry) (g : String × SpawnId) : List AgentRecord :=
  r.records.filter fun a => a.generation = g && a.state.isLive

def attempted (r : Registry) (env : SpawnEnv) : String × SpawnId := (r.freeName, env.spawn)

/-- Nothing of the call is left reserved, and the only live record of its generation is the
one a successful call returns. -/
def HoldsNoSlot (r : Registry) (env : SpawnEnv) (answer : Registry × Except String AgentRecord) :
    Prop :=
  slots answer.1 = slots r ∧ match answer.2 with
    | .error _ => liveOf answer.1 (attempted r env) = []
    | .ok record => record.generation = attempted r env ∧
        liveOf answer.1 (attempted r env) = [record]

/-- The state and the request pass every check up to the journal row. -/
def Admits (r : Registry) (params : SpawnParams) (env : SpawnEnv) : Prop :=
  env.refusal = none ∧ (r.tryReserveWip params.fleetWipCap).2 = true ∧
    (r.tryReserveLaneWip params.place env.laneCap (laneWaitKey params) env.lane).2 = true ∧
    (reserveTask r params).isOk = true ∧ params.refusedTask = false

/-- A write fails whose error is only handed on: the one of the attempt, or the one that
publishes a launch. -/
def HandedOn (env : SpawnEnv) : Prop :=
  env.worktreeError = none ∧
    (env.attemptWrites = false ∨ env.launchError = none ∧ env.publishWrites = false)

/-- It fails when the row is there. -/
def Stranded (r : Registry) (params : SpawnParams) (env : SpawnEnv) : Prop :=
  Admits r params env ∧ env.insertWrites = true ∧ HandedOn env

section
variable {r r' : Registry} {params : SpawnParams} {env : SpawnEnv} {name : String}

def wipSlot (cap : Nat) : Nat := if cap = 0 then 0 else 1

def laneSlot (place : Place) (cap : Nat) : List Place := if cap = 0 then [] else [place]

def SpawnParams.key (params : SpawnParams) : String :=
  match params.lane with
  | .implementation => taskKey params.repo params.task
  | .review => reviewTaskKey params.repo params.task params.workflowInstance

def SpawnParams.keys (params : SpawnParams) : List String :=
  if params.task = "" then [] else [params.key]

theorem tryReserveWip_ok {cap : Nat} (h : (r.tryReserveWip cap).2 = true) :
    (r.tryReserveWip cap).1 = { r with wipReservations := r.wipReservations + wipSlot cap } := by
  unfold tryReserveWip wipSlot at *
  by_cases hcap : cap = 0
  · rw [if_pos hcap, if_pos hcap]
    rfl
  · rw [if_neg hcap] at h ⊢
    by_cases hfull : r.liveOrReservedWip ≥ cap
    · rw [if_pos hfull] at h
      cases h
    · rw [if_neg hfull, if_neg hcap]

theorem tryReserveWip_refused {cap : Nat} (h : (r.tryReserveWip cap).2 = false) :
    (r.tryReserveWip cap).1 = r := by
  unfold tryReserveWip at *
  by_cases hcap : cap = 0
  · rw [if_pos hcap] at h
    cases h
  · rw [if_neg hcap] at h ⊢
    by_cases hfull : r.liveOrReservedWip ≥ cap
    · rw [if_pos hfull]
    · rw [if_neg hfull] at h
      cases h

/-- Nothing but the queue of the lanes, in memory or in its file, has changed. -/
def QueueOnly (r r' : Registry) : Prop :=
  ∃ waiters file, r' = { r with laneWaiters := waiters, disk := { r.disk with laneWaiters := file } }

theorem QueueOnly.refl (r : Registry) : QueueOnly r r := ⟨r.laneWaiters, r.disk.laneWaiters, rfl⟩

theorem QueueOnly.trans {r'' : Registry} (h : QueueOnly r r') (h' : QueueOnly r' r'') :
    QueueOnly r r'' := by
  obtain ⟨waiters, file, rfl⟩ := h
  obtain ⟨waiters', file', rfl⟩ := h'
  exact ⟨waiters', file', rfl⟩

theorem persistLaneWaiters_queueOnly (r : Registry) (waiters : List LaneWaiter) (writes : Bool) :
    QueueOnly r (persistLaneWaiters { r with laneWaiters := waiters } writes) := by
  cases writes with
  | false => exact ⟨waiters, r.disk.laneWaiters, rfl⟩
  | true => exact ⟨waiters, waiters, rfl⟩

section
variable (r : Registry) (place : Place)

theorem recordLaneWait_queueOnly (key : String) (now : DateTime) (writes : Bool) :
    QueueOnly r (r.recordLaneWait place key now writes) := by
  unfold recordLaneWait
  split
  · split
    · exact .refl r
    · split
      · exact .refl r
      · split
        · exact persistLaneWaiters_queueOnly r _ true
        · exact .refl r
  · split
    · exact persistLaneWaiters_queueOnly r _ true
    · exact persistLaneWaiters_queueOnly r _ false

theorem evictStaleLaneWaiters_queueOnly (now : DateTime) (writes : Bool) :
    QueueOnly r (r.evictStaleLaneWaiters place now writes) := by
  unfold evictStaleLaneWaiters
  dsimp only
  split
  · exact persistLaneWaiters_queueOnly r _ false
  · exact persistLaneWaiters_queueOnly r _ writes

theorem clearLaneWait_queueOnly (key : String) (writes : Bool) :
    QueueOnly r (r.clearLaneWait place key writes).1 := by
  unfold clearLaneWait
  dsimp only
  split
  · exact persistLaneWaiters_queueOnly r _ false
  · exact persistLaneWaiters_queueOnly r _ writes

theorem tryReserveLaneWip_cases (cap : Nat) (key : String) (env : LaneEnv) :
    ∃ queued, QueueOnly r queued ∧ r.tryReserveLaneWip place cap key env =
      if (r.tryReserveLaneWip place cap key env).2
      then ({ queued with laneReservations := laneSlot place cap ++ queued.laneReservations }, true)
      else (queued, false) := by
  unfold tryReserveLaneWip laneSlot
  by_cases hcap : cap = 0
  · exact ⟨r, .refl r, by rw [if_pos hcap, if_pos hcap]; rfl⟩
  · rw [if_neg hcap, if_neg hcap]
    have hevict := evictStaleLaneWaiters_queueOnly r place env.evictAt env.evictWrites
    dsimp only
    split
    · exact ⟨_, hevict.trans (recordLaneWait_queueOnly _ place key env.recordAt env.writes), rfl⟩
    · have hclear := hevict.trans (clearLaneWait_queueOnly
        (r.evictStaleLaneWaiters place env.evictAt env.evictWrites) place key env.writes)
      split
      all_goals
        rename_i hc
        rw [hc] at hclear
        exact ⟨_, hclear, rfl⟩

end

/-- A spawn's task is reserved under its key, when nobody holds that one. -/
theorem reserveTask_ok (h : reserveTask r params = .ok r') :
    r' = { r with taskReservations := params.keys ++ r.taskReservations } ∧
      ∀ key ∈ params.keys, key ∉ r.taskReservations := by
  have hkey : ∀ owner, params.task ≠ "" → r.reserveTaskKey owner params.key = .ok r' →
      r' = { r with taskReservations := params.keys ++ r.taskReservations } ∧
        ∀ key ∈ params.keys, key ∉ r.taskReservations := by
    intro owner htask hr
    unfold reserveTaskKey at hr
    cases owner with
    | some owner => cases hr
    | none =>
      unfold SpawnParams.keys
      rw [if_neg htask]
      by_cases hheld : r.taskReservations.contains params.key = true
      · rw [if_pos hheld] at hr
        cases hr
      · rw [if_neg hheld] at hr
        cases hr
        refine ⟨rfl, fun key hm => ?_⟩
        rw [mem_singleton.mp hm]
        simpa using hheld
  by_cases htask : params.task = ""
  · have hr : r' = r := by
      unfold reserveTask tryReserveTask tryReserveReviewTask at h
      rw [if_pos htask, if_pos htask] at h
      cases hl : params.lane <;> rw [hl] at h <;> cases h <;> rfl
    unfold SpawnParams.keys
    rw [if_pos htask, hr]
    exact ⟨rfl, nofun⟩
  · unfold reserveTask tryReserveTask tryReserveReviewTask at h
    rw [if_neg htask, if_neg htask] at h
    cases hl : params.lane with
    | implementation =>
      rw [hl] at h
      have hk : params.key = taskKey params.repo params.task := by
        unfold key
        rw [hl]
      rw [← hk] at h
      exact hkey _ htask h
    | review =>
      rw [hl] at h
      have hk : params.key = reviewTaskKey params.repo params.task params.workflowInstance := by
        unfold key
        rw [hl]
      rw [← hk] at h
      exact hkey _ htask h

theorem evictStaleLaneWaiters_wip (r : Registry) (place : Place) (now : DateTime) (writes : Bool)
    (w : Nat) : ({ r with wipReservations := w } : Registry).evictStaleLaneWaiters place now writes =
      { r.evictStaleLaneWaiters place now writes with wipReservations := w } := by
  unfold evictStaleLaneWaiters
  dsimp only
  split
  · rfl
  · cases writes <;> rfl

theorem clearLaneWait_wip (r : Registry) (place : Place) (key : String) (writes : Bool) (w : Nat) :
    ({ r with wipReservations := w } : Registry).clearLaneWait place key writes =
      ({ (r.clearLaneWait place key writes).1 with wipReservations := w },
        (r.clearLaneWait place key writes).2) := by
  unfold clearLaneWait
  dsimp only
  split
  · rfl
  · cases writes <;> rfl

theorem tryReserveLaneWip_wip (r : Registry) (place : Place) (cap : Nat) (key : String)
    (env : LaneEnv) (w : Nat) :
    (({ r with wipReservations := w } : Registry).tryReserveLaneWip place cap key env).2 =
      (r.tryReserveLaneWip place cap key env).2 := by
  unfold tryReserveLaneWip
  by_cases hcap : cap = 0
  · rw [if_pos hcap, if_pos hcap]
  · rw [if_neg hcap, if_neg hcap]
    dsimp only
    rw [evictStaleLaneWaiters_wip, clearLaneWait_wip]
    generalize r.evictStaleLaneWaiters place env.evictAt env.evictWrites = queued
    by_cases hfull : (queued.blockedBehind place key ||
        queued.liveOrReservedLaneWip place ≥ cap) = true
    · rw [if_pos hfull]
      exact (congrArg Prod.snd (if_pos (by exact hfull))).trans rfl
    · rw [if_neg hfull]
      refine (congrArg Prod.snd (if_neg (by exact hfull))).trans ?_
      cases queued.clearLaneWait place key env.writes with
      | mk cleared ok => cases ok <;> rfl

theorem reserveTask_isOk (ha : r'.agents = r.agents) (ht : r'.taskReservations = r.taskReservations) :
    (reserveTask r' params).isOk = (reserveTask r params).isOk := by
  have hkey : ∀ owner key, (r'.reserveTaskKey owner key).isOk = (r.reserveTaskKey owner key).isOk := by
    intro owner key
    unfold reserveTaskKey
    cases owner with
    | some owner => rfl
    | none =>
      dsimp only
      rw [ht]
      split <;> rfl
  have hrecords : r'.records = r.records := by
    unfold records
    rw [ha]
  unfold reserveTask
  cases params.lane with
  | implementation =>
    show (r'.tryReserveTask params.repo params.task).isOk =
      (r.tryReserveTask params.repo params.task).isOk
    unfold tryReserveTask liveTaskOwner
    rw [hrecords]
    split
    · rfl
    · exact hkey _ _
  | review =>
    show (r'.tryReserveReviewTask params.repo params.task params.workflowInstance).isOk =
      (r.tryReserveReviewTask params.repo params.task params.workflowInstance).isOk
    unfold tryReserveReviewTask liveReviewTaskOwner
    rw [hrecords]
    split
    · rfl
    · exact hkey _ _

def reservedFor (queued : Registry) (params : SpawnParams) (laneCap : Nat) : Registry :=
  { queued with
    wipReservations := queued.wipReservations + wipSlot params.fleetWipCap
    laneReservations := laneSlot params.place laneCap ++ queued.laneReservations
    taskReservations := params.keys ++ queued.taskReservations
    reserved := queued.freeName :: queued.reserved }

theorem releaseWip_slot (cap : Nat) : ({ r with wipReservations := r.wipReservations + wipSlot cap } :
    Registry).releaseWip cap = r := by
  unfold releaseWip wipSlot
  by_cases hcap : cap = 0
  · rw [if_pos hcap, if_pos hcap]
    rfl
  · rw [if_neg hcap, if_neg hcap]
    rfl

theorem releaseLaneWip_slot (place : Place) (cap : Nat) :
    ({ r with laneReservations := laneSlot place cap ++ r.laneReservations } : Registry).releaseLaneWip
      place cap = r := by
  unfold releaseLaneWip laneSlot
  by_cases hcap : cap = 0
  · rw [if_pos hcap, if_pos hcap]
    rfl
  · rw [if_neg hcap, if_neg hcap]
    rw [singleton_append, erase_cons_head]

/-- The admission succeeds as a whole or leaves nothing but its place in the queue. -/
theorem admission_cases (r : Registry) (params : SpawnParams) (env : SpawnEnv) :
    (∃ queued, QueueOnly r queued ∧ (∀ key ∈ params.keys, key ∉ queued.taskReservations) ∧
        (r.tryReserveWip params.fleetWipCap).2 = true ∧
        (r.tryReserveLaneWip params.place env.laneCap (laneWaitKey params) env.lane).2 = true ∧
        (reserveTask r params).isOk = true ∧
        admission r params env = (reservedFor queued params env.laneCap, .ok queued.freeName)) ∨
      (∃ queued error, QueueOnly r queued ∧ ((r.tryReserveWip params.fleetWipCap).2 = false ∨
          (r.tryReserveLaneWip params.place env.laneCap (laneWaitKey params) env.lane).2 = false ∨
          (reserveTask r params).isOk = false) ∧
        admission r params env = (queued, .error error)) := by
  cases hw : (r.tryReserveWip params.fleetWipCap).2 with
  | false =>
    refine .inr ⟨r, fleetWipCapRefused, .refl r, .inl rfl, ?_⟩
    have hpair : r.tryReserveWip params.fleetWipCap = (r, false) :=
      Prod.ext (tryReserveWip_refused hw) hw
    unfold admission
    rw [hpair]
  | true =>
    have hpair : r.tryReserveWip params.fleetWipCap =
        ({ r with wipReservations := r.wipReservations + wipSlot params.fleetWipCap }, true) :=
      Prod.ext (tryReserveWip_ok hw) hw
    have hlane := tryReserveLaneWip_cases
      { r with wipReservations := r.wipReservations + wipSlot params.fleetWipCap } params.place
      env.laneCap (laneWaitKey params) env.lane
    rw [tryReserveLaneWip_wip] at hlane
    obtain ⟨queued, ⟨waiters, file, rfl⟩, hlane⟩ := hlane
    unfold admission
    rw [hpair]
    dsimp only
    cases hl : (r.tryReserveLaneWip params.place env.laneCap (laneWaitKey params) env.lane).2 with
    | false =>
      rw [hl] at hlane
      refine .inr ⟨{ r with laneWaiters := waiters, disk := { r.disk with laneWaiters := file } },
        laneRefused params.lane, ⟨waiters, file, rfl⟩, .inr (.inl rfl), ?_⟩
      rw [hlane]
      have hback := releaseWip_slot
        (r := { r with laneWaiters := waiters, disk := { r.disk with laneWaiters := file } })
        params.fleetWipCap
      exact congrArg (fun x => (x, Except.error (laneRefused params.lane))) hback
    | true =>
      rw [hl, if_pos rfl] at hlane
      rw [hlane]
      dsimp only
      have htask : (reserveTask { r with
            wipReservations := r.wipReservations + wipSlot params.fleetWipCap
            laneReservations := laneSlot params.place env.laneCap ++ r.laneReservations
            laneWaiters := waiters
            disk := { r.disk with laneWaiters := file } } params).isOk =
          (reserveTask r params).isOk := reserveTask_isOk rfl rfl
      cases ht : reserveTask { r with
            wipReservations := r.wipReservations + wipSlot params.fleetWipCap
            laneReservations := laneSlot params.place env.laneCap ++ r.laneReservations
            laneWaiters := waiters
            disk := { r.disk with laneWaiters := file } } params with
      | error owner =>
        rw [ht] at htask
        refine .inr ⟨{ r with laneWaiters := waiters, disk := { r.disk with laneWaiters := file } },
          duplicateTaskRefused params.task owner, ⟨waiters, file, rfl⟩,
          .inr (.inr htask.symm), ?_⟩
        refine congrArg (fun x => (x, Except.error (duplicateTaskRefused params.task owner))) ?_
        have hfleet := releaseWip_slot (r := { r with
            laneReservations := laneSlot params.place env.laneCap ++ r.laneReservations
            laneWaiters := waiters
            disk := { r.disk with laneWaiters := file } }) params.fleetWipCap
        have hlanes := releaseLaneWip_slot
          (r := { r with laneWaiters := waiters, disk := { r.disk with laneWaiters := file } })
          params.place env.laneCap
        exact (congrArg (fun x => x.releaseLaneWip params.place env.laneCap) hfleet).trans hlanes
      | ok reserved =>
        rw [ht] at htask
        obtain ⟨hres, hfree⟩ := reserveTask_ok ht
        subst hres
        refine .inl ⟨{ r with laneWaiters := waiters, disk := { r.disk with laneWaiters := file } },
          ⟨waiters, file, rfl⟩, hfree, rfl, rfl, htask.symm, ?_⟩
        rfl

theorem releaseTaskForLane_keys {tasks : List String} (hfree : ∀ key ∈ params.keys, key ∉ tasks)
    (ht : r.taskReservations = params.keys ++ tasks) :
    r.releaseTaskForLane params.repo params.lane params.task params.workflowInstance =
      { r with taskReservations := tasks } := by
  have hgone : params.task ≠ "" → r.releaseTaskKey params.key =
      { r with taskReservations := tasks } := by
    intro htask
    unfold SpawnParams.keys at hfree ht
    rw [if_neg htask] at hfree ht
    unfold releaseTaskKey
    rw [ht, singleton_append, filter_cons_of_neg (by simp)]
    congr 1
    apply filter_eq_self.mpr
    intro key hkey
    apply decide_eq_true
    intro he
    exact hfree params.key mem_cons_self (he ▸ hkey)
  have hn : params.task = "" → r = { r with taskReservations := tasks } := by
    intro htask
    unfold SpawnParams.keys at ht
    rw [if_pos htask, nil_append] at ht
    rw [← ht]
  unfold releaseTaskForLane key at *
  cases hl : params.lane with
  | implementation =>
    rw [hl] at hgone
    show r.releaseTask params.repo params.task = _
    unfold releaseTask
    by_cases htask : params.task = ""
    · rw [if_pos htask]
      exact hn htask
    · rw [if_neg htask]
      exact hgone htask
  | review =>
    rw [hl] at hgone
    show r.releaseReviewTask params.repo params.task params.workflowInstance = _
    unfold releaseReviewTask
    by_cases htask : params.task = ""
    · rw [if_pos htask]
      exact hn htask
    · rw [if_neg htask]
      exact hgone htask

variable {queued : Registry}

theorem releaseAdmission_reserved {laneCap : Nat}
    (hfree : ∀ key ∈ params.keys, key ∉ queued.taskReservations)
    (hw : r.wipReservations = queued.wipReservations + wipSlot params.fleetWipCap)
    (hl : r.laneReservations = laneSlot params.place laneCap ++ queued.laneReservations)
    (ht : r.taskReservations = params.keys ++ queued.taskReservations) :
    releaseAdmission r params laneCap = { r with
        wipReservations := queued.wipReservations
        laneReservations := queued.laneReservations
        taskReservations := queued.taskReservations } := by
  have hwip : r.releaseWip params.fleetWipCap =
      { r with wipReservations := queued.wipReservations } := by
    have hslot := releaseWip_slot (r := { r with wipReservations := queued.wipReservations })
      params.fleetWipCap
    rw [← hslot]
    show _ = Registry.releaseWip { r with
      wipReservations := queued.wipReservations + wipSlot params.fleetWipCap } params.fleetWipCap
    rw [← hw]
  have hlane : ({ r with wipReservations := queued.wipReservations } : Registry).releaseLaneWip
      params.place laneCap =
      { r with
        wipReservations := queued.wipReservations
        laneReservations := queued.laneReservations } := by
    have hslot := releaseLaneWip_slot (r := { r with
      wipReservations := queued.wipReservations
      laneReservations := queued.laneReservations }) params.place laneCap
    rw [← hslot]
    show _ = Registry.releaseLaneWip { r with
      wipReservations := queued.wipReservations
      laneReservations := laneSlot params.place laneCap ++ queued.laneReservations } params.place
        laneCap
    rw [← hl]
  unfold releaseAdmission
  rw [hwip, hlane]
  exact releaseTaskForLane_keys hfree ht

theorem filter_name (name : String) {names : List String} (h : name ∉ names) :
    (name :: names).filter (fun n => n ≠ name) = names := by
  rw [filter_cons_of_neg (by simp)]
  apply filter_eq_self.mpr
  intro n hn
  apply decide_eq_true
  intro he
  exact h (he ▸ hn)

theorem freeName_not_taken (r : Registry) : r.freeName ∉ r.takenNames := nextName_free r.takenNames

theorem freeName_not_reserved (r : Registry) : r.freeName ∉ r.reserved := by
  intro h
  apply freeName_not_taken r
  exact mem_append_left _ (mem_append_right _ h)

theorem freeName_no_row (r : Registry) : r.agents.get r.freeName = none := by
  cases hget : r.agents.get r.freeName with
  | none => rfl
  | some record =>
    refine absurd ?_ (freeName_not_taken r)
    apply mem_append_left
    apply mem_append_left
    exact mem_map.mpr ⟨_, Table.get_eq_some_iff.mp hget, rfl⟩

structure Row (r : Registry) (name : String) (record : AgentRecord) : Prop where
  keyed : Keyed r.agents
  get : r.agents.get name = some record

variable {record : AgentRecord}

theorem liveOf_row (h : Row r name record) :
    liveOf r record.generation = if record.state.isLive then [record] else [] := by
  have hn : record.name = name := h.keyed name record h.get
  have hrow : r.records.filter (fun a => a.generation = record.generation) = [record] := by
    unfold records
    rw [filter_generation_of_nodup (records_generations h.keyed), inRecords h.keyed]
    show ((r.agents.get record.name).filter _).toList = _
    rw [hn, h.get, Option.filter_some, if_pos (decide_eq_true rfl)]
    rfl
  have hsplit : liveOf r record.generation =
      (r.records.filter fun a => a.generation = record.generation).filter fun a => a.state.isLive := by
    rw [filter_filter]
    apply filter_congr
    intro a _
    exact Bool.and_comm _ _
  rw [hsplit, hrow]
  cases hl : record.state.isLive with
  | true => exact filter_cons_of_pos hl
  | false => exact filter_cons_of_neg (by rw [hl]; exact Bool.false_ne_true)

theorem liveOf_no_row (hk : Keyed r.agents) (hget : r.agents.get name = none) (spawn : SpawnId) :
    liveOf r (name, spawn) = [] := by
  apply filter_eq_nil_iff.mpr
  intro a ha
  obtain ⟨row, hrow, rfl⟩ := mem_map.mp ha
  have hrowget : r.agents.get row.1 = some row.2 := Table.get_eq_some_iff.mpr hrow
  have hn : row.2.name = row.1 := hk row.1 row.2 hrowget
  by_cases hg : row.2.generation = (name, spawn)
  · have hkey : row.2.name = name := congrArg Prod.fst hg
    rw [← hkey, hn, hrowget] at hget
    cases hget
  · simp [hg]

theorem updated_row (h : Row r name record) (mutate : AgentRecord → AgentRecord)
    (hm : ∀ a, (mutate a).name = a.name) (now : DateTime) (writes : Bool) :
    Row (updated r name mutate now writes).1 name { mutate record with updatedAt := now } ∧
      slots (updated r name mutate now writes).1 = slots r ∧
      (updated r name mutate now writes).2 =
        if writes then .ok (some { mutate record with updatedAt := now }) else .error () := by
  have hagents : (r.update name mutate now writes).agents =
      r.agents.modify name fun record => { mutate record with updatedAt := now } := by
    unfold Registry.update
    rw [h.get]
    cases writes <;> rfl
  have hslots : slots (r.update name mutate now writes) = slots r := by
    unfold Registry.update
    rw [h.get]
    cases writes <;> rfl
  have hget : (r.update name mutate now writes).agents.get name =
      some { mutate record with updatedAt := now } := by
    rw [hagents, Table.get_modify, if_pos rfl, h.get]
    rfl
  have hkeyed : Keyed (r.update name mutate now writes).agents := by
    intro k found hfound
    rw [hagents, Table.get_modify] at hfound
    by_cases hk : k = name
    · rw [if_pos hk, hk, h.get] at hfound
      cases hfound
      rw [hk]
      exact (hm record).trans (h.keyed name record h.get)
    · rw [if_neg hk] at hfound
      exact h.keyed k found hfound
  have hrow : r.get name = some record := h.get
  unfold updated
  rw [hrow]
  cases writes with
  | true =>
    refine ⟨⟨hkeyed, hget⟩, hslots, ?_⟩
    exact congrArg Except.ok hget
  | false => exact ⟨⟨hkeyed, hget⟩, hslots, rfl⟩

theorem markSpawnFailed_row (h : Row r name record) (detail : String) (now : DateTime)
    (writes : Bool) :
    ∃ last, Row (markSpawnFailed r name detail now writes) name last ∧
      last.generation = record.generation ∧ last.state.isLive = false ∧
      slots (markSpawnFailed r name detail now writes) = slots r := by
  obtain ⟨hrow, hslots, -⟩ := updated_row h (fun record =>
    { record with state := .failed, result := some detail, pid := none }) (fun _ => rfl) now writes
  exact ⟨_, hrow, rfl, rfl, hslots⟩

theorem beginAttempt_row (h : Row r name record) (attempt : SpawnId) (now : DateTime)
    (writes : Bool) :
    ∃ r' last, beginAttempt r name attempt now writes = (r', writes) ∧ Row r' name last ∧
      last.generation = record.generation ∧ last.state = record.state ∧ slots r' = slots r := by
  obtain ⟨hrow, hslots, hanswer⟩ := updated_row h (fun record =>
    { record with currentAttempt := some attempt }) (fun _ => rfl) now writes
  unfold beginAttempt
  generalize updated r name (fun record => { record with currentAttempt := some attempt }) now writes
    = answer at hrow hslots hanswer
  obtain ⟨r', result⟩ := answer
  cases writes with
  | false =>
    cases hanswer
    exact ⟨r', _, rfl, hrow, rfl, rfl, hslots⟩
  | true =>
    cases hanswer
    exact ⟨r', _, rfl, hrow, rfl, rfl, hslots⟩

theorem started_generation (params : SpawnParams) (env : SpawnEnv) (record : AgentRecord) :
    (started params env record).generation = record.generation ∧
      (started params env record).state = .running := by
  unfold started
  split
  · exact ⟨rfl, rfl⟩
  · exact ⟨rfl, rfl⟩

theorem publish_row (h : Row r name record) (params : SpawnParams) (env : SpawnEnv) :
    ∃ r' last, publish r params env name =
        (r', if env.publishWrites then .ok last else .error env.writeError) ∧
      Row r' name last ∧ last.generation = record.generation ∧ last.state = .running ∧
      slots r' = slots r := by
  obtain ⟨hgen, hstate⟩ := started_generation params env record
  obtain ⟨hrow, hslots, hanswer⟩ := updated_row h (started params env)
    (fun a => congrArg Prod.fst (started_generation params env a).1) env.endedAt env.publishWrites
  unfold publish
  generalize updated r name (started params env) env.endedAt env.publishWrites = answer
    at hrow hslots hanswer
  obtain ⟨r', result⟩ := answer
  refine ⟨r', { started params env record with updatedAt := env.endedAt }, ?_, hrow, hgen, hstate,
    hslots⟩
  cases hw : env.publishWrites with
  | false =>
    rw [hw, if_neg Bool.false_ne_true] at hanswer
    cases hanswer
    rfl
  | true =>
    rw [hw, if_pos rfl] at hanswer
    cases hanswer
    rfl

theorem launch_row (params : SpawnParams) (env : SpawnEnv) (h : Row r name record)
    (hlive : record.state.isLive = true) :
    ∃ last, Row (launch r params env name).1 name last ∧ last.generation = record.generation ∧
      slots (launch r params env name).1 = slots r ∧
      ((∃ error, (launch r params env name).2 = .error error ∧
          (last.state.isLive = true ↔ HandedOn env)) ∨
        ((launch r params env name).2 = .ok last ∧ last.state.isLive = true ∧ ¬ HandedOn env)) := by
  unfold launch
  cases hworktree : env.worktreeError with
  | some error =>
    obtain ⟨last, hrow, hgen, hdead, hslots⟩ :=
      markSpawnFailed_row h error env.endedAt env.failureWrites
    refine ⟨last, hrow, hgen, hslots, .inl ⟨error, rfl, ?_⟩⟩
    have hno : ¬ HandedOn env := by
      intro hhanded
      rw [hhanded.1] at hworktree
      cases hworktree
    rw [hdead]
    exact iff_of_false Bool.false_ne_true hno
  | none =>
    obtain ⟨r', attempt, hbegin, hrow, hgen, hstate, hslots⟩ :=
      beginAttempt_row h env.attempt env.attemptAt env.attemptWrites
    rw [hbegin]
    cases hattempt : env.attemptWrites with
    | false =>
      refine ⟨attempt, hrow, hgen, hslots, .inl ⟨env.writeError, rfl, ?_⟩⟩
      rw [hstate]
      exact ⟨fun _ => ⟨hworktree, .inl hattempt⟩, fun _ => hlive⟩
    | true =>
      cases hlaunch : env.launchError with
      | some error =>
        obtain ⟨last, hlast, hlastgen, hdead, hlastslots⟩ :=
          markSpawnFailed_row hrow error env.endedAt env.failureWrites
        refine ⟨last, hlast, hlastgen.trans hgen, hlastslots.trans hslots, .inl ⟨error, rfl, ?_⟩⟩
        have hno : ¬ HandedOn env := by
          intro hhanded
          rcases hhanded.2 with hw | ⟨hl, -⟩
          · rw [hattempt] at hw
            cases hw
          · rw [hl] at hlaunch
            cases hlaunch
        rw [hdead]
        exact iff_of_false Bool.false_ne_true hno
      | none =>
        obtain ⟨r'', last, hpublish, hlast, hlastgen, hrunning, hlastslots⟩ :=
          publish_row hrow params env
        have hlastlive : last.state.isLive = true := by
          rw [hrunning]
          rfl
        dsimp only
        rw [hpublish]
        refine ⟨last, hlast, hlastgen.trans hgen, hlastslots.trans hslots, ?_⟩
        cases hw : env.publishWrites with
        | false =>
          exact .inl ⟨env.writeError, rfl,
            fun _ => ⟨hworktree, .inr ⟨hlaunch, hw⟩⟩, fun _ => hlastlive⟩
        | true =>
          refine .inr ⟨rfl, hlastlive, fun hhanded => ?_⟩
          rcases hhanded.2 with ha | ⟨-, hp⟩
          · rw [hattempt] at ha
            cases ha
          · rw [hw] at hp
            cases hp

theorem QueueOnly.same (h : QueueOnly r queued) :
    slots queued = slots r ∧ queued.agents = r.agents ∧ queued.freeName = r.freeName := by
  obtain ⟨waiters, file, rfl⟩ := h
  exact ⟨rfl, rfl, rfl⟩

theorem insert_row (env : SpawnEnv) (laneCap : Nat) (hk : Keyed queued.agents)
    (hfree : ∀ key ∈ params.keys, key ∉ queued.taskReservations) :
    ∃ r', (reservedFor queued params laneCap).insert (spawningRecord params env queued.freeName) true =
        (r', true) ∧
      Row (releaseAdmission r' params laneCap) queued.freeName
        (spawningRecord params env queued.freeName) ∧
      slots (releaseAdmission r' params laneCap) = slots queued := by
  refine ⟨_, rfl, ?_, ?_⟩
  · rw [releaseAdmission_reserved hfree rfl rfl rfl]
    refine ⟨keyed_set hk (spawningRecord params env queued.freeName), ?_⟩
    show (queued.agents.set queued.freeName _).get queued.freeName = _
    rw [Table.get_set]
    exact if_pos rfl
  · rw [releaseAdmission_reserved hfree rfl rfl rfl]
    unfold slots
    congr 1
    exact filter_name queued.freeName (freeName_not_reserved queued)

theorem abandon_same {queued : Registry} (laneCap : Nat)
    (hfree : ∀ key ∈ params.keys, key ∉ queued.taskReservations) (r' : Registry)
    (hr : r' = reservedFor queued params laneCap ∨
      r' = (reservedFor queued params laneCap).releaseName queued.freeName) :
    slots (releaseAdmission (r'.releaseName queued.freeName) params laneCap) = slots queued ∧
      (releaseAdmission (r'.releaseName queued.freeName) params laneCap).agents = queued.agents := by
  have hnames : ∀ names, names = queued.freeName :: queued.reserved ∨ names = queued.reserved →
      names.filter (fun n => n ≠ queued.freeName) = queued.reserved := by
    intro names hn
    rcases hn with rfl | rfl
    · exact filter_name queued.freeName (freeName_not_reserved queued)
    · apply filter_eq_self.mpr
      intro n hm
      exact decide_eq_true fun he => freeName_not_reserved queued (he ▸ hm)
  have hreserved : (r'.releaseName queued.freeName).reserved = queued.reserved := by
    apply hnames
    rcases hr with rfl | rfl
    · exact .inl rfl
    · exact .inr (filter_name queued.freeName (freeName_not_reserved queued))
  have hparts : (r'.releaseName queued.freeName).wipReservations =
        queued.wipReservations + wipSlot params.fleetWipCap ∧
      (r'.releaseName queued.freeName).laneReservations =
        laneSlot params.place laneCap ++ queued.laneReservations ∧
      (r'.releaseName queued.freeName).taskReservations = params.keys ++ queued.taskReservations ∧
      (r'.releaseName queued.freeName).agents = queued.agents := by
    rcases hr with rfl | rfl
    all_goals exact ⟨rfl, rfl, rfl, rfl⟩
  rw [releaseAdmission_reserved hfree hparts.1 hparts.2.1 hparts.2.2.1]
  refine ⟨?_, hparts.2.2.2⟩
  unfold slots
  congr 1

/-- A call ends without a row and as it began, or with a row. -/
theorem spawn_cases (r : Registry) (hk : Keyed r.agents) (params : SpawnParams) (env : SpawnEnv) :
    ((∃ error, (spawn r params env).2 = .error error) ∧ slots (spawn r params env).1 = slots r ∧
        (spawn r params env).1.agents = r.agents ∧
        ¬ (Admits r params env ∧ env.insertWrites = true)) ∨
      (∃ last, Row (spawn r params env).1 r.freeName last ∧ last.generation = attempted r env ∧
        slots (spawn r params env).1 = slots r ∧ Admits r params env ∧ env.insertWrites = true ∧
        ((∃ error, (spawn r params env).2 = .error error ∧
            (last.state.isLive = true ↔ HandedOn env)) ∨
          ((spawn r params env).2 = .ok last ∧ last.state.isLive = true ∧ ¬ HandedOn env))) := by
  unfold spawn
  cases hrefusal : env.refusal with
  | some error =>
    refine .inl ⟨⟨error, rfl⟩, rfl, rfl, fun h => ?_⟩
    rw [h.1.1] at hrefusal
    cases hrefusal
  | none =>
    rcases admission_cases r params env with ⟨queued, hq, hfree, hw, hl, ht, hadm⟩ |
      ⟨queued, error, hq, hrefused, hadm⟩
    · obtain ⟨hslots, hagents, hn⟩ := hq.same
      rw [hadm]
      dsimp only
      by_cases htask : params.refusedTask = true
      · obtain ⟨hs, ha⟩ := abandon_same env.laneCap hfree _ (.inl rfl)
        rw [if_pos htask]
        refine .inl ⟨⟨_, rfl⟩, hs.trans hslots, ha.trans hagents, fun h => ?_⟩
        rw [h.1.2.2.2.2] at htask
        cases htask
      · rw [if_neg htask]
        cases hinsert : env.insertWrites with
        | false =>
          obtain ⟨hs, ha⟩ := abandon_same env.laneCap hfree _ (.inr rfl)
          exact .inl ⟨⟨_, rfl⟩, hs.trans hslots, ha.trans hagents, fun h => Bool.false_ne_true h.2⟩
        | true =>
          have hkq : Keyed queued.agents := by
            rw [hagents]
            exact hk
          obtain ⟨r', hins, hrow, hrs⟩ := insert_row env env.laneCap hkq hfree
          rw [hins]
          obtain ⟨last, hlast, hgen, hlslots, hend⟩ :=
            launch_row params env hrow rfl
          rw [hn] at hlast hgen hlslots hend ⊢
          exact .inr ⟨last, hlast, hgen, (hlslots.trans hrs).trans hslots,
            ⟨hrefusal, hw, hl, ht, by simpa using htask⟩, rfl, hend⟩
    · obtain ⟨hslots, hagents, -⟩ := hq.same
      rw [hadm]
      refine .inl ⟨⟨error, rfl⟩, hslots, hagents, fun h => ?_⟩
      obtain ⟨-, hw, hl, ht, -⟩ := h.1
      rcases hrefused with hf | hf | hf
      · rw [hw] at hf
        cases hf
      · rw [hl] at hf
        cases hf
      · rw [ht] at hf
        cases hf

end

/-- A registry whose rows are filed under their names. -/
structure Fleet where
  registry : Registry
  keyed : Keyed registry.agents

theorem spawn_keyed (r : Registry) (hk : Keyed r.agents) (params : SpawnParams) (env : SpawnEnv) :
    Keyed (spawn r params env).1.agents := by
  rcases spawn_cases r hk params env with ⟨-, -, hagents, -⟩ | ⟨last, hrow, -⟩
  · rw [hagents]
    exact hk
  · exact hrow.keyed

def Fleet.spawn (s : Fleet) (params : SpawnParams) (env : SpawnEnv) :
    Fleet × Except String AgentRecord :=
  (⟨(Supervisor.spawn s.registry params env).1, spawn_keyed s.registry s.keyed params env⟩,
    (Supervisor.spawn s.registry params env).2)

/-- A call that fails holds no slot, exactly when no write fails whose error is only handed
on. -/
theorem spawn_holds_no_slot_iff (s : Fleet) (params : SpawnParams) (env : SpawnEnv) :
    HoldsNoSlot s.registry env ((s.spawn params env).1.registry, (s.spawn params env).2) ↔
      ¬ Stranded s.registry params env := by
  show HoldsNoSlot s.registry env (spawn s.registry params env) ↔ _
  unfold HoldsNoSlot
  rcases spawn_cases s.registry s.keyed params env with
    ⟨⟨error, hanswer⟩, hslots, hagents, hno⟩ | ⟨last, hrow, hgen, hslots, hadms, hinsert, hend⟩
  · rw [hanswer]
    apply iff_of_true
    · refine ⟨hslots, liveOf_no_row (by rw [hagents]; exact s.keyed) ?_ env.spawn⟩
      rw [hagents]
      exact freeName_no_row s.registry
    · exact fun hs => hno ⟨hs.1, hs.2.1⟩
  · rw [← hgen, liveOf_row hrow]
    rcases hend with ⟨error, hanswer, hhanded⟩ | ⟨hanswer, hl, hhanded⟩
    · rw [hanswer]
      constructor
      · intro hh hs
        rw [if_pos (hhanded.mpr hs.2.2)] at hh
        cases hh.2
      · intro hs
        have hdead : ¬ last.state.isLive = true := fun hl =>
          hs ⟨hadms, hinsert, hhanded.mp hl⟩
        rw [if_neg hdead]
        exact ⟨hslots, rfl⟩
    · rw [hanswer, if_pos hl]
      apply iff_of_true
      · exact ⟨hslots, rfl, rfl⟩
      · exact fun hs => hhanded hs.2.2

def patchTask : SpawnParams :=
  { role := "developer", repo := "barn", task := "T-1", fleetWipCap := 1 }

def fullDisk : SpawnEnv :=
  { laneCap := 1, lane := { evictAt := 0, recordAt := 0 }, spawn := 1, createdAt := 0, attempt := 2
    attemptAt := 0, endedAt := 0, attemptWrites := false }

def emptyFleet : Fleet where
  registry := {}
  keyed := by
    intro name record hget
    cases hget

/-- The row stays in its first state, live. -/
theorem failed_attempt_write_keeps_slot :
    ¬ HoldsNoSlot emptyFleet.registry fullDisk
      ((emptyFleet.spawn patchTask fullDisk).1.registry, (emptyFleet.spawn patchTask fullDisk).2) := by
  intro hh
  have hl : (liveOf (emptyFleet.spawn patchTask fullDisk).1.registry
      (attempted emptyFleet.registry fullDisk)).length = 1 := by decide +kernel
  have herror : (emptyFleet.spawn patchTask fullDisk).2.isOk = false := by decide +kernel
  obtain ⟨-, hn⟩ := hh
  generalize emptyFleet.spawn patchTask fullDisk = answer at hl herror hn
  cases hanswer : answer.2 with
  | ok record =>
    rw [hanswer] at herror
    cases herror
  | error error =>
    rw [hanswer] at hn
    rw [hn] at hl
    cases hl

end RatKingdom.Supervisor
