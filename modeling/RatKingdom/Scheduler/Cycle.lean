/-
The scheduler's cycle.

A cycle evaluates the minutes after its cursor up to the current one, and dispatches a
schedule at the first of them its cron matches.  A dispatch is held by a run of the schedule
that is still going and not stale.  The cursor goes to the current minute, or stops before the
earliest one with a dispatch that failed.
-/
import RatKingdom.Core.Text
import RatKingdom.Lib.Run

namespace RatKingdom.Schedules

open Core

structure Schedule where
  name : String
  run : String
  repo : Option String
  /-- In key order. -/
  params : List (String × String)

structure Loaded where
  schedule : Schedule
  sourceRepo : Option String

/-- `Cron::matches`: the minutes, counted from the epoch, an expression names. -/
abbrev Cron := Int → Bool

inductive InstanceStatus where
  | running | completed | failed
  deriving DecidableEq

structure Instance where
  id : String
  status : InstanceStatus
  depth : Nat
  schedule : Option String
  repo : String
  definition : String
  params : List (String × Value)
  /-- In nanoseconds from the epoch. -/
  startedAt : Int

/-- Ids for new instances, each one that nobody has. -/
structure Mint where
  next : List String → String
  fresh : ∀ taken, next taken ∉ taken

structure SchedulerConfig where
  catchupMinutes : Nat
  staleRunningHours : Nat

structure Scheduler where
  config : SchedulerConfig
  castle : String
  prefixedId : Mint
  parsed : List (Loaded × Cron)

/-- The `need` a stale run is surfaced with. -/
structure Need where
  scope : String
  identity : String
  castle : String
  payload : Value

structure State where
  cursor : Option Int
  running : String → Option String
  escalated : List String
  needs : List Need
  /-- The engine's instances, in the order `list` sorts them into. -/
  instances : List Instance
  archived : List Instance

/-- `RepoRegistry::get`: the path of a registered repo. -/
abbrev Repos := String → Option String

/-- What `run_scheduled` finds when it is called for a schedule. -/
structure Attempt where
  /-- The definition is missing or broken, or the new instance was not persisted. -/
  fails : Bool
  startedAt : Int

inductive Outcome where
  | fired | singleFlight | noRepo | failed
  deriving DecidableEq

def State.status (st : State) (id : String) : Option Instance :=
  st.instances.find? fun i => i.id = id

def State.remembered (st : State) (name : String) : Option Instance :=
  ((st.running name).bind st.status).filter fun i => i.status = .running

def State.remember (st : State) (name id : String) : State :=
  { st with running := fun n => if n = name then some id else st.running n }

def Instance.texts (i : Instance) : Option (List (String × String)) :=
  i.params.mapM fun f => f.2.asStr.map fun s => (f.1, s)

/-- A running instance of a schedule, by its persisted name or, for a snapshot older than
that field, by its work. -/
def Instance.serves (i : Instance) (sched : Schedule) (path : String) : Bool :=
  i.status = .running ∧ i.depth = 0 ∧ (i.schedule = some sched.name ∨
      (i.schedule = none ∧ i.repo = path ∧ i.definition = sched.run ∧ i.texts = some sched.params))

def State.durable (st : State) (sched : Schedule) (path : String) : Option Instance :=
  st.instances.find? fun i => i.serves sched path

def hour : Int := 3600000000000

/-- `ChronoDuration::hours` panics: the staleness bound is past the longest duration. -/
def Scheduler.overlong (s : Scheduler) : Bool := 2562047788016 ≤ s.config.staleRunningHours

def Scheduler.isStale (s : Scheduler) (i : Instance) (now : Int) : Bool :=
  s.config.staleRunningHours * hour < now - i.startedAt

def Loaded.target (l : Loaded) : Option String := l.schedule.repo <|> l.sourceRepo

def Scheduler.escalateStale (s : Scheduler) (st : State) (l : Loaded) (i : Instance) (now : Int) :
    State :=
  if i.id ∈ st.escalated then st
  else
    let age := (now - i.startedAt).tdiv hour
    { st with
      escalated := i.id :: st.escalated
      needs := st.needs ++ [{
        scope := l.target.getD "system"
        identity := l.schedule.name
        castle := s.castle
        payload := .object [ ("age_hours", .number (.int age)),
          ("bound_hours", .number (.int s.config.staleRunningHours)),
          ("instance", .string i.id),
          ("schedule", .string l.schedule.name),
          ("text", .string ("schedule " ++ l.schedule.name ++ " has a Running instance " ++ i.id ++
            " that is " ++ toString age ++ "h old, over the " ++
            toString s.config.staleRunningHours ++
            "h staleness bound; it no longer blocks dispatch — investigate the wedged run")),
          ("type", .string "schedule_stale_running")] }] }

def place (i : Instance) : List Instance → List Instance
  | [] => [i]
  | j :: l => if j.startedAt ≤ i.startedAt then j :: place i l else i :: j :: l

def State.ids (st : State) : List String :=
  st.instances.map Instance.id ++ st.archived.map Instance.id

def State.storeIfAbsent (st : State) (i : Instance) : Instance × State :=
  match (st.instances ++ st.archived).find? fun j => j.id = i.id with
  | some j => (j, st)
  | none => (i, { st with instances := place i st.instances })

def Scheduler.runScheduled (s : Scheduler) (st : State) (sched : Schedule) (path : String)
    (a : Attempt) : Option Instance × State :=
  if a.fails then (none, st)
  else
    let stored := st.storeIfAbsent {
      id := s.prefixedId.next st.ids
      status := .running
      depth := 0
      schedule := some sched.name
      repo := path
      definition := sched.run
      params := sched.params.map fun f => (f.1, .string f.2)
      startedAt := a.startedAt }
    (some stored.1, stored.2)

/-- The end of `try_fire`: nothing holds the dispatch. -/
def Scheduler.launch (s : Scheduler) (st : State) (l : Loaded) (path : String) (a : Attempt) :
    Outcome × State :=
  match s.runScheduled st l.schedule path a with
  | (none, st) => (.failed, st)
  | (some i, st) => (.fired, st.remember l.schedule.name i.id)

/-- `try_fire` past its fast path: the target repo, and the runs that were persisted. -/
def Scheduler.resolve (s : Scheduler) (st : State) (l : Loaded) (repos : Repos) (now : Int)
    (a : Attempt) : Outcome × State :=
  match l.target.bind repos with
  | none => (.noRepo, st)
  | some path =>
    match st.durable l.schedule path with
    | none => s.launch st l path a
    | some i =>
      if s.isStale i now then s.launch (s.escalateStale st l i now) l path a
      else (.singleFlight, st.remember l.schedule.name i.id)

def Scheduler.tryFire (s : Scheduler) (st : State) (l : Loaded) (repos : Repos) (now : Int)
    (a : Attempt) : Outcome × State :=
  match st.remembered l.schedule.name with
  | none => s.resolve st l repos now a
  | some i =>
    if s.isStale i now then s.resolve (s.escalateStale st l i now) l repos now a
    else (.singleFlight, st)

def minuteLength : Int := 60000000000

/-- `truncate_to_minute`, as the number of the minute. -/
def minuteOf (now : Int) : Int := now / minuteLength

def maxCatchupMinutes : Nat := 7 * 24 * 60

def Scheduler.catchup (s : Scheduler) : Nat := min s.config.catchupMinutes maxCatchupMinutes

def Scheduler.start (s : Scheduler) (cursor : Option Int) (nowMin : Int) : Option Int :=
  match cursor with
  | none => some nowMin
  | some c => if nowMin ≤ c then none else some (max (c + 1) (nowMin - s.catchup))

def minutes (start nowMin : Int) : List Int :=
  (List.range (nowMin + 1 - start).toNat).map fun k => start + Int.ofNat k

/-- The dispatch of a schedule, by its place among the parsed ones, for a minute in the cycle
of another. -/
structure Dispatch where
  index : Nat
  minute : Int
  cycle : Int
  outcome : Outcome

/-- How a write of the cursor's file ends.  `fs::write` truncates it first, so one that fails
after that, or is cut, leaves it empty. -/
inductive Save where
  | done | refused | torn

/-- A call of `run_cycle_at`. -/
structure Cycle where
  now : Int
  registry : Option Repos
  attempts : Nat → Attempt
  save : Save

structure Loop where
  st : State
  firedNames : List String
  failedMinute : Option Int
  fired : Nat
  dispatches : List Dispatch

structure Visit where
  minute : Int
  loaded : Loaded
  cron : Cron
  index : Nat

def Scheduler.visits (s : Scheduler) (start nowMin : Int) : List Visit :=
  (minutes start nowMin).flatMap fun m => s.parsed.zipIdx.map fun e => ⟨m, e.1.1, e.1.2, e.2⟩

def Scheduler.visit (s : Scheduler) (repos : Repos) (cy : Cycle) (lp : Loop) (v : Visit) : Loop :=
  if v.loaded.schedule.name ∈ lp.firedNames then lp
  else if v.cron v.minute then
    let tried := s.tryFire lp.st v.loaded repos cy.now (cy.attempts v.index)
    { st := tried.2
      firedNames := v.loaded.schedule.name :: lp.firedNames
      failedMinute :=
        if tried.1 = .failed then lp.failedMinute <|> some v.minute else lp.failedMinute
      fired := if tried.1 = .fired then lp.fired + 1 else lp.fired
      dispatches := lp.dispatches ++ [⟨v.index, v.minute, minuteOf cy.now, tried.1⟩] }
  else lp

/-- `try_fire` has a run that is going whose age it measures. -/
def State.measures (st : State) (l : Loaded) (repos : Repos) : Bool :=
  (st.remembered l.schedule.name).isSome ||
    (l.target.bind repos).any fun path => (st.durable l.schedule path).isSome

def Scheduler.panics (s : Scheduler) (repos : Repos) (lp : Loop) (v : Visit) : Bool :=
  s.overlong && v.loaded.schedule.name ∉ lp.firedNames && v.cron v.minute &&
    lp.st.measures v.loaded repos

/-- The visits in turn, up to one that panics, and whether one did. -/
def Scheduler.visitAll (s : Scheduler) (repos : Repos) (cy : Cycle) : List Visit → Loop → Loop × Bool
  | [], lp => (lp, false)
  | v :: vs, lp =>
    if s.panics repos lp v then (lp, true) else s.visitAll repos cy vs (s.visit repos cy lp v)

def Scheduler.evaluate (s : Scheduler) (st : State) (repos : Repos) (cy : Cycle) (start : Int) :
    Loop × Bool :=
  s.visitAll repos cy (s.visits start (minuteOf cy.now)) ⟨st, [], none, 0, []⟩

def Loop.advanceTo (lp : Loop) (nowMin : Int) : Int :=
  match lp.failedMinute with
  | some m => m - 1
  | none => nowMin

/-- The end of a cycle: the cursor moves forward or stays, and is saved.  The result is how
many workflows were fired, if nothing failed. -/
def Loop.finish (lp : Loop) (cursor : Option Int) (cy : Cycle) : Option Nat × State :=
  let advance := lp.advanceTo (minuteOf cy.now)
  if cursor.all fun c => c < advance then
    match cy.save with
    | .done => (some lp.fired, { lp.st with cursor := some advance })
    | .refused => (none, lp.st)
    | .torn => (none, { lp.st with cursor := none })
  else (some lp.fired, lp.st)

/-- The scheduler among the cycles that ran: every dispatch so far, those of the latest
cycle, and the minutes at which cycles evaluated. -/
structure Diary where
  st : State
  lastNow : Option Int
  log : List Dispatch
  latest : List Dispatch
  cycles : List Int

def Diary.open (st : State) : Diary := ⟨st, none, [], [], []⟩

inductive Move where
  | cycle (cy : Cycle)
  | settle (id : String) (status : InstanceStatus)
  | other (i : Instance)
  | archive (id : String)
  | restart

def Scheduler.cycle (s : Scheduler) (d : Diary) (cy : Cycle) : Diary :=
  match s.start d.st.cursor (minuteOf cy.now), cy.registry with
  | some start, some repos =>
    let (lp, panicked) := s.evaluate d.st repos cy start
    { st := if panicked then lp.st else (lp.finish d.st.cursor cy).2
      lastNow := some cy.now
      log := d.log ++ lp.dispatches
      latest := lp.dispatches
      cycles := d.cycles ++ [minuteOf cy.now] }
  | _, _ => { d with lastNow := some cy.now }

def Scheduler.step (s : Scheduler) (d : Diary) : Move → Option Diary
  | .cycle cy => if d.lastNow.all fun t => t ≤ cy.now then some (s.cycle d cy) else none
  | .settle id status => some { d with st := { d.st with
      instances := d.st.instances.map fun i => if i.id = id then { i with status } else i } }
  | .other i => some { d with st := (d.st.storeIfAbsent i).2 }
  | .archive id => some { d with st := { d.st with
      instances := d.st.instances.filter fun i => i.id ≠ id
      archived := d.st.archived ++ d.st.instances.filter fun i => i.id = id } }
  | .restart => some { d with st := { d.st with running := fun _ => none, escalated := [] } }

end RatKingdom.Schedules
