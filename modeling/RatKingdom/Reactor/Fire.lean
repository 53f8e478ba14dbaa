/-
Dispatch of a matched trigger.

`tryFire` decides one trigger against one tuple: it launches the workflow, queues the
fire behind the trigger's `maxInFlight` cap, hands a completion to the landing queue, or
counts a failed attempt and gives up at the fifth.  Every way it ends without an error,
other than "does not match", leaves a marker.  `drainQueuedFires` dispatches what was
queued.
-/
import RatKingdom.Reactor.Host

namespace RatKingdom.Reactor

open Core Lib

def maxFireAttempts : Nat := 5

def nanosPerSecond : Nat := 1000000000

/-- What a reactor is set up with.  Templating, the hash behind instance ids and the
checks of ids and texts are pure functions of other crates. -/
structure Castle where
  config : ReactorConfig
  triggers : List Loaded
  landing : Bool
  templateParams : List (String × String) → Tuple → List (String × Value)
  stableWorkflowInstanceId : Key → String
  recordIdText : RecordId → String
  parsesSpawn : String → Bool
  validSourceName : String → Bool
  textUnsafe : String → Bool

/-- The registered repositories, name and path. -/
abbrev RepoRegistry := List (String × String)

def RepoRegistry.get (registry : RepoRegistry) (name : String) : Option String :=
  (registry.find? fun r => r.1 = name).map Prod.snd

namespace Trigger

/-- `Reactor::pattern`, nothing for a category that does not exist. -/
def pattern (trigger : Trigger) : Option Pattern :=
  let m := trigger.matcher
  let rest : Pattern :=
    { scope := m.scope, identity := m.identity, inst := m.inst, payloadSearch := m.search }
  match m.category with
  | none => some rest
  | some c => (Category.ofStr c).map fun category => { rest with category := some category }

def key (trigger : Trigger) (tuple : RecordId) : Key := { head := trigger.name, tuple }

end Trigger

section
variable (c : Castle)

namespace Castle

def excluded (trigger : Trigger) (t : Tuple) : Bool :=
  t.inst = reactorInstance || c.config.excludeInstances.contains t.inst ||
    trigger.exclude.contains t.inst

def wants (trigger : Trigger) (t : Tuple) : Bool :=
  !c.excluded trigger t && (trigger.pattern.map (·.matches t)).getD false

/-- The effective `maxFires`. -/
def fireCap (trigger : Trigger) : Nat := min (trigger.maxFires.getD c.config.maxFires) 100

def window : Nat := max c.config.windowSecs 1 * nanosPerSecond

end Castle

def markFiredKey (site : Site) (key : Key) (trigger inst : String) : Op PUnit :=
  out site (.marker key (.fired trigger inst))

/-- `rate_limited`: entries older than the window are dropped as they are counted. -/
def rateLimited (trigger : Trigger) : Op Bool :=
  if c.fireCap trigger = 0 then pure true
  else do
    let time ← now
    Act.modify fun h => { h with
      fires := h.fires.filter fun f => f.1 ≠ trigger.name || decide (time - f.2 < c.window) }
    let h ← Act.get
    pure (c.fireCap trigger ≤ h.fires.countP fun f => f.1 = trigger.name)

def recordFire (name : String) : Op PUnit := do
  let time ← now
  Act.modify fun h => { h with fires := h.fires ++ [(name, time)] }

def Host.attempts (h : Host) (key : Key) : Nat :=
  h.journal.countP fun r =>
    match r with
    | .attempt k _ => k = key
    | _ => false

def recordFireAttempt (key : Key) : Op Nat := do
  let h ← Act.get
  let attempt := h.attempts key + 1
  out .attempt (.attempt key attempt)
  pure attempt

def traceFireDeferred (trigger : String) (tuple : RecordId) (reason : String) : Op PUnit :=
  outBestEffort (.note "reactor_fire_deferred" trigger tuple reason)

def giveUpOrRetry (key : Key) (trigger : String) (tuple : RecordId) (reason : String) :
    Op Bool := do
  let attempt ← recordFireAttempt key
  if attempt < maxFireAttempts then do
    traceFireDeferred trigger tuple
      ("retry " ++ toString attempt ++ "/" ++ toString maxFireAttempts ++ ": " ++ reason)
    Act.raise reason
  else do
    outBestEffort (.note "reactor_fire_gave_up" trigger tuple reason)
    markFiredKey .gaveUpMarker key trigger "gave-up"
    pure false

def enqueueFire (key : Key) (trigger : Trigger) (repoName repoPath : String)
    (params : List (String × Value)) (tuple : RecordId) : Op PUnit := do
  let seq ← nextQueueSeq
  let _ ← proceed .queueRow
  Act.modify fun h =>
    let row : QueuedFire :=
      { id := h.journal.length, key, trigger := trigger.name, run := trigger.run, repoName
        repoPath, params, tuple, seq }
    { h with journal := h.journal ++ [.queued row], queue := h.queue ++ [row] }

def noteNonMainLandTarget (trigger : Trigger) (tuple : RecordId) (params : List (String × Value)) :
    Op PUnit :=
  match ((params.find? fun p => p.1 = "target").map Prod.snd).bind Value.asStr with
  | none => pure ⟨⟩
  | some target =>
    if target = "" ∨ target = "main" then pure ⟨⟩
    else outBestEffort (.note "reactor_non_main_land_target" trigger.name tuple target)

/-- The end of `try_fire` for a workflow: the launch, then the marker, then the entry of
the fire window. -/
def launchNow (key : Key) (trigger : Trigger) (repoPath : String)
    (params : List (String × Value)) (tuple : RecordId) : Op Bool := do
  let launched ← (runOwnedWithIdFromTrigger (c.stableWorkflowInstanceId key) key trigger
    trigger.run repoPath params).attempt
  match launched with
  | .error e =>
    giveUpOrRetry key trigger.name tuple
      ("reactor trigger '" ++ trigger.name ++ "' failed to launch workflow '" ++ trigger.run ++
        "': " ++ e)
  | .ok inst => do
    noteNonMainLandTarget trigger tuple params
    markFiredKey .firedMarker key trigger.name inst
    recordFire trigger.name
    pure true

/-- A fire held back at the `maxInFlight` cap. -/
def queueFire (key : Key) (trigger : Trigger) (repoName repoPath : String)
    (params : List (String × Value)) (tuple : RecordId) : Op Bool := do
  enqueueFire key trigger repoName repoPath params tuple
  markFiredKey .queuedMarker key trigger.name "queued"
  traceFireDeferred trigger.name tuple
    ("queued at admission: trigger at maxInFlight cap " ++ toString (trigger.maxInFlight.getD 0))
  pure false

/-- Whether `trigger` has as many live instances as its cap allows. -/
def Host.atCap (h : Host) (trigger : Trigger) : Bool :=
  match trigger.maxInFlight with
  | none => false
  | some cap => cap ≤ h.liveCountForTrigger trigger.name

def Host.admitted (h : Host) (key : Key) (trigger : Trigger) : Host :=
  { h with admissions := h.admissions ++ [{ key, trigger := trigger.name, waiting := h.queue
                                            full := h.atCap trigger, counter := h.counter }] }

/-- `try_fire` from the admission check on. -/
def fireWorkflow (key : Key) (trigger : Trigger) (repoName repoPath : String) (t : Tuple) :
    Op Bool := do
  let params := c.templateParams trigger.params t
  let h ← Act.get
  Act.modify fun h => h.admitted key trigger
  if h.atCap trigger then queueFire key trigger repoName repoPath params t.id
  else launchNow c key trigger repoPath params t.id

/-- The last step of `fire_land_action`: the queue's answer to the candidate. -/
def enqueueLanding (key : Key) (trigger : Trigger) (tuple : RecordId) : Op Bool := do
  let answer ← (proceed .landing).attempt
  match answer.bind fun turn => turn.enqueued with
  | .ok (some seq) => do
    markFiredKey .landMarker key trigger.name ("queued:" ++ toString seq)
    recordFire trigger.name
    pure true
  | .ok none => do
    markFiredKey .landMarker key trigger.name "deduped-already-processed"
    pure false
  | .error e =>
    giveUpOrRetry key trigger.name tuple
      ("reactor trigger '" ++ trigger.name ++ "' failed to enqueue landing candidate: " ++ e)

def parseSourceSpawn (payload : Value) : Except String String :=
  match payload.get "spawn" with
  | some (.string raw) =>
    if c.parsesSpawn raw then .ok raw else .error "invalid harness_result spawn"
  | none | some .null => .error "harness_result missing required spawn"
  | some _ => .error "invalid harness_result spawn: expected a string"

/-- `validate_landing_source`, whose evidence is the agent registry and the tickets. -/
def validateLandingSource : Op (Option String) := do
  let turn ← nextTurn
  pure turn.sourceError

def fireLandAction (key : Key) (trigger : Trigger) (repoName : String) (t : Tuple) : Op Bool :=
  let retry reason := giveUpOrRetry key trigger.name t.id
    ("reactor trigger '" ++ trigger.name ++ "'" ++ reason)
  if !c.landing then retry " has action \"land\" but no LandingPipeline is wired"
  else if repoName ≠ t.scope then
    retry (" resolved destination repo '" ++ repoName ++ "' but the completion's authoritative " ++
      "source repo (tuple scope) is '" ++ t.scope ++
      "' — refusing to enqueue a cross-repo landing candidate")
  else if ((t.payload.get "is_error").bind Value.asBool).getD true ∨
      ((t.payload.get "declared_done").bind Value.asBool).getD false = false then do
    markFiredKey .landMarker key trigger.name "skipped-not-declared-done"
    pure false
  else if (t.payload.getStr "branch").getD "" = "" ∨ (t.payload.getStr "head_sha").getD "" = "" then
    retry ": harness_result missing branch/head_sha"
  else
    match parseSourceSpawn c t.payload with
    | .error e => retry (": " ++ e)
    | .ok _ => do
      let refused ← validateLandingSource
      match refused with
      | some e => retry (": " ++ e)
      | none => enqueueLanding key trigger t.id

/-- `try_fire` once the trigger is known to match and to have no marker. -/
def dispatch (registry : RepoRegistry) (loaded : Loaded) (t : Tuple) : Op Bool := do
  let trigger := loaded.trigger
  let key := trigger.key t.id
  let limited ← rateLimited c trigger
  if limited then do
    outBestEffort (.note "reactor_rate_capped" trigger.name t.id "")
    giveUpOrRetry key trigger.name t.id ("reactor trigger '" ++ trigger.name ++ "' is rate limited")
  else
    let repoName := (trigger.repo.or loaded.sourceRepo).getD t.scope
    match registry.get repoName with
    | none =>
      giveUpOrRetry key trigger.name t.id
        ("reactor trigger '" ++ trigger.name ++ "' targets unregistered repo '" ++ repoName ++ "'")
    | some repoPath =>
      match trigger.action with
      | .land => fireLandAction c key trigger repoName t
      | .workflow => fireWorkflow c key trigger repoName repoPath t

def tryFire (registry : RepoRegistry) (loaded : Loaded) (t : Tuple) : Op Bool :=
  let trigger := loaded.trigger
  if c.excluded trigger t then pure false
  else
    match trigger.pattern with
    | none => Act.raise "unknown category"
    | some pattern =>
      if !pattern.matches t then pure false
      else do
        let fired ← alreadyFired (trigger.key t.id)
        if fired then pure false else dispatch c registry loaded t

/-- The order `drain_queued_fires` takes the rows of one trigger in. -/
def QueuedFire.before (a b : QueuedFire) : Bool := a.seq < b.seq || (a.seq = b.seq && a.id ≤ b.id)

def QueuedFire.first (rows : List QueuedFire) : Option QueuedFire :=
  rows.foldl (fun best row =>
    match best with
    | none => some row
    | some b => if b.before row then some b else some row) none

def Host.nextQueued (h : Host) (trigger : String) : Option QueuedFire :=
  QueuedFire.first (h.queue.filter fun row => row.trigger = trigger)

def deleteQueued (site : Site) (id : RecordId) : Op PUnit := do
  let _ ← proceed site
  Act.modify fun h => { h with queue := h.queue.filter fun row => row.id ≠ id }

def dispatchQueued (trigger : Trigger) (row : QueuedFire) : Op Bool := do
  let launched ← (runOwnedWithIdFromTrigger (c.stableWorkflowInstanceId row.key) row.key trigger
    row.run row.repoPath row.params).attempt
  match launched with
  | .ok _ => do
    deleteQueued .drainedRow row.id
    recordFire trigger.name
    pure true
  | .error e => do
    let attempt ← recordFireAttempt { row.key with head := "queued:" ++ row.key.head }
    if attempt < maxFireAttempts then do
      traceFireDeferred trigger.name row.tuple
        ("queued dispatch retry " ++ toString attempt ++ "/" ++ toString maxFireAttempts ++ ": " ++ e)
      Act.raise e
    else do
      outBestEffort (.note "reactor_fire_gave_up" trigger.name row.tuple e)
      deleteQueued .abandonedRow row.id
      pure false

/-- The loop of `drain_queued_fires` for one trigger.  Every pass that does not leave the
loop deletes a row, so the length of the queue bounds the number of passes. -/
def drainTrigger (trigger : Trigger) (cap : Nat) : Nat → Nat → Op Nat
  | 0, dispatched => pure dispatched
  | fuel + 1, dispatched => do
    let h ← Act.get
    if cap ≤ h.liveCountForTrigger trigger.name then pure dispatched
    else
      match h.nextQueued trigger.name with
      | none => pure dispatched
      | some row => do
        let limited ← rateLimited c trigger
        if limited then do
          traceFireDeferred trigger.name row.tuple
            "rate cap reached while draining queued fires; remainder deferred to next cycle"
          pure dispatched
        else do
          let sent ← (dispatchQueued c trigger row).attempt
          match sent with
          | .ok true => drainTrigger trigger cap fuel (dispatched + 1)
          | .ok false => drainTrigger trigger cap fuel dispatched
          | .error _ => pure dispatched

def drainQueuedFires (triggers : List Loaded) : Op Nat :=
  triggers.foldlM (fun dispatched loaded => do
    match loaded.trigger.maxInFlight with
    | none => pure dispatched
    | some cap => do
      let h ← Act.get
      drainTrigger c loaded.trigger cap (h.queue.length + 1) dispatched) 0

end

end RatKingdom.Reactor
