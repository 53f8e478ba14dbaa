/-
The workflow engine, seen from one instance.

The machine holds the instance's record in memory and on disk, in the live and in
the archive directory, the task that executes its steps, and the approval
decisions the space holds for it.  A step list is executed by an explicit stack of
frames, so that a crash, a sweep, an archive pass or an approve call can fall
between any two actions of the task.  What agents, commands, tickets and child
workflows answer comes with the label.
-/
import Mathlib.Algebra.Group.Nat.Defs
import RatKingdom.Lib.Run

namespace RatKingdom.Workflow

inductive InstanceStatus
  | running | completed | failed
deriving DecidableEq

def InstanceStatus.isTerminal : InstanceStatus → Bool
  | .running => false
  | .completed | .failed => true

/-- A JSON value, as far as a `when` step tells values apart; any other value
stands for itself by its JSON text. -/
inductive Value
  | null
  | string (s : String)
  | other (text : String)
deriving DecidableEq

def valueAsKey : Value → String
  | .string s => s
  | .null => ""
  | .other text => text

structure FannedAgent where
  agent : String
  branch : Option String
  ticket : Option String
  spawn : Option String
deriving DecidableEq

structure WorkflowContext where
  activeAgent : Option String := none
  activeAgentSpawn : Option String := none
  activeBranch : Option String := none
  previousResult : Option Value := none
  vars : List (String × Value) := []
  fanout : Option (List FannedAgent) := none
  awaited : List String := []
  approvalGranted : Bool := false
  activeSubworkflow : Option String := none
deriving DecidableEq

/-- `HashMap::insert`. -/
def insertVar (name : String) (value : Value) (vars : List (String × Value)) :
    List (String × Value) :=
  if vars.any fun v => v.1 = name then
    vars.map fun v => if v.1 = name then (name, value) else v
  else vars ++ [(name, value)]

structure Instance where
  status : InstanceStatus
  revision : Nat
  currentStep : Nat
  context : WorkflowContext
  error : Option String
  awaiting : Option String
  depth : Nat
deriving DecidableEq

/-- The steps of a definition.  The parameters a step hands to an agent, a command
or a read are left out: their answer comes with the label. -/
inductive Step
  | spawn | wait | evaluate | dismiss | timer | approval
  | read (into : String)
  | when (var : String) (cases : List (String × List Step)) (default : List Step)
  | repeated (max : Nat) (steps : List Step)
  | brk
  | stop (reason : Option String)
  | forEach | waitAll | dismissAll
  | run (into : Option String)
  | land | openPr | subWorkflow

structure Setup where
  steps : List Step
  requireApprovalForLanding : Bool

/-- One update of the instance record by its own task. -/
inductive Change
  | awaiting (flag : Option String)
  | spawned (agent spawn : String) (branch : Option String)
  | awaited (result : Value) (agents : List String)
  | dismissed (outcome : Value)
  | lifted (into : String) (value : Value)
  | fanned (fanout : List FannedAgent)
  | spent (summary : Value)
  | ran (result : Value) (lift : Option (String × Value))
  | decided (decision : Value) (granted : Bool)
  | linked (child : String)
  | joined (result : Value)
  | advanced (index : Nat) (clear : Bool) (result : Option Value)
deriving DecidableEq

/-- What a change does to the context.  `joined` is
`join_nested_subworkflow_result`: the link stays until the cursor advances. -/
def Change.onContext (ctx : WorkflowContext) : Change → WorkflowContext
  | .awaiting _ => ctx
  | .spawned agent spawn branch =>
    { ctx with activeAgent := some agent, activeAgentSpawn := some spawn, activeBranch := branch }
  | .awaited result agents => { ctx with previousResult := some result, awaited := agents }
  | .dismissed outcome =>
    { ctx with
      previousResult := some outcome, awaited := [], activeAgent := none,
      activeAgentSpawn := none }
  | .lifted into value => { ctx with vars := insertVar into value ctx.vars }
  | .fanned fanout => { ctx with fanout := some fanout }
  | .spent summary => { ctx with previousResult := some summary, awaited := [], fanout := none }
  | .ran result lift =>
    { ctx with
      previousResult := some result, awaited := [],
      vars := lift.elim ctx.vars fun l => insertVar l.1 l.2 ctx.vars }
  | .decided decision granted =>
    { ctx with previousResult := some decision, awaited := [], approvalGranted := granted }
  | .linked child => { ctx with activeSubworkflow := some child }
  | .joined result => { ctx with previousResult := some result, awaited := [] }
  | .advanced _ clear result =>
    { ctx with
      previousResult := result.elim ctx.previousResult some,
      awaited := result.elim ctx.awaited fun _ => [],
      activeSubworkflow := if clear then none else ctx.activeSubworkflow }

/-- `advanced` is `complete_top_level_step`. -/
def Change.apply (c : Change) (i : Instance) : Instance :=
  { i with
    context := c.onContext i.context
    awaiting :=
      match c with
      | .awaiting flag => flag
      | .spawned .. => none
      | _ => i.awaiting
    currentStep :=
      match c with
      | .advanced index _ _ => index + 1
      | _ => i.currentStep }

inductive Flow
  | next | brk
  | nextWithSubworkflowResult (v : Value)
  | nextAfterNestedSubworkflow
deriving DecidableEq

/-- Which list of nested steps a frame runs. -/
inductive Arm
  | case (key : String)
  | default
  | turn (n : Nat)
deriving DecidableEq

/-- `steps` is a call of `run_steps`: how many of its steps have been started, the
ones that follow and its `joined_subworkflow`.  `loop` is the loop of a `repeat`
step: the turns made, the turns left, the body and its `joined_subworkflow`. -/
inductive Frame
  | steps (arm : Arm) (started : Nat) (rest : List Step) (joined : Bool)
  | loop (turns left : Nat) (body : List Step) (joined : Bool)

def Frame.joined : Frame → Bool
  | .steps _ _ _ joined => joined
  | .loop _ _ _ joined => joined

/-- A `workflow_approval` tuple: its id, the field `approved` of its payload and the
payload's JSON text. -/
structure Decision where
  id : Nat
  approved : Bool
  text : String

/-- Where the task stands.  `parked` has flagged the instance and is about to read,
`waiting` is registered with the space, `got` has the answer of the read and
`acting` has taken the flag back; `linked` has its child's id on disk and `child`
executes the child. -/
inductive Control
  | top
  | next (s : Step) (k : List Frame)
  | busy (s : Step) (ctx : WorkflowContext) (k : List Frame)
  | parked (k : List Frame)
  | waiting (k : List Frame)
  | got (answer : Option Decision) (k : List Frame)
  | acting (answer : Option Decision) (k : List Frame)
  | linked (child : String) (k : List Frame)
  | child (child : String) (k : List Frame)
  | ret (flow : Flow) (k : List Frame)
  | over (err : Option String)

def Control.frames : Control → List Frame
  | .top | .over _ => []
  | .next _ k | .busy _ _ k | .parked k | .waiting k | .got _ k | .acting _ k => k
  | .linked _ k | .child _ k | .ret _ k => k

def Control.isParked : Control → Bool
  | .parked _ | .waiting _ | .got _ _ => true
  | _ => false

structure Task where
  index : Nat
  control : Control

/-- A place in one execution of the definition: the top-level step, and the way from
it through the nested lists and their turns. -/
structure Spot where
  index : Nat
  path : List (Arm × Nat)
deriving DecidableEq

def Frame.place : Frame → Option (Arm × Nat)
  | .steps arm started _ _ => some (arm, started)
  | .loop .. => none

def Task.spot (t : Task) : Spot :=
  { index := t.index, path := t.control.frames.filterMap Frame.place }

def Task.at (t : Task) (c : Control) : Task := { t with control := c }

/-- An execution that is due: read from disk and to be resumed, or about to start. -/
inductive Pending
  | rehydrated | ready

/-- One instance: in memory, on disk, and as a task. -/
structure Run where
  live : Option Instance
  archived : Option Instance
  diskLive : Option Instance
  diskArchived : Option Instance
  pending : Option Pending
  task : Option Task
  begun : Bool
  decisions : List Decision
  stamp : Nat
  minted : List String

def Run.fresh : Run where
  live := none
  archived := none
  diskLive := none
  diskArchived := none
  pending := none
  task := none
  begun := false
  decisions := []
  stamp := 0
  minted := []

/-- What `try_update_with_reason` reports: `Ok(true)`, `Ok(false)` for a record the
change leaves as it is or for an instance that is not there, or the error of the
persist, which takes the record in memory back. -/
inductive Written
  | persisted | unchanged | missing | failed
deriving DecidableEq

def Run.tryUpdate (f : Instance → Instance) (ok : Bool) (d : Run) : Written × Run :=
  match d.live with
  | none => (.missing, d)
  | some i =>
    if f i = i then (.unchanged, d)
    else if ok then
      let j := { f i with revision := min (i.revision + 1) (2 ^ 64 - 1) }
      (.persisted, { d with live := some j, diskLive := some j })
    else (.failed, d)

def failRecoveryInMemory (detail : String) (d : Run) : Run :=
  { d with
    live := d.live.map fun i =>
      { i with
        status := .failed
        error := some ("fail-closed recovery state was not durably recorded: " ++ detail) } }

/-- A guarded terminal write: `finalize` and `timeout_stale_instance` leave a
terminal record alone, and a persist that fails leaves the record failed in memory
only. -/
def Run.terminate (status : InstanceStatus) (error : Option String) (ok : Bool) (d : Run) :
    Run :=
  match d.live with
  | none => d
  | some i =>
    if i.status.isTerminal then d
    else
      match d.tryUpdate (fun i => { i with status := status, error := error }) ok with
      | (.failed, d') => failRecoveryInMemory "terminal state persistence failed" d'
      | (_, d') => d'

def Run.context (d : Run) : WorkflowContext := (d.live.map Instance.context).getD {}

inductive Answer
  | spawned (agent spawn : String) (branch : Option String)
  | value (v : Value)
  | ran (v lifted : Value)
  | fanned (fanout : List FannedAgent)
  | passed
  | failed (msg : String)

inductive ChildAnswer
  | runs
  | returned (v : Value)
  | failed (msg : String)

inductive Exec
  | pick | begin
  | answer (a : Answer)
  | awaitFleet (on : Bool)
  | park | look
  | lookFailed (msg : String)
  | wake | expire | resolve
  | refuse (text : String) (stored : Bool)
  | grant
  | link (child : String)
  | childAnswer (a : ChildAnswer)
  | go

/-- `run_step` up to its first wait. -/
def Setup.runStep (w : Setup) (ctx : WorkflowContext) (k : List Frame) : Step → Control
  | .brk => .ret .brk k
  | .stop reason => .over (some ("workflow stopped: " ++ reason.getD "stop step reached"))
  | .when var cases default =>
    let key := ((ctx.vars.find? fun v => v.1 = var).map fun v => valueAsKey v.2).getD ""
    match cases.find? fun c => c.1 = key with
    | some c => .ret .next (.steps (.case key) 0 c.2 false :: k)
    | none => .ret .next (.steps .default 0 default false :: k)
  | .repeated max steps => .ret .next (.loop 0 max steps false :: k)
  | .land =>
    if w.requireApprovalForLanding && !ctx.approvalGranted then
      .over (some "land step requires a prior approved human gate")
    else .busy .land ctx k
  | .openPr =>
    if w.requireApprovalForLanding && !ctx.approvalGranted then
      .over (some "open_pr step requires a prior approved human gate")
    else .busy .openPr ctx k
  | s => .busy s ctx k

/-- What a step does with the answer it waited for: its error, or the update it
makes before it returns `Flow::Next`. -/
def settle (ctx : WorkflowContext) : Step → Answer → Option (Except String (Option Change))
  | _, .failed msg => some (.error msg)
  | .spawn, .spawned agent spawn branch => some (.ok (some (.spawned agent spawn branch)))
  | .wait, .value v =>
    match ctx.activeAgent with
    | none => some (.error "wait step with no active agent")
    | some agent => some (.ok (some (.awaited v [agent])))
  | .evaluate, .passed => some (.ok none)
  | .dismiss, .value v =>
    if ctx.activeAgent.isNone then some (.error "dismiss step with no active agent")
    else if ctx.activeAgentSpawn.isNone then
      some (.error "dismiss step has no exact active-agent spawn")
    else some (.ok (some (.dismissed v)))
  | .timer, .passed => some (.ok none)
  | .read into, .value v => some (.ok (some (.lifted into v)))
  | .forEach, .fanned fanout => some (.ok (some (.fanned fanout)))
  | .waitAll, .value v =>
    match ctx.fanout with
    | none => some (.error "wait_all step with no preceding for_each: there is no fan-out to join")
    | some fanout => some (.ok (some (.awaited v (fanout.map FannedAgent.agent))))
  | .dismissAll, .value v =>
    if ctx.fanout.isNone then some (.error
      "dismiss_all step with no preceding for_each: there is no fan-out to clean up")
    else some (.ok (some (.spent v)))
  | .run none, .value v => some (.ok (some (.ran v none)))
  | .run (some into), .ran v lifted => some (.ok (some (.ran v (some (into, lifted)))))
  | .land, .value v => some (.ok (some (.awaited v [])))
  | .openPr, .value v => some (.ok (some (.awaited v [])))
  | _, _ => none

def multipleNested : String :=
  "multiple nested sub_workflow executions in one top-level step are refused because they " ++
  "cannot be replayed safely"

def repeatedNested : String :=
  "repeat attempted more than one nested sub_workflow execution in a top-level step; " ++
  "refusing unsafe replay"

def Flow.after (joined : Bool) : Flow := if joined then .nextAfterNestedSubworkflow else .next

/-- What a returned flow meets: another place of the task, the join of a nested
child's result, the advance of the top-level cursor, or `unreachable!`. -/
inductive Pass
  | goto (c : Control)
  | join (v : Value) (k : List Frame)
  | advance (clear : Bool) (result : Option Value)
  | panic

/-- The loops of `execute`, `run_steps` and `repeat`, taken up again with a flow. -/
def pass : Flow → List Frame → Pass
  | .brk, [] => .goto (.over none)
  | .next, [] => .advance false none
  | .nextWithSubworkflowResult v, [] => .advance true (some v)
  | .nextAfterNestedSubworkflow, [] => .advance true none
  | .brk, .steps _ _ _ _ :: k => .goto (.ret .brk k)
  | .brk, .loop _ _ _ joined :: k => .goto (.ret (.after joined) k)
  | .next, .steps _ _ [] joined :: k => .goto (.ret (.after joined) k)
  | .next, .steps arm started (s :: rest) joined :: k =>
    .goto (.next s (.steps arm (started + 1) rest joined :: k))
  | .next, .loop _ 0 _ joined :: k => .goto (.ret (.after joined) k)
  | .next, .loop turns (left + 1) body joined :: k =>
    .goto (.ret .next (.steps (.turn turns) 0 body false :: .loop (turns + 1) left body joined :: k))
  | .nextWithSubworkflowResult _, .steps _ _ _ true :: _ => .goto (.over (some multipleNested))
  | .nextWithSubworkflowResult v, .steps arm started rest false :: k =>
    .join v (.steps arm started rest true :: k)
  | .nextWithSubworkflowResult _, .loop .. :: _ => .panic
  | .nextAfterNestedSubworkflow, .steps _ _ _ true :: _ => .goto (.over (some multipleNested))
  | .nextAfterNestedSubworkflow, .steps arm started rest false :: k =>
    .goto (.ret .next (.steps arm started rest true :: k))
  | .nextAfterNestedSubworkflow, .loop _ _ _ true :: _ => .goto (.over (some repeatedNested))
  | .nextAfterNestedSubworkflow, .loop turns left body false :: k =>
    .goto (.ret .next (.loop turns left body true :: k))

/-- One action of the task: the update it makes, where it goes on from what the
update reported, the tuple it puts into the space and the child id it draws. -/
structure Move where
  change : Option Change
  next : Written → Option Task
  out : Option Decision := none
  mint : Option String := none

def Move.goto (t : Task) (c : Control) : Move where
  change := none
  next := fun _ => some (t.at c)

/-- `update`: the report is ignored. -/
def Move.update (t : Task) (c : Change) (k : Control) : Move where
  change := some c
  next := fun _ => some (t.at k)

def Move.returned (t : Task) (flow : Flow) (k : List Frame) : Move :=
  match pass flow k with
  | .goto c => .goto t c
  | .join v k =>
    { change := some (.joined v)
      next := fun o =>
        match o with
        | .failed => some (t.at (.over (some "could not persist workflow state")))
        | _ => some (t.at (.ret .next k)) }
  | .advance clear result =>
    { change := some (.advanced t.index clear result)
      next := fun o =>
        match o with
        | .persisted => some { index := t.index + 1, control := .top }
        | _ => some (t.at (.over (some "could not durably advance workflow"))) }
  | .panic => { change := none, next := fun _ => none }

/-- `run_sub_workflow` up to the child's snapshot: a child that is linked already is
taken again, else a new id is linked first. -/
def Move.link (d : Run) (t : Task) (ctx : WorkflowContext) (k : List Frame) (child : String) :
    Option Move :=
  match ctx.activeSubworkflow with
  | some existing => some (.goto t (.linked existing k))
  | none =>
    if child ∈ d.minted then none
    else some
      { change := some (.linked child)
        next := fun o =>
          match o with
          | .persisted => some (t.at (.linked child k))
          | _ => some (t.at (.over (some "could not durably link sub_workflow")))
        mint := some child }

def Setup.move (w : Setup) (d : Run) (t : Task) (e : Exec) : Option Move :=
  match e, t.control with
  | .pick, .top =>
    match w.steps[t.index]? with
    | none => some (.goto t (.over none))
    | some s => some (.goto t (.next s []))
  | .begin, .next s k => some (.goto t (w.runStep d.context k s))
  | .answer a, .busy s ctx k =>
    match settle ctx s a with
    | none => none
    | some (.error msg) => some (.goto t (.over (some msg)))
    | some (.ok none) => some (.goto t (.ret .next k))
    | some (.ok (some c)) => some (.update t c (.ret .next k))
  | .awaitFleet on, .busy .spawn ctx k =>
    some (.update t (.awaiting (if on then some "fleet_wip" else none)) (.busy .spawn ctx k))
  | .awaitFleet on, .busy .forEach ctx k =>
    some (.update t (.awaiting (if on then some "fleet_wip" else none)) (.busy .forEach ctx k))
  | .park, .busy .approval _ k => some (.update t (.awaiting (some "approval")) (.parked k))
  | .look, .parked k =>
    match d.decisions.head? with
    | some decision => some (.goto t (.got (some decision) k))
    | none => some (.goto t (.waiting k))
  | .lookFailed msg, .parked _ =>
    some (.update t (.awaiting none) (.over (some ("approval gate failed: " ++ msg))))
  | .wake, .waiting k =>
    match d.decisions.head? with
    | some decision => some (.goto t (.got (some decision) k))
    | none => none
  | .expire, .waiting k => some (.goto t (.got none k))
  | .resolve, .got answer k => some (.update t (.awaiting none) (.acting answer k))
  | .refuse text stored, .acting none k =>
    let decision := { id := d.stamp, approved := false, text := text }
    some { Move.goto t (.acting (some decision) k) with
      out := if stored then some decision else none }
  | .grant, .acting (some decision) k =>
    some (.update t (.decided (.other decision.text) decision.approved) (.ret .next k))
  | .link child, .busy .subWorkflow ctx k => Move.link d t ctx k child
  | .childAnswer .runs, .linked child k => some (.goto t (.child child k))
  | .childAnswer (.returned v), .linked _ k =>
    some (.goto t (.ret (.nextWithSubworkflowResult v) k))
  | .childAnswer (.failed msg), .linked _ _ => some (.goto t (.over (some msg)))
  | .childAnswer (.returned v), .child _ k =>
    some (.goto t (.ret (.nextWithSubworkflowResult v) k))
  | .childAnswer (.failed msg), .child _ _ => some (.goto t (.over (some msg)))
  | .go, .ret flow k => some (.returned t flow k)
  | _, _ => none

def Run.write (change : Option Change) (ok : Bool) (d : Run) : Written × Run :=
  match change with
  | none => (.unchanged, d)
  | some c => d.tryUpdate c.apply ok

def Exec.stamps : Exec → Nat
  | .refuse _ _ => 1
  | _ => 0

def Run.apply (e : Exec) (m : Move) (ok : Bool) (d : Run) : Run :=
  let r := d.write m.change ok
  { r.2 with
    task := m.next r.1
    decisions := d.decisions ++ m.out.toList
    stamp := d.stamp + e.stamps
    minted := d.minted ++ m.mint.toList }

def Setup.exec (w : Setup) (e : Exec) (ok : Bool) (d : Run) : Option Run :=
  match d.task with
  | none => none
  | some t => (w.move d t e).map fun m => d.apply e m ok

/-- How far an archive pass gets with this instance: its archive copy is written but
the pass fails or the daemon stops before its live file goes; the live files are
written back after a removal failed; the write-back fails too; or it is moved. -/
inductive Shelving
  | copied | restored | stranded | moved

/-- The same for an unarchive: both files stay, the archive file is gone but the
call fails, or the instance is moved back. -/
inductive Unshelving
  | both | retained | moved

inductive Label
  | launch (depth : Nat) (ok : Bool)
  | enter
  | disown (ok : Bool)
  | resume (loads ok : Bool)
  | start
  | exec (e : Exec) (ok : Bool)
  | finish (ok : Bool)
  | panic
  | sweep (ok : Bool)
  | archive (o : Shelving)
  | unarchive (o : Unshelving)
  | approve (approved : Bool) (text : String)
  | restart

def newInstance (depth : Nat) : Instance where
  status := .running
  revision := 0
  currentStep := 0
  context := {}
  error := none
  awaiting := none
  depth := depth

/-- `store_if_absent` of a new instance. -/
def Run.launch (depth : Nat) (ok : Bool) (d : Run) : Option Run :=
  if d.live.isSome || d.archived.isSome then none
  else if ok then
    some { d with
      live := some (newInstance depth), diskLive := some (newInstance depth)
      pending := some .ready }
  else some d

def Run.enter (d : Run) : Option Run :=
  match d.live with
  | some i =>
    if i.status = .running ∧ i.depth ≠ 0 ∧ d.begun = false ∧ d.pending = none then
      some { d with pending := some .ready }
    else none
  | none => none

/-- A child no task executes is failed: its parent is terminal, or its link does not
match the definition. -/
def Run.disown (ok : Bool) (d : Run) : Option Run :=
  match d.live with
  | some i =>
    if i.status = .running ∧ i.depth ≠ 0 ∧ d.begun = false ∧ d.pending = none then
      some (d.terminate .failed
        (some "sub_workflow parent became terminal before rejoining this child") ok)
    else none
  | none => none

/-- `resume` of a rehydrated instance.  The failure of a definition that no longer
loads is written without a guard on the status. -/
def Run.resume (loads ok : Bool) (d : Run) : Option Run :=
  match d.pending with
  | some .rehydrated =>
    if loads then
      some { (d.tryUpdate (Change.awaiting none).apply ok).2 with pending := some .ready }
    else
      some { (d.tryUpdate (fun i =>
            { i with
              status := .failed
              error := some "resume failed: could not reload definition"
              awaiting := none }) ok).2 with
          pending := none }
  | _ => none

/-- `execute` reads its start cursor; an instance that is not there starts at 0. -/
def Run.start (d : Run) : Option Run :=
  match d.pending with
  | some .ready =>
    some { d with
      pending := none, begun := true
      task := some { index := (d.live.map Instance.currentStep).getD 0, control := .top } }
  | _ => none

def Run.finish (ok : Bool) (d : Run) : Option Run :=
  match d.task with
  | some { index := _, control := .over err } =>
    let d := { d with task := none }
    match err with
    | none => some (d.terminate .completed none ok)
    | some msg => some (d.terminate .failed (some msg) ok)
  | _ => none

def Run.panic (d : Run) : Option Run :=
  match d.task with
  | some _ => some { d with task := none }
  | none => none

def Run.sweep (ok : Bool) (d : Run) : Run :=
  d.terminate .failed (some "stale-instance timeout") ok

def Run.archive (o : Shelving) (d : Run) : Option Run :=
  match d.live with
  | some i =>
    if i.status.isTerminal then
      match o with
      | .copied => some { d with diskArchived := some i }
      | .restored => some { d with diskArchived := some i, diskLive := some i }
      | .stranded => some { d with diskArchived := some i, diskLive := none }
      | .moved =>
        some { d with diskArchived := some i, diskLive := none, live := none, archived := some i }
    else none
  | none => none

def Run.unarchive (o : Unshelving) (d : Run) : Option Run :=
  match d.live, d.archived with
  | none, some i =>
    match o with
    | .both => some { d with diskLive := some i }
    | .retained => some { d with diskLive := some i, diskArchived := none }
    | .moved =>
      some { d with diskLive := some i, diskArchived := none, live := some i, archived := none }
  | _, _ => none

def Run.approve (approved : Bool) (text : String) (d : Run) : Option Run :=
  match d.live with
  | some _ =>
    some { d with
      decisions := d.decisions ++ [{ id := d.stamp, approved := approved, text := text }]
      stamp := d.stamp + 1 }
  | none => none

/-- The daemon stops and comes up again: `rehydrate` reads both directories, the
live copy wins, and a running top-level instance is due to be resumed. -/
def Run.restart (d : Run) : Run :=
  { d with
    live := d.diskLive
    archived := if d.diskLive.isSome then none else d.diskArchived
    pending :=
      if d.diskLive.any fun i => i.status = .running ∧ i.depth = 0 then some .rehydrated else none
    task := none
    begun := false }

def Setup.step (w : Setup) (d : Run) : Label → Option Run
  | .launch depth ok => d.launch depth ok
  | .enter => d.enter
  | .disown ok => d.disown ok
  | .resume loads ok => d.resume loads ok
  | .start => d.start
  | .exec e ok => w.exec e ok d
  | .finish ok => d.finish ok
  | .panic => d.panic
  | .sweep ok => some (d.sweep ok)
  | .archive o => d.archive o
  | .unarchive o => d.unarchive o
  | .approve approved text => d.approve approved text
  | .restart => some d.restart

end RatKingdom.Workflow
