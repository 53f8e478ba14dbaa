/-
The events of a harness session.

`handle_event` looks an agent up by its name, and a name outlives the sessions that bear it.
Whatever is filed under one name is a `NameSlot`; each arm asks whether its session still owns the
name before it touches it, and its changes are made under the guard of that question.
-/
import RatKingdom.Supervisor.Completion
import RatKingdom.Supervisor.Steer

namespace RatKingdom.Supervisor

open Core Lib Agents Agents.Registry Steer

structure TokenUsage where
  input : Nat := 0
  output : Nat := 0
  cacheRead : Nat := 0
  cacheCreation : Nat := 0
  cacheCreation5m : Nat := 0
  cacheCreation1h : Nat := 0
  deriving DecidableEq

namespace TokenUsage

def add (a b : TokenUsage) : TokenUsage :=
  { input := a.input + b.input
    output := a.output + b.output
    cacheRead := a.cacheRead + b.cacheRead
    cacheCreation := a.cacheCreation + b.cacheCreation
    cacheCreation5m := a.cacheCreation5m + b.cacheCreation5m
    cacheCreation1h := a.cacheCreation1h + b.cacheCreation1h }

/-- The two finer counts are a part of `cacheCreation`. -/
def total (u : TokenUsage) : Nat := u.input + u.output + u.cacheRead + u.cacheCreation

end TokenUsage

inductive TransportClass where
  | certificate | authentication | unavailable | generic

structure TransportOutcome where
  provider : String
  transportClass : TransportClass
  retryable : Bool
  evidence : String

structure TransportOutageState where
  provider : String
  transportClass : TransportClass
  retryable : Bool
  attempts : Nat
  lastFailureAt : DateTime
  evidence : String
  ceilingHit : Bool := false
  circuitRefused : Bool := false

def TransportOutcome.counted (outcome : TransportOutcome) (outage : Option TransportOutageState)
    (now : DateTime) : TransportOutageState :=
  { provider := outcome.provider
    transportClass := outcome.transportClass
    retryable := outcome.retryable
    attempts := (outage.map fun outage => outage.attempts + 1).getD 1
    lastFailureAt := now
    evidence := outcome.evidence }

structure LivenessObservation where
  session : Option SpawnId := none
  outputFingerprint : Nat := 0
  outputChangedAt : Option DateTime := none
  reconnectEvents : Nat := 0
  ceilingStartedAt : Option DateTime := none

inductive RecoveryOutcome where
  | resumedSameProvider (newSpawn : SpawnId)
  | continuedAlternateProvider (harness : String) (newSpawn : SpawnId)
  | abandoned
  deriving DecidableEq

structure RecoveryAck where
  actionId : String
  outcome : RecoveryOutcome
  acknowledgedAt : DateTime

structure RecoveryRecord where
  branch : String
  head : String
  spawn : SpawnId
  ack : Option RecoveryAck := none

structure RecoveryReceipt where
  spawn : SpawnId
  ack : RecoveryAck

/-- The record of an agent, with what its runs report. -/
structure Agent (Usd : Type) extends AgentRecord where
  harness : String
  model : Option String := none
  sessionId : Option String := none
  usage : TokenUsage := {}
  costUsd : Usd
  liveness : LivenessObservation := {}
  stderrTail : Option String := none
  transportOutage : Option TransportOutageState := none
  recovery : Option RecoveryRecord := none
  recoveryReceipt : Option RecoveryReceipt := none

def usesHarnessTerminalCompletion (role harness : String) : Bool :=
  harness = "jcode" && (role = "onboarder" || role = "diagnostician")

def stderrTailCapBytes : Nat := 64 * 1024

/-- The longest end of a text that takes `cap` bytes at most. -/
def lastBytes (cap : Nat) : List Char → List Char
  | [] => []
  | c :: cs =>
    if (String.ofList (c :: cs)).utf8ByteSize > cap then lastBytes cap cs else c :: cs

def nextLine (cs : List Char) : List Char :=
  if cs.contains '\n' then (cs.dropWhile (· ≠ '\n')).drop 1 else cs

def appendStderrTail (tail : Option String) (line : String) : Option String :=
  let kept := tail.getD ""
  let buf := (if kept.isEmpty then kept else kept ++ "\n") ++ line
  some <| if buf.utf8ByteSize > stderrTailCapBytes then
      String.ofList (nextLine (lastBytes stderrTailCapBytes buf.toList))
    else buf

def maxSnippet : Nat := 200

def withoutReturn (line : String) : String :=
  if line.toList.getLast? = some '\r' then String.ofList line.toList.dropLast else line

def textLines (text : String) : List String :=
  let pieces := text.splitOn "\n"
  pieces.dropLast.map withoutReturn ++ (pieces.getLast?.toList.filter fun line => !line.isEmpty)

/-- The last line that is not blank, cut short. -/
def stderrSnippet (tail : Option String) : Option String :=
  tail.bind fun tail =>
    ((textLines tail).reverse.find? fun line => line.toList.any fun c => !isWhitespace c).map
      fun line =>
        if line.length > maxSnippet then String.ofList (line.toList.take maxSnippet) ++ "…"
        else line

def codeText : Option Int → String
  | none => "None"
  | some code => "Some(" ++ toString code ++ ")"

def exitText (code : Option Int) (tail : Option String) : String :=
  let base := "process exited (code " ++ codeText code ++ ") without completing"
  match stderrSnippet tail with
  | some snippet => base ++ " — stderr: " ++ snippet
  | none => base

inductive BudgetAction where
  | ok | warn | stop

/-- What comes from outside: money is in floating point, and texts are hashed. -/
structure Office (Usd : Type) where
  zero : Usd
  add : Usd → Usd → Usd
  exceeds : Usd → Usd → Bool
  price : String → TokenUsage → Option Usd
  /-- `Budget::check` of the role's budget. -/
  check : String → Usd → Nat → BudgetAction
  budgetStopDetail : Agent Usd → String
  outputFingerprint : String → String → Nat

structure ManagedRun where
  generation : Option SpawnId
  requestKey : String
  cancelled : Option String := none

/-- A launch as its event pump knows it. -/
structure Launch where
  session : SpawnId
  generation : DateTime
  spawn : SpawnId

/-- What is frozen of the record when a launch begins. -/
structure AttemptWatch (Usd : Type) where
  session : SpawnId
  baselineCostUsd : Usd
  baselineUsage : TokenUsage

/-- What is left of the grace timer of a launch that is done. -/
inductive TimerStage where
  | armed | matched | announcing | ended
  deriving DecidableEq

structure DoneKill where
  launch : Launch
  stage : TimerStage

/-- What the supervisor files under one name. -/
structure NameSlot (Usd : Type) where
  record : Option (Agent Usd)
  token : Option SpawnId := none
  control : Option SpawnId := none
  completion : Option CompletionState := none
  runs : List ManagedRun := []
  watches : List (AttemptWatch Usd) := []
  budgetWarned : Bool := false
  budgetStopFloor : Option (Usd × TokenUsage) := none
  acknowledged : List String := []
  done : List TaskDone := []
  results : List HarnessResult := []
  timers : List DoneKill := []

open NameSlot

inductive HarnessEvent (Usd : Type) where
  | started (sessionId : Option String)
  | assistantText (text : String)
  | toolUse (name : String)
  | stderr (text : String)
  | usage (usage : TokenUsage)
  | retry (attempt : Nat) (error : String)
  | completed (result : String) (isError : Bool) (usage : TokenUsage) (costUsd : Option Usd)
      (sessionId : Option String)
  | exited (code : Option Int)
  | controlDelivered (envelope : ControlEnvelope)
  | transportFailure (outcome : TransportOutcome)

/-- What an arm reads from outside: the clock, whether the registry's writes succeed, and what
git and the classification of standard error say of an exit. -/
structure EventIo where
  now : DateTime
  writes : Bool
  outage : Option RecoveryRecord := none

section
variable {Usd : Type}

namespace NameSlot

/-- `own`: a name without a token is owned by whoever asks. -/
def own (s : NameSlot Usd) (session : SpawnId) : Bool :=
  match s.token with
  | none => true
  | some current => current = session

/-- `Registry::update`: the change is made in memory, and handed on when it is written. -/
def update (s : NameSlot Usd) (io : EventIo) (mutate : Agent Usd → Agent Usd) :
    NameSlot Usd × Option (Agent Usd) :=
  match s.record with
  | none => (s, none)
  | some record =>
    let record := { mutate record with updatedAt := io.now }
    ({ s with record := some record }, if io.writes then some record else none)

/-- `Registry::update_quiet`: the clock of the record is left alone. -/
def updateQuiet (s : NameSlot Usd) (mutate : Agent Usd → Agent Usd) : NameSlot Usd :=
  { s with record := s.record.map mutate }

def resumeIfPaused (s : NameSlot Usd) (io : EventIo) : NameSlot Usd :=
  if (s.record.any fun record => record.state = .paused) then
    (s.update io fun record => { record with state := .running }).1
  else s

def continuedAck (recovery : Option RecoveryRecord) : Option (SpawnId × RecoveryAck) :=
  recovery.bind fun rec => rec.ack.bind fun ack =>
    if ack.outcome = .abandoned then none else some (rec.spawn, ack)

def started (s : NameSlot Usd) (session : SpawnId) (sessionId : Option String) (io : EventIo) :
    NameSlot Usd :=
  if s.own session then
    (s.update io fun record =>
      let record := { record with sessionId, transportOutage := none }
      match continuedAck record.recovery with
      | some (spawn, ack) =>
        { record with recovery := none, recoveryReceipt := some ⟨spawn, ack⟩ }
      | none => record).1
  else s

/-- `enforce_budget`, without the notices and the warning it sends to the agent. -/
def enforceBudget (office : Office Usd) (s : NameSlot Usd) (record : Agent Usd) (io : EventIo) :
    NameSlot Usd :=
  match office.check record.role record.costUsd record.usage.total with
  | .ok => s
  | .warn => { s with budgetWarned := true }
  | .stop =>
    if record.state = .stopped then s
    else if (findTaskDone s.done record.spawn record.currentAttempt).isSome then s
    else
      let newlyStopped := s.record.any fun record => record.state.isLive
      let detail := office.budgetStopDetail record
      match s.update io (fun record =>
          if record.state.isLive then
            { record with state := .stopped, crashed := false, result := some detail }
          else record) with
      | (s, some _) =>
        if newlyStopped then
          { s with budgetStopFloor := some (record.costUsd, record.usage), control := none }
        else s
      | (s, none) => s

def usage (office : Office Usd) (s : NameSlot Usd) (session : SpawnId) (usage : TokenUsage)
    (io : EventIo) : NameSlot Usd :=
  if s.own session then
    match s.update io (fun record =>
        let cost := (record.model.bind fun model => office.price model usage).elim record.costUsd
          (office.add record.costUsd)
        { record with
          usage := record.usage.add usage
          costUsd := cost
          liveness := if usage.total > 0 then { record.liveness with reconnectEvents := 0 }
            else record.liveness }) with
    | (s, some record) => s.enforceBudget office record io
    | (s, none) => s
  else s

/-- `apply_budget_stop_floor`: the spend is never reported lower than it was at the stop. -/
def floored (office : Office Usd) (floor : Option (Usd × TokenUsage)) (record : Agent Usd) :
    Agent Usd :=
  match floor with
  | none => record
  | some (cost, usage) =>
    { record with
      costUsd := if office.exceeds cost record.costUsd then cost else record.costUsd
      usage := if usage.total > record.usage.total then usage else record.usage }

def settledSpend (office : Office Usd) (s : NameSlot Usd) (session : SpawnId) (usage : TokenUsage)
    (costUsd : Option Usd) (sessionId : Option String) (record : Agent Usd) : Agent Usd :=
  let watch := s.watches.find? fun w => w.session = session
  let baselineCost := watch.elim office.zero AttemptWatch.baselineCostUsd
  let baselineUsage := watch.elim {} AttemptWatch.baselineUsage
  let record := { record with
    usage := if usage.total > 0 then baselineUsage.add usage else record.usage
    costUsd := costUsd.elim record.costUsd (office.add baselineCost) }
  let record := floored office s.budgetStopFloor record
  { record with sessionId := sessionId.or record.sessionId }

def completed (office : Office Usd) (s : NameSlot Usd) (launch : Launch) (result : String)
    (isError : Bool) (usage : TokenUsage) (costUsd : Option Usd) (sessionId : Option String)
    (io : EventIo) : NameSlot Usd :=
  if s.own launch.session then
    match s.record with
    | none => s
    | some pre =>
      let settled := s.settledSpend office launch.session usage costUsd sessionId
      if pre.state = .stopped || pre.state = .completed then
        let floorless : NameSlot Usd := { s with budgetStopFloor := none }
        (floorless.update io fun record => settled
          (if pre.state = .completed then { record with result := some result } else record)).1
      else
        let declaredDone := usesHarnessTerminalCompletion pre.role pre.harness ||
          (findTaskDone s.done pre.spawn pre.currentAttempt).isSome
        let (state, publish) :=
          claimCompletion s.completion launch.generation isError declaredDone
        let claimed : NameSlot Usd := { s with completion := some state, budgetStopFloor := none }
        match claimed.update io (fun record => settled { record with
              state := if isError then .failed else if publish then .completed else .paused
              result := some result }) with
        | (s, none) => s
        | (s, some record) =>
          if publish then
            { s with
              results := s.results ++ [resultOf record.toAgentRecord isError declaredDone]
              timers := if !isError && declaredDone then s.timers ++ [⟨launch, .armed⟩]
                else s.timers }
          else s
  else s

def cancelAgent (s : NameSlot Usd) (generation : Option SpawnId) (reason : String) : NameSlot Usd :=
  { s with runs := s.runs.map fun run =>
      if generation.isNone || run.generation = generation then
        { run with cancelled := some reason }
      else run }

def exitedAgent (office : Office Usd) (floor : Option (Usd × TokenUsage)) (code : Option Int)
    (record : Agent Usd) : Agent Usd :=
  floored office floor (if record.state.isLive then
      if record.state = .paused then { record with pid := none, state := .failed }
      else { record with
        pid := none, state := .failed, crashed := true
        result := some (exitText code record.stderrTail) }
    else { record with pid := none })

def detectPostCommitOutage (s : NameSlot Usd) (record : Agent Usd) (io : EventIo) : NameSlot Usd :=
  if record.transportOutage.isSome || record.recovery.isSome then s
  else
    match io.outage with
    | none => s
    | some recovery =>
      (s.update io fun current =>
        { current with recovery := some { recovery with spawn := record.spawn, ack := none } }).1

def retire (s : NameSlot Usd) (session : SpawnId) : NameSlot Usd :=
  { s with watches := s.watches.filter fun w => w.session ≠ session }

def exited (office : Office Usd) (s : NameSlot Usd) (launch : Launch) (code : Option Int)
    (io : EventIo) : NameSlot Usd :=
  if s.own launch.session then
    let gone : NameSlot Usd := s.cancelAgent (some launch.spawn) "agent_terminal_death"
    let gone : NameSlot Usd := { gone with control := none }
    if s.record.isNone then gone.retire launch.session
    else
      let floorless : NameSlot Usd := { gone with budgetStopFloor := none }
      match floorless.update io (exitedAgent office s.budgetStopFloor code) with
      | (s, none) => s
      | (s, some record) =>
        let s := (s.detectPostCommitOutage record io).retire launch.session
        match flushWithheldCompletion s.completion launch.generation with
        | (completion, true) =>
          { s with
            completion, results := s.results ++ [resultOf record.toAgentRecord true false] }
        | (completion, false) => { s with completion }
  else s.retire launch.session

def minProgressInterval : Int := 5 * DateTime.nanosPerSecond

def freshLiveness (session : SpawnId) (liveness : LivenessObservation) : LivenessObservation :=
  if liveness.session = some session then liveness else { session := some session }

def recordOutputProgress (office : Office Usd) (s : NameSlot Usd) (session : SpawnId)
    (kind text : String) (resetsReconnect : Bool) (io : EventIo) : NameSlot Usd :=
  if s.own session then
    s.updateQuiet fun record =>
      let liveness := freshLiveness session record.liveness
      let fingerprint := office.outputFingerprint kind text
      let fresh := liveness.outputChangedAt.any fun at' => io.now - at' < minProgressInterval
      let liveness :=
        if !fresh && liveness.outputFingerprint ≠ fingerprint then
          { liveness with outputFingerprint := fingerprint, outputChangedAt := some io.now }
        else liveness
      { record with liveness :=
          if resetsReconnect then { liveness with reconnectEvents := 0 } else liveness }
  else s

def maxU32 : Nat := 2 ^ 32 - 1

def recordReconnectEvent (s : NameSlot Usd) (session : SpawnId) : NameSlot Usd :=
  if s.own session then
    s.updateQuiet fun record =>
      let liveness := freshLiveness session record.liveness
      { record with liveness :=
          { liveness with reconnectEvents := min (liveness.reconnectEvents + 1) maxU32 } }
  else s

def stderr (office : Office Usd) (s : NameSlot Usd) (session : SpawnId) (text : String)
    (io : EventIo) : NameSlot Usd :=
  if s.own session then
    (s.update io fun record =>
      let liveness := freshLiveness session record.liveness
      let fingerprint := office.outputFingerprint "stderr" text
      { record with
        stderrTail := appendStderrTail record.stderrTail text
        liveness :=
          if liveness.outputFingerprint ≠ fingerprint then
            { liveness with outputFingerprint := fingerprint, outputChangedAt := some io.now }
          else liveness }).1
  else s

def controlDelivered (s : NameSlot Usd) (session : SpawnId) (envelope : ControlEnvelope) :
    NameSlot Usd :=
  if envelope.durable && s.own session && s.record.isSome then
    { s with acknowledged := s.acknowledged ++ [envelope.messageId] }
  else s

def recordTransportOutage (s : NameSlot Usd) (session : SpawnId) (outcome : TransportOutcome)
    (io : EventIo) : NameSlot Usd :=
  if s.own session then
    (s.update io fun record =>
      { record with transportOutage := some (outcome.counted record.transportOutage io.now) }).1
  else s

end NameSlot

def HarnessEvent.resumes : HarnessEvent Usd → Bool
  | .completed .. => false
  | .exited _ => false
  | _ => true

namespace NameSlot

/-- `handle_event`, up to where the first guard is dropped. -/
def resumeOn (s : NameSlot Usd) (launch : Launch) (event : HarnessEvent Usd) (io : EventIo) :
    NameSlot Usd :=
  if event.resumes && s.own launch.session then s.resumeIfPaused io else s

def handleEvent (office : Office Usd) (s : NameSlot Usd) (launch : Launch) (io : EventIo) :
    HarnessEvent Usd → NameSlot Usd
  | .started sessionId => s.started launch.session sessionId io
  | .assistantText text => s.recordOutputProgress office launch.session "text" text true io
  | .toolUse name => s.recordOutputProgress office launch.session "tool" name true io
  | .stderr text => s.stderr office launch.session text io
  | .usage usage => s.usage office launch.session usage io
  | .retry _ _ => s.recordReconnectEvent launch.session
  | .completed result isError usage costUsd sessionId =>
    s.completed office launch result isError usage costUsd sessionId io
  | .exited code => s.exited office launch code io
  | .controlDelivered envelope => s.controlDelivered launch.session envelope
  | .transportFailure outcome => s.recordTransportOutage launch.session outcome io

end NameSlot

/-- Nothing of the launch that holds the name has changed. -/
structure Spares (s s' : NameSlot Usd) : Prop where
  record : s'.record = s.record
  control : s'.control = s.control
  completion : s'.completion = s.completion
  runs : s'.runs = s.runs

theorem Spares.refl (s : NameSlot Usd) : Spares s s := ⟨rfl, rfl, rfl, rfl⟩

section
variable {s : NameSlot Usd} {launch : Launch} {io : EventIo}

theorem resumeOn_spares {event : HarnessEvent Usd} (h : s.own launch.session = false) :
    Spares s (s.resumeOn launch event io) := by
  unfold resumeOn
  rw [h, Bool.and_false, if_neg Bool.false_ne_true]
  exact .refl s

theorem handleEvent_spares {office : Office Usd} (h : s.own launch.session = false)
    (event : HarnessEvent Usd) : Spares s (s.handleEvent office launch io event) := by
  have hno : ¬ s.own launch.session = true := by
    rw [h]
    exact Bool.false_ne_true
  cases event with
  | started sessionId =>
    simp only [NameSlot.handleEvent, NameSlot.started, if_neg hno]
    exact .refl s
  | assistantText text | toolUse name =>
    simp only [NameSlot.handleEvent, NameSlot.recordOutputProgress, if_neg hno]
    exact .refl s
  | stderr text =>
    simp only [NameSlot.handleEvent, NameSlot.stderr, if_neg hno]
    exact .refl s
  | usage usage =>
    simp only [NameSlot.handleEvent, NameSlot.usage, if_neg hno]
    exact .refl s
  | retry attempt error =>
    simp only [NameSlot.handleEvent, NameSlot.recordReconnectEvent, if_neg hno]
    exact .refl s
  | completed result isError usage costUsd sessionId =>
    simp only [NameSlot.handleEvent, NameSlot.completed, if_neg hno]
    exact .refl s
  | exited code =>
    -- Only its own watch is retired.
    simp only [NameSlot.handleEvent, NameSlot.exited, if_neg hno]
    exact ⟨rfl, rfl, rfl, rfl⟩
  | controlDelivered envelope =>
    simp only [NameSlot.handleEvent, NameSlot.controlDelivered, h, Bool.and_false, Bool.false_and]
    exact .refl s
  | transportFailure outcome =>
    simp only [NameSlot.handleEvent, NameSlot.recordTransportOutage, if_neg hno]
    exact .refl s

end

/-- The name is not handed over, no control handle is installed, and a timer starts armed. -/
structure Tends (s s' : NameSlot Usd) : Prop where
  token : s'.token = s.token
  control : s'.control = s.control ∨ s'.control = none
  timers : ∀ t ∈ s'.timers, t ∈ s.timers ∨ t.stage = .armed

theorem tends_of_eq {s s' : NameSlot Usd} (htoken : s'.token = s.token)
    (hcontrol : s'.control = s.control ∨ s'.control = none) (htimers : s'.timers = s.timers) :
    Tends s s' := by
  refine ⟨htoken, hcontrol, ?_⟩
  intro t ht
  rw [htimers] at ht
  exact .inl ht

theorem Tends.refl (s : NameSlot Usd) : Tends s s := tends_of_eq rfl (.inl rfl) rfl

theorem Tends.trans {a b c : NameSlot Usd} (h : Tends a b) (h' : Tends b c) : Tends a c := by
  refine ⟨h'.token.trans h.token, ?_, ?_⟩
  · cases h'.control with
    | inl hsame =>
      rw [hsame]
      exact h.control
    | inr hn => exact .inr hn
  · intro t ht
    cases h'.timers t ht with
    | inl hold => exact h.timers t hold
    | inr harmed => exact .inr harmed

section
variable {s : NameSlot Usd} {launch : Launch} {io : EventIo}

theorem update_tends (mutate : Agent Usd → Agent Usd) : Tends s (s.update io mutate).1 := by
  unfold NameSlot.update
  split
  · exact .refl s
  · exact tends_of_eq rfl (.inl rfl) rfl

theorem update_tends_of {s' : NameSlot Usd} {mutate : Agent Usd → Agent Usd}
    {updated : Option (Agent Usd)} (h : s.update io mutate = (s', updated)) : Tends s s' := by
  have htends : Tends s (s.update io mutate).1 := update_tends mutate
  rw [h] at htends
  exact htends

theorem updateQuiet_tends (mutate : Agent Usd → Agent Usd) : Tends s (s.updateQuiet mutate) :=
  tends_of_eq rfl (.inl rfl) rfl

theorem resumeOn_tends {event : HarnessEvent Usd} : Tends s (s.resumeOn launch event io) := by
  unfold resumeOn resumeIfPaused
  split
  · split
    · exact update_tends _
    · exact .refl s
  · exact .refl s

variable {office : Office Usd}

theorem enforceBudget_tends (record : Agent Usd) : Tends s (s.enforceBudget office record io) := by
  unfold enforceBudget
  split
  · exact .refl s
  · exact tends_of_eq rfl (.inl rfl) rfl
  · split
    · exact .refl s
    · split
      · exact .refl s
      · dsimp only
        split
        · rename_i s' updated hupdate
          have hwritten := update_tends_of hupdate
          split
          · exact hwritten.trans (tends_of_eq rfl (.inr rfl) rfl)
          · exact hwritten
        · rename_i s' hupdate
          exact update_tends_of hupdate

theorem usage_tends (session : SpawnId) (usage : TokenUsage) :
    Tends s (s.usage office session usage io) := by
  unfold NameSlot.usage
  split
  · split
    · rename_i s' record hupdate
      exact (update_tends_of hupdate).trans (enforceBudget_tends record)
    · rename_i s' hupdate
      exact update_tends_of hupdate
  · exact .refl s

theorem completed_tends (result : String) (isError : Bool) (usage : TokenUsage)
    (costUsd : Option Usd) (sessionId : Option String) :
    Tends s (s.completed office launch result isError usage costUsd sessionId io) := by
  unfold completed
  split
  · split
    · exact .refl s
    · dsimp only
      split
      · have hfloorless : Tends s { s with budgetStopFloor := none } :=
          tends_of_eq rfl (.inl rfl) rfl
        exact hfloorless.trans (update_tends _)
      · split
        · rename_i s' hupdate
          have hclaimed := update_tends_of hupdate
          exact ⟨hclaimed.token, hclaimed.control, hclaimed.timers⟩
        · rename_i s' record hupdate
          have hclaimed := update_tends_of hupdate
          have hs' : Tends s s' := ⟨hclaimed.token, hclaimed.control, hclaimed.timers⟩
          apply hs'.trans
          split
          · refine ⟨rfl, .inl rfl, ?_⟩
            intro t ht
            split at ht
            · cases List.mem_append.mp ht with
              | inl hold => exact .inl hold
              | inr hnew =>
                rw [List.mem_singleton.mp hnew]
                exact .inr rfl
            · exact .inl ht
          · exact .refl s'
  · exact .refl s

theorem detectPostCommitOutage_tends (record : Agent Usd) :
    Tends s (s.detectPostCommitOutage record io) := by
  unfold detectPostCommitOutage
  split
  · exact .refl s
  · split
    · exact .refl s
    · exact update_tends _

theorem exited_tends (code : Option Int) : Tends s (s.exited office launch code io) := by
  unfold exited
  split
  · dsimp only
    split
    · exact tends_of_eq rfl (.inr rfl) rfl
    · split
      · rename_i s' hupdate
        have hgone : Tends s { s.cancelAgent (some launch.spawn) "agent_terminal_death" with
            control := none, budgetStopFloor := none } := tends_of_eq rfl (.inr rfl) rfl
        exact hgone.trans (update_tends_of hupdate)
      · rename_i s' record hupdate
        have hgone : Tends s { s.cancelAgent (some launch.spawn) "agent_terminal_death" with
            control := none, budgetStopFloor := none } := tends_of_eq rfl (.inr rfl) rfl
        apply (hgone.trans (update_tends_of hupdate)).trans
        apply (detectPostCommitOutage_tends record).trans
        split
        all_goals exact tends_of_eq rfl (.inl rfl) rfl
  · exact tends_of_eq rfl (.inl rfl) rfl

theorem handleEvent_tends (event : HarnessEvent Usd) :
    Tends s (s.handleEvent office launch io event) := by
  cases event with
  | started sessionId =>
    simp only [handleEvent, NameSlot.started]
    split
    · exact update_tends _
    · exact .refl s
  | assistantText text | toolUse name =>
    simp only [handleEvent, recordOutputProgress]
    split
    · exact updateQuiet_tends _
    · exact .refl s
  | stderr text =>
    simp only [handleEvent, stderr]
    split
    · exact update_tends _
    · exact .refl s
  | usage usage => exact usage_tends launch.session usage
  | retry attempt error =>
    simp only [handleEvent, recordReconnectEvent]
    split
    · exact updateQuiet_tends _
    · exact .refl s
  | completed result isError usage costUsd sessionId =>
    exact completed_tends result isError usage costUsd sessionId
  | exited code => exact exited_tends code
  | controlDelivered envelope =>
    simp only [handleEvent, controlDelivered]
    split
    · exact tends_of_eq rfl (.inl rfl) rfl
    · exact .refl s
  | transportFailure outcome =>
    simp only [handleEvent, recordTransportOutage]
    split
    · exact update_tends _
    · exact .refl s

end

end

end RatKingdom.Supervisor
