/-
The landing pipeline over the queue: admission, the gate run with its one bounded
retry, and `process_entry` from claim to terminal outcome.

What the pipeline learns outside the tuple space (git, the agent registry, check runs,
reviewers) is an argument, so every answer the outside can give is a value of it.
Events that no function here reads back are left out.
-/
import RatKingdom.Landing.Queue

namespace RatKingdom.Landing

open Lib Core

structure Reading where
  now : DateTime
  clock : Option BootClock

namespace AdmissionWindow

def new (budget : Nat) (at_ : Reading) : AdmissionWindow :=
  { clock := at_.clock
    deadlineNanos :=
      match at_.clock with
      | none => 0
      | some c => min (c.nanos + min budget (u64 - 1)) (u64 - 1)
    startedAt := at_.now
    observedAt := at_.now
    deadline := at_.now + budget }

def charge (w : AdmissionWindow) (elapsed : Nat) (now : DateTime) : AdmissionWindow :=
  let before := (w.deadline - w.observedAt).toNat
  { w with
    deadline := min w.deadline (now + (before - elapsed : Nat))
    observedAt := max w.observedAt now }

/-- `remaining_at`: what is left, and the window with the observation recorded. -/
def remainingAt (w : AdmissionWindow) (at_ : Reading) : Nat × AdmissionWindow :=
  match w.clock, at_.clock with
  | some anchor, some current =>
    if anchor.boot ≠ current.boot ∨ current.nanos < anchor.nanos then (0, w)
    else if at_.now < w.observedAt then (0, { w with deadline := min w.deadline w.observedAt })
    else
      (min (w.deadlineNanos - current.nanos) (w.deadline - at_.now).toNat,
        { w with observedAt := at_.now })
  | _, _ => (0, w)

end AdmissionWindow

inductive LandingOutcome where
  | landed | empty | gateHeld | noGate | reworkFiled | escalated
  | requeued (seq : Nat)
  | quarantined
  | reconciled (prior : String)
  deriving DecidableEq

/-- The word `mark_processed` records; the other outcomes leave no marker. -/
def LandingOutcome.recorded : LandingOutcome → Option String
  | .landed => some "landed"
  | .empty => some "empty"
  | .gateHeld => some "gate-held"
  | .noGate => some "no-gate"
  | .reworkFiled => some "rework-filed"
  | .escalated => some "escalated"
  | .requeued _ | .quarantined | .reconciled _ => none

def Daemon.addProcessed (mint : Nat → RecordId) (m : RecordId → Processed) (d : Daemon) : Daemon :=
  { d with processed := d.processed ++ [m (mint d.minted)], minted := d.minted + 1 }

def Daemon.addQuarantine (q : Quarantine) (d : Daemon) : Daemon :=
  { d with quarantine := d.quarantine ++ [q], minted := d.minted + 1 }

def Daemon.addAttempt (a : GateAttempt) (d : Daemon) : Daemon :=
  { d with attempts := d.attempts ++ [a], minted := d.minted + 1 }

def Daemon.addHold (mint : Nat → RecordId) (h : RecordId → AdmissionHold) (d : Daemon) : Daemon :=
  { d with holds := d.holds ++ [h (mint d.minted)], minted := d.minted + 1 }

def Daemon.addGateRun (entry : LandingQueueEntry) (candidate : String) (resumed : List String)
    (outcome : GateRunOutcome) (d : Daemon) : Daemon :=
  { d with
    gateRuns := d.gateRuns ++
      [⟨entry.repoName, entry.seq, candidate, resumed, outcome, d.attempts⟩] }

/-- `processed_marker`: the newest marker of the same branch, head and target. -/
def Daemon.processedMarker (d : Daemon) (entry : LandingQueueEntry) : Option Processed :=
  d.processed.reverse.find? fun m =>
    m.repoName = entry.repoName ∧ m.branch = entry.branch ∧ m.headSha = entry.headSha ∧
      m.target = entry.target

def receiptMatches (entry : LandingQueueEntry) (receipt : Receipt) : Bool :=
  let granted := receipt.entry
  decide (entry.repoName = granted.repoName ∧ entry.repoPath = granted.repoPath ∧
    entry.branch = granted.branch ∧ entry.headSha = granted.headSha ∧
    entry.target = granted.target ∧ entry.task = granted.task ∧
    entry.sourceSpawn = granted.sourceSpawn ∧ entry.candidateSha = granted.candidateSha ∧
    entry.candidateBase = granted.candidateBase ∧ entry.candidateRef = granted.candidateRef) &&
  (match entry.admission, granted.admission with
    | some a, some g =>
      decide (a.startedAt = g.startedAt ∧ a.deadline ≤ g.deadline ∧ a.clock = g.clock ∧
        a.deadlineNanos = g.deadlineNanos)
    | _, _ => false) &&
  decide (entry.admissionRecovery = some receipt.id)

def Daemon.recoverySupersedes (d : Daemon) (entry : LandingQueueEntry) (marker : Processed) :
    Except String Bool :=
  match entry.admissionRecovery with
  | none => .ok false
  | some recovery =>
    match d.receipts.find? (fun r => r.id = recovery) with
    | none => .error "missing recovery receipt"
    | some receipt =>
      if receiptMatches entry receipt then
        .ok (decide (receipt.processed = marker.id ∧ marker.admissionHold = some receipt.hold ∧
          marker.outcome = "gate-held"))
      else .error "landing entry disagrees with authorized recovery"

/-- `admission_marker` when the target's tip reads as `targetHead`. -/
def Daemon.admissionMarker (d : Daemon) (entry : LandingQueueEntry) (targetHead : Option String) :
    Except String (Option Processed) :=
  match d.processedMarker entry with
  | none => .ok none
  | some marker =>
    match d.recoverySupersedes entry marker with
    | .error e => .error e
    | .ok true => .ok none
    | .ok false =>
      if marker.outcome = "landed" then .ok (some marker)
      else
        match marker.targetHead, targetHead with
        | some recorded, some current => .ok (if current = recorded then some marker else none)
        | _, _ => .ok (some marker)

def Daemon.findQuarantine (d : Daemon) (entry : LandingQueueEntry) : Option Quarantine :=
  d.quarantine.find? fun q =>
    q.entry.repoName = entry.repoName ∧ q.entry.seq = entry.seq ∧
      q.entry.sourceSpawn = entry.sourceSpawn ∧ q.entry.branch = entry.branch ∧
      q.entry.headSha = entry.headSha ∧ q.entry.target = entry.target ∧
      q.entry.task = entry.task

/-- `(candidate_sha, candidate_ref)` pairs in key order, the last reference of a sha. -/
def insertCandidate (cs : List (String × Option String)) (sha : String) (ref : Option String) :
    List (String × Option String) :=
  (cs.filter (fun c => c.1 < sha)) ++ [(sha, ref)] ++ cs.filter (fun c => sha < c.1)

def affectedCandidates (entry : LandingQueueEntry) (queued : List Row) :
    List (String × Option String) :=
  let own := match entry.candidateSha with
    | none => []
    | some sha => [(sha, entry.candidateRef)]
  queued.foldl (fun acc r =>
    if entry.branch ∈ r.entry.batchBranches then
      match r.entry.candidateSha with
      | none => acc
      | some sha => insertCandidate acc sha r.entry.candidateRef
    else acc) own

def archiveQuarantine (entry : LandingQueueEntry) (reason : String) : Op LandingOutcome := do
  let queued ← scanCurrent entry.repoName (some entry.target)
  Prog.write (Daemon.addQuarantine ⟨entry, reason, affectedCandidates entry queued⟩)
  pure .quarantined

/-- Whether an archive of the repository names `sha` as its own candidate or as one its
source may have touched. -/
def Quarantine.names (q : Quarantine) (repo sha : String) : Bool :=
  decide (q.entry.repoName = repo) &&
    (decide (q.entry.candidateSha = some sha) || q.affectedCandidates.any (fun c => c.1 = sha))

def Daemon.tainted (d : Daemon) (entry : LandingQueueEntry) : Bool :=
  match entry.candidateSha with
  | none => false
  | some sha => d.quarantine.any (fun q => q.names entry.repoName sha)

/-- `quarantine_invalid_source`; `invalid` is the answer of `invalid_source_identity`. -/
def quarantineInvalidSource (entry : LandingQueueEntry) (invalid : Option String) :
    Op (Option LandingOutcome) := do
  let d ← Prog.read
  match d.findQuarantine entry with
  | some _ => pure (some .quarantined)
  | none =>
    if d.tainted entry then do
      let o ← archiveQuarantine entry
        "prepared candidate was quarantined by evidence; preserve it and resubmit valid sources through fresh gates"
      pure (some o)
    else
      match invalid with
      | none => pure none
      | some reason => do
        let o ← archiveQuarantine entry reason
        pure (some o)

/-- `quarantine_invalid_target`; `missing` when the branch is known not to exist. -/
def quarantineInvalidTarget (entry : LandingQueueEntry) (missing : Bool) :
    Op (Option LandingOutcome) := do
  let d ← Prog.read
  match d.findQuarantine entry with
  | some _ => pure (some .quarantined)
  | none =>
    if missing then do
      let o ← archiveQuarantine entry
        ("landing target is not an existing branch: " ++ entry.target ++
          " — a merge target must be a real branch, not a bare commit or a branch that no longer exists")
      pure (some o)
    else pure none

section
variable (mint : Nat → RecordId)

/-- `mark_processed` when the target's tip reads as `targetHead`. -/
def markProcessed (entry : LandingQueueEntry) (outcome : LandingOutcome)
    (targetHead : Option String) : Op Unit :=
  match outcome.recorded with
  | none => pure ()
  | some word =>
    Prog.write (Daemon.addProcessed mint fun id =>
      { id
        repoName := entry.repoName
        branch := entry.branch
        target := entry.target
        targetHead := targetHead
        headSha := entry.headSha
        task := entry.task
        outcome := word
        admissionHold := entry.admissionHold
        admissionRecovery := entry.admissionRecovery })

inductive EnqueueDisposition where
  | queued (seq : Nat)
  | pending | processed

/-- `enqueue_disposition`, when the target's tip reads as `targetHead`; `contained` when
that tip already holds the candidate's head. -/
def enqueueDisposition (entry : LandingQueueEntry) (targetHead : Option String)
    (contained : Bool) (now : DateTime) : Op EnqueueDisposition := do
  let d ← Prog.read
  match d.admissionMarker entry targetHead with
  | .error e => Prog.fail e
  | .ok none =>
    if contained then do
      markProcessed mint entry .empty targetHead
      pure .processed
    else if ← containsWorkKey entry then pure .pending
    else do
      let seq ← enqueue mint entry now
      pure (.queued seq)
  | .ok (some marker) =>
    if entry.task ≠ "" ∧ marker.task ≠ "" ∧ entry.task ≠ marker.task then
      Prog.fail (entry.branch ++ "@" ++ entry.headSha ++ " in " ++ entry.repoName ++
        " was already landed under task " ++ marker.task ++
        " — refusing to resubmit the same branch/head under a different task " ++ entry.task)
    else pure .processed

structure Check where
  name : String
  command : String

/-- What one managed run of a check meets: the clocks around it and its answer. -/
structure CheckRun where
  asked : Reading
  granted : Reading
  elapsed : Nat
  charged : DateTime
  answer : Except String CheckValue

/-- What a gate run meets: a fresh window if it needs one, and for each position of the
plan whether a recorded proof covers the check, its run and its retry. -/
structure GateEnv where
  now : DateTime
  budget : Nat
  opened : Reading
  reused : Nat → Bool
  run : Nat → CheckRun
  retry : Nat → CheckRun

def admissionRemaining (entry : LandingQueueEntry) (r : CheckRun) (now : DateTime) :
    Op LandingQueueEntry :=
  match entry.admission with
  | none => Prog.fail "missing admission window"
  | some w => do
    let entry ← persist mint { entry with admission := some (w.remainingAt r.asked).2 }
      .runningGates now
    pure { entry with admission := entry.admission.map fun w => (w.remainingAt r.granted).2 }

def chargeAdmissionElapsed (entry : LandingQueueEntry) (r : CheckRun) (now : DateTime) :
    Op LandingQueueEntry :=
  persist mint { entry with admission := entry.admission.map (·.charge r.elapsed r.charged) }
    .runningGates now

def runCheck (entry : LandingQueueEntry) (r : CheckRun) (now : DateTime) :
    Op LandingQueueEntry := do
  let entry ← admissionRemaining mint entry r now
  chargeAdmissionElapsed mint entry r now

def CheckRun.expired (r : CheckRun) : Option CheckValue :=
  match r.answer with
  | .error _ => none
  | .ok v => if v.executed = some false ∧ v.reason = some "admission-timeout" then some v else none

def Daemon.findHold (d : Daemon) (entry : LandingQueueEntry) (check candidate : String) :
    Option AdmissionHold :=
  d.holds.find? fun h =>
    h.entry.repoName = entry.repoName ∧ h.entry.seq = entry.seq ∧
      h.entry.headSha = entry.headSha ∧ h.entry.branch = entry.branch ∧
      h.entry.target = entry.target ∧ h.candidateSha = candidate ∧ h.check = check ∧
      h.entry.admissionRecovery = entry.admissionRecovery

/-- The part of `record_admission_hold` after the answer is known to be an expiry. -/
def holdAdmission (entry : LandingQueueEntry) (check candidate : String) (result : CheckValue)
    (now : DateTime) : Op LandingQueueEntry := do
  let d ← Prog.read
  match d.findHold entry check candidate with
  | some prior => persist mint { entry with admissionHold := some prior.id } .runningGates now
  | none => do
    let held := { entry with admissionHold := some (mint d.minted) }
    Prog.write (Daemon.addHold mint fun id =>
      { id
        entry := held
        check
        candidateSha := candidate
        result
        retryEligible := !held.gateInfraRetryUsed && held.batchBranches.isEmpty })
    persist mint held .runningGates now

/-- The evidence key `has_gate_infra_evidence` and `settled_infra_retry` compare. -/
def GateAttempt.isFor (a : GateAttempt) (entry : LandingQueueEntry) (candidate check : String)
    (ordinal : Nat) : Bool :=
  decide (a.repoName = entry.repoName ∧ a.ordinal = ordinal ∧ a.branch = entry.branch ∧
    a.target = entry.target ∧ a.task = entry.task ∧ a.candidateSha = candidate ∧
    a.check = check ∧ a.seq = entry.seq)

def Daemon.hasGateInfraEvidence (d : Daemon) (entry : LandingQueueEntry)
    (candidate check : String) (ordinal : Nat) : Bool :=
  d.attempts.any fun a => a.isFor entry candidate check ordinal

def Daemon.settledInfraRetry (d : Daemon) (entry : LandingQueueEntry) (candidate check : String) :
    Option Bool :=
  (d.attempts.find? fun a => a.isFor entry candidate check 2).map fun a => decide (a.verdict = "pass")

section
variable (entry : LandingQueueEntry) (candidate : String) (check : Check)

def gateAttempt (ordinal : Nat) (result : CheckValue) (reconstructed : Bool) : GateAttempt :=
  { repoName := entry.repoName
    branch := entry.branch
    target := entry.target
    task := entry.task
    candidateSha := candidate
    seq := entry.seq
    check := check.name
    command := check.command
    ordinal
    exit := result.exit
    signal := result.signal
    verdict := result.verdict
    disposition :=
      if ordinal = 1 then "retrying"
      else if result.verdict = "pass" then "retry_passed"
      else "retry_exhausted"
    reconstructed }

def recordGateInfraAttempt (ordinal : Nat) (result : CheckValue) (reconstructed : Bool) : Op Unit :=
  Prog.write (Daemon.addAttempt (gateAttempt entry candidate check ordinal result reconstructed))

def ensureInfraRetryOrdinal1Evidence : Op Unit := do
  let d ← Prog.read
  if d.hasGateInfraEvidence entry candidate check.name 1 then pure ()
  else recordGateInfraAttempt entry candidate check 1 { verdict := "infra" } true

end

def clearInfraRetryMarker (entry : LandingQueueEntry) (now : DateTime) : Op LandingQueueEntry :=
  persist mint { entry with gateInfraRetryCheck := none } .runningGates now

/-- The result `finish_infra_retry` records for an answer. -/
def CheckRun.settled (r : CheckRun) : CheckValue :=
  match r.answer with
  | .ok v => v
  | .error _ => { verdict := "error", exit := some (-1) }

section
variable (entry : LandingQueueEntry) (candidate : String) (check : Check)

def finishInfraRetry (r : CheckRun) (now : DateTime) : Op (LandingQueueEntry × Bool) := do
  recordGateInfraAttempt entry candidate check 2 r.settled false
  let entry ← clearInfraRetryMarker mint entry now
  pure (entry, decide (r.settled.verdict = "pass"))

/-- Run the retry of `check` and settle it: held, exhausted, or `none` to go on. -/
def settleRetry (r : CheckRun) (now : DateTime) :
    Op (LandingQueueEntry × Option GateRunOutcome) := do
  let entry ← runCheck mint entry r now
  match r.expired with
  | some v => do
    let entry ← holdAdmission mint entry check.name candidate v now
    pure (entry, some .admissionHeld)
  | none => do
    let (entry, passed) ← finishInfraRetry mint entry candidate check r now
    pure (entry, if passed then none else some .infraRetryExhausted)

/-- The branch taken when the entry is durably marked mid-retry on this check. -/
def resumeRetry (r : CheckRun) (now : DateTime) :
    Op (LandingQueueEntry × Option GateRunOutcome) := do
  ensureInfraRetryOrdinal1Evidence entry candidate check
  let d ← Prog.read
  match d.settledInfraRetry entry candidate check.name with
  | some passed => do
    let entry ← clearInfraRetryMarker mint entry now
    pure (entry, if passed then none else some .infraRetryExhausted)
  | none => settleRetry mint entry candidate check r now

/-- The branch taken otherwise: run the check, and retry it once after an infrastructure
death if the entry still has its budget. -/
def freshCheck (run retry : CheckRun) (now : DateTime) :
    Op (LandingQueueEntry × Option GateRunOutcome) := do
  let entry ← runCheck mint entry run now
  match run.expired with
  | some v => do
    let entry ← holdAdmission mint entry check.name candidate v now
    pure (entry, some .admissionHeld)
  | none =>
    match run.answer with
    | .error _ => pure (entry, some .fail)
    | .ok v =>
      if v.verdict = "pass" then pure (entry, none)
      else if v.verdict = "infra" ∧ entry.gateInfraRetryUsed = false then do
        -- budget and in-flight marker in one write, before anything else
        let entry ← persist mint
          { entry with gateInfraRetryUsed := true, gateInfraRetryCheck := some check.name }
          .runningGates now
        recordGateInfraAttempt entry candidate check 1 v false
        settleRetry mint entry candidate check retry now
      else pure (entry, some .fail)

end

def canonical (name : String) : String :=
  if name = "steward-review" then "candidate-review"
  else if name = "steward-escalation" then "landing-escalation"
  else if name = "steward-protected-paths" then "landing-protected-paths"
  else if name = "steward-diff-scope" then "landing-diff-scope"
  else name

def isTargetDependentPolicyCheck (name : String) : Bool :=
  decide (canonical name = "landing-protected-paths" ∨ canonical name = "landing-diff-scope")

def gateCheck (env : GateEnv) (candidate : String) (i : Nat) (check : Check)
    (entry : LandingQueueEntry) : Op (LandingQueueEntry × Option GateRunOutcome) :=
  if entry.gateInfraRetryCheck = some check.name then
    resumeRetry mint entry candidate check (env.retry i) env.now
  else if !isTargetDependentPolicyCheck check.name && env.reused i then pure (entry, none)
  else freshCheck mint entry candidate check (env.run i) (env.retry i) env.now

/-- The checks of the plan in order.  `resumed` collects those whose in-flight retry the
run takes up. -/
def gateLoop (env : GateEnv) (candidate : String) : Nat → List Check → List String →
    LandingQueueEntry → Op (LandingQueueEntry × GateRunOutcome × List String)
  | _, [], resumed, entry => pure (entry, .pass, resumed)
  | i, check :: checks, resumed, entry => do
    let taken := if entry.gateInfraRetryCheck = some check.name then check.name :: resumed
      else resumed
    let (entry, stopped) ← gateCheck mint env candidate i check entry
    match stopped with
    | some outcome => pure (entry, outcome, taken)
    | none => gateLoop env candidate (i + 1) checks taken entry

def openAdmission (env : GateEnv) (entry : LandingQueueEntry) : Op LandingQueueEntry :=
  if entry.admission.isNone then
    persist mint { entry with admission := some (.new env.budget env.opened) } .runningGates env.now
  else pure entry

def executeGatePlanAt (env : GateEnv) (plan : List Check) (candidate : String)
    (entry : LandingQueueEntry) : Op (LandingQueueEntry × GateRunOutcome) := do
  let entry ← openAdmission mint env entry
  let (entry, outcome, resumed) ← gateLoop mint env candidate 0 plan [] entry
  Prog.write (Daemon.addGateRun entry candidate resumed outcome)
  pure (entry, outcome)

structure PreparedMerge where
  commit : String
  base : String
  candidateRef : String

inductive ReviewVerdict where
  | approve | rework | escalate

inductive TargetAdvance where
  | landed | stale | blocked

/-- What `process_entry` is told from outside the space: the registry's and git's
answers, the plan and its runs, how often a reviewer was dispatched and what came of it,
and whether the target advanced. -/
structure EntryEnv where
  now : DateTime
  invalidSource : Option String
  targetHead : Option String
  targetMissing : Bool
  landedAlready : Bool
  recoveryRefs : Bool
  contained : Bool
  prepared : Option PreparedMerge
  plan : Option (List Check)
  gates : GateEnv
  dispatches : Nat
  verdict : ReviewVerdict
  advance : TargetAdvance

def finish (env : EntryEnv) (entry : LandingQueueEntry) (outcome : LandingOutcome) :
    Op LandingOutcome := do
  markProcessed mint entry outcome env.targetHead
  pure outcome

def requeueStale (env : EntryEnv) (entry : LandingQueueEntry) : Op LandingOutcome :=
  if entry.admissionRecovery.isSome then finish mint env entry .escalated
  else do
    let seq ← requeueTail mint entry env.now
    pure (.requeued seq)

def advanceTarget (env : EntryEnv) (entry : LandingQueueEntry) : Op LandingOutcome := do
  setStatus mint entry .landing env.now
  match env.advance with
  | .landed => finish mint env entry .landed
  | .stale => requeueStale mint env entry
  | .blocked => finish mint env entry .escalated

/-- `dispatch_review`, once for every reviewer that was launched. -/
def dispatchReviews (env : EntryEnv) (entry : LandingQueueEntry) : Nat → Op Unit
  | 0 => pure ()
  | n + 1 => do
    setStatus mint entry .awaitingReview env.now
    dispatchReviews env entry n

section
variable (env : EntryEnv) (entry : LandingQueueEntry)

def routeVerdict : Op LandingOutcome :=
  match env.verdict with
  | .approve => advanceTarget mint env entry
  | .rework => finish mint env entry .reworkFiled
  | .escalate => finish mint env entry .escalated

/-- The rest of `process_entry` once its candidate is prepared. -/
def landPrepared (candidate : String) : Op LandingOutcome :=
  match env.plan with
  | none => finish mint env entry .noGate
  | some plan => do
    let (entry, outcome) ← executeGatePlanAt mint env.gates plan candidate entry
    if outcome ≠ .pass then finish mint env entry .gateHeld
    else if entry.diffClass = "doc-only" ∨ entry.diffClass = "trivial" then
      advanceTarget mint env entry
    else do
      dispatchReviews mint env entry env.dispatches
      routeVerdict mint env entry

/-- The part of `process_entry` after the entry is known to be unsettled. -/
def attemptEntry : Op LandingOutcome :=
  if entry.status = .landing ∧ entry.candidateSha.isSome ∧ entry.candidateBase.isSome ∧
      env.landedAlready then
    finish mint env entry .landed
  else if entry.admissionRecovery.isSome ∧ env.recoveryRefs = false then
    finish mint env entry .escalated
  else if env.contained then finish mint env entry .empty
  else
    match entry.candidateSha, entry.candidateBase, entry.candidateRef with
    | some commit, some _, some _ => landPrepared mint env entry commit
    | _, _, _ =>
      match env.prepared with
      | none => finish mint env entry .reworkFiled
      | some c => do
        let entry ← persist mint { entry with
            candidateSha := some c.commit
            candidateBase := some c.base
            candidateRef := some c.candidateRef }
          .runningGates env.now
        landPrepared mint env entry c.commit

def processEntry : Op LandingOutcome := do
  match ← quarantineInvalidSource entry env.invalidSource with
  | some outcome => pure outcome
  | none => do
    let d ← Prog.read
    match d.admissionMarker entry env.targetHead with
    | .error e => Prog.fail e
    | .ok (some marker) => pure (.reconciled marker.outcome)
    | .ok none => do
      match ← quarantineInvalidTarget entry env.targetMissing with
      | some outcome => pure outcome
      | none => attemptEntry mint env entry

end

end

end RatKingdom.Landing
