/-
The completion of a launch.

A turn result, an exit and a reconcile pass can all publish how a launch ended.  Which of
them may is kept in `CompletionState`, for one process, and in the `harness_result` tuples,
across processes; both are asked about the attempt that is current when they are asked.  The
state is that of one generation: everything here is filed under its name, which no other
generation ever bears, or under its spawn.
-/
import RatKingdom.Lib.Run
import RatKingdom.Agents.Registry

namespace RatKingdom.Supervisor

open Core Lib Agents Agents.Registry List

structure TaskDone where
  spawn : SpawnId
  attempt : Option SpawnId
  summary : Option String := none
  createdAt : DateTime
  deriving DecidableEq

structure HarnessResult where
  spawn : SpawnId
  attempt : Option SpawnId
  isError : Bool
  declaredDone : Bool
  result : Option String

/-- `find_task_done`: without an attempt to ask about, any launch's tuple will do. -/
def findTaskDone (done : List TaskDone) (spawn : SpawnId) (currentAttempt : Option SpawnId) :
    Option TaskDone :=
  match currentAttempt with
  | some attempt => done.find? fun t => t.spawn = spawn && t.attempt = some attempt
  | none => done.find? fun t => t.spawn = spawn

def harnessResultExists (results : List HarnessResult) (record : AgentRecord) : Bool :=
  match record.currentAttempt with
  | some attempt => results.any fun r => r.spawn = record.spawn && r.attempt = some attempt
  | none => results.any fun r => r.spawn = record.spawn

def taskDoneHarnessGrace : Int := DateTime.nanosPerSecond

structure CompletionState where
  generation : DateTime
  routed : Bool := false
  withheld : Bool := false

section
variable (completion : Option CompletionState) (generation : DateTime)

def entryOf : CompletionState :=
  match completion with
  | some state => if state.generation = generation then state else { generation }
  | none => { generation }

/-- `claim_completion`, with whether the turn is published. -/
def claimCompletion (isError declaredDone : Bool) : CompletionState × Bool :=
  let state := entryOf completion generation
  if state.routed then (state, false)
  else if isError || declaredDone then ({ state with routed := true, withheld := false }, true)
  else ({ state with withheld := true }, false)

def flushWithheldCompletion : Option CompletionState × Bool :=
  match completion with
  | none => (none, false)
  | some state =>
    if state.generation ≠ generation || state.routed || !state.withheld then (some state, false)
    else (some { state with routed := true, withheld := false }, true)

end

structure Turn where
  pre : AgentRecord
  isError : Bool
  text : String

/-- Where the handler that holds the session lock stands. -/
inductive Handler where
  | idle
  | reported (turn : Turn)
  | asked (turn : Turn) (found : Option TaskDone)
  | claimed (turn : Turn) (found : Option TaskDone) (publish : Bool)
  | settled (record : AgentRecord) (isError declaredDone : Bool)
  | exited (record : AgentRecord)

/-- Where a reconcile pass stands with this generation. -/
inductive Pass where
  | idle
  | listed (record : AgentRecord)
  | found (record : AgentRecord) (tuple : TaskDone)
  | unpublished (record : AgentRecord) (tuple : TaskDone)
  | settled (record : AgentRecord)
  | asked (record : AgentRecord) (declaredDone : Bool)
  | claimed (record : AgentRecord) (declaredDone : Bool)

inductive Respawn where
  | idle | checked
  /-- From `begin_attempt` on. -/
  | begun | publishing
  deriving DecidableEq

structure Shift where
  record : AgentRecord
  /-- `uses_harness_terminal_completion` of its role and harness. -/
  harnessTerminal : Bool := false
  completion : Option CompletionState := none
  token : Option SpawnId := none
  sessions : List SpawnId := []
  handler : Handler := .idle
  pass : Pass := .idle
  respawn : Respawn := .idle
  done : List TaskDone := []
  results : List HarnessResult := []
  nextId : SpawnId
  /-- The tuples that moved the record from a live state to completed, with the attempt that
  was current then. -/
  moved : List (TaskDone × Option SpawnId) := []

open Shift

inductive ShiftOp where
  | completed (session : SpawnId) (isError : Bool) (text : String)
  | exited (session : SpawnId) (text : String)
  | handle | list
  | reconcile (now : DateTime)
  | taskDone (tuple : TaskDone)
  | respawn | begin | publish | published | launchFails
  | stop (text : String)
  | restart

def turnEnded (isError publish : Bool) (text : String) (record : AgentRecord) : AgentRecord :=
  { record with
    state := if isError then .failed else if publish then .completed else .paused
    result := some text }

def merged (turn : Turn) (record : AgentRecord) : AgentRecord :=
  if turn.pre.state = .completed then { record with result := some turn.text } else record

def exitedRecord (text : String) (record : AgentRecord) : AgentRecord :=
  let record := { record with pid := none }
  if record.state = .paused then { record with state := .failed }
  else if record.state.isLive then
    { record with state := .failed, crashed := true, result := some text }
  else record

def reconciled (summary : Option String) (record : AgentRecord) : AgentRecord :=
  if record.state.isLive || record.state = .orphaned then
    { record with state := .completed, result := summary.or record.result }
  else record

def resultOf (record : AgentRecord) (isError declaredDone : Bool) : HarnessResult :=
  { spawn := record.spawn, attempt := record.currentAttempt, isError, declaredDone
    result := record.result }

namespace Shift

/-- `own`: a name without a token is owned by whoever asks. -/
def own (s : Shift) (session : SpawnId) : Bool :=
  match s.token with
  | none => true
  | some current => current = session

/-- What a change of state from `live` to completed by a tuple leaves in the ghost log. -/
def note (s : Shift) (tuple : Option TaskDone) (completed : Bool) :
    List (TaskDone × Option SpawnId) :=
  match tuple with
  | some t => if s.record.state.isLive && completed then s.moved ++ [(t, s.record.currentAttempt)]
    else s.moved
  | none => s.moved

def handle (s : Shift) : Option Shift :=
  match s.handler with
  | .idle => none
  | .reported turn =>
    if turn.pre.state = .stopped || turn.pre.state = .completed then
      some { s with handler := .idle, record := merged turn s.record }
    else
      some { s with handler := .asked turn (findTaskDone s.done turn.pre.spawn
        turn.pre.currentAttempt) }
  | .asked turn found =>
    let (state, publish) := claimCompletion s.completion turn.pre.createdAt turn.isError
      (s.harnessTerminal || found.isSome)
    some { s with handler := .claimed turn found publish, completion := some state }
  | .claimed turn found publish =>
    let record := turnEnded turn.isError publish turn.text s.record
    some { s with
      record
      handler := if publish then
        .settled record turn.isError (s.harnessTerminal || found.isSome) else .idle
      moved := s.note found (publish && !turn.isError) }
  | .settled record isError declaredDone =>
    some { s with
      handler := .idle
      results := s.results ++ [resultOf record isError declaredDone] }
  | .exited record =>
    let (completion, flush) := flushWithheldCompletion s.completion record.createdAt
    some { s with completion, handler := if flush then .settled record true false else .idle }

def reconcile (s : Shift) (now : DateTime) : Option Shift :=
  match s.pass with
  | .idle => none
  | .listed record =>
    match findTaskDone s.done record.spawn record.currentAttempt with
    | none => some { s with pass := .idle }
    | some tuple => some { s with pass := .found record tuple }
  | .found record tuple =>
    if harnessResultExists s.results record ||
        record.state.isLive && now - tuple.createdAt < taskDoneHarnessGrace then
      some { s with pass := .idle }
    else some { s with pass := .unpublished record tuple }
  | .unpublished _ tuple =>
    let record := reconciled tuple.summary s.record
    some { s with
      record
      pass := if record.state = .completed then .settled record else .idle
      moved := s.note (some tuple) true }
  | .settled record =>
    some { s with
      pass := .asked record (findTaskDone s.done record.spawn record.currentAttempt).isSome }
  | .asked record declaredDone =>
    let (state, publish) := claimCompletion s.completion record.createdAt false declaredDone
    some { s with
      completion := some state
      pass := if publish then .claimed record declaredDone else .idle }
  | .claimed record declaredDone =>
    some { s with pass := .idle, results := s.results ++ [resultOf record false declaredDone] }

def step (s : Shift) : ShiftOp → Option Shift
  | .completed session isError text =>
    match s.handler with
    | .idle =>
      if s.sessions.contains session && s.respawn ≠ .publishing then
        if s.own session then some { s with handler := .reported ⟨s.record, isError, text⟩ }
        else some s
      else none
    | _ => none
  | .exited session text =>
    match s.handler with
    | .idle =>
      if s.sessions.contains session && s.respawn ≠ .publishing then
        if s.own session then
          let record := exitedRecord text s.record
          some { s with record, handler := .exited record }
        else some s
      else none
    | _ => none
  | .handle => s.handle
  | .list =>
    match s.pass with
    | .idle => some { s with pass := .listed s.record }
    | _ => none
  | .reconcile now => s.reconcile now
  | .taskDone tuple => some { s with done := s.done ++ [tuple] }
  | .respawn =>
    if s.respawn = .idle && !s.record.state.isLive && s.record.task.isSome then
      some { s with respawn := .checked }
    else none
  | .begin =>
    if s.respawn = .checked then
      some { s with
        respawn := .begun
        record := { s.record with currentAttempt := some s.nextId }
        nextId := s.nextId + 1 }
    else none
  | .publish =>
    match s.handler with
    | .idle =>
      if s.respawn = .begun then
        some { s with
          respawn := .publishing
          record := { s.record with state := .running, result := none, crashed := false } }
      else none
    | _ => none
  | .published =>
    if s.respawn = .publishing then
      some { s with
        respawn := .idle
        completion := none
        token := some s.nextId
        sessions := s.nextId :: s.sessions
        nextId := s.nextId + 1 }
    else none
  | .launchFails =>
    if s.respawn = .publishing then none else some { s with respawn := .idle }
  | .stop text =>
    if s.record.state.isLive then
      some { s with record :=
        { s.record with state := .stopped, crashed := false, result := some text } }
    else none
  | .restart =>
    some { s with
      record := orphan s.record.updatedAt s.record
      completion := none
      token := none
      sessions := []
      handler := .idle
      pass := .idle
      respawn := .idle }

end Shift

def Shift.launched (record : AgentRecord) (harnessTerminal : Bool) : Shift :=
  { record := { record with state := .running, currentAttempt := some 0 }
    harnessTerminal
    token := some 1
    sessions := [1]
    nextId := 2 }

def DeclaredAt (done : List TaskDone) (spawn : SpawnId) (attempt : Option SpawnId) : Prop :=
  ∃ t ∈ done, t.spawn = spawn ∧ t.attempt = attempt

/-- One result for a launch, and none that is good without its own `task_done`. -/
structure OnePerLaunch (s : Shift) : Prop where
  once : ∀ spawn attempt, s.results.countP (fun r => r.spawn = spawn && r.attempt = attempt) ≤ 1
  earned : ∀ r ∈ s.results, r.isError = false →
    s.harnessTerminal = true ∨ DeclaredAt s.done r.spawn r.attempt

def Respawn.isOpen : Respawn → Bool
  | .begun => true
  | .publishing => true
  | .idle => false
  | .checked => false

def Handler.isIdle : Handler → Bool
  | .idle => true
  | _ => false

def Pass.isIdle : Pass → Bool
  | .idle => true
  | _ => false

namespace Shift

def entry (s : Shift) : CompletionState := entryOf s.completion s.record.createdAt

def holdsTurn (s : Shift) : Bool := !s.entry.routed && s.entry.withheld

def finds (s : Shift) : Bool :=
  match s.pass with
  | .listed record => (findTaskDone s.done record.spawn record.currentAttempt).isSome
  | _ => false

end Shift

/-- A respawn begins when no event of the generation and no pass is under way, and until it has
published nothing can route a result: a turn result finds the record stopped or completed, an
exit no withheld turn, and a pass no `task_done` of the attempt begun. -/
def apart (s : Shift) : ShiftOp → Prop
  | .completed session _ _ => s.own session = true → s.respawn.isOpen = true →
      s.record.state = .stopped ∨ s.record.state = .completed
  | .exited session _ => s.own session = true → s.respawn.isOpen = true → s.holdsTurn = false
  | .reconcile _ => s.respawn.isOpen = true → s.finds = false
  | .begin => s.handler.isIdle = true ∧ s.pass.isIdle = true
  | _ => True

theorem entryOf_some (state : CompletionState) (generation : DateTime)
    (h : state.generation = generation) : entryOf (some state) generation = state := by
  show (if state.generation = generation then state else { generation }) = state
  rw [if_pos h]

section
variable (completion : Option CompletionState) (generation : DateTime)

theorem entryOf_generation : (entryOf completion generation).generation = generation := by
  unfold entryOf
  cases completion with
  | none => rfl
  | some state =>
    by_cases h : state.generation = generation
    · simp only [if_pos h]
      exact h
    · simp only [if_neg h]

theorem claimCompletion_publish (isError declaredDone : Bool) :
    (claimCompletion completion generation isError declaredDone).2 =
      (!(entryOf completion generation).routed && (isError || declaredDone)) := by
  unfold claimCompletion
  generalize entryOf completion generation = state
  obtain ⟨at', routed, withheld⟩ := state
  cases routed <;> cases isError <;> cases declaredDone <;> rfl

theorem claimCompletion_routed (isError declaredDone : Bool) :
    (entryOf (some (claimCompletion completion generation isError declaredDone).1)
        generation).routed =
      ((entryOf completion generation).routed ||
        (claimCompletion completion generation isError declaredDone).2) := by
  have hg := entryOf_generation completion generation
  unfold claimCompletion
  generalize entryOf completion generation = state at hg ⊢
  obtain ⟨at', routed, withheld⟩ := state
  subst hg
  rw [entryOf_some]
  all_goals cases routed <;> cases isError <;> cases declaredDone <;> rfl

theorem flushWithheldCompletion_spec : (flushWithheldCompletion completion generation).2 =
      (!(entryOf completion generation).routed && (entryOf completion generation).withheld) ∧
    (entryOf (flushWithheldCompletion completion generation).1 generation).routed =
      ((entryOf completion generation).routed ||
        (flushWithheldCompletion completion generation).2) := by
  cases completion with
  | none => exact ⟨rfl, rfl⟩
  | some state =>
    obtain ⟨at', routed, withheld⟩ := state
    by_cases h : at' = generation
    · subst h
      cases routed <;> cases withheld <;> simp [flushWithheldCompletion, entryOf]
    · simp [flushWithheldCompletion, entryOf, h]

end

structure Same (a b : AgentRecord) : Prop where
  spawn : a.spawn = b.spawn
  attempt : a.currentAttempt = b.currentAttempt
  generation : a.createdAt = b.createdAt

theorem Same.refl (a : AgentRecord) : Same a a := ⟨rfl, rfl, rfl⟩

theorem Same.trans {a b c : AgentRecord} (h : Same a b) (h' : Same b c) : Same a c :=
  ⟨h.spawn.trans h'.spawn, h.attempt.trans h'.attempt, h.generation.trans h'.generation⟩

theorem Same.symm {a b : AgentRecord} (h : Same a b) : Same b a :=
  ⟨h.spawn.symm, h.attempt.symm, h.generation.symm⟩

theorem turnEnded_same (isError publish : Bool) (text : String) (record : AgentRecord) :
    Same (turnEnded isError publish text record) record := ⟨rfl, rfl, rfl⟩

theorem merged_same (turn : Turn) (record : AgentRecord) : Same (merged turn record) record := by
  unfold merged
  split
  · exact ⟨rfl, rfl, rfl⟩
  · exact .refl record

theorem exitedRecord_same (text : String) (record : AgentRecord) :
    Same (exitedRecord text record) record := by
  unfold exitedRecord
  dsimp only
  split
  · exact ⟨rfl, rfl, rfl⟩
  · split
    · exact ⟨rfl, rfl, rfl⟩
    · exact ⟨rfl, rfl, rfl⟩

theorem reconciled_same (summary : Option String) (record : AgentRecord) :
    Same (reconciled summary record) record := by
  unfold reconciled
  split
  · exact ⟨rfl, rfl, rfl⟩
  · exact .refl record

theorem orphan_same (now : DateTime) (record : AgentRecord) : Same (orphan now record) record := by
  unfold orphan
  split
  · exact ⟨rfl, rfl, rfl⟩
  · exact .refl record

structure Shift.Answers (s : Shift) (t : TaskDone) : Prop where
  written : t ∈ s.done
  spawn : t.spawn = s.record.spawn
  attempt : t.attempt = s.record.currentAttempt

def Handler.Fits (s : Shift) : Handler → Prop
  | .idle => True
  | .reported turn => Same turn.pre s.record
  | .asked turn found => Same turn.pre s.record ∧ ∀ t, found = some t → s.Answers t
  | .claimed turn found publish => (∀ t, found = some t → s.Answers t) ∧
      (publish = true → turn.isError = false → s.harnessTerminal = true ∨ ∃ t, s.Answers t)
  | .settled record isError _ => Same record s.record ∧
      (isError = false → s.harnessTerminal = true ∨ ∃ t, s.Answers t)
  | .exited record => Same record s.record

def Pass.Fits (s : Shift) : Pass → Prop
  | .idle => True
  | .listed record => Same record s.record
  | .found record tuple => Same record s.record ∧ s.Answers tuple
  | .unpublished record tuple => Same record s.record ∧ s.Answers tuple
  | .settled record => Same record s.record
  | .asked record declaredDone => Same record s.record ∧ (declaredDone = true → ∃ t, s.Answers t)
  | .claimed record _ => Same record s.record ∧ ∃ t, s.Answers t

/-- The launch goes on: it is the same one, and what was written stays written. -/
structure Continues (s s' : Shift) : Prop where
  same : Same s'.record s.record
  terminal : s'.harnessTerminal = s.harnessTerminal
  done : ∀ t ∈ s.done, t ∈ s'.done
  nextId : s.nextId ≤ s'.nextId

variable {s s' : Shift}

theorem Continues.answers (h : Continues s s') {t : TaskDone} (ht : s.Answers t) : s'.Answers t :=
  ⟨h.done t ht.written, ht.spawn.trans h.same.spawn.symm, ht.attempt.trans h.same.attempt.symm⟩

variable {handler : Handler}

theorem Continues.fits (h : Continues s s') (hf : handler.Fits s) : handler.Fits s' := by
  have hback : ∀ {record : AgentRecord}, Same record s.record → Same record s'.record :=
    fun hr => hr.trans h.same.symm
  have hearned : ∀ {isError : Bool},
      (isError = false → s.harnessTerminal = true ∨ ∃ t, s.Answers t) →
        isError = false → s'.harnessTerminal = true ∨ ∃ t, s'.Answers t := by
    intro isError hr he
    cases hr he with
    | inl ht => exact .inl (h.terminal.trans ht)
    | inr hd => exact .inr (hd.imp fun t => h.answers)
  cases handler with
  | idle => trivial
  | reported turn | exited record => exact hback hf
  | asked turn found => exact ⟨hback hf.1, fun t ht => h.answers (hf.2 t ht)⟩
  | claimed turn found publish =>
    exact ⟨fun t ht => h.answers (hf.1 t ht), fun hp => hearned (hf.2 hp)⟩
  | settled record isError declaredDone => exact ⟨hback hf.1, hearned hf.2⟩

theorem Continues.passFits (h : Continues s s') {pass : Pass} (hf : pass.Fits s) :
    pass.Fits s' := by
  have hback : ∀ {record : AgentRecord}, Same record s.record → Same record s'.record :=
    fun hr => hr.trans h.same.symm
  cases pass with
  | idle => trivial
  | listed record | settled record => exact hback hf
  | found record tuple | unpublished record tuple => exact ⟨hback hf.1, h.answers hf.2⟩
  | asked record declaredDone => exact ⟨hback hf.1, fun hd => (hf.2 hd).imp fun t => h.answers⟩
  | claimed record declaredDone => exact ⟨hback hf.1, hf.2.imp fun t => h.answers⟩

section
variable {s s' : Shift} {record : AgentRecord}

theorem findTaskDone_answers {t : TaskDone} (hsame : Same record s.record)
    (hcurrent : ∃ a, s.record.currentAttempt = some a)
    (h : findTaskDone s.done record.spawn record.currentAttempt = some t) : s.Answers t := by
  obtain ⟨a, ha⟩ := hcurrent
  rw [hsame.attempt, hsame.spawn, ha] at h
  have hkey := find?_some h
  rw [Bool.and_eq_true] at hkey
  refine ⟨mem_of_find?_eq_some h, of_decide_eq_true hkey.1, ?_⟩
  rw [ha]
  exact of_decide_eq_true hkey.2

theorem continues_of_record (hsame : Same s'.record s.record)
    (hterm : s'.harnessTerminal = s.harnessTerminal) (hdone : s'.done = s.done)
    (hid : s'.nextId = s.nextId) : Continues s s' := by
  refine ⟨hsame, hterm, ?_, ?_⟩
  · intro t ht
    rw [hdone]
    exact ht
  · exact Nat.le_of_eq hid.symm

inductive Move (s : Shift) : ShiftOp → Shift → Prop where
  | superseded (op : ShiftOp) : Move s op s
  | reports {session : SpawnId} {isError : Bool} {text : String} (hidle : s.handler = .idle)
      (hm : session ∈ s.sessions) (howned : s.own session = true) :
      Move s (.completed session isError text) { s with
        handler := .reported ⟨s.record, isError, text⟩ }
  | exits {session : SpawnId} {text : String} (hidle : s.handler = .idle)
      (hm : session ∈ s.sessions) (howned : s.own session = true) :
      Move s (.exited session text) { s with
        record := exitedRecord text s.record
        handler := .exited (exitedRecord text s.record) }
  | merges {turn : Turn} (hh : s.handler = .reported turn) :
      Move s .handle { s with handler := .idle, record := merged turn s.record }
  | asks {turn : Turn} (hh : s.handler = .reported turn)
      (hstate : ¬ (turn.pre.state = .stopped ∨ turn.pre.state = .completed)) :
      Move s .handle { s with
        handler := .asked turn (findTaskDone s.done turn.pre.spawn turn.pre.currentAttempt) }
  | claims {turn : Turn} {found : Option TaskDone} {state : CompletionState} {publish : Bool}
      (hh : s.handler = .asked turn found)
      (hclaim : claimCompletion s.completion turn.pre.createdAt turn.isError
        (s.harnessTerminal || found.isSome) = (state, publish)) :
      Move s .handle { s with handler := .claimed turn found publish, completion := some state }
  | settles {turn : Turn} {found : Option TaskDone} (hh : s.handler = .claimed turn found true) :
      Move s .handle { s with
        record := turnEnded turn.isError true turn.text s.record
        handler := .settled (turnEnded turn.isError true turn.text s.record) turn.isError
          (s.harnessTerminal || found.isSome)
        moved := s.note found !turn.isError }
  | withholds {turn : Turn} {found : Option TaskDone} (hh : s.handler = .claimed turn found false) :
      Move s .handle { s with
        record := turnEnded turn.isError false turn.text s.record
        handler := .idle }
  | routes {record : AgentRecord} {isError declaredDone : Bool}
      (hh : s.handler = .settled record isError declaredDone) :
      Move s .handle { s with
        handler := .idle
        results := s.results ++ [resultOf record isError declaredDone] }
  | flushes {record : AgentRecord} {completion : Option CompletionState}
      (hh : s.handler = .exited record)
      (hflush : flushWithheldCompletion s.completion record.createdAt = (completion, true)) :
      Move s .handle { s with completion, handler := .settled record true false }
  | keeps {record : AgentRecord} {completion : Option CompletionState}
      (hh : s.handler = .exited record)
      (hflush : flushWithheldCompletion s.completion record.createdAt = (completion, false)) :
      Move s .handle { s with completion, handler := .idle }
  | lists (hp : s.pass = .idle) : Move s .list { s with pass := .listed s.record }
  | passEnds (now : DateTime) (hp : ∀ record declaredDone, s.pass ≠ .claimed record declaredDone) :
      Move s (.reconcile now) { s with pass := .idle }
  | finds {now : DateTime} {record : AgentRecord} {tuple : TaskDone} (hp : s.pass = .listed record)
      (hfind : findTaskDone s.done record.spawn record.currentAttempt = some tuple) :
      Move s (.reconcile now) { s with pass := .found record tuple }
  | unpublished {now : DateTime} {record : AgentRecord} {tuple : TaskDone}
      (hp : s.pass = .found record tuple)
      (hn : harnessResultExists s.results record = false) :
      Move s (.reconcile now) { s with pass := .unpublished record tuple }
  | reconciles {now : DateTime} {record : AgentRecord} {tuple : TaskDone} {pass : Pass}
      (hp : s.pass = .unpublished record tuple)
      (hpass : pass = .settled (reconciled tuple.summary s.record) ∨ pass = .idle) :
      Move s (.reconcile now) { s with
        record := reconciled tuple.summary s.record
        pass
        moved := s.note (some tuple) true }
  | asksAgain {now : DateTime} {record : AgentRecord} (hp : s.pass = .settled record) :
      Move s (.reconcile now) { s with
        pass := .asked record (findTaskDone s.done record.spawn record.currentAttempt).isSome }
  | passClaims {now : DateTime} {record : AgentRecord} {declaredDone : Bool}
      {state : CompletionState} {publish : Bool} {pass : Pass}
      (hp : s.pass = .asked record declaredDone)
      (hclaim : claimCompletion s.completion record.createdAt false declaredDone = (state, publish))
      (hpass : pass = if publish then .claimed record declaredDone else .idle) :
      Move s (.reconcile now) { s with completion := some state, pass }
  | passRoutes {now : DateTime} {record : AgentRecord} {declaredDone : Bool}
      (hp : s.pass = .claimed record declaredDone) :
      Move s (.reconcile now) { s with
        pass := .idle
        results := s.results ++ [resultOf record false declaredDone] }
  | taskDone (tuple : TaskDone) : Move s (.taskDone tuple) { s with done := s.done ++ [tuple] }
  | respawns (hrespawn : s.respawn = .idle) : Move s .respawn { s with respawn := .checked }
  | begins (hrespawn : s.respawn = .checked) :
      Move s .begin { s with
        respawn := .begun
        record := { s.record with currentAttempt := some s.nextId }
        nextId := s.nextId + 1 }
  | publishes (hidle : s.handler = .idle) (hrespawn : s.respawn = .begun) :
      Move s .publish { s with
        respawn := .publishing
        record := { s.record with state := .running, result := none, crashed := false } }
  | published (hrespawn : s.respawn = .publishing) :
      Move s .published { s with
        respawn := .idle
        completion := none
        token := some s.nextId
        sessions := s.nextId :: s.sessions
        nextId := s.nextId + 1 }
  | launchFails : Move s .launchFails { s with respawn := .idle }
  | stops (text : String) : Move s (.stop text) { s with record :=
      { s.record with state := .stopped, crashed := false, result := some text } }
  | restarts : Move s .restart { s with
      record := orphan s.record.updatedAt s.record
      completion := none
      token := none
      sessions := []
      handler := .idle
      pass := .idle
      respawn := .idle }

theorem handle_moves (hs : s.handle = some s') : Move s .handle s' := by
  unfold handle at hs
  cases hh : s.handler with
  | idle =>
    rw [hh] at hs
    cases hs
  | reported turn =>
    rw [hh] at hs
    dsimp only at hs
    by_cases hstate : turn.pre.state = .stopped ∨ turn.pre.state = .completed
    · rw [if_pos (by simpa using hstate)] at hs
      cases hs
      exact .merges hh
    · rw [if_neg (by simpa using hstate)] at hs
      cases hs
      exact .asks hh hstate
  | asked turn found =>
    rw [hh] at hs
    cases hs
    exact .claims hh rfl
  | claimed turn found publish =>
    rw [hh] at hs
    cases publish with
    | true =>
      cases hs
      exact .settles hh
    | false =>
      have hmoved : s.note found false = s.moved := by
        cases found with
        | none => rfl
        | some t =>
          show (if s.record.state.isLive && false then _ else s.moved) = s.moved
          rw [Bool.and_false]
          rfl
      cases hs
      show Move s .handle { s with
        record := turnEnded turn.isError false turn.text s.record
        handler := .idle
        moved := s.note found false }
      rw [hmoved]
      exact .withholds hh
  | settled record isError declaredDone =>
    rw [hh] at hs
    cases hs
    exact .routes hh
  | exited record =>
    rw [hh] at hs
    dsimp only at hs
    cases hflush : flushWithheldCompletion s.completion record.createdAt with
    | mk completion flush =>
      rw [hflush] at hs
      cases flush with
      | true =>
        cases hs
        exact .flushes hh hflush
      | false =>
        cases hs
        exact .keeps hh hflush

variable {now : DateTime}

theorem reconcile_moves (hs : s.reconcile now = some s') : Move s (.reconcile now) s' := by
  unfold reconcile at hs
  cases hp : s.pass with
  | idle =>
    rw [hp] at hs
    cases hs
  | listed record =>
    rw [hp] at hs
    dsimp only at hs
    cases hfind : findTaskDone s.done record.spawn record.currentAttempt with
    | none =>
      rw [hfind] at hs
      cases hs
      exact .passEnds now (by rw [hp]; exact fun _ _ h => by cases h)
    | some tuple =>
      rw [hfind] at hs
      cases hs
      exact .finds hp hfind
  | found record tuple =>
    rw [hp] at hs
    dsimp only at hs
    cases hn : harnessResultExists s.results record with
    | true =>
      rw [hn, Bool.true_or, if_pos rfl] at hs
      cases hs
      exact .passEnds now (by rw [hp]; exact fun _ _ h => by cases h)
    | false =>
      split at hs
      · cases hs
        exact .passEnds now (by rw [hp]; exact fun _ _ h => by cases h)
      · cases hs
        exact .unpublished hp hn
  | unpublished record tuple =>
    rw [hp] at hs
    cases hs
    apply Move.reconciles hp
    split
    · exact .inl rfl
    · exact .inr rfl
  | settled record =>
    rw [hp] at hs
    cases hs
    exact .asksAgain hp
  | asked record declaredDone =>
    rw [hp] at hs
    cases hs
    exact .passClaims hp rfl rfl
  | claimed record declaredDone =>
    rw [hp] at hs
    cases hs
    exact .passRoutes hp

variable {op : ShiftOp}

theorem step_moves (hs : s.step op = some s') : Move s op s' := by
  cases op with
  | completed session isError text =>
    simp only [step] at hs
    split at hs
    · rename_i hidle
      obtain ⟨hm, hs⟩ := Option.ite_none_right_eq_some.mp hs
      split at hs
      · rename_i howned
        cases hs
        rw [Bool.and_eq_true] at hm
        exact .reports hidle (contains_iff_mem.mp hm.1) howned
      · cases hs
        exact .superseded _
    · cases hs
  | exited session text =>
    simp only [step] at hs
    split at hs
    · rename_i hidle
      obtain ⟨hm, hs⟩ := Option.ite_none_right_eq_some.mp hs
      split at hs
      · rename_i howned
        cases hs
        rw [Bool.and_eq_true] at hm
        exact .exits hidle (contains_iff_mem.mp hm.1) howned
      · cases hs
        exact .superseded _
    · cases hs
  | handle => exact handle_moves hs
  | list =>
    simp only [step] at hs
    split at hs
    · rename_i hp
      cases hs
      exact .lists hp
    · cases hs
  | reconcile now => exact reconcile_moves hs
  | taskDone tuple =>
    cases hs
    exact .taskDone tuple
  | respawn =>
    simp only [step] at hs
    split at hs
    · rename_i hchecks
      cases hs
      rw [Bool.and_eq_true, Bool.and_eq_true] at hchecks
      exact .respawns (of_decide_eq_true hchecks.1.1)
    · cases hs
  | begin =>
    simp only [step] at hs
    split at hs
    · rename_i hrespawn
      cases hs
      exact .begins hrespawn
    · cases hs
  | publish =>
    simp only [step] at hs
    split at hs
    · rename_i hidle
      split at hs
      · rename_i hrespawn
        cases hs
        exact .publishes hidle hrespawn
      · cases hs
    · cases hs
  | published =>
    simp only [step] at hs
    split at hs
    · rename_i hrespawn
      cases hs
      exact .published hrespawn
    · cases hs
  | launchFails =>
    simp only [step] at hs
    split at hs
    · cases hs
    · cases hs
      exact .launchFails
  | stop text =>
    simp only [step] at hs
    split at hs
    · cases hs
      exact .stops text
    · cases hs
  | restart =>
    cases hs
    exact .restarts

theorem Move.continues (hop : op ≠ .begin) (h : Move s op s') : Continues s s' := by
  cases h with
  | begins => exact absurd rfl hop
  | taskDone tuple =>
    exact ⟨.refl s.record, rfl, fun t ht => mem_append_left _ ht, Nat.le_refl _⟩
  | published => exact ⟨.refl s.record, rfl, fun t ht => ht, Nat.le_succ _⟩
  | exits => exact continues_of_record (exitedRecord_same _ s.record) rfl rfl rfl
  | merges => exact continues_of_record (merged_same _ s.record) rfl rfl rfl
  | settles | withholds => exact continues_of_record (turnEnded_same _ _ _ s.record) rfl rfl rfl
  | reconciles => exact continues_of_record (reconciled_same _ s.record) rfl rfl rfl
  | publishes | stops => exact continues_of_record ⟨rfl, rfl, rfl⟩ rfl rfl rfl
  | restarts => exact continues_of_record (orphan_same _ s.record) rfl rfl rfl
  | superseded | reports | asks | claims | routes | flushes | keeps | lists | passEnds | finds
  | unpublished | asksAgain | passClaims | passRoutes | respawns | launchFails =>
    exact continues_of_record (.refl s.record) rfl rfl rfl

/-- What is under way is about the launch the record is in. -/
structure Fitted (s : Shift) : Prop where
  current : ∃ a, s.record.currentAttempt = some a ∧ a < s.nextId
  handler : s.handler.Fits s
  pass : s.pass.Fits s

theorem Fitted.found (h : Fitted s) {t : TaskDone} (hsame : Same record s.record)
    (hfind : findTaskDone s.done record.spawn record.currentAttempt = some t) : s.Answers t := by
  apply findTaskDone_answers hsame
  · exact h.current.imp fun a ha => ha.1
  · exact hfind

theorem Fitted.continues (h : Fitted s) (hc : Continues s s')
    (hh : s'.handler.Fits s) (hp : s'.pass.Fits s) : Fitted s' := by
  refine ⟨?_, hc.fits hh, hc.passFits hp⟩
  obtain ⟨a, ha, hlt⟩ := h.current
  exact ⟨a, hc.same.attempt.trans ha, Nat.lt_of_lt_of_le hlt hc.nextId⟩

def calmBegin (s : Shift) : ShiftOp → Prop
  | .begin => s.handler.isIdle = true ∧ s.pass.isIdle = true
  | _ => True

theorem apart.calm (h : apart s op) : calmBegin s op := by
  cases op with
  | begin => exact h
  | _ => trivial

theorem Handler.eq_idle (h : handler.isIdle = true) : handler = .idle := by
  cases handler with
  | idle => rfl
  | _ => cases h

theorem Pass.eq_idle {pass : Pass} (h : pass.isIdle = true) : pass = .idle := by
  cases pass with
  | idle => rfl
  | _ => cases h

theorem Fitted.handle (h : Fitted s) (hm : Move s .handle s') : Fitted s' := by
  have hc : Continues s s' := hm.continues (by nofun)
  have hh := h.handler
  have hp := h.pass
  cases hm with
  | superseded => exact h
  | merges | withholds | routes | keeps => exact h.continues hc trivial hp
  | asks hturn hstate =>
    rw [hturn] at hh
    exact h.continues hc ⟨hh, fun t hfind => h.found hh hfind⟩ hp
  | @claims turn found state publish hturn hclaim =>
    rw [hturn] at hh
    refine h.continues hc ⟨hh.2, ?_⟩ hp
    intro hpublish herror
    have hspec := claimCompletion_publish s.completion turn.pre.createdAt turn.isError
      (s.harnessTerminal || found.isSome)
    rw [hclaim, herror, Bool.false_or] at hspec
    have hdone := (Bool.and_eq_true_iff.mp (hspec.symm.trans hpublish)).2
    cases (Bool.or_eq_true_iff.mp hdone) with
    | inl hterminal => exact .inl hterminal
    | inr hsome =>
      obtain ⟨t, ht⟩ := Option.isSome_iff_exists.mp hsome
      exact .inr ⟨t, hh.2 t ht⟩
  | settles hturn =>
    rw [hturn] at hh
    exact h.continues hc ⟨turnEnded_same _ _ _ s.record, hh.2 rfl⟩ hp
  | flushes hexit =>
    rw [hexit] at hh
    exact h.continues hc ⟨hh, nofun⟩ hp

theorem Fitted.reconcile (h : Fitted s) (hm : Move s (.reconcile now) s') : Fitted s' := by
  have hc : Continues s s' := hm.continues (by nofun)
  have hh := h.handler
  have hp := h.pass
  cases hm with
  | superseded => exact h
  | passEnds | passRoutes => exact h.continues hc hh trivial
  | finds hlist hfind =>
    rw [hlist] at hp
    exact h.continues hc hh ⟨hp, h.found hp hfind⟩
  | unpublished hfound =>
    rw [hfound] at hp
    exact h.continues hc hh hp
  | reconciles hfound hnext =>
    cases hnext with
    | inl hsettled =>
      subst hsettled
      exact h.continues hc hh (reconciled_same _ s.record)
    | inr hidle =>
      subst hidle
      exact h.continues hc hh trivial
  | asksAgain hsettled =>
    rw [hsettled] at hp
    refine h.continues hc hh ⟨hp, ?_⟩
    intro hsome
    obtain ⟨t, ht⟩ := Option.isSome_iff_exists.mp hsome
    exact ⟨t, h.found hp ht⟩
  | @passClaims now record declaredDone state publish pass hasked hclaim hnext =>
    rw [hasked] at hp
    subst hnext
    apply h.continues hc hh
    cases publish with
    | false => trivial
    | true =>
      have hspec := claimCompletion_publish s.completion record.createdAt false declaredDone
      rw [hclaim, Bool.false_or] at hspec
      exact ⟨hp.1, hp.2 (Bool.and_eq_true_iff.mp hspec.symm).2⟩

theorem fitted_begin (hg : calmBegin s .begin) : Fitted { s with
    respawn := .begun
    record := { s.record with currentAttempt := some s.nextId }
    nextId := s.nextId + 1 } := by
  refine ⟨⟨s.nextId, rfl, Nat.lt_succ_self _⟩, ?_, ?_⟩
  · show s.handler.Fits _
    rw [Handler.eq_idle hg.1]
    trivial
  · show s.pass.Fits _
    rw [Pass.eq_idle hg.2]
    trivial

theorem Fitted.move (h : Fitted s) (hg : calmBegin s op) (hm : Move s op s') : Fitted s' := by
  by_cases hop : op = .begin
  · subst hop
    cases hm with
    | superseded => exact h
    | begins => exact fitted_begin hg
  · have hc : Continues s s' := hm.continues hop
    have hh := h.handler
    have hp := h.pass
    cases op with
    | handle => exact h.handle hm
    | reconcile now => exact h.reconcile hm
    | begin => exact absurd rfl hop
    | completed session isError text =>
      cases hm with
      | superseded => exact h
      | reports => exact h.continues hc (.refl s.record) hp
    | exited session text =>
      cases hm with
      | superseded => exact h
      | exits => exact h.continues hc (exitedRecord_same _ s.record) hp
    | list =>
      cases hm with
      | superseded => exact h
      | lists => exact h.continues hc hh (.refl s.record)
    | taskDone tuple | respawn | publish | published | launchFails | stop text =>
      cases hm with
      | superseded => exact h
      | _ => exact h.continues hc hh hp
    | restart =>
      cases hm with
      | superseded => exact h
      | restarts => exact h.continues hc trivial trivial

def Shift.filed (s : Shift) : Nat :=
  s.results.countP fun r => r.spawn = s.record.spawn && r.attempt = s.record.currentAttempt

def Handler.pending : Handler → Nat
  | .claimed _ _ true => 1
  | .settled _ _ _ => 1
  | _ => 0

def Pass.pending : Pass → Nat
  | .claimed _ _ => 1
  | _ => 0

def Shift.taken (s : Shift) : Nat := s.filed + s.handler.pending + s.pass.pending

/-- The pass has yet to look for a result of the launch. -/
def Pass.Early : Pass → Prop
  | .idle => True
  | .listed _ => True
  | .found _ _ => True
  | _ => False

/-- After a restart only a pass can route a result, and it looks for one first. -/
structure Quiet (s : Shift) : Prop where
  sessions : s.sessions = []
  handler : s.handler = .idle
  pass : s.pass.Early

/-- At most one result of the launch, which memory or the tuples then know of. -/
def Ledger (s : Shift) : Prop := s.taken = 0 ∨ s.taken = 1 ∧ (s.entry.routed = true ∨ Quiet s)

/-- The handler will route nothing. -/
def Handler.Spent (s : Shift) : Handler → Prop
  | .idle => True
  | .reported turn => turn.pre.state = .stopped ∨ turn.pre.state = .completed
  | .exited _ => s.holdsTurn = false
  | _ => False

def Pass.Waits : Pass → Prop
  | .idle => True
  | .listed _ => True
  | _ => False

/-- An attempt that is not published has no result. -/
def Window (s : Shift) : Prop :=
  s.respawn.isOpen = true → s.taken = 0 ∧ s.handler.Spent s ∧ s.pass.Waits

structure Filed (s : Shift) : Prop where
  written : ∀ r ∈ s.results, ∃ a, r.attempt = some a ∧ a < s.nextId
  one : OnePerLaunch s

structure Tidy (s : Shift) : Prop where
  fitted : Fitted s
  filed : Filed s
  ledger : Ledger s
  window : Window s

theorem Continues.filed_eq (hc : Continues s s') (hres : s'.results = s.results) :
    s'.filed = s.filed := by
  unfold filed
  rw [hres, hc.same.spawn, hc.same.attempt]

theorem Continues.entry_eq (hc : Continues s s') (hcomp : s'.completion = s.completion) :
    s'.entry = s.entry := by
  unfold entry
  rw [hcomp, hc.same.generation]

theorem Continues.taken_eq (hc : Continues s s') (hres : s'.results = s.results)
    (hpend : s'.handler.pending + s'.pass.pending = s.handler.pending + s.pass.pending) :
    s'.taken = s.taken := by
  have hfiled := hc.filed_eq hres
  unfold taken
  omega

theorem OnePerLaunch.filed_le (h : OnePerLaunch s) : s.filed ≤ 1 :=
  h.once s.record.spawn s.record.currentAttempt

theorem filed_of_none (hsame : Same record s.record)
    (hcurrent : ∃ a, s.record.currentAttempt = some a)
    (hn : harnessResultExists s.results record = false) : s.filed = 0 := by
  obtain ⟨a, ha⟩ := hcurrent
  unfold harnessResultExists at hn
  rw [hsame.attempt, hsame.spawn, ha] at hn
  have hn : (s.results.any fun r => r.spawn = s.record.spawn && r.attempt = some a) = false :=
    hn
  unfold filed
  rw [ha, countP_eq_zero]
  intro r hr
  rw [any_eq_false] at hn
  exact hn r hr

theorem resultOf_keyed (hsame : Same record s.record) (isError declaredDone : Bool) :
    (resultOf record isError declaredDone).spawn = s.record.spawn ∧
      (resultOf record isError declaredDone).attempt = s.record.currentAttempt :=
  ⟨hsame.spawn, hsame.attempt⟩

theorem Filed.mono (h : Filed s) (hres : s'.results = s.results)
    (hterm : s'.harnessTerminal = s.harnessTerminal) (hdone : ∀ t ∈ s.done, t ∈ s'.done)
    (hid : s.nextId ≤ s'.nextId) : Filed s' := by
  refine ⟨?_, ?_, ?_⟩
  · intro r hr
    rw [hres] at hr
    obtain ⟨a, ha, hlt⟩ := h.written r hr
    exact ⟨a, ha, Nat.lt_of_lt_of_le hlt hid⟩
  · intro spawn attempt
    rw [hres]
    exact h.one.once spawn attempt
  · intro r hr he
    rw [hres] at hr
    cases h.one.earned r hr he with
    | inl ht => exact .inl (hterm.trans ht)
    | inr hd =>
      obtain ⟨t, ht, hkey⟩ := hd
      exact .inr ⟨t, hdone t ht, hkey⟩

/-- The first result of a launch. -/
theorem Filed.route (h : Filed s) (hf : Fitted s) {isError : Bool} (declaredDone : Bool)
    (hsame : Same record s.record)
    (hearned : isError = false → s.harnessTerminal = true ∨ ∃ t, s.Answers t) (hn : s.filed = 0)
    (handler : Handler) (pass : Pass) :
    Filed { s with
      handler, pass, results := s.results ++ [resultOf record isError declaredDone] } := by
  obtain ⟨hspawn, hattempt⟩ := resultOf_keyed hsame isError declaredDone
  refine ⟨?_, ?_, ?_⟩
  · intro r hr
    cases mem_append.mp hr with
    | inl hold => exact h.written r hold
    | inr hnew =>
      rw [mem_singleton.mp hnew]
      exact hf.current.imp fun a ha => ⟨hattempt.trans ha.1, ha.2⟩
  · intro spawn attempt
    show (s.results ++ [resultOf record isError declaredDone]).countP _ ≤ 1
    have hone := h.one.once spawn attempt
    by_cases hkey : s.record.spawn = spawn ∧ s.record.currentAttempt = attempt
    · obtain ⟨rfl, rfl⟩ := hkey
      have hzero : s.results.countP (fun r => r.spawn = s.record.spawn &&
          r.attempt = s.record.currentAttempt) = 0 := hn
      rw [countP_append, hzero, Nat.zero_add]
      exact countP_le_length
    · rw [countP_append, countP_singleton, if_neg]
      · exact hone
      · rw [hspawn, hattempt, Bool.and_eq_true]
        exact fun hk => hkey ⟨of_decide_eq_true hk.1, of_decide_eq_true hk.2⟩
  · intro r hr he
    cases mem_append.mp hr with
    | inl hold => exact h.one.earned r hold he
    | inr hnew =>
      have hnew := mem_singleton.mp hnew
      subst hnew
      cases hearned he with
      | inl ht => exact .inl ht
      | inr hd =>
        obtain ⟨t, ht⟩ := hd
        refine .inr ⟨t, ht.written, ?_, ?_⟩
        · exact ht.spawn.trans hspawn.symm
        · exact ht.attempt.trans hattempt.symm

theorem Ledger.le_one (h : Ledger s) : s.taken ≤ 1 := by
  cases h with
  | inl h0 | inr h1 => omega

theorem Ledger.keep (h : Ledger s) (hc : Continues s s') (hres : s'.results = s.results)
    (hpend : s'.handler.pending + s'.pass.pending = s.handler.pending + s.pass.pending)
    (hcomp : s'.completion = s.completion) (hquiet : Quiet s → Quiet s') : Ledger s' := by
  have htaken := hc.taken_eq hres hpend
  have hentry := hc.entry_eq hcomp
  unfold Ledger
  rw [htaken, hentry]
  exact h.imp_right fun h1 => ⟨h1.1, h1.2.imp_right hquiet⟩

theorem Ledger.routed (h : Ledger s) (htaken : s.taken ≠ 0) (hquiet : ¬ Quiet s) :
    s.entry.routed = true := by
  cases h with
  | inl h0 => exact absurd h0 htaken
  | inr h1 => exact h1.2.resolve_right hquiet

theorem not_quiet_of_handler (hh : s.handler.isIdle = false) : ¬ Quiet s := by
  intro hq
  rw [hq.handler] at hh
  cases hh

theorem Pass.pending_of_ne {pass : Pass}
    (hp : ∀ record declaredDone, pass ≠ .claimed record declaredDone) : pass.pending = 0 := by
  cases pass with
  | claimed record declaredDone => exact absurd rfl (hp record declaredDone)
  | _ => rfl

theorem not_quiet_of_session {session : SpawnId} (hm : session ∈ s.sessions) : ¬ Quiet s := by
  intro hq
  rw [hq.sessions] at hm
  cases hm

theorem not_quiet_of_pass (hp : ¬ s.pass.Early) : ¬ Quiet s := fun hq => hp hq.pass

theorem Ledger.free (h : Ledger s) (hquiet : ¬ Quiet s) (hrouted : s.entry.routed = false) :
    s.taken = 0 := by
  by_contra htaken
  have hr := h.routed htaken hquiet
  rw [hrouted] at hr
  cases hr

theorem Tidy.filed_move (h : Tidy s) (hm : Move s op s') : Filed s' := by
  by_cases hop : op = .begin
  · subst hop
    cases hm with
    | superseded => exact h.filed
    | begins => exact h.filed.mono rfl rfl (fun t ht => ht) (Nat.le_succ _)
  · have hc : Continues s s' := hm.continues hop
    have hle := h.ledger.le_one
    have hh := h.fitted.handler
    have hp := h.fitted.pass
    have hsame : s'.results = s.results → Filed s' := fun hres =>
      h.filed.mono hres hc.terminal hc.done hc.nextId
    cases hm with
    | begins => exact absurd rfl hop
    | @routes record isError declaredDone hsettled =>
      unfold taken at hle
      rw [hsettled] at hle hh
      have hpending : (Handler.settled record isError declaredDone).pending = 1 := rfl
      exact h.filed.route h.fitted declaredDone hh.1 hh.2 (by omega) .idle s.pass
    | @passRoutes now record declaredDone hclaimed =>
      unfold taken at hle
      rw [hclaimed] at hle hp
      have hpending : (Pass.claimed record declaredDone).pending = 1 := rfl
      exact h.filed.route h.fitted declaredDone hp.1 (fun _ => .inr hp.2) (by omega) s.handler .idle
    | _ => exact hsame rfl

theorem Filed.fresh (h : Filed s) (record : AgentRecord)
    (hattempt : record.currentAttempt = some s.nextId) :
    s.results.countP (fun r => r.spawn = record.spawn && r.attempt = record.currentAttempt) = 0 := by
  rw [countP_eq_zero]
  intro r hr hkey
  obtain ⟨a, ha, hlt⟩ := h.written r hr
  have hsame := of_decide_eq_true (Bool.and_eq_true_iff.mp hkey).2
  rw [ha, hattempt] at hsame
  cases hsame
  exact Nat.lt_irrefl _ hlt

variable {publish : Bool}

theorem Ledger.claim (h : Ledger s) (hquiet : ¬ Quiet s)
    (hfirst : publish = true → s.entry.routed = false)
    (hrouted : s'.entry.routed = (s.entry.routed || publish))
    (htaken : s'.taken = s.taken + publish.toNat) : Ledger s' := by
  cases publish with
  | true =>
    have hfree := h.free hquiet (hfirst rfl)
    refine .inr ⟨?_, .inl ?_⟩
    · rw [htaken, hfree]
      rfl
    · rw [hrouted, Bool.or_true]
  | false =>
    by_cases hzero : s.taken = 0
    · apply Or.inl
      rw [htaken, hzero]
      rfl
    · have hone := h.le_one
      have hr := h.routed hzero hquiet
      refine .inr ⟨?_, .inl ?_⟩
      · rw [htaken]
        show s.taken + 0 = 1
        omega
      · rw [hrouted, hr, Bool.true_or]

theorem Ledger.refused (h : Ledger s) (hquiet : ¬ Quiet s) (hentry : s'.entry = s.entry)
    (htaken : s'.taken = s.taken) : Ledger s' := by
  apply h.claim hquiet (fun hf => absurd hf Bool.false_ne_true)
  · rw [hentry, Bool.or_false]
  · exact htaken

theorem claim_spec {record : AgentRecord} {isError declaredDone publish : Bool}
    {state : CompletionState} (hsame : Same record s.record)
    (hclaim : claimCompletion s.completion record.createdAt isError declaredDone =
      (state, publish)) :
    (publish = true → s.entry.routed = false) ∧
      (entryOf (some state) s.record.createdAt).routed = (s.entry.routed || publish) := by
  rw [hsame.generation] at hclaim
  have hp := claimCompletion_publish s.completion s.record.createdAt isError declaredDone
  have hr := claimCompletion_routed s.completion s.record.createdAt isError declaredDone
  rw [hclaim] at hp hr
  refine ⟨?_, hr⟩
  intro hpublish
  have hboth := Bool.and_eq_true_iff.mp (hp.symm.trans hpublish)
  exact Bool.not_eq_true' _ ▸ hboth.1

theorem flush_spec {completion : Option CompletionState} (hsame : Same record s.record)
    (hflush : flushWithheldCompletion s.completion record.createdAt = (completion, publish)) :
    publish = s.holdsTurn ∧
      (entryOf completion s.record.createdAt).routed = (s.entry.routed || publish) := by
  rw [hsame.generation] at hflush
  have hspec := flushWithheldCompletion_spec s.completion s.record.createdAt
  rw [hflush] at hspec
  exact hspec

theorem holdsTurn_free (h : s.holdsTurn = true) : s.entry.routed = false := by
  have hboth := Bool.and_eq_true_iff.mp h
  exact Bool.not_eq_true' _ ▸ hboth.1

theorem taken_append (hsame : Same record s.record) (isError declaredDone : Bool)
    (handler : Handler) (pass : Pass) :
    taken { s with
      handler, pass, results := s.results ++ [resultOf record isError declaredDone] } =
        s.filed + 1 + handler.pending + pass.pending := by
  obtain ⟨hspawn, hattempt⟩ := resultOf_keyed hsame isError declaredDone
  unfold taken filed
  rw [countP_append, countP_singleton, if_pos]
  rw [hspawn, hattempt, decide_eq_true rfl, decide_eq_true rfl]
  rfl

theorem Move.busy (hm : Move s .handle s') : s' = s ∨ ¬ Quiet s := by
  cases hm with
  | superseded => exact .inl rfl
  | merges hh | asks hh | claims hh | settles hh | withholds hh | routes hh | flushes hh | keeps hh =>
    apply Or.inr
    apply not_quiet_of_handler
    rw [hh]
    rfl

theorem Tidy.ledger_handle (h : Tidy s) (hm : Move s .handle s') : Ledger s' := by
  have hc : Continues s s' := hm.continues (by nofun)
  have hl := h.ledger
  have hh := h.fitted.handler
  cases hm.busy with
  | inl hsame =>
    rw [hsame]
    exact hl
  | inr hquiet =>
    cases hm with
    | superseded => exact hl
    | merges hturn | asks hturn hstate | @settles turn found hturn | withholds hturn =>
      refine hl.keep hc rfl ?_ rfl fun hq => absurd hq hquiet
      rw [hturn]
      rfl
    | @claims turn found state publish hturn hclaim =>
      rw [hturn] at hh
      obtain ⟨hfirst, hrouted⟩ := claim_spec hh.1 hclaim
      refine hl.claim hquiet hfirst hrouted ?_
      show s.filed + (Handler.claimed turn found publish).pending + s.pass.pending = _
      unfold taken
      rw [hturn]
      cases publish with
      | true =>
        show s.filed + 1 + s.pass.pending = s.filed + 0 + s.pass.pending + 1
        omega
      | false => rfl
    | @routes record isError declaredDone hsettled =>
      rw [hsettled] at hh
      refine hl.refused hquiet rfl ?_
      rw [taken_append hh.1 isError declaredDone .idle s.pass]
      unfold taken
      rw [hsettled]
      rfl
    | @flushes record completion hexit hflush =>
      rw [hexit] at hh
      obtain ⟨hholds, hrouted⟩ := flush_spec hh hflush
      refine hl.claim hquiet (fun _ => holdsTurn_free hholds.symm) hrouted ?_
      show s.filed + 1 + s.pass.pending = _
      unfold taken
      rw [hexit]
      show s.filed + 1 + s.pass.pending = s.filed + 0 + s.pass.pending + 1
      omega
    | @keeps record completion hexit hflush =>
      rw [hexit] at hh
      obtain ⟨hholds, hrouted⟩ := flush_spec hh hflush
      refine hl.claim hquiet (fun hf => by cases hf) hrouted ?_
      show s.filed + 0 + s.pass.pending = _
      unfold taken
      rw [hexit]
      rfl

theorem Tidy.ledger_reconcile (h : Tidy s) (hm : Move s (.reconcile now) s') : Ledger s' := by
  have hc : Continues s s' := hm.continues (by nofun)
  have hl := h.ledger
  have hp := h.fitted.pass
  cases hm with
  | superseded => exact hl
  | passEnds now hopen =>
    refine hl.keep hc rfl ?_ rfl fun hq => ⟨hq.sessions, hq.handler, trivial⟩
    rw [Pass.pending_of_ne hopen]
    rfl
  | finds hlist hfind =>
    refine hl.keep hc rfl ?_ rfl fun hq => ⟨hq.sessions, hq.handler, trivial⟩
    rw [hlist]
    rfl
  | unpublished hfound hn =>
    rw [hfound] at hp
    have hzero := filed_of_none hp.1 (h.fitted.current.imp fun a ha => ha.1) hn
    have htaken : taken { s with pass := .unpublished _ _ } = s.taken := hc.taken_eq rfl (by
      rw [hfound]
      rfl)
    by_cases hq : Quiet s
    · apply Or.inl
      rw [htaken]
      unfold taken
      rw [hzero, hq.handler, hfound]
      rfl
    · exact hl.refused hq rfl htaken
  | @reconciles now record tuple pass hfound hnext =>
    have hlate : ¬ s.pass.Early := by
      rw [hfound]
      exact id
    refine hl.keep hc rfl ?_ rfl fun hq => absurd hq (not_quiet_of_pass hlate)
    rw [hfound]
    cases hnext with
    | inl hsettled | inr hsettled =>
      rw [hsettled]
      rfl
  | asksAgain hsettled =>
    have hlate : ¬ s.pass.Early := by
      rw [hsettled]
      exact id
    refine hl.keep hc rfl ?_ rfl fun hq => absurd hq (not_quiet_of_pass hlate)
    rw [hsettled]
    rfl
  | @passClaims now record declaredDone state publish pass hasked hclaim hnext =>
    have hlate : ¬ s.pass.Early := by
      rw [hasked]
      exact id
    rw [hasked] at hp
    obtain ⟨hfirst, hrouted⟩ := claim_spec hp.1 hclaim
    refine hl.claim (not_quiet_of_pass hlate) hfirst hrouted ?_
    show s.filed + s.handler.pending + pass.pending = s.taken + publish.toNat
    unfold taken
    rw [hasked, hnext]
    cases publish with
    | true | false => rfl
  | @passRoutes now record declaredDone hclaimed =>
    have hlate : ¬ s.pass.Early := by
      rw [hclaimed]
      exact id
    rw [hclaimed] at hp
    refine hl.refused (not_quiet_of_pass hlate) rfl ?_
    rw [taken_append hp.1 false declaredDone s.handler .idle]
    unfold taken
    rw [hclaimed]
    show s.filed + 1 + s.handler.pending + 0 = s.filed + s.handler.pending + 1
    omega

theorem Tidy.ledger_begin (h : Tidy s) (hg : calmBegin s .begin) : Ledger { s with
    respawn := .begun
    record := { s.record with currentAttempt := some s.nextId }
    nextId := s.nextId + 1 } := by
  have hfresh := h.filed.fresh { s.record with currentAttempt := some s.nextId } rfl
  apply Or.inl
  show List.countP _ s.results + s.handler.pending + s.pass.pending = 0
  rw [Handler.eq_idle hg.1, Pass.eq_idle hg.2]
  exact hfresh

theorem Tidy.ledger_restart (h : Tidy s) : Ledger { s with
    record := orphan s.record.updatedAt s.record
    completion := none
    token := none
    sessions := []
    handler := .idle
    pass := .idle
    respawn := .idle } := by
  have hc : Continues s _ := Move.restarts.continues (by nofun)
  have hfiled := hc.filed_eq rfl
  have hone := h.filed.one.filed_le
  unfold Ledger taken
  rw [hfiled]
  show s.filed = 0 ∨ s.filed = 1 ∧ _
  by_cases hzero : s.filed = 0
  · exact .inl hzero
  · exact .inr ⟨by omega, .inr ⟨rfl, rfl, trivial⟩⟩

theorem Tidy.ledger_move (h : Tidy s) (hg : calmBegin s op) (hm : Move s op s') : Ledger s' := by
  have hl := h.ledger
  by_cases hop : op = .begin
  · subst hop
    cases hm with
    | superseded => exact hl
    | begins => exact h.ledger_begin hg
  · have hc : Continues s s' := hm.continues hop
    cases op with
    | handle => exact h.ledger_handle hm
    | reconcile now => exact h.ledger_reconcile hm
    | begin => exact absurd rfl hop
    | completed session isError text =>
      cases hm with
      | superseded => exact hl
      | reports hidle hmem =>
        refine hl.keep hc rfl ?_ rfl fun hq => absurd hq (not_quiet_of_session hmem)
        rw [hidle]
        rfl
    | exited session text =>
      cases hm with
      | superseded => exact hl
      | exits hidle hmem =>
        refine hl.keep hc rfl ?_ rfl fun hq => absurd hq (not_quiet_of_session hmem)
        rw [hidle]
        rfl
    | list =>
      cases hm with
      | superseded => exact hl
      | lists hidle =>
        refine hl.keep hc rfl ?_ rfl fun hq => ⟨hq.sessions, hq.handler, trivial⟩
        rw [hidle]
        rfl
    | taskDone tuple | respawn | publish | launchFails | stop text =>
      cases hm with
      | superseded => exact hl
      | _ => exact hl.keep hc rfl rfl rfl fun hq => ⟨hq.sessions, hq.handler, hq.pass⟩
    | published =>
      cases hm with
      | superseded => exact hl
      | published hrespawn =>
        obtain ⟨htaken, -, -⟩ := h.window (by rw [hrespawn]; rfl)
        exact .inl ((hc.taken_eq rfl rfl).trans htaken)
    | restart =>
      cases hm with
      | superseded => exact hl
      | restarts => exact h.ledger_restart

theorem Window.shut (h : s'.respawn.isOpen = false) : Window s' := by
  intro hopen
  rw [h] at hopen
  cases hopen

theorem Continues.holdsTurn_eq (hc : Continues s s') (hcomp : s'.completion = s.completion) :
    s'.holdsTurn = s.holdsTurn := by
  unfold holdsTurn
  rw [hc.entry_eq hcomp]

theorem Handler.Spent.continues (h : handler.Spent s) (hc : Continues s s')
    (hcomp : s'.completion = s.completion) : handler.Spent s' := by
  cases handler with
  | exited record => exact (hc.holdsTurn_eq hcomp).trans h
  | idle => trivial
  | reported turn | asked turn found | claimed turn found publish
  | settled record isError declaredDone => exact h

theorem Window.keep (h : Window s) (hc : Continues s s') (hres : s'.results = s.results)
    (hpend : s'.handler.pending + s'.pass.pending = s.handler.pending + s.pass.pending)
    (hopen : s'.respawn.isOpen = true → s.respawn.isOpen = true)
    (hspent : s.respawn.isOpen = true → s.handler.Spent s → s'.handler.Spent s')
    (hwaits : s.pass.Waits → s'.pass.Waits) : Window s' := by
  intro ho
  have hwas := hopen ho
  obtain ⟨htaken, hs, hw⟩ := h hwas
  exact ⟨(hc.taken_eq hres hpend).trans htaken, hspent hwas hs, hwaits hw⟩

theorem Window.no_handler (h : Window s) (hopen : s'.respawn.isOpen = s.respawn.isOpen)
    (hbusy : ¬ s.handler.Spent s) : Window s' := by
  intro ho
  rw [hopen] at ho
  exact absurd (h ho).2.1 hbusy

theorem Window.no_pass (h : Window s) (hopen : s'.respawn.isOpen = s.respawn.isOpen)
    (hlate : ¬ s.pass.Waits) : Window s' := by
  intro ho
  rw [hopen] at ho
  exact absurd (h ho).2.2 hlate

theorem Shift.finds_listed (hp : s.pass = .listed record) :
    s.finds = (findTaskDone s.done record.spawn record.currentAttempt).isSome := by
  unfold finds
  rw [hp]

theorem Tidy.window_begin (h : Tidy s) (hg : apart s .begin) : Window { s with
    respawn := .begun
    record := { s.record with currentAttempt := some s.nextId }
    nextId := s.nextId + 1 } := by
  intro hopen
  have hfresh := h.filed.fresh { s.record with currentAttempt := some s.nextId } rfl
  obtain ⟨hh, hp⟩ := hg
  refine ⟨?_, ?_, ?_⟩
  · show List.countP _ s.results + s.handler.pending + s.pass.pending = 0
    rw [Handler.eq_idle hh, Pass.eq_idle hp]
    exact hfresh
  · show s.handler.Spent _
    rw [Handler.eq_idle hh]
    trivial
  · show s.pass.Waits
    rw [Pass.eq_idle hp]
    trivial

theorem Tidy.window_handle (h : Tidy s) (hm : Move s .handle s') : Window s' := by
  have hc : Continues s s' := hm.continues (by nofun)
  have hw := h.window
  cases hm with
  | superseded => exact hw
  | merges hturn | keeps hturn =>
    refine hw.keep hc rfl ?_ id (fun _ _ => trivial) id
    rw [hturn]
    rfl
  | asks hturn hstate =>
    refine hw.no_handler rfl ?_
    rw [hturn]
    exact hstate
  | claims hturn | settles hturn | withholds hturn | routes hturn =>
    refine hw.no_handler rfl ?_
    rw [hturn]
    exact id
  | flushes hexit hflush =>
    have hh := h.fitted.handler
    rw [hexit] at hh
    have hholds := (flush_spec hh hflush).1
    refine hw.no_handler rfl ?_
    rw [hexit]
    intro hn
    rw [show s.holdsTurn = false from hn] at hholds
    cases hholds

theorem Tidy.window_reconcile (h : Tidy s) (hg : apart s (.reconcile now))
    (hm : Move s (.reconcile now) s') : Window s' := by
  have hc : Continues s s' := hm.continues (by nofun)
  have hw := h.window
  cases hm with
  | superseded => exact hw
  | passEnds now hl =>
    refine hw.keep hc rfl ?_ id (fun _ hs => hs.continues hc rfl) fun _ => trivial
    rw [Pass.pending_of_ne hl]
    rfl
  | finds hlist hfind =>
    intro hopen
    have hn := hg hopen
    rw [finds_listed hlist, hfind] at hn
    cases hn
  | unpublished hfound | reconciles hfound | asksAgain hfound | passClaims hfound
  | passRoutes hfound =>
    refine hw.no_pass rfl ?_
    rw [hfound]
    exact id

theorem Tidy.window_move (h : Tidy s) (hg : apart s op) (hm : Move s op s') : Window s' := by
  have hw := h.window
  by_cases hop : op = .begin
  · subst hop
    cases hm with
    | superseded => exact hw
    | begins => exact h.window_begin hg
  · have hc : Continues s s' := hm.continues hop
    cases op with
    | handle => exact h.window_handle hm
    | reconcile now => exact h.window_reconcile hg hm
    | begin => exact absurd rfl hop
    | completed session isError text =>
      cases hm with
      | superseded => exact hw
      | reports hidle hmem howned =>
        refine hw.keep hc rfl ?_ id (fun ho _ => hg howned ho) id
        rw [hidle]
        rfl
    | exited session text =>
      cases hm with
      | superseded => exact hw
      | exits hidle hmem howned =>
        refine hw.keep hc rfl ?_ id (fun ho _ => (hc.holdsTurn_eq rfl).trans (hg howned ho)) id
        rw [hidle]
        rfl
    | list =>
      cases hm with
      | superseded => exact hw
      | lists hidle =>
        refine hw.keep hc rfl ?_ id (fun _ hs => hs.continues hc rfl) fun _ => trivial
        rw [hidle]
        rfl
    | taskDone tuple | stop text =>
      cases hm with
      | superseded => exact hw
      | _ => exact hw.keep hc rfl rfl id (fun _ hs => hs.continues hc rfl) id
    | respawn | published | launchFails | restart =>
      cases hm with
      | superseded => exact hw
      | _ => exact .shut rfl
    | publish =>
      cases hm with
      | superseded => exact hw
      | publishes hidle hrespawn =>
        refine hw.keep hc rfl rfl (fun _ => ?_) (fun _ hs => hs.continues hc rfl) id
        rw [hrespawn]
        rfl

theorem Tidy.step (h : Tidy s) (hg : apart s op) (hs : s.step op = some s') : Tidy s' := by
  have hm := step_moves hs
  exact ⟨h.fitted.move hg.calm hm, h.filed_move hm, h.ledger_move hg.calm hm, h.window_move hg hm⟩

end

theorem launched_fitted (record : AgentRecord) (harnessTerminal : Bool) :
    Fitted (launched record harnessTerminal) :=
  ⟨⟨0, rfl, Nat.zero_lt_two⟩, trivial, trivial⟩

theorem launched_tidy (record : AgentRecord) (harnessTerminal : Bool) :
    Tidy (launched record harnessTerminal) := by
  refine ⟨launched_fitted record harnessTerminal, ⟨?_, ?_, ?_⟩, .inl rfl, .shut rfl⟩
  · nofun
  · intro spawn attempt
    exact Nat.zero_le 1
  · nofun

/-- Along every run in which no respawn overlaps what can still route a result, a launch has one
result, and a good one only with its own `task_done`. -/
theorem one_result_per_launch (record : AgentRecord) (harnessTerminal : Bool) (ops : List ShiftOp)
    (hg : Meets step apart (launched record harnessTerminal) ops) :
    Keeps step OnePerLaunch (launched record harnessTerminal) ops := by
  have hkeeps : Keeps step Tidy (.launched record harnessTerminal) ops :=
    keeps_of_meets (fun s op s' h hs hg => h.step hg hs)
      (launched_tidy record harnessTerminal) hg
  exact hkeeps.mono fun s h => h.filed.one

instance (s : Shift) : ∀ op, Decidable (apart s op)
  | .completed session _ _ => inferInstanceAs (Decidable (_ = true → _))
  | .exited session _ => inferInstanceAs (Decidable (_ = true → _))
  | .reconcile _ => inferInstanceAs (Decidable (_ = true → _))
  | .begin => inferInstanceAs (Decidable (_ ∧ _))
  | .handle | .list | .taskDone _ | .respawn | .publish | .published | .launchFails | .stop _
  | .restart => isTrue trivial

def whisker : AgentRecord :=
  { name := "Whisker", spawn := 9, role := "developer", repoName := "barn", task := some "T-1"
    state := .running, createdAt := 0, updatedAt := 0 }

def declared (attempt : SpawnId) : TaskDone :=
  { spawn := 9, attempt := some attempt, summary := some "done", createdAt := 0 }

/-- The child of a respawn declares its attempt done and a pass routes it before the respawn
has published, which forgets that. -/
def routedBeforePublication : List ShiftOp :=
  [.restart, .respawn, .begin, .taskDone (declared 2), .list, .reconcile 0, .reconcile 0,
    .reconcile 0, .reconcile 0, .reconcile 0, .reconcile 0, .publish, .published,
    .completed 3 false "committed", .handle, .handle, .handle, .handle]

theorem respawn_routes_twice :
    ¬ Keeps step OnePerLaunch (launched whisker false) routedBeforePublication := by
  intro hk
  have hend : ((run step (.launched whisker false) routedBeforePublication).any
      fun s => decide (s.results.countP (fun r => r.spawn = 9 && r.attempt = some 2) = 2)) =
        true := by
    decide +kernel
  obtain ⟨s, hrun, htwo⟩ := run_of_any hend
  have hone := (hk.last hrun).once 9 (some 2)
  rw [of_decide_eq_true htwo] at hone
  exact absurd hone (by decide)

def respawnedAndDone : List ShiftOp :=
  [.completed 1 false "half", .handle, .handle, .handle, .taskDone (declared 0),
    .completed 1 false "whole", .handle, .handle, .handle, .handle, .list, .reconcile 0,
    .reconcile 0, .respawn, .begin, .exited 1 "exit 0", .handle, .publish, .published,
    .taskDone (declared 2), .completed 3 false "again", .handle, .handle, .handle, .handle,
    .restart, .list, .reconcile 0, .reconcile 0]

theorem one_result_per_launch_respawned :
    Keeps step OnePerLaunch (launched whisker false) respawnedAndDone := by
  apply one_result_per_launch
  decide +kernel

end RatKingdom.Supervisor
