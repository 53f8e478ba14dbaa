/-
The cycle of the reactor and the daemon that runs it.

`runCycle` reads the journal past the saved cursor, reacts to every tuple in it, saves
the boundary it read when nothing failed, and then makes its passes over the stored
transitions and the queue.  A daemon starts, runs cycles, and stops or dies at any
operation; a label carries everything the castle does meanwhile.
-/
import RatKingdom.Reactor.Sdlc
import RatKingdom.Lib.Run

namespace RatKingdom.Reactor

open Core Lib

/-- How many workflows a loop has fired, and whether something in it has to be retried. -/
structure Tally where
  fired : Nat := 0
  failed : Bool := false

section
variable (c : Castle) (registry : RepoRegistry)

/-- A reaction whose error only holds the cursor back. -/
def guarded {α : Type} (tally : Tally) (m : Op α) : Op Tally := do
  let done ← m.attempt
  match done with
  | .ok _ => pure tally
  | .error _ => pure { tally with failed := true }

def fireOne (t : Tuple) (tally : Tally) (loaded : Loaded) : Op Tally := do
  let done ← (tryFire c registry loaded t).attempt
  match done with
  | .ok true => pure { tally with fired := tally.fired + 1 }
  | .ok false => pure tally
  | .error _ => pure { tally with failed := true }

def fireTriggers (t : Tuple) (tally : Tally) : Op Tally :=
  if isObservationalSdlcTuple t then pure tally
  else c.triggers.foldlM (fireOne c registry t) tally

def linkResolution (t : Tuple) (tally : Tally) : Op Tally :=
  if t.category = .artifact ∨ t.category = .obstacle ∨ t.category = .need then
    guarded tally (proceed .builtin)
  else pure tally

/-- The body of the loop over the journal for a tuple the reactor did not write.  The
escalation push and the hooks before it never fail the cycle. -/
def reactToTuple (t : Tuple) (tally : Tally) : Op Tally := do
  let _ ← (proceed .builtin).attempt
  let tally ← guarded tally (reactToSdlcCiTransition t)
  let tally ← guarded tally (reactToSdlcAlertTransition c t)
  let tally ← fireTriggers c registry t tally
  linkResolution t tally

def reactToRecord (tally : Tally) (r : Record) : Op Tally :=
  match r with
  | .foreign t => if t.inst = reactorInstance then pure tally else reactToTuple c registry t tally
  | _ => pure tally

def backlogPasses (fired : Nat) : Op Nat := do
  let ci ← reactToSdlcCiTransitionBacklog
  let alerts ← reactToSdlcAlertTransitionBacklog c
  let drained ← drainQueuedFires c c.triggers
  let _ ← (proceed .builtin).attempt
  pure (fired + ci + alerts + drained)

def advanceCursor (tally : Tally) (cursor boundary : Nat) : Op PUnit :=
  if !tally.failed && cursor < boundary then saveCursor boundary else pure ⟨⟩

/-- `run_cycle` over the span of the journal it has read. -/
def reactToSpan (cursor boundary : Nat) (delta : List Record) : Op Nat := do
  let tally ← delta.foldlM (reactToRecord c registry) {}
  advanceCursor tally cursor boundary
  backlogPasses c tally.fired

/-- `run_cycle`.  The span read is noted before anything is done with it; the registry is
loaded after it, or cannot be. -/
def runCycle (registry : Option RepoRegistry) : Op Nat := do
  let h ← Act.get
  let cursor := h.cursorFile.getD 0
  let boundary := h.latestPersistenceSequence
  if boundary < cursor then
    Act.raise "tuple persistence cursor is ahead of the captured boundary"
  else do
    Act.modify fun h => { h with reads := (cursor, boundary) :: h.reads }
    match registry with
    | none => Act.raise "repository registry cannot be read"
    | some registry => reactToSpan c registry cursor boundary (h.journal.drop cursor)

def initializeCursor : Op PUnit := do
  let h ← Act.get
  if h.cursorFile.isSome then pure ⟨⟩
  else if 0 < h.latestPersistenceSequence then saveCursor h.latestPersistenceSequence
  else pure ⟨⟩

end

inductive Label where
  | start (turn : Turn)
  | cycle (registry : Option RepoRegistry) (turns : List Turn)
  | quiet (turn : Turn)
  | stop

/-- Runs `m` against a script; the process may die in it. -/
def Host.execute {α : Type} (h : Host) (turns : List Turn) (m : Op α) : Host :=
  match m { h with turns } with
  | (.error .gone, h') => h'.restart
  | (_, h') => { h' with turns := [] }

def step (c : Castle) (h : Host) : Label → Option Host
  | .start turn =>
    if h.up then none else some ({ h with up := true }.execute [turn] initializeCursor)
  | .cycle registry turns => if h.up then some (h.execute turns (runCycle c registry)) else none
  | .quiet turn => some (h.execute [turn] nextTurn)
  | .stop => if h.up then some h.restart else none

end RatKingdom.Reactor
