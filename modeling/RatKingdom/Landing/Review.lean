/-
Which review attempt of a candidate is current.

A candidate is reviewed by its primary attempt, by the retries dispatched after a reviewer
died, and by an attempt dispatched again after one ran into the wait ceiling.  What was
dispatched and what was settled is read off durable markers, and `cached_verdict` takes a
verdict only from the attempt they make current.  A settled chain is given a sentinel id
that no attempt has.
-/
import RatKingdom.Core.Keyed
import RatKingdom.Landing.Queue
import RatKingdom.Lib.Attempt
import RatKingdom.Telemetry.Span

namespace RatKingdom.Landing

open Core Space Lib
open Telemetry (asU64)

def reviewArtifactIdentity : String := "review"

def reviewCeilingSettledIdentity : String := "landing_review_ceiling_settled"

def reviewCeilingReenqueueIdentity : String := "landing_review_ceiling_reenqueue"

def reviewDeathDispatchIdentity : String := "landing_review_death_dispatch"

def shadowInstanceSuffix : String := "-shadow"

/-- `hex::encode` of the first sixteen bytes of a SHA-256 digest. -/
structure Sha where
  hex : String → String
  length_hex : ∀ s, (hex s).length = 32

section
variable (sha : Sha)

def reviewInstanceId (e : LandingQueueEntry) : String :=
  "landing-review-" ++ sha.hex (e.repoName ++ "@" ++ e.branch ++ "@" ++ e.headSha ++ "@" ++
    e.target ++ "@" ++ e.task)

def reviewRetryInstanceId (e : LandingQueueEntry) (retryAttempt : Nat) : String :=
  reviewInstanceId sha e ++ ("-retry" ++ toString retryAttempt)

/-- The ids a reviewer is launched under: the primary, a retry, the attempt that replaces a
settled one, or the shadow of an attempt. -/
inductive AttemptId : String → Prop
  | primary (e : LandingQueueEntry) : AttemptId (reviewInstanceId sha e)
  | retry (e : LandingQueueEntry) (n : Nat) : AttemptId (reviewRetryInstanceId sha e n)
  | reenqueued {a : String} (h : AttemptId a) : AttemptId (a ++ "-reenqueue")
  | shadow {a : String} (h : AttemptId a) : AttemptId (a ++ shadowInstanceSuffix)

end

structure ReviewDeathContext where
  repo : String
  repoPath : String
  branch : String
  headSha : String
  target : String
  task : String

namespace ReviewDeathContext

def ofEntry (e : LandingQueueEntry) : ReviewDeathContext :=
  { repo := e.repoName, repoPath := e.repoPath, branch := e.branch, headSha := e.headSha
    target := e.target, task := e.task }

def dispatchKey (c : ReviewDeathContext) : String :=
  c.repo ++ "\x00" ++ c.branch ++ "\x00" ++ c.headSha ++ "\x00" ++ c.target ++ "\x00" ++ c.task

def markerPayload (c : ReviewDeathContext) (attempt : UInt32) (instanceId state : String)
    (notBefore : Option DateTime) : Value :=
  .object [("attempt", .number (.int attempt.toNat)), ("branch", .string c.branch),
      ("dispatch_key", .string c.dispatchKey),
      ("head_sha", .string c.headSha),
      ("instance_id", .string instanceId),
      ("not_before", (notBefore.map fun t => Value.string t.toRfc3339).getD .null),
      ("repo", .string c.repo),
      ("state", .string state),
      ("target", .string c.target),
      ("task", .string c.task)]

end ReviewDeathContext

def markerPattern (identity repo : String) : Pattern :=
  { category := some .event, identity := some identity, scope := some repo }

def reviewDeathDispatchMarkers (s : Store) (c : ReviewDeathContext) : List Tuple :=
  (s.scan (markerPattern reviewDeathDispatchIdentity c.repo)).filter fun t =>
    t.payload.getStr "dispatch_key" = some c.dispatchKey

def isDispatch (t : Tuple) : Bool :=
  t.payload.getStr "state" = some "dispatching" || t.payload.getStr "state" = some "dispatched"

def reviewDeathSettledMarker (s : Store) (c : ReviewDeathContext) : Option Tuple :=
  (reviewDeathDispatchMarkers s c).find? fun t => !isDispatch t

def reviewCeilingSettlement (s : Store) (e : LandingQueueEntry) (attempt : String) : Option Tuple :=
  (s.scan (markerPattern reviewCeilingSettledIdentity e.repoName)).find? fun t =>
    t.payload.getStr "task" = some e.task && t.payload.getStr "branch" = some e.branch &&
      t.payload.getStr "target" = some e.target && t.payload.getStr "attempt" = some attempt

def reviewCeilingReenqueueMarker (s : Store) (e : LandingQueueEntry) (settledAttempt : String) :
    Option Tuple :=
  (s.scan (markerPattern reviewCeilingReenqueueIdentity e.repoName)).find? fun t =>
    t.payload.getStr "settled_attempt" = some settledAttempt

def requiredPayloadStr (payload : Value) (field source : String) : Except String String :=
  match payload.getStr field with
  | some text => if text = "" then .error (source ++ " missing " ++ field) else .ok text
  | none => .error (source ++ " missing " ++ field)

section
variable (sha : Sha) (s : Store) (e : LandingQueueEntry)

def latestRetry : Option Nat :=
  (((reviewDeathDispatchMarkers s (.ofEntry e)).filter isDispatch).filterMap fun t =>
    (t.payload.get "attempt").bind asU64).max?

def candidateAttempt : String :=
  match latestRetry s e with
  | some n => reviewRetryInstanceId sha e (n % 2 ^ 32)
  | none => reviewInstanceId sha e

def activeReviewAttempt : Except String String :=
  if (reviewDeathSettledMarker s (.ofEntry e)).isSome then
    .ok (reviewInstanceId sha e ++ "-settled")
  else
    match reviewCeilingReenqueueMarker s e (candidateAttempt sha s e) with
    | some t => requiredPayloadStr t.payload "new_attempt" "reenqueue marker"
    | none =>
      if (reviewCeilingSettlement s e (candidateAttempt sha s e)).isSome then
        .ok (candidateAttempt sha s e ++ "-ceiling-settled")
      else .ok (candidateAttempt sha s e)

/-- The pattern `cached_verdict` probes the review artifacts with. -/
def verdictPattern : Pattern :=
  { Pattern.forCommit .artifact reviewArtifactIdentity e.branch e.headSha with
    scope := some e.repoName }

def verdictOf (expected : String) (t : Tuple) : Option String :=
  if t.payload.getStr "task" = some e.task && t.payload.getStr "target" = some e.target &&
      t.payload.getStr "review_attempt" = some expected then
    t.payload.getStr "recommendation"
  else none

def cachedVerdict : Except String (Option String) := do
  let expected ← activeReviewAttempt sha s e
  pure ((s.scan (verdictPattern e)).findSome? (verdictOf e expected))

def verdictArtifact : Except String (Option Tuple) := do
  let expected ← activeReviewAttempt sha s e
  pure ((s.scan (verdictPattern e)).find? fun t => (verdictOf e expected t).isSome)

end

def daemonMarker (id : RecordId) (now : DateTime) (repo identity : String) (payload : Value) :
    Tuple :=
  (Tuple.new id now .event repo identity "daemon" payload).withLifecycle .furniture

def recordReviewDeathState (s : Store) (id : RecordId) (now : DateTime) (e : LandingQueueEntry)
    (attempt : UInt32) (instanceId state : String) (notBefore : Option DateTime) : Store :=
  s.push (daemonMarker id now e.repoName reviewDeathDispatchIdentity
    ((ReviewDeathContext.ofEntry e).markerPayload attempt instanceId state notBefore))

def settlementPayload (now : DateTime) (e : LandingQueueEntry) (attempt reason : String)
    (released : List String) : Value :=
  .object [("attempt", .string attempt), ("branch", .string e.branch),
      ("head_sha", .string e.headSha),
      ("reason", .string reason),
      ("released_agents", .array (released.map .string)),
      ("settled_at", .string now.toRfc3339),
      ("target", .string e.target),
      ("task", .string e.task)]

/-- `settle_review_ceiling`, after the reviewer is dismissed: one marker for an attempt. -/
def settleReviewCeiling (s : Store) (id : RecordId) (now : DateTime) (e : LandingQueueEntry)
    (attempt reason : String) (released : List String) : Store :=
  if (reviewCeilingSettlement s e attempt).isSome then s
  else
    s.push (daemonMarker id now e.repoName reviewCeilingSettledIdentity
      (settlementPayload now e attempt reason released))

def reenqueuePayload (e : LandingQueueEntry) (settledAttempt : String) (settlement : Tuple) :
    Value :=
  .object [("branch", .string e.branch), ("head_sha", .string e.headSha),
      ("new_attempt", .string (settledAttempt ++ "-reenqueue")),
      ("settled_attempt", .string settledAttempt),
      ("settled_reason", (settlement.payload.get "reason").getD .null),
      ("target", .string e.target),
      ("task", .string e.task)]

def reenqueueAfterCeiling (s : Store) (id : RecordId) (now : DateTime) (e : LandingQueueEntry)
    (settledAttempt : String) : Except String (Store × String) :=
  match reviewCeilingSettlement s e settledAttempt with
  | none =>
    .error ("cannot re-enqueue review for " ++ e.branch ++ " on " ++ e.task ++ ": attempt " ++
      settledAttempt ++ " was never ceiling-settled")
  | some settlement =>
    match reviewCeilingReenqueueMarker s e settledAttempt with
    | some existing =>
      (requiredPayloadStr existing.payload "new_attempt" "reenqueue marker").map fun a => (s, a)
    | none =>
      .ok (s.push (daemonMarker id now e.repoName reviewCeilingReenqueueIdentity
        (reenqueuePayload e settledAttempt settlement)), settledAttempt ++ "-reenqueue")

/-- An artifact as a reviewer writes it: a review attempt it names is one that was
launched. -/
structure ReviewArtifact (sha : Sha) where
  tuple : Tuple
  category : tuple.category = .artifact
  attempt : ∀ a, tuple.payload.getStr "review_attempt" = some a → AttemptId sha a

/-- One write of a history, by any candidate's pass or by any reviewer. -/
inductive Write (sha : Sha) where
  | reviewDeath (id : RecordId) (now : DateTime) (e : LandingQueueEntry) (attempt : UInt32)
      (instanceId state : String) (notBefore : Option DateTime)
  | settle (id : RecordId) (now : DateTime) (e : LandingQueueEntry) (attempt reason : String)
      (released : List String)
  | reenqueue (id : RecordId) (now : DateTime) (e : LandingQueueEntry) (settledAttempt : String)
  | artifact (a : ReviewArtifact sha)

def Write.apply {sha : Sha} (s : Store) : Write sha → Store
  | .reviewDeath id now e attempt instanceId state notBefore =>
    recordReviewDeathState s id now e attempt instanceId state notBefore
  | .settle id now e attempt reason released => settleReviewCeiling s id now e attempt reason released
  | .reenqueue id now e settledAttempt =>
    match reenqueueAfterCeiling s id now e settledAttempt with
    | .ok (s', _) => s'
    | .error _ => s
  | .artifact a => s.push a.tuple

def written {sha : Sha} (ws : List (Write sha)) : Store := ws.foldl Write.apply .empty

end RatKingdom.Landing
