/-
Coordinator events, and a client that watches them.

A writer puts an event in the journal under the lock of the space and broadcasts it after
releasing that lock.  A watch subscribes to the broadcast, answers with what it finds in the
journal, and streams from the broadcast what the answer does not cover.  The machine takes
the steps of any number of writers and of one client in any order.
-/
import Mathlib.Algebra.Group.Int.Defs
import RatKingdom.Core.Tuple
import RatKingdom.Lib.Coalesce
import RatKingdom.Lib.Run

namespace RatKingdom.Coordinator

open Core

structure CoordinatorEvent where
  cursor : Nat
  event : Tuple

abbrev Journal := List CoordinatorEvent

/-- `u64 as i64`. -/
def asI64 (n : Nat) : Int := if n < 2 ^ 63 then n else (n : Int) - 2 ^ 64

def eventsAfter (journal : Journal) (after : Option Nat) (limit : Nat) : List CoordinatorEvent :=
  (journal.filter fun e => asI64 (after.getD 0) < e.cursor).take limit

def latestSequence (journal : Journal) : Option Nat := (journal.map CoordinatorEvent.cursor).max?

def nextSequence (journal : Journal) : Nat := (latestSequence journal).getD 0 + 1

/-- `insert_coordinator`: a sequence is an `i64`, and there is none after the last. -/
def insertCoordinator (journal : Journal) (t : Tuple) : Option CoordinatorEvent :=
  if nextSequence journal < 2 ^ 63 then
    some ⟨nextSequence journal, t.withLifecycle .furniture⟩
  else none

def maxCursor : Option Nat → Option Nat → Option Nat
  | some left, some right => some (max left right)
  | left, none => left
  | none, right => right

def isAbove (seen : Option Nat) (cursor : Nat) : Bool :=
  match seen with
  | none => true
  | some seen => seen < cursor

def boundaryOf (scanned : List CoordinatorEvent) (limit : Nat) (after : Option Nat) : Option Nat :=
  (scanned[if limit < scanned.length then limit else scanned.length - 1]?.map
    CoordinatorEvent.cursor).or after

structure CoordinatorFilter where
  repo : Option String := none
  inst : Option String := none
  after : Option Nat := none
  coordinator : Option String := none
  subtree : Option String := none
  includes : List String := []

def eventInstance (t : Tuple) : Option String :=
  ((t.payload.get "instance").or (t.payload.get "workflow_instance")).bind Value.asStr

def eventAgent (t : Tuple) : Option String :=
  ((t.payload.get "agent").or ((t.payload.get "subject").bind fun s => s.get "agent")).bind
    Value.asStr

def permits (want have_ : Option String) : Bool :=
  match want with
  | none => true
  | some w => have_ = some w

def routeClass (t : Tuple) : String :=
  let route := (t.payload.getStr "route").getD "rollup"
  if route = "escalate" || route = "terminal" then "attention" else "rollup"

def observedIdentities : List String :=
  ["workflow_state_changed", "middle_rat_progress", "coordination_attention", "agent_lifecycle"]

def CoordinatorFilter.matchesEvent (f : CoordinatorFilter) (t : Tuple) : Bool :=
  t.category = .event && observedIdentities.contains t.identity &&
    permits f.repo (some t.scope) && permits f.coordinator (t.payload.getStr "coordinator") &&
    (f.includes.isEmpty || f.includes.contains (routeClass t)) &&
    permits f.inst (eventInstance t) && permits f.subtree (eventAgent t)

def rollupKey (e : CoordinatorEvent) : Option (String × String) :=
  if e.event.identity = "middle_rat_progress" && e.event.payload.getStr "route" = some "rollup" then
    some ((eventInstance e.event).getD "", (eventAgent e.event).getD "")
  else none

def maxReplayEvents : Nat := 256

structure Replay where
  events : List CoordinatorEvent
  boundary : Option Nat
  truncated : Bool

def CoordinatorFilter.replayed (f : CoordinatorFilter) (scanned : List CoordinatorEvent) :
    List CoordinatorEvent :=
  (scanned.take maxReplayEvents).filter fun e => f.matchesEvent e.event

/-- `coordinator::replay`: a rollup report takes the place of the earlier one of its
instance and agent. -/
def replay (scanned : List CoordinatorEvent) (f : CoordinatorFilter) : Replay :=
  { events := Lib.coalesce rollupKey (f.replayed scanned)
    boundary := boundaryOf scanned maxReplayEvents f.after
    truncated := maxReplayEvents < scanned.length }

structure FactoryEventFilter where
  after : Option Nat := none
  repo : Option String := none
  kinds : List String := []
  limit : Option Nat := none
  coordinator : Option String := none

structure FactoryEvent where
  cursor : Nat
  occurredAt : DateTime
  kind : String
  repo : String
  caller : String
  source : String
  subject : Value
  summary : String
  payload : Value

def FactoryEventFilter.limitOf (f : FactoryEventFilter) : Nat := max 1 (min 256 (f.limit.getD 256))

def FactoryEventFilter.matches (f : FactoryEventFilter) (e : FactoryEvent) : Bool :=
  permits f.repo (some e.repo) && (match f.coordinator with
      | none => true
      | some c => e.payload.getStr "coordinator" = some c || e.subject.getStr "coordinator" = some c) &&
    (f.kinds.isEmpty || f.kinds.contains e.kind)

def project (e : CoordinatorEvent) : Option FactoryEvent :=
  let t := e.event
  if t.category ≠ .event || t.identity ≠ "factory_event" then none
  else (t.payload.getStr "kind").map fun kind =>
    { cursor := e.cursor, occurredAt := t.createdAt, kind, repo := t.scope
      caller := (t.payload.getStr "caller").getD t.inst
      source := (t.payload.getStr "source").getD "factory"
      subject := (t.payload.get "subject").getD .null
      summary := (t.payload.getStr "summary").getD kind
      payload := (t.payload.get "payload").getD .null }

structure FactoryReplay where
  events : List FactoryEvent
  boundary : Option Nat
  truncated : Bool

def factoryReplay (scanned : List CoordinatorEvent) (f : FactoryEventFilter) : FactoryReplay :=
  { events := ((scanned.take f.limitOf).filterMap project).filter f.matches
    boundary := boundaryOf scanned f.limitOf f.after
    truncated := f.limitOf < scanned.length }

def FactoryEventFilter.replayJournal (f : FactoryEventFilter) (journal : Journal) : FactoryReplay :=
  factoryReplay (eventsAfter journal f.after (f.limitOf + 1)) f

inductive Request where
  | coordinator (filter : CoordinatorFilter)
  | factory (filter : FactoryEventFilter)

def Request.wants (e : CoordinatorEvent) : Request → Bool
  | .coordinator f => f.matchesEvent e.event
  | .factory f => (project e).any f.matches

inductive Phase where
  | connecting | subscribed
  | baselined (baseline : Option Nat)
  | replied | streaming | closed
  deriving DecidableEq

structure Client where
  request : Request
  phase : Phase := .connecting
  feed : List CoordinatorEvent := []
  missed : Nat := 0
  cursor : Option Nat := none
  start : Option Nat := none
  reply : List Nat := []
  received : List Nat := []
  noticed : Bool := false

def feedCapacity : Nat := 1024

namespace Client

def listening (c : Client) : Bool := c.phase ≠ .connecting && c.phase ≠ .closed

def replied (c : Client) : Bool := c.phase = .replied || c.phase = .streaming || c.phase = .closed

/-- A broadcast: the oldest event not taken is overwritten when the feed is full. -/
def push (c : Client) (e : CoordinatorEvent) : Client :=
  if !c.listening then c
  else if c.feed.length < feedCapacity then { c with feed := c.feed ++ [e] }
  else { c with feed := (c.feed ++ [e]).tail, missed := c.missed + 1 }

/-- The reply of `prepare_coordinator_watch`, with the scan behind the baseline. -/
def replyCoordinator (c : Client) (f : CoordinatorFilter) (journal : Journal)
    (baseline : Option Nat) : Client :=
  let scanned := if f.after.isSome then eventsAfter journal f.after (maxReplayEvents + 1) else []
  let r := replay scanned f
  let boundary := maxCursor baseline r.boundary
  { c with
    phase := .streaming, cursor := boundary, start := f.after.or boundary
    reply := r.events.map CoordinatorEvent.cursor
    received := r.events.map CoordinatorEvent.cursor
    noticed := c.noticed || r.truncated }

def replyFactory (c : Client) (f : FactoryEventFilter) (journal : Journal) : Client :=
  let r := f.replayJournal journal
  { c with
    phase := .replied, cursor := r.boundary.or f.after, start := f.after
    reply := r.events.map FactoryEvent.cursor
    received := r.events.map FactoryEvent.cursor
    noticed := c.noticed || r.truncated }

/-- `write_factory_durable_catchup`. -/
def catchup (c : Client) (f : FactoryEventFilter) (journal : Journal) : Client :=
  let r := { f with after := c.cursor }.replayJournal journal
  { c with
    cursor := maxCursor c.cursor r.boundary
    received := c.received ++ r.events.map FactoryEvent.cursor
    noticed := c.noticed || r.truncated }

def lagged (c : Client) (journal : Journal) : Client :=
  match c.request with
  | .coordinator _ => { c with phase := .closed, missed := 0, noticed := true }
  | .factory f => { c.catchup f journal with missed := 0, noticed := true }

def delivers (c : Client) (e : CoordinatorEvent) : Bool :=
  c.request.wants e && isAbove c.cursor e.cursor

def take (c : Client) (e : CoordinatorEvent) (rest : List CoordinatorEvent) : Client :=
  if c.delivers e then
    { c with feed := rest, cursor := some e.cursor, received := c.received ++ [e.cursor] }
  else { c with feed := rest }

end Client

structure State where
  journal : Journal := []
  writers : List CoordinatorEvent := []
  client : Client

inductive Label where
  | insert (t : Tuple)
  | broadcast (i : Nat)
  | subscribe | readLatest | scan | catchup | recv

def State.init (request : Request) : State := { client := { request } }

def State.withClient (s : State) (c : Client) : State := { s with client := c }

def State.step (s : State) : Label → Option State
  | .insert t => (insertCoordinator s.journal t).map fun e =>
      { s with journal := s.journal ++ [e], writers := s.writers ++ [e] }
  | .broadcast i => s.writers[i]?.map fun e =>
      { s with writers := s.writers.eraseIdx i, client := s.client.push e }
  | .subscribe =>
    if s.client.phase = .connecting then some (s.withClient { s.client with phase := .subscribed })
    else none
  | .readLatest =>
    match s.client.request, s.client.phase with
    | .coordinator _, .subscribed =>
      some (s.withClient { s.client with phase := .baselined (latestSequence s.journal) })
    | _, _ => none
  | .scan =>
    match s.client.request, s.client.phase with
    | .coordinator f, .baselined baseline =>
      some (s.withClient (s.client.replyCoordinator f s.journal baseline))
    | .factory f, .subscribed => some (s.withClient (s.client.replyFactory f s.journal))
    | _, _ => none
  | .catchup =>
    match s.client.request, s.client.phase with
    | .factory f, .replied =>
      some (s.withClient { s.client.catchup f s.journal with phase := .streaming })
    | _, _ => none
  | .recv =>
    if s.client.phase ≠ .streaming then none
    else if 0 < s.client.missed then some (s.withClient (s.client.lagged s.journal))
    else
      match s.client.feed with
      | [] => none
      | e :: rest => some (s.withClient (s.client.take e rest))

end RatKingdom.Coordinator
