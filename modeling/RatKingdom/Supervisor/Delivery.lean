/-
Delivery evidence of one generation.

`finalize_delivery` keeps a landing's merge commit in two places: the generation's record, under
the registry's lock, and then the ticket, under the ticket's.  Between the two locks the calls of
other landings may run.  The ticket is written without another look at the record, and an
archived record is found by its generation but written by its name.
-/
import Mathlib.Data.List.Sort
import RatKingdom.Agents.Registry
import RatKingdom.Lib.Run

namespace RatKingdom.Delivery

open Lib

abbrev SpawnId := Agents.SpawnId

section
variable (C : Type)

structure AgentRecord where
  name : String
  spawn : SpawnId
  repoRoot : String
  branch : Option String
  targetBranch : String
  mergeCommit : Option C
  createdAt : Int
  deriving DecidableEq

/-- Live records by name, each with a generation of its own, and archived ones. -/
structure Registry where
  agents : Table String (AgentRecord C)
  archived : List (AgentRecord C)
  spawns : ∀ p ∈ agents.rows, ∀ q ∈ agents.rows, p.2.spawn = q.2.spawn → p = q

structure DeliveryRecord where
  mergeCommit : C
  branch : String
  target : String
  landedAt : String

structure Ticket where
  delivery : Option (DeliveryRecord C)
  status : String

inductive MergePointerDecision where
  | set (agent : String)
  | alreadyRecorded | noTarget
  | conflict (agent : String) (recorded : C)

end

variable {C : Type}

def AgentRecord.generation (r : AgentRecord C) : String × SpawnId := (r.name, r.spawn)

namespace Registry

def records (reg : Registry C) : List (AgentRecord C) := reg.agents.rows.map Prod.snd

def isShadowed (reg : Registry C) (archived : AgentRecord C) : Bool :=
  (reg.agents.get archived.name).any fun live => live.generation = archived.generation

def listAll (reg : Registry C) : List (AgentRecord C) :=
  (reg.records ++ reg.archived.filter fun a => !reg.isShadowed a).insertionSort
    fun a b => a.createdAt ≤ b.createdAt

/-- `update` with a new merge commit: the live record of that name, if there is one. -/
def setPointer (reg : Registry C) (name : String) (commit : C) : Registry C where
  agents := reg.agents.modify name fun r => { r with mergeCommit := some commit }
  archived := reg.archived
  spawns := by
    have hrow : ∀ p ∈ (reg.agents.modify name fun r => { r with mergeCommit := some commit }).rows,
        ∃ q ∈ reg.agents.rows, q.2.spawn = p.2.spawn ∧
          p = if q.1 = name then (q.1, { q.2 with mergeCommit := some commit }) else q := by
      intro p hp
      obtain ⟨q, hq, rfl⟩ := List.mem_map.mp hp
      refine ⟨q, hq, ?_, rfl⟩
      by_cases h : q.1 = name <;> simp [h]
    intro p hp q hq heq
    obtain ⟨p', hp', hps, rfl⟩ := hrow p hp
    obtain ⟨q', hq', hqs, rfl⟩ := hrow q hq
    rw [reg.spawns p' hp' q' hq' (hps.trans (heq.trans hqs.symm))]

def archive (reg : Registry C) (name : String) : Registry C where
  agents := reg.agents.erase name
  archived := reg.archived ++ ((reg.agents.get name).toList.filter fun r =>
    !reg.archived.any fun a => a.generation = r.generation)
  spawns := by
    intro p hp q hq
    exact reg.spawns p (List.mem_filter.mp hp).1 q (List.mem_filter.mp hq).1

def pointer (reg : Registry C) (g : SpawnId) : Option C :=
  ((reg.records ++ reg.archived).find? fun r => r.spawn = g).bind AgentRecord.mergeCommit

end Registry

def findGeneration (records : List (AgentRecord C)) (repoRoot branch target : String)
    (spawn : SpawnId) : Option (AgentRecord C) :=
  (records.filter fun r => r.repoRoot = repoRoot ∧ r.branch = some branch ∧
    r.targetBranch = target).find? fun r => r.spawn = spawn

def resolveMergePointer [DecidableEq C] (records : List (AgentRecord C))
    (repoRoot branch target : String) (candidate : C) (exactSpawn : Option SpawnId) :
    MergePointerDecision C :=
  match exactSpawn with
  | none => .noTarget
  | some spawn =>
    match findGeneration records repoRoot branch target spawn with
    | none => .noTarget
    | some r =>
      match r.mergeCommit with
      | none => .set r.name
      | some existing =>
        if existing = candidate then .alreadyRecorded else .conflict r.name existing

inductive SuccessorPolicy where
  | failClosed | advanceOnDescendant

inductive SuccessorClassification where
  | advance | staleReplay | unrelated

def classifySuccessor (policy : SuccessorPolicy) (recordedIsAncestor candidateIsAncestor : Bool) :
    SuccessorClassification :=
  match policy, recordedIsAncestor, candidateIsAncestor with
  | .failClosed, _, _ => .unrelated
  | .advanceOnDescendant, true, false => .advance
  | .advanceOnDescendant, false, true => .staleReplay
  | .advanceOnDescendant, _, _ => .unrelated

/-- Where a call is, between the locks it takes. -/
inductive Stage (C : Type) where
  | decide
  | check (agent : String) (recorded : C)
  | advance (agent : String) (recorded : C)
  | ticket | ok | failed
  deriving DecidableEq

structure Call (C : Type) where
  repoRoot : String
  record : DeliveryRecord C
  stage : Stage C

inductive EventKind where
  | staleReplay | advanced | conflict

structure Event (C : Type) where
  kind : EventKind
  agent : String
  recorded : C
  candidate : C
  branch : String
  target : String

/-- The commits that the generation and the ticket name. -/
structure View (C : Type) where
  pointer : Option C
  ticket : Option C

/-- The two stores with the calls on them: those that wait to write the ticket, in the order in
which they left the registry, and every view so far. -/
structure Stores (C : Type) where
  registry : Registry C
  ticket : Ticket C
  calls : List (Call C)
  events : List (Event C)
  waiting : List (Nat × C)
  seen : List (View C)

/-- What a turn of a call meets. -/
structure Env where
  persists : Bool
  discovers : Bool
  writes : Bool

namespace Stores

def held (d : Stores C) : Option C := d.ticket.delivery.map DeliveryRecord.mergeCommit

def view (d : Stores C) (g : SpawnId) : View C := ⟨d.registry.pointer g, d.held⟩

def goto (d : Stores C) (i : Nat) (c : Call C) (stage : Stage C) : Stores C :=
  { d with calls := d.calls.set i { c with stage } }

def enqueue (d : Stores C) (i : Nat) (c : Call C) : Stores C :=
  { d.goto i c .ticket with waiting := d.waiting ++ [(i, c.record.mergeCommit)] }

def emit (d : Stores C) (kind : EventKind) (c : Call C) (agent : String) (recorded : C) : Stores C :=
  { d with events := d.events ++
    [⟨kind, agent, recorded, c.record.mergeCommit, c.record.branch, c.record.target⟩] }

/-- `registry.update`, and that it did not fail.  A name without a live record is no error. -/
def update (d : Stores C) (agent : String) (commit : C) (env : Env) : Stores C × Bool :=
  if (d.registry.agents.get agent).isNone then (d, true)
  else ({ d with registry := d.registry.setPointer agent commit }, env.persists)

variable [DecidableEq C]

def resolve (d : Stores C) (g : SpawnId) (c : Call C) : MergePointerDecision C :=
  resolveMergePointer d.registry.listAll c.repoRoot c.record.branch c.record.target
    c.record.mergeCommit (some g)

/-- The first registry lock. -/
def decide (d : Stores C) (g : SpawnId) (i : Nat) (c : Call C) (env : Env) : Stores C :=
  match d.resolve g c with
  | .set agent =>
    let updated := d.update agent c.record.mergeCommit env
    if updated.2 then updated.1.enqueue i c else updated.1.goto i c .failed
  | .alreadyRecorded => d.enqueue i c
  | .noTarget => d.enqueue i c
  | .conflict agent recorded => d.goto i c (.check agent recorded)

/-- The second one: the pointer moves on only from the commit that the ancestry was asked for. -/
def advance (d : Stores C) (g : SpawnId) (i : Nat) (c : Call C) (recorded : C) (env : Env) : Stores C :=
  match d.resolve g c with
  | .conflict freshAgent freshRecorded =>
    if freshRecorded = recorded then
      let updated := d.update freshAgent c.record.mergeCommit env
      if updated.2 then (updated.1.emit .advanced c freshAgent recorded).enqueue i c
      else updated.1.goto i c .failed
    else (d.emit .conflict c freshAgent freshRecorded).goto i c .failed
  | .alreadyRecorded => d.enqueue i c
  | .set agent =>
    let updated := d.update agent c.record.mergeCommit env
    if updated.2 then updated.1.enqueue i c else updated.1.goto i c .failed
  | .noTarget => d.enqueue i c

/-- `record_delivery`. -/
def writeTicket (d : Stores C) (i : Nat) (c : Call C) (env : Env) : Stores C :=
  let d := { d with waiting := d.waiting.filter fun e => e.1 ≠ i }
  if env.writes then { d.goto i c .ok with ticket := ⟨some c.record, "closed"⟩ }
  else d.goto i c .failed

variable [PartialOrder C] [DecidableLE C]

/-- `resolve_delivery_conflict` up to its second lock. -/
def check (d : Stores C) (policy : SuccessorPolicy) (i : Nat) (c : Call C) (agent : String)
    (recorded : C) (env : Env) : Stores C :=
  if !env.discovers then d.goto i c .failed
  else
    match classifySuccessor policy (recorded ≤ c.record.mergeCommit)
        (c.record.mergeCommit ≤ recorded) with
    | .staleReplay => (d.emit .staleReplay c agent recorded).goto i c .ok
    | .advance => d.goto i c (.advance agent recorded)
    | .unrelated => (d.emit .conflict c agent recorded).goto i c .failed

def turn (d : Stores C) (policy : SuccessorPolicy) (g : SpawnId) (i : Nat) (c : Call C) (env : Env) :
    Option (Stores C) :=
  match c.stage with
  | .decide => some (d.decide g i c env)
  | .check agent recorded => some (d.check policy i c agent recorded env)
  | .advance _ recorded => some (d.advance g i c recorded env)
  | .ticket => some (d.writeTicket i c env)
  | .ok => none
  | .failed => none

def look (d : Stores C) (g : SpawnId) : Stores C := { d with seen := d.seen ++ [d.view g] }

end Stores

/-- The calls for one task and one generation, and the archive sweep. -/
inductive Move (C : Type) where
  | call (repoRoot : String) (record : DeliveryRecord C)
  | turn (i : Nat) (env : Env)
  | archive (name : String)

def step [DecidableEq C] [PartialOrder C] [DecidableLE C] (policy : SuccessorPolicy) (g : SpawnId)
    (d : Stores C) : Move C → Option (Stores C)
  | .call repoRoot record =>
    some (Stores.look { d with calls := d.calls ++ [⟨repoRoot, record, .decide⟩] } g)
  | .turn i env => do
    let c ← d.calls[i]?
    let d' ← d.turn policy g i c env
    some (d'.look g)
  | .archive name => some (Stores.look { d with registry := d.registry.archive name } g)

def Stores.open (registry : Registry C) (ticket : Ticket C) (g : SpawnId) : Stores C :=
  Stores.look (Stores.mk registry ticket [] [] [] []) g

end RatKingdom.Delivery
