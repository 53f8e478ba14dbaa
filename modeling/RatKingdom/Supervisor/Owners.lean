/-
One implementer for a task.

A spawn reserves its task before there is a row for it; a row that has left the live states
comes back to them without asking: by a respawn, by the publication of a launch that was
ended meanwhile, by a turn result that arrives late and by an interrupt that is taken back.
`Sound` is carried by every step but these, and by these when nobody else owns the task.
-/
import RatKingdom.Supervisor.Spawn

namespace RatKingdom.Supervisor

open Core Lib Agents Agents.Registry List

/-- What an update needs from outside: the clock, and whether its write succeeds. -/
structure Io where
  now : DateTime
  writes : Bool

inductive Stage where
  | reserved
  | journaled (inserted : Bool)
  | launching | ended
  deriving DecidableEq

structure Flight where
  params : SpawnParams
  env : SpawnEnv
  name : String
  stage : Stage

/-- How a spawn under way ends. -/
inductive Launched where
  | started
  | failed (detail : String)
  /-- An error that is only handed on. -/
  | handedOn

/-- Which way a settled record is taken up again. -/
inductive Relaunch where
  | respawn | recovery

def Relaunch.accepts (relaunch : Relaunch) (record : AgentRecord) : Bool :=
  !record.state.isLive && record.task.isSome && match relaunch with
    | .respawn => true
    | .recovery => record.pid.isNone

def relaunched (pid : Option Nat) (record : AgentRecord) : AgentRecord :=
  { record with state := .running, pid, result := none, crashed := false }

def stopped (record : AgentRecord) : AgentRecord :=
  if record.state.isLive then { record with state := .stopped, crashed := false } else record

def takenBack (prior : AgentState) (record : AgentRecord) : AgentRecord :=
  if record.state = .stopped then { record with state := prior } else record

def resumed (record : AgentRecord) : AgentRecord :=
  if record.state = .paused then { record with state := .running } else record

/-- What a turn result that is not the first news of an ending makes of a record. -/
inductive Verdict where
  | failed | completed | paused

def Verdict.state : Verdict → AgentState
  | .failed => .failed
  | .completed => .completed
  | .paused => .paused

/-- The ways out of the live states. -/
inductive Ending where
  | exited | budgetStop | ownedShutdown | paneLost | taskDone | watched | dismissed

def Ending.apply : Ending → AgentRecord → AgentRecord
  | .exited, record =>
    let record := { record with pid := none }
    if record.state = .paused then { record with state := .failed }
    else if record.state.isLive then { record with state := .failed, crashed := true } else record
  | .budgetStop, record => stopped record
  | .ownedShutdown, record =>
    if record.state.isLive then { record with state := .orphaned, pid := none } else record
  | .paneLost, record => { record with state := .orphaned, pid := none }
  | .taskDone, record =>
    if record.state.isLive || record.state = .orphaned then { record with state := .completed }
    else record
  | .watched, record => { record with state := .completed }
  | .dismissed, record => { record with state := .dismissed, pid := none }

structure Spawns where
  registry : Registry
  flights : List Flight := []
  relaunch : Option String := none
  turn : Option String := none
  /-- Interrupts that wait for their signal, with the state before. -/
  interrupts : List (String × AgentState) := []

open Spawns

inductive SpawnsOp where
  | admission (params : SpawnParams) (env : SpawnEnv)
  | insert (flight : Nat) (writes : Bool)
  | release (flight : Nat)
  | launched (flight : Nat) (outcome : Launched) (io : Io)
  | respawn (name : String) (relaunch : Relaunch)
  | republish (pid : Option Nat) (io : Io)
  | relaunchFails
  | turn (name : String)
  | turnEnds (verdict : Verdict) (io : Io)
  | resume (name : String) (io : Io)
  | interrupt (name : String) (io : Io)
  | interruptFails (interrupt : Nat) (io : Io)
  | ends (name : String) (ending : Ending) (io : Io)
  | restart (reads : String → String) (now : DateTime) (writes : Bool)

def change (r : Registry) (name : String) (mutate : AgentRecord → AgentRecord) (io : Io) : Registry :=
  r.update name mutate io.now io.writes

namespace Spawns

def withFlight (s : Spawns) (i : Nat) (flight : Flight) (stage : Stage) (registry : Registry) :
    Spawns :=
  { s with registry, flights := s.flights.set i { flight with stage } }

def admission (s : Spawns) (params : SpawnParams) (env : SpawnEnv) : Spawns :=
  match Supervisor.admission s.registry params env with
  | (r, .error _) => { s with registry := r }
  | (r, .ok name) =>
    { s with registry := r, flights := s.flights ++ [⟨params, env, name, .reserved⟩] }

def insert (s : Spawns) (i : Nat) (writes : Bool) : Option Spawns :=
  match s.flights[i]? with
  | some flight =>
    if flight.stage = .reserved then
      if flight.params.refusedTask then
        some (s.withFlight i flight .ended
          (releaseAdmission (s.registry.releaseName flight.name) flight.params flight.env.laneCap))
      else
        match s.registry.insert (spawningRecord flight.params flight.env flight.name) writes with
        | (r, inserted) => some (s.withFlight i flight (.journaled inserted) r)
    else none
  | none => none

def release (s : Spawns) (i : Nat) : Option Spawns :=
  match s.flights[i]? with
  | some flight =>
    match flight.stage with
    | .journaled true =>
      some (s.withFlight i flight .launching
        (releaseAdmission s.registry flight.params flight.env.laneCap))
    | .journaled false =>
      some (s.withFlight i flight .ended
        (releaseAdmission (s.registry.releaseName flight.name) flight.params flight.env.laneCap))
    | _ => none
  | none => none

def launched (s : Spawns) (i : Nat) (outcome : Launched) (io : Io) : Option Spawns :=
  match s.flights[i]? with
  | some flight =>
    if flight.stage = .launching then
      match outcome with
      | .started =>
        some (s.withFlight i flight .ended
          (change s.registry flight.name (started flight.params flight.env) io))
      | .failed detail =>
        some (s.withFlight i flight .ended
          (markSpawnFailed s.registry flight.name detail io.now io.writes))
      | .handedOn => some (s.withFlight i flight .ended s.registry)
    else none
  | none => none

def interruptFails (s : Spawns) (i : Nat) (io : Io) : Option Spawns :=
  match s.interrupts[i]? with
  | some (name, prior) =>
    some { s with
      interrupts := s.interrupts.eraseIdx i
      registry := change s.registry name (takenBack prior) io }
  | none => none

def step (s : Spawns) : SpawnsOp → Option Spawns
  | .admission params env => some (s.admission params env)
  | .insert i writes => s.insert i writes
  | .release i => s.release i
  | .launched i outcome io => s.launched i outcome io
  | .respawn name relaunch =>
    match s.relaunch, s.registry.get name with
    | none, some record =>
      if relaunch.accepts record then some { s with relaunch := some name } else none
    | _, _ => none
  | .republish pid io =>
    match s.relaunch with
    | some name =>
      some { s with relaunch := none, registry := change s.registry name (relaunched pid) io }
    | none => none
  | .relaunchFails => some { s with relaunch := none }
  | .turn name =>
    match s.turn, s.registry.get name with
    | none, some record =>
      if record.state = .stopped ∨ record.state = .completed then none
      else some { s with turn := some name }
    | _, _ => none
  | .turnEnds verdict io =>
    match s.turn with
    | some name =>
      some { s with
        turn := none
        registry := change s.registry name (fun record =>
          { record with state := verdict.state }) io }
    | none => none
  | .resume name io =>
    some { s with registry := change s.registry name resumed io }
  | .interrupt name io =>
    match s.registry.get name with
    | some record =>
      if record.state.isLive then
        some { s with
          interrupts := s.interrupts ++ [(name, record.state)]
          registry := change s.registry name stopped io }
      else none
    | none => none
  | .interruptFails i io => s.interruptFails i io
  | .ends name ending io =>
    some { s with registry := change s.registry name ending.apply io }
  | .restart reads now writes =>
    some { registry := (Registry.load reads s.registry.disk).orphanLiveAgents now writes }

end Spawns

def Owns (record : AgentRecord) (repo task : String) : Prop :=
  record.state.isLive = true ∧ Lane.forRole record.role = .implementation ∧
    record.repoName = repo ∧ record.task = some task
deriving Decidable

def OneImplementer (r : Registry) : Prop :=
  ∀ repo task, task ≠ "" → ∀ m n a b, r.agents.get m = some a → r.agents.get n = some b →
    Owns a repo task → Owns b repo task → m = n

/-- If the record of this name is an implementer that is not live, nobody owns its task, and
nobody reserves it. -/
def Unowned (r : Registry) (name : String) : Prop :=
  ∀ record ∈ r.agents.get name, record.state.isLive = false →
    Lane.forRole record.role = .implementation → ∀ task ∈ record.task, task ≠ "" →
      r.records.all (fun other => !decide (Owns other record.repoName task)) = true ∧
        taskKey record.repoName task ∉ r.taskReservations
deriving Decidable

def ownerGuard (s : Spawns) : SpawnsOp → Prop
  | .launched i .started _ => ∀ flight ∈ s.flights[i]?, Unowned s.registry flight.name
  | .republish _ _ => ∀ name ∈ s.relaunch, Unowned s.registry name
  | .turnEnds .paused _ => ∀ name ∈ s.turn, Unowned s.registry name
  | .interruptFails i _ => ∀ row ∈ s.interrupts[i]?, Unowned s.registry row.1
  | _ => True

section
variable {s : Spawns} {r r' : Registry} {name repo task : String}

def Shrinks (r r' : Registry) : Prop :=
  ∀ n b, r'.agents.get n = some b → b.state.isLive = true →
    ∃ a, r.agents.get n = some a ∧ a.state.isLive = true ∧ a.role = b.role ∧
      a.repoName = b.repoName ∧ a.task = b.task

theorem Shrinks.owns (h : Shrinks r r') {n : String} {b : AgentRecord}
    (hb : r'.agents.get n = some b) (ho : Owns b repo task) :
    ∃ a, r.agents.get n = some a ∧ Owns a repo task := by
  obtain ⟨a, ha, hl, hrole, hrepo, htask⟩ := h n b hb ho.1
  refine ⟨a, ha, hl, ?_, hrepo.trans ho.2.2.1, htask.trans ho.2.2.2⟩
  rw [hrole]
  exact ho.2.1

theorem Shrinks.of_agents (h : r'.agents = r.agents) : Shrinks r r' := by
  intro n b hb hl
  rw [h] at hb
  exact ⟨b, hb, hl, rfl, rfl, rfl⟩

theorem change_agents (r : Registry) (name : String) (mutate : AgentRecord → AgentRecord) (io : Io)
    (n : String) :
    (change r name mutate io).agents.get n =
      if n = name then (r.agents.get name).map fun record => { mutate record with updatedAt := io.now }
      else r.agents.get n := by
  unfold change Registry.update
  cases hget : r.agents.get name with
  | none =>
    by_cases hn : n = name
    · rw [if_pos hn, hn]
      exact hget
    · rw [if_neg hn]
  | some record =>
    have hagents : ∀ writes, (persist { r with agents := r.agents.modify name fun record =>
        { mutate record with updatedAt := io.now } } writes).agents =
          r.agents.modify name fun record => { mutate record with updatedAt := io.now } := by
      intro writes
      cases writes <;> rfl
    rw [hagents, Table.get_modify]
    by_cases hn : n = name
    · rw [if_pos hn, if_pos hn, hn, hget]
    · rw [if_neg hn, if_neg hn]

theorem change_tasks (r : Registry) (name : String) (mutate : AgentRecord → AgentRecord) (io : Io) :
    (change r name mutate io).taskReservations = r.taskReservations := by
  unfold change Registry.update
  cases r.agents.get name with
  | none => rfl
  | some record => cases io.writes <;> rfl

def SameWork (mutate : AgentRecord → AgentRecord) : Prop :=
  ∀ a, (mutate a).role = a.role ∧ (mutate a).repoName = a.repoName ∧ (mutate a).task = a.task

variable {mutate : AgentRecord → AgentRecord}

theorem change_shrinks (hm : SameWork mutate)
    (hl : ∀ a, r.agents.get name = some a → (mutate a).state.isLive = true →
      a.state.isLive = true) (io : Io) : Shrinks r (change r name mutate io) := by
  intro n b hb hb'
  rw [change_agents] at hb
  by_cases hn : n = name
  · rw [if_pos hn, Option.map_eq_some_iff] at hb
    obtain ⟨a, ha, rfl⟩ := hb
    rw [hn]
    obtain ⟨hrole, hrepo, htask⟩ := hm a
    exact ⟨a, ha, hl a ha hb', hrole.symm, hrepo.symm, htask.symm⟩
  · rw [if_neg hn] at hb
    exact ⟨b, hb, hb', rfl, rfl, rfl⟩

theorem Ending.sameWork (ending : Ending) : SameWork ending.apply := by
  intro a
  cases ending with
  | exited =>
    unfold Ending.apply
    dsimp only
    split
    · exact ⟨rfl, rfl, rfl⟩
    · split
      · exact ⟨rfl, rfl, rfl⟩
      · exact ⟨rfl, rfl, rfl⟩
  | budgetStop =>
    unfold Ending.apply stopped
    dsimp only
    split
    · exact ⟨rfl, rfl, rfl⟩
    · exact ⟨rfl, rfl, rfl⟩
  | ownedShutdown | taskDone =>
    unfold Ending.apply
    dsimp only
    split
    · exact ⟨rfl, rfl, rfl⟩
    · exact ⟨rfl, rfl, rfl⟩
  | paneLost | watched | dismissed => exact ⟨rfl, rfl, rfl⟩

theorem Ending.not_live (ending : Ending) (a : AgentRecord) : (ending.apply a).state.isLive =
    false := by
  cases ending with
  | exited =>
    unfold Ending.apply
    dsimp only
    split
    · rfl
    · split
      · rfl
      · rename_i hl
        simpa using hl
  | budgetStop =>
    unfold Ending.apply stopped
    dsimp only
    split
    · rfl
    · rename_i hl
      simpa using hl
  | ownedShutdown =>
    unfold Ending.apply
    dsimp only
    split
    · rfl
    · rename_i hl
      simpa using hl
  | taskDone =>
    unfold Ending.apply
    dsimp only
    split
    · rfl
    · rename_i hl
      simp only [Bool.or_eq_true, not_or] at hl
      simpa using hl.1
  | paneLost | watched | dismissed => rfl

/-- A spawn holds its task until the second critical section. -/
def Stage.Holds : Stage → Prop
  | .reserved => True
  | .journaled _ => True
  | .launching => False
  | .ended => False

structure Sound (s : Spawns) : Prop where
  one : OneImplementer s.registry
  held : ∀ (i : Nat) flight, s.flights[i]? = some flight → flight.stage.Holds →
    ∀ key ∈ flight.params.keys, key ∈ s.registry.taskReservations
  apart : ∀ (i j : Nat) f g, s.flights[i]? = some f → s.flights[j]? = some g → f.stage.Holds →
    g.stage.Holds → ∀ key ∈ f.params.keys, key ∈ g.params.keys → i = j
  free : ∀ (i : Nat) flight, s.flights[i]? = some flight → flight.stage = .reserved →
    flight.params.lane = .implementation → flight.params.task ≠ "" →
      ∀ n b, s.registry.agents.get n = some b → ¬ Owns b flight.params.repo flight.params.task

theorem keys_implementation {params : SpawnParams} (hlane : params.lane = .implementation)
    (htask : params.task ≠ "") : params.keys = [taskKey params.repo params.task] := by
  unfold SpawnParams.keys SpawnParams.key
  rw [if_neg htask, hlane]

variable {s' : Spawns}

theorem Sound.shrink (h : Sound s) (hflights : s'.flights = s.flights)
    (hshrinks : Shrinks s.registry s'.registry)
    (htasks : s'.registry.taskReservations = s.registry.taskReservations) : Sound s' := by
  refine ⟨?_, ?_, ?_, ?_⟩
  · intro repo task htask m n a b ha hb hao hbo
    obtain ⟨a', ha', hao'⟩ := hshrinks.owns ha hao
    obtain ⟨b', hb', hbo'⟩ := hshrinks.owns hb hbo
    exact h.one repo task htask m n a' b' ha' hb' hao' hbo'
  · intro i flight hi hholds key hkey
    rw [hflights] at hi
    rw [htasks]
    exact h.held i flight hi hholds key hkey
  · intro i j f g hi hj
    rw [hflights] at hi hj
    exact h.apart i j f g hi hj
  · intro i flight hi hst hlane htask n b hb ho
    rw [hflights] at hi
    obtain ⟨a, ha, hao⟩ := hshrinks.owns hb ho
    exact h.free i flight hi hst hlane htask n a ha hao

theorem mem_records {n : String} {b : AgentRecord} (hb : r.agents.get n = some b) : b ∈ r.records :=
  mem_map.mpr ⟨_, Table.get_eq_some_iff.mp hb, rfl⟩

/-- A record comes back to life whose task is nobody's. -/
theorem Sound.revive (h : Sound s) (hm : SameWork mutate)
    (hun : Unowned s.registry name) (io : Io) :
    Sound { s with registry := change s.registry name mutate io } := by
  cases hget : s.registry.agents.get name with
  | none =>
    refine h.shrink rfl ?_ ?_
    · apply change_shrinks hm
      intro a ha
      rw [hget] at ha
      cases ha
    · exact change_tasks s.registry name mutate io
  | some record =>
    cases hl : record.state.isLive with
    | true =>
      refine h.shrink rfl ?_ ?_
      · apply change_shrinks hm
        intro a ha _
        rw [hget] at ha
        cases ha
        exact hl
      · exact change_tasks s.registry name mutate io
    | false =>
      -- the record as changed, when it owns a task, and every other record
      have hnew : ∀ repo task n b, task ≠ "" →
          (change s.registry name mutate io).agents.get n = some b → Owns b repo task →
          (n = name ∧ (∀ m c, s.registry.agents.get m = some c → ¬ Owns c repo task) ∧
            taskKey repo task ∉ s.registry.taskReservations) ∨
            (n ≠ name ∧ s.registry.agents.get n = some b) := by
        intro repo task n b htask hb ho
        rw [change_agents] at hb
        by_cases hn : n = name
        · rw [if_pos hn, hget] at hb
          cases hb
          obtain ⟨hrole, hrepo, htaskeq⟩ := hm record
          have himpl : Lane.forRole record.role = .implementation := by
            rw [← hrole]
            exact ho.2.1
          have hrec : record.repoName = repo := hrepo.symm.trans ho.2.2.1
          have htk : record.task = some task := htaskeq.symm.trans ho.2.2.2
          obtain ⟨hall, hfree⟩ := hun record hget hl himpl task htk htask
          rw [hrec] at hall hfree
          refine .inl ⟨hn, fun m c hc hco => ?_, hfree⟩
          have hno := all_eq_true.mp hall c (mem_records hc)
          simp [hco] at hno
        · rw [if_neg hn] at hb
          exact .inr ⟨hn, hb⟩
      refine ⟨?_, ?_, h.apart, ?_⟩
      · intro repo task htask m n a b ha hb hao hbo
        rcases hnew repo task m a htask ha hao with ⟨hm', hother, -⟩ | ⟨hm', ha'⟩
        · rcases hnew repo task n b htask hb hbo with ⟨hn', -, -⟩ | ⟨-, hb'⟩
          · exact hm'.trans hn'.symm
          · exact absurd hbo (hother n b hb')
        · rcases hnew repo task n b htask hb hbo with ⟨-, hother, -⟩ | ⟨-, hb'⟩
          · exact absurd hao (hother m a ha')
          · exact h.one repo task htask m n a b ha' hb' hao hbo
      · intro i flight hi hholds key hkey
        rw [show (change s.registry name mutate io).taskReservations =
          s.registry.taskReservations from change_tasks s.registry name mutate io]
        exact h.held i flight hi hholds key hkey
      · intro i flight hi hst hlane htask n b hb ho
        rcases hnew _ _ n b htask hb ho with ⟨-, -, hfree⟩ | ⟨-, hb'⟩
        · apply hfree
          apply h.held i flight hi
          · rw [hst]
            trivial
          · rw [keys_implementation hlane htask]
            exact mem_singleton_self _
        · exact h.free i flight hi hst hlane htask n b hb' ho

theorem flight_of_set {flights : List Flight} {i j : Nat} {f g : Flight}
    (h : (flights.set i f)[j]? = some g) : (j = i ∧ g = f) ∨ (j ≠ i ∧ flights[j]? = some g) := by
  rw [getElem?_set] at h
  by_cases hij : i = j
  · rw [if_pos hij] at h
    split at h
    · cases h
      exact .inl ⟨hij.symm, rfl⟩
    · cases h
  · rw [if_neg hij] at h
    exact .inr ⟨fun he => hij he.symm, h⟩

variable {i : Nat}

theorem Sound.letGo (h : Sound s) {flight : Flight} (hi : s.flights[i]? = some flight)
    {stage : Stage} (hst : ¬ stage.Holds) (hagents : r'.agents = s.registry.agents)
    (htasks : ∀ key ∈ s.registry.taskReservations,
      key ∉ r'.taskReservations → flight.stage.Holds ∧ key ∈ flight.params.keys) :
    Sound (s.withFlight i flight stage r') := by
  have hshrinks : Shrinks s.registry r' := .of_agents hagents
  have hreserved : ∀ f : Flight, f.stage = .reserved → f.stage.Holds := by
    intro f hf
    rw [hf]
    trivial
  have hother : ∀ (j : Nat) g, (s.flights.set i { flight with stage })[j]? = some g →
      g.stage.Holds → j ≠ i ∧ s.flights[j]? = some g := by
    intro j g hj hholds
    rcases flight_of_set hj with ⟨-, rfl⟩ | hold
    · exact absurd hholds hst
    · exact hold
  refine ⟨?_, ?_, ?_, ?_⟩
  · intro repo task htask m n a b ha hb hao hbo
    obtain ⟨a', ha', hao'⟩ := hshrinks.owns ha hao
    obtain ⟨b', hb', hbo'⟩ := hshrinks.owns hb hbo
    exact h.one repo task htask m n a' b' ha' hb' hao' hbo'
  · intro j g hj hholds key hkey
    obtain ⟨hji, hj'⟩ := hother j g hj hholds
    have hm := h.held j g hj' hholds key hkey
    by_cases hgone : key ∈ r'.taskReservations
    · exact hgone
    · obtain ⟨hfh, hfk⟩ := htasks key hm hgone
      exact absurd (h.apart j i g flight hj' hi hholds hfh key hkey hfk) hji
  · intro j k f g hj hk hfh hgh
    obtain ⟨-, hj'⟩ := hother j f hj hfh
    obtain ⟨-, hk'⟩ := hother k g hk hgh
    exact h.apart j k f g hj' hk' hfh hgh
  · intro j g hj hg hlane htask n b hb ho
    obtain ⟨-, hj'⟩ := hother j g hj (hreserved g hg)
    obtain ⟨a, ha, hao⟩ := hshrinks.owns hb ho
    exact h.free j g hj' hg hlane htask n a ha hao

theorem reserveTask_free {params : SpawnParams} (h : (reserveTask r params).isOk = true)
    (hlane : params.lane = .implementation) (htask : params.task ≠ "") :
    ∀ n b, r.agents.get n = some b → ¬ Owns b params.repo params.task := by
  intro n b hb ho
  unfold reserveTask tryReserveTask at h
  rw [hlane] at h
  rw [if_neg htask] at h
  cases hf : r.records.find? fun record =>
      record.repoName = params.repo && record.task = some params.task && record.state.isLive with
  | none =>
    have hno := find?_eq_none.mp hf b (mem_records hb)
    obtain ⟨hl, -, hrepo, htk⟩ := ho
    simp [hrepo, htk, hl] at hno
  | some owner =>
    unfold liveTaskOwner reserveTaskKey at h
    rw [hf] at h
    cases h

theorem releaseWip_rest (r : Registry) (cap : Nat) : (r.releaseWip cap).agents = r.agents ∧
    (r.releaseWip cap).taskReservations = r.taskReservations := by
  unfold releaseWip
  split
  · exact ⟨rfl, rfl⟩
  · exact ⟨rfl, rfl⟩

theorem releaseLaneWip_rest (r : Registry) (place : Place) (cap : Nat) :
    (r.releaseLaneWip place cap).agents = r.agents ∧
      (r.releaseLaneWip place cap).taskReservations = r.taskReservations := by
  unfold releaseLaneWip
  split
  · exact ⟨rfl, rfl⟩
  · exact ⟨rfl, rfl⟩

/-- A release gives back no other task. -/
theorem releaseAdmission_rest (r : Registry) (params : SpawnParams) (laneCap : Nat) :
    (releaseAdmission r params laneCap).agents = r.agents ∧
      ∀ key ∈ r.taskReservations, key ∉ (releaseAdmission r params laneCap).taskReservations →
        key ∈ params.keys := by
  have hkey : ∀ q : Registry, (q.releaseTaskForLane params.repo params.lane params.task
      params.workflowInstance).agents = q.agents ∧ ∀ key ∈ q.taskReservations,
        key ∉ (q.releaseTaskForLane params.repo params.lane params.task
          params.workflowInstance).taskReservations → key ∈ params.keys := by
    intro q
    have hfilter : ∀ key ∈ q.taskReservations,
        key ∉ (q.releaseTaskKey params.key).taskReservations → key = params.key := by
      intro key hm hgone
      by_cases he : key = params.key
      · exact he
      · exact absurd (mem_filter.mpr ⟨hm, decide_eq_true he⟩) hgone
    unfold releaseTaskForLane SpawnParams.keys SpawnParams.key at *
    cases hl : params.lane with
    | implementation =>
      rw [hl] at hfilter
      show (q.releaseTask params.repo params.task).agents = _ ∧ ∀ key ∈ q.taskReservations,
        key ∉ (q.releaseTask params.repo params.task).taskReservations → _
      unfold releaseTask
      by_cases htask : params.task = ""
      · rw [if_pos htask]
        exact ⟨rfl, fun key hm hgone => absurd hm hgone⟩
      · rw [if_neg htask, if_neg htask]
        exact ⟨rfl, fun key hm hgone => mem_singleton.mpr (hfilter key hm hgone)⟩
    | review =>
      rw [hl] at hfilter
      show (q.releaseReviewTask params.repo params.task params.workflowInstance).agents = _ ∧
        ∀ key ∈ q.taskReservations, key ∉ (q.releaseReviewTask params.repo params.task
          params.workflowInstance).taskReservations → _
      unfold releaseReviewTask
      by_cases htask : params.task = ""
      · rw [if_pos htask]
        exact ⟨rfl, fun key hm hgone => absurd hm hgone⟩
      · rw [if_neg htask, if_neg htask]
        exact ⟨rfl, fun key hm hgone => mem_singleton.mpr (hfilter key hm hgone)⟩
  obtain ⟨hwa, hwt⟩ := releaseWip_rest r params.fleetWipCap
  obtain ⟨hla, hlt⟩ := releaseLaneWip_rest (r.releaseWip params.fleetWipCap) params.place laneCap
  obtain ⟨hka, hkt⟩ := hkey ((r.releaseWip params.fleetWipCap).releaseLaneWip params.place laneCap)
  refine ⟨hka.trans (hla.trans hwa), fun key hm hgone => hkt key ?_ hgone⟩
  rw [hlt, hwt]
  exact hm

theorem flight_of_append {flights : List Flight} {f g : Flight} {j : Nat}
    (h : (flights ++ [f])[j]? = some g) : flights[j]? = some g ∨ (j = flights.length ∧ g = f) := by
  rw [getElem?_append] at h
  by_cases hj : j < flights.length
  · rw [if_pos hj] at h
    exact .inl h
  · rw [if_neg hj, getElem?_singleton] at h
    split at h
    · rename_i hz
      cases h
      exact .inr ⟨by omega, rfl⟩
    · cases h

theorem Sound.admission (h : Sound s) (params : SpawnParams) (env : SpawnEnv) :
    Sound (s.admission params env) := by
  unfold Spawns.admission
  rcases admission_cases s.registry params env with ⟨queued, hq, hfree, -, -, htask, hadm⟩ |
    ⟨queued, error, hq, -, hadm⟩
  · obtain ⟨hslots, hagents, -⟩ := hq.same
    have hreserved : queued.taskReservations = s.registry.taskReservations :=
      congrArg Slots.tasks hslots
    rw [hadm]
    -- the new flight, and those of before
    have hcases : ∀ (j : Nat) g, (s.flights ++
        [(⟨params, env, queued.freeName, .reserved⟩ : Flight)])[j]? = some g →
        s.flights[j]? = some g ∨ (j = s.flights.length ∧ g.params = params) := by
      intro j g hj
      rcases flight_of_append hj with hold | ⟨hlen, rfl⟩
      · exact .inl hold
      · exact .inr ⟨hlen, rfl⟩
    have hapart : ∀ (j : Nat) g, s.flights[j]? = some g → g.stage.Holds →
        ∀ key ∈ g.params.keys, key ∉ params.keys := by
      intro j g hj hholds key hkey hp
      apply hfree key hp
      rw [hreserved]
      exact h.held j g hj hholds key hkey
    refine ⟨?_, ?_, ?_, ?_⟩
    · show OneImplementer (reservedFor queued params env.laneCap)
      unfold OneImplementer
      rw [show (reservedFor queued params env.laneCap).agents = s.registry.agents from hagents]
      exact h.one
    · intro j g hj hholds key hkey
      show key ∈ params.keys ++ queued.taskReservations
      rcases hcases j g hj with hold | ⟨-, hp⟩
      · rw [hreserved]
        exact mem_append_right _ (h.held j g hold hholds key hkey)
      · rw [← hp]
        exact mem_append_left _ hkey
    · intro j k f g hj hk hfh hgh key hkf hkg
      rcases hcases j f hj with hjold | ⟨hjlen, hfp⟩
      · rcases hcases k g hk with hkold | ⟨-, hgp⟩
        · exact h.apart j k f g hjold hkold hfh hgh key hkf hkg
        · rw [hgp] at hkg
          exact absurd hkg (hapart j f hjold hfh key hkf)
      · rcases hcases k g hk with hkold | ⟨hklen, -⟩
        · rw [hfp] at hkf
          exact absurd hkf (hapart k g hkold hgh key hkg)
        · omega
    · intro j g hj hst hlane htk n b hb
      rw [show (reservedFor queued params env.laneCap).agents = s.registry.agents from hagents] at hb
      rcases hcases j g hj with hold | ⟨-, hp⟩
      · exact h.free j g hold hst hlane htk n b hb
      · rw [hp] at hlane htk ⊢
        exact reserveTask_free htask hlane htk n b hb
  · obtain ⟨hslots, hagents, -⟩ := hq.same
    rw [hadm]
    refine h.shrink rfl (.of_agents hagents) ?_
    exact congrArg Slots.tasks hslots

theorem Sound.journal (h : Sound s) {flight : Flight} (hi : s.flights[i]? = some flight)
    (hst : flight.stage = .reserved) (inserted : Bool)
    (hagents : ∀ n b, r'.agents.get n = some b → s.registry.agents.get n = some b ∨
      (n = flight.name ∧ b = spawningRecord flight.params flight.env flight.name))
    (htasks : r'.taskReservations = s.registry.taskReservations) :
    Sound (s.withFlight i flight (.journaled inserted) r') := by
  have hholds : flight.stage.Holds := by
    rw [hst]
    trivial
  have hold : ∀ (j : Nat) g, (s.flights.set i { flight with stage := .journaled inserted })[j]? =
      some g → g.stage.Holds → ∃ g', s.flights[j]? = some g' ∧ g'.stage.Holds ∧
        g'.params = g.params ∧ (g.stage = .reserved → g' = g ∧ j ≠ i) := by
    intro j g hj hg
    rcases flight_of_set hj with ⟨rfl, rfl⟩ | ⟨hji, hj'⟩
    · exact ⟨flight, hi, hholds, rfl, nofun⟩
    · exact ⟨g, hj', hg, rfl, fun _ => ⟨rfl, hji⟩⟩
  -- a new row that owns a task is the one this spawn reserved
  have hnew : ∀ repo task, Owns (spawningRecord flight.params flight.env flight.name) repo task →
      flight.params.lane = .implementation ∧ flight.params.repo = repo ∧ flight.params.task = task := by
    intro repo task ho
    obtain ⟨-, hlane, hrepo, htask⟩ := ho
    exact ⟨hlane, hrepo, Option.some.inj htask⟩
  refine ⟨?_, ?_, ?_, ?_⟩
  · intro repo task htask m n a b ha hb hao hbo
    rcases hagents m a ha with ha' | ⟨hm, rfl⟩
    · rcases hagents n b hb with hb' | ⟨-, rfl⟩
      · exact h.one repo task htask m n a b ha' hb' hao hbo
      · obtain ⟨hlane, rfl, rfl⟩ := hnew repo task hbo
        exact absurd hao (h.free i flight hi hst hlane htask m a ha')
    · rcases hagents n b hb with hb' | ⟨hn, -⟩
      · obtain ⟨hlane, rfl, rfl⟩ := hnew repo task hao
        exact absurd hbo (h.free i flight hi hst hlane htask n b hb')
      · exact hm.trans hn.symm
  · intro j g hj hg key hkey
    obtain ⟨g', hj', hg', hparams, -⟩ := hold j g hj hg
    show key ∈ r'.taskReservations
    rw [htasks]
    apply h.held j g' hj' hg'
    rw [hparams]
    exact hkey
  · intro j k f g hj hk hf hg key hkf hkg
    obtain ⟨f', hj', hf', hfp, -⟩ := hold j f hj hf
    obtain ⟨g', hk', hg', hgp, -⟩ := hold k g hk hg
    apply h.apart j k f' g' hj' hk' hf' hg' key
    · rw [hfp]
      exact hkf
    · rw [hgp]
      exact hkg
  · intro j g hj hg hlane htask n b hb ho
    have hgh : g.stage.Holds := by
      rw [hg]
      trivial
    obtain ⟨g', hj', -, -, hsame⟩ := hold j g hj hgh
    obtain ⟨rfl, hji⟩ := hsame hg
    rcases hagents n b hb with hb' | ⟨-, rfl⟩
    · exact h.free j g' hj' hg hlane htask n b hb' ho
    · obtain ⟨hflane, hfrepo, hftask⟩ := hnew _ _ ho
      apply hji
      apply h.apart j i g' flight hj' hi hgh hholds (taskKey g'.params.repo g'.params.task)
      · rw [keys_implementation hlane htask]
        exact mem_singleton_self _
      · rw [keys_implementation hflane (by rw [hftask]; exact htask), hfrepo, hftask]
        exact mem_singleton_self _

theorem started_sameWork (params : SpawnParams) (env : SpawnEnv) : SameWork (started params env) := by
  intro a
  unfold started
  split
  · exact ⟨rfl, rfl, rfl⟩
  · exact ⟨rfl, rfl, rfl⟩

theorem Sound.change (h : Sound s) (hm : SameWork mutate)
    (hl : ∀ a, (mutate a).state.isLive = true → a.state.isLive = true) (name : String) (io : Io) :
    Sound { s with registry := change s.registry name mutate io } := by
  refine h.shrink rfl ?_ ?_
  · exact change_shrinks hm (fun a _ => hl a) io
  · exact change_tasks s.registry name mutate io

theorem Sound.insert (h : Sound s) {writes : Bool} (hs : s.insert i writes = some s') : Sound s' := by
  unfold Spawns.insert at hs
  cases hi : s.flights[i]? with
  | none =>
    rw [hi] at hs
    cases hs
  | some flight =>
    rw [hi] at hs
    dsimp only at hs
    by_cases hst : flight.stage = .reserved
    · rw [if_pos hst] at hs
      by_cases htask : flight.params.refusedTask = true
      · rw [if_pos htask] at hs
        cases hs
        obtain ⟨hagents, htasks⟩ := releaseAdmission_rest (s.registry.releaseName flight.name)
          flight.params flight.env.laneCap
        refine h.letGo hi id hagents fun key hm hgone => ⟨?_, htasks key hm hgone⟩
        rw [hst]
        trivial
      · rw [if_neg htask] at hs
        cases hs
        cases writes with
        | false => exact h.journal hi hst false (fun n b hb => .inl hb) rfl
        | true =>
          refine h.journal hi hst true ?_ rfl
          intro n b hb
          change (s.registry.agents.set flight.name _).get n = some b at hb
          rw [Table.get_set] at hb
          by_cases hn : n = flight.name
          · rw [if_pos hn] at hb
            cases hb
            exact .inr ⟨hn, rfl⟩
          · rw [if_neg hn] at hb
            exact .inl hb
    · rw [if_neg hst] at hs
      cases hs

theorem Sound.release (h : Sound s) (hs : s.release i = some s') : Sound s' := by
  unfold Spawns.release at hs
  cases hi : s.flights[i]? with
  | none =>
    rw [hi] at hs
    cases hs
  | some flight =>
    rw [hi] at hs
    dsimp only at hs
    cases hst : flight.stage with
    | reserved | launching | ended =>
      rw [hst] at hs
      cases hs
    | journaled inserted =>
      have hholds : flight.stage.Holds := by
        rw [hst]
        trivial
      rw [hst] at hs
      cases inserted with
      | true =>
        cases hs
        obtain ⟨hagents, htasks⟩ := releaseAdmission_rest s.registry flight.params flight.env.laneCap
        exact h.letGo hi id hagents fun key hm hgone => ⟨hholds, htasks key hm hgone⟩
      | false =>
        cases hs
        obtain ⟨hagents, htasks⟩ := releaseAdmission_rest (s.registry.releaseName flight.name)
          flight.params flight.env.laneCap
        exact h.letGo hi id hagents fun key hm hgone => ⟨hholds, htasks key hm hgone⟩

theorem markSpawnFailed_eq (r : Registry) (name detail : String) (io : Io) :
    markSpawnFailed r name detail io.now io.writes = change r name (fun record =>
      { record with state := .failed, result := some detail, pid := none }) io := by
  unfold markSpawnFailed updated change Registry.update
  cases hget : r.get name with
  | none =>
    unfold Registry.get at hget
    rw [hget]
  | some record =>
    unfold Registry.get at hget
    cases io.writes <;> rfl

theorem Sound.launched (h : Sound s) {outcome : Launched} {io : Io}
    (hg : ownerGuard s (.launched i outcome io)) (hs : s.launched i outcome io = some s') :
    Sound s' := by
  unfold Spawns.launched at hs
  cases hi : s.flights[i]? with
  | none =>
    rw [hi] at hs
    cases hs
  | some flight =>
    rw [hi] at hs
    dsimp only at hs
    by_cases hst : flight.stage = .launching
    · rw [if_pos hst] at hs
      cases outcome with
      | started =>
        cases hs
        have hrow := h.revive (started_sameWork flight.params flight.env) (hg flight hi) io
        exact hrow.letGo hi id rfl fun key hm hgone => absurd hm hgone
      | failed detail =>
        cases hs
        rw [markSpawnFailed_eq]
        have hrow : Sound { s with registry := Supervisor.change s.registry flight.name (fun record =>
            { record with state := .failed, result := some detail, pid := none }) io } := by
          apply h.change
          · exact fun _ => ⟨rfl, rfl, rfl⟩
          · exact fun _ hl => by cases hl
        exact hrow.letGo hi id rfl fun key hm hgone => absurd hm hgone
      | handedOn =>
        cases hs
        exact h.letGo hi id rfl fun key hm hgone => absurd hm hgone
    · rw [if_neg hst] at hs
      cases hs

def Spawns.opened (reads : String → String) (disk : Disk) (now : DateTime) (writes : Bool) : Spawns :=
  { registry := (Registry.load reads disk).orphanLiveAgents now writes }

theorem opened_sound (reads : String → String) (disk : Disk) (now : DateTime) (writes : Bool) :
    Sound (opened reads disk now writes) := by
  refine ⟨?_, ?_, ?_, ?_⟩
  · intro repo task _ m n a b ha _ hao
    have hdead := orphaned_none (Table.get_eq_some_iff.mp ha)
    rw [hao.1] at hdead
    cases hdead
  · intro i flight hi
    cases hi
  · intro i j f g hi
    cases hi
  · intro i flight hi
    cases hi

theorem step_sound {op : SpawnsOp} (h : Sound s) (hg : ownerGuard s op)
    (hs : s.step op = some s') : Sound s' := by
  cases op with
  | admission params env =>
    cases hs
    exact h.admission params env
  | insert i writes => exact h.insert hs
  | release i => exact h.release hs
  | launched i outcome io => exact h.launched hg hs
  | respawn name relaunch =>
    simp only [step] at hs
    split at hs
    · split at hs
      · cases hs
        exact ⟨h.one, h.held, h.apart, h.free⟩
      · cases hs
    · cases hs
  | republish pid io =>
    simp only [step] at hs
    split at hs
    · rename_i name hn
      cases hs
      have hwork : SameWork (relaunched pid) := fun _ => ⟨rfl, rfl, rfl⟩
      have hrow := h.revive hwork (hg name hn) io
      exact ⟨hrow.one, hrow.held, hrow.apart, hrow.free⟩
    · cases hs
  | relaunchFails =>
    cases hs
    exact ⟨h.one, h.held, h.apart, h.free⟩
  | turn name =>
    simp only [step] at hs
    split at hs
    · split at hs
      · cases hs
      · cases hs
        exact ⟨h.one, h.held, h.apart, h.free⟩
    · cases hs
  | turnEnds verdict io =>
    simp only [step] at hs
    split at hs
    · rename_i name hn
      cases hs
      have hwork : SameWork fun record => { record with state := verdict.state } :=
        fun _ => ⟨rfl, rfl, rfl⟩
      have hrow : Sound { s with registry := change s.registry name (fun record =>
          { record with state := verdict.state }) io } := by
        cases verdict with
        | failed | completed => exact h.change hwork (fun _ hl => by cases hl) name io
        | paused => exact h.revive hwork (hg name hn) io
      exact ⟨hrow.one, hrow.held, hrow.apart, hrow.free⟩
    · cases hs
  | resume name io =>
    cases hs
    apply h.change
    · intro a
      unfold resumed
      split
      · exact ⟨rfl, rfl, rfl⟩
      · exact ⟨rfl, rfl, rfl⟩
    · intro a hl
      unfold resumed at hl
      split at hl
      · rename_i hp
        rw [hp]
        rfl
      · exact hl
  | interrupt name io =>
    simp only [step] at hs
    split at hs
    · split at hs
      · cases hs
        have hrow : Sound { s with registry := change s.registry name stopped io } :=
          h.change Ending.budgetStop.sameWork (fun a hl => by
            rw [Ending.budgetStop.not_live a] at hl
            cases hl) name io
        exact ⟨hrow.one, hrow.held, hrow.apart, hrow.free⟩
      · cases hs
    · cases hs
  | interruptFails i io =>
    simp only [step, interruptFails] at hs
    split at hs
    · rename_i name prior hrow
      cases hs
      have hwork : SameWork (takenBack prior) := by
        intro a
        unfold takenBack
        split
        all_goals exact ⟨rfl, rfl, rfl⟩
      have hback := h.revive hwork (hg (name, prior) hrow) io
      exact ⟨hback.one, hback.held, hback.apart, hback.free⟩
    · cases hs
  | ends name ending io =>
    cases hs
    apply h.change ending.sameWork
    intro a hl
    rw [ending.not_live a] at hl
    cases hl
  | restart reads now writes =>
    cases hs
    exact opened_sound reads s.registry.disk now writes

/-- Along every run that meets the guard, no task has two live implementers. -/
theorem one_live_implementer (reads : String → String) (disk : Disk) (now : DateTime)
    (writes : Bool) (ops : List SpawnsOp)
    (hg : Meets step ownerGuard (opened reads disk now writes) ops) :
    Keeps step (fun s => OneImplementer s.registry) (opened reads disk now writes) ops := by
  have hkeeps : Keeps step Sound (.opened reads disk now writes) ops :=
    keeps_of_meets (fun s op s' h hs hg => step_sound h hg hs)
      (opened_sound reads disk now writes) hg
  exact hkeeps.mono fun s h => h.one

end

instance (s : Spawns) : ∀ op, Decidable (ownerGuard s op)
  | .launched i .started _ => inferInstanceAs (Decidable (∀ _ ∈ _, _))
  | .republish _ _ => inferInstanceAs (Decidable (∀ _ ∈ _, _))
  | .turnEnds .paused _ => inferInstanceAs (Decidable (∀ _ ∈ _, _))
  | .interruptFails i _ => inferInstanceAs (Decidable (∀ _ ∈ _, _))
  | .launched _ (.failed _) _ | .launched _ .handedOn _ | .turnEnds .failed _
  | .turnEnds .completed _ | .admission .. | .insert .. | .release .. | .respawn ..
  | .relaunchFails | .turn .. | .resume .. | .interrupt .. | .ends .. | .restart .. =>
    isTrue trivial

def atOnce : Io := { now := 0, writes := true }

def hire (spawn : SpawnId) : SpawnsOp :=
  .admission { role := "developer", repo := "barn", task := "T-1", fleetWipCap := 4 }
    { laneCap := 4, lane := { evictAt := 0, recordAt := 0 }, spawn, createdAt := 0
      attempt := spawn, attemptAt := 0, endedAt := 0 }

/-- The first implementer dies, the task is given to a second, and the first is respawned. -/
def replacedThenRespawned : List SpawnsOp :=
  [hire 1, .insert 0 true, .release 0, .launched 0 .started atOnce, .ends "Whisker" .exited atOnce,
    hire 2, .insert 1 true, .release 1, .launched 1 .started atOnce,
    .respawn "Whisker" .respawn, .republish none atOnce]

theorem respawn_takes_task :
    ¬ Keeps step (fun s => OneImplementer s.registry) (opened id {} 0 true)
      replacedThenRespawned := by
  intro hk
  have hend : ((run step (.opened id {} 0 true) replacedThenRespawned).any fun s =>
      (s.registry.agents.get "Whisker").any (fun a => decide (Owns a "barn" "T-1")) &&
        (s.registry.agents.get "Nibbles").any (fun b => decide (Owns b "barn" "T-1"))) = true := by
    decide +kernel
  obtain ⟨s, hrun, hboth⟩ := run_of_any hend
  obtain ⟨hfirst, hsecond⟩ := Bool.and_eq_true_iff.mp hboth
  obtain ⟨a, ha, hao⟩ := (Option.any_eq_true _ _).mp hfirst
  obtain ⟨b, hb, hbo⟩ := (Option.any_eq_true _ _).mp hsecond
  have hsame : "Whisker" = "Nibbles" := hk.last hrun "barn" "T-1" (by decide) "Whisker" "Nibbles" a b
    ha hb (of_decide_eq_true hao) (of_decide_eq_true hbo)
  exact absurd hsame (by decide)

def respawnedThenRefused : List SpawnsOp :=
  [hire 1, .insert 0 true, .release 0, .launched 0 .started atOnce, .ends "Whisker" .exited atOnce,
    .respawn "Whisker" .respawn, .republish none atOnce, hire 2, .turn "Whisker",
    .turnEnds .paused atOnce, .interrupt "Whisker" atOnce, .interruptFails 0 atOnce]

theorem one_live_implementer_respawned :
    Keeps step (fun s => OneImplementer s.registry) (opened id {} 0 true)
      respawnedThenRefused := by
  apply one_live_implementer
  decide +kernel

end RatKingdom.Supervisor
