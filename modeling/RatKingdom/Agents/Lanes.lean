/-
The capacity lanes of a repository, first come, first served.

A run is a list of calls on the lanes of one registry and of restarts of its daemon; `log`
has the calls with their outcome.  `Orderly` is what is promised of the log and of the
state: no waiter twice, no lane over the cap of its last admission, no refusal that changes
the order of a queue, and nobody admitted before a key that waits longer.
-/
import RatKingdom.Lib.Line
import RatKingdom.Lib.Run
import RatKingdom.Agents.Registry

namespace RatKingdom.Agents

open Core Lib Registry List

def queueOf (waiters : List LaneWaiter) (place : Place) : List String :=
  (waiters.filter fun w => w.place = place).map LaneWaiter.key

def Registry.queue (r : Registry) (place : Place) : List String := queueOf r.laneWaiters place

inductive Outcome where
  /-- With the queue of the lane before and after the call. -/
  | refused (before after : List String)
  | admitted (cap : Nat)
  | abandoned
  deriving DecidableEq

structure Ask where
  place : Place
  key : String
  time : DateTime
  outcome : Outcome
  deriving DecidableEq

/-- The registry, with the answers about its lanes so far. -/
structure Lanes where
  registry : Registry
  clock : DateTime
  log : List Ask := []

inductive LaneOp where
  | tryReserve (place : Place) (cap : Nat) (key : String) (env : LaneEnv)
  | release (place : Place) (cap : Nat)
  | abandon (place : Place) (key : String) (now : DateTime) (writes : Bool)
  | ends (name : String)
  | restart (reads : String → String) (now : DateTime) (writes : Bool)

def settle (record : AgentRecord) : AgentRecord := { record with state := .completed }

def Lanes.note (s : Lanes) (r : Registry) (ask : Ask) : Lanes :=
  { s with registry := r, log := s.log ++ [ask] }

def Lanes.tryReserve (s : Lanes) (place : Place) (cap : Nat) (key : String) (env : LaneEnv) : Lanes :=
  let answer := s.registry.tryReserveLaneWip place cap key env
  let outcome := if answer.2 then Outcome.admitted cap
    else .refused (s.registry.queue place) (answer.1.queue place)
  { s with clock := env.recordAt }.note answer.1 ⟨place, key, env.evictAt, outcome⟩

def Lanes.step (s : Lanes) : LaneOp → Option Lanes
  | .tryReserve place cap key env =>
    if 1 ≤ cap ∧ s.clock ≤ env.evictAt ∧ env.evictAt ≤ env.recordAt then
      some (s.tryReserve place cap key env)
    else none
  | .release place cap =>
    if 1 ≤ cap then some { s with registry := s.registry.releaseLaneWip place cap } else none
  | .abandon place key now writes =>
    if s.clock ≤ now then
      some ({ s with clock := now }.note (s.registry.abandonLaneWait place key writes).1
        ⟨place, key, now, .abandoned⟩)
    else none
  | .ends name =>
    some { s with registry := { s.registry with agents := s.registry.agents.modify name settle } }
  | .restart reads now writes =>
    if s.clock ≤ now then
      some { s with
        registry := (Registry.load reads s.registry.disk).orphanLiveAgents now writes
        clock := now }
    else none

def Ask.admission (a : Ask) : Option Nat :=
  match a.outcome with
  | .admitted cap => some cap
  | _ => none

def Ask.isRefusal (a : Ask) : Bool :=
  match a.outcome with
  | .refused _ _ => true
  | _ => false

/-- A call of `try_reserve_lane_wip` by that key on that lane. -/
def Ask.asks (a : Ask) (place : Place) (key : String) : Bool :=
  a.place = place && a.key = key && (a.isRefusal || a.admission.isSome)

def Ask.settles (a : Ask) (place : Place) (key : String) : Bool :=
  a.place = place && a.key = key && !a.isRefusal

def lastAsk (log : List Ask) (place : Place) (key : String) : Option DateTime :=
  ((log.filter fun a => a.asks place key).getLast?).map Ask.time

/-- At the time of a call, the key has made no call for more than the stale limit. -/
def Silent (log : List Ask) (place : Place) (key : String) (now : DateTime) : Prop :=
  ∀ last, lastAsk log place key = some last → secondsBetween last now > laneWaitStaleSecs

def LaneWaiter.id (w : LaneWaiter) : Place × String := (w.place, w.key)

def Unique (waiters : List LaneWaiter) : Prop := (waiters.map LaneWaiter.id).Nodup

def lastAdmission (log : List Ask) (place : Place) : Option Nat :=
  ((log.filter fun a => a.place = place).filterMap Ask.admission).getLast?

def CapKept (s : Lanes) : Prop :=
  ∀ place cap, lastAdmission s.log place = some cap → s.registry.liveOrReservedLaneWip place ≤ cap

/-- The waiters of the lane are those that were in it, without some that were silent, in
their order, and then the refused key if it was not among them. -/
def OrderKept (log : List Ask) (a : Ask) (before after : List String) : Prop :=
  ∃ kept, kept.Sublist before ∧ (∀ key ∈ before, key ∉ kept → Silent log a.place key a.time) ∧
    after = kept ++ if a.key ∈ kept then [] else [a.key]

def RefusalsKeepOrder (log : List Ask) : Prop :=
  ∀ pre a post, log = pre ++ a :: post → ∀ before after, a.outcome = .refused before after →
    OrderKept pre a before after

/-- From a refusal on, the key was neither admitted nor gave up, and never fell silent. -/
def Waits (pre : List Ask) (refusal : Ask) (since : List Ask) : Prop :=
  (∀ a ∈ since, a.settles refusal.place refusal.key = false) ∧
    ∀ early a late, since = early ++ a :: late →
      ¬ Silent (pre ++ refusal :: early) refusal.place refusal.key a.time

/-- Nobody who first asked later is admitted before a key that still waits. -/
def Fair (log : List Ask) : Prop :=
  ∀ pre refusal mid admission post,
    log = pre ++ refusal :: (mid ++ admission :: post) → refusal.isRefusal = true →
    admission.place = refusal.place → admission.admission.isSome = true →
    admission.key ≠ refusal.key →
    (∀ a ∈ pre ++ [refusal], a.asks refusal.place admission.key = false) →
      ¬ Waits pre refusal (mid ++ [admission])

structure Orderly (s : Lanes) : Prop where
  unique : Unique s.registry.laneWaiters
  cap : CapKept s
  order : RefusalsKeepOrder s.log
  fair : Fair s.log

def Registry.freshQueue (r : Registry) (place : Place) (now : DateTime) : List String :=
  (r.laneWaiters.filter fun w => w.place = place && !stale now w).map LaneWaiter.key

/-- What each step has to meet.  A waiter that is found stale has been silent; the queue of
an admitted waiter can be written; a daemon restarts with the queue it had. -/
def laneGuard (s : Lanes) : LaneOp → Prop
  | .tryReserve place cap key env =>
    (∀ w ∈ s.registry.laneWaiters, w.place = place → stale env.evictAt w = true →
        Silent s.log place w.key env.evictAt) ∧
      ((s.registry.freshQueue place env.evictAt).head? = some key →
        s.registry.liveOrReservedLaneWip place < cap → env.writes = true)
  | .restart .. =>
    s.registry.disk.laneWaiters.map LaneWaiter.id = s.registry.laneWaiters.map LaneWaiter.id
  | _ => True

instance (log : List Ask) (place : Place) (key : String) (now : DateTime) :
    Decidable (Silent log place key now) :=
  match h : lastAsk log place key with
  | none => isTrue fun last hl => (by rw [h] at hl; cases hl)
  | some last => decidable_of_iff (secondsBetween last now > laneWaitStaleSecs)
      ⟨fun hs l hl => (by rw [h] at hl; cases hl; exact hs), fun hs => hs last h⟩

instance decidableLaneGuard (s : Lanes) : ∀ op, Decidable (laneGuard s op)
  | .tryReserve _ _ _ _ => inferInstanceAs (Decidable (_ ∧ _))
  | .restart .. => inferInstanceAs (Decidable (_ = _))
  | .release _ _ | .abandon _ _ _ _ | .ends _ => isTrue trivial

section
variable {r : Registry} {place p : Place} {key : String} {cap : Nat} {env : LaneEnv} {now : DateTime}
  {writes : Bool}

def Registry.waiterIds (r : Registry) : List (Place × String) := r.laneWaiters.map LaneWaiter.id

theorem queueOf_eq (waiters : List LaneWaiter) (place : Place) :
    queueOf waiters place = ((waiters.map LaneWaiter.id).filter fun i => i.1 = place).map Prod.snd := by
  rw [filter_map, map_map]
  rfl

theorem queue_eq (r : Registry) (place : Place) :
    r.queue place = (r.waiterIds.filter fun i => i.1 = place).map Prod.snd :=
  queueOf_eq r.laneWaiters place

theorem mem_queue : key ∈ r.queue place ↔ (place, key) ∈ r.waiterIds := by
  rw [queue_eq, mem_map]
  constructor
  · intro ⟨i, hi, hk⟩
    obtain ⟨hm, hp⟩ := mem_filter.mp hi
    have hi' : i = (place, key) := Prod.ext (of_decide_eq_true hp) hk
    exact hi' ▸ hm
  · intro h
    exact ⟨(place, key), mem_filter.mpr ⟨h, decide_eq_true rfl⟩, rfl⟩

/-- Registries that differ in their waiters at most. -/
structure SameSlots (r r' : Registry) : Prop where
  agents : r'.agents = r.agents
  reservations : r'.laneReservations = r.laneReservations

theorem SameSlots.count {r' : Registry} (h : SameSlots r r') (place : Place) :
    r'.liveOrReservedLaneWip place = r.liveOrReservedLaneWip place := by
  unfold liveOrReservedLaneWip liveAt reservedAt liveCount records
  rw [h.agents, h.reservations]

def UniqueBoth (r : Registry) : Prop := Unique r.laneWaiters ∧ Unique r.disk.laneWaiters

theorem persistLaneWaiters_waiters (r : Registry) (writes : Bool) :
    (r.persistLaneWaiters writes).laneWaiters = r.laneWaiters := by
  cases writes <;> rfl

theorem persistLaneWaiters_slots (r : Registry) (writes : Bool) :
    SameSlots r (r.persistLaneWaiters writes) := by
  cases writes <;> exact ⟨rfl, rfl⟩

theorem persistLaneWaiters_unique (h : UniqueBoth r) (writes : Bool) :
    UniqueBoth (r.persistLaneWaiters writes) := by
  cases writes with
  | false => exact h
  | true => exact ⟨h.1, h.1⟩

theorem unique_filter {waiters : List LaneWaiter} (h : Unique waiters) (f : LaneWaiter → Bool) :
    Unique (waiters.filter f) := (filter_sublist.map LaneWaiter.id).nodup h

/-- The waiters that `keep` keeps are left, and nothing else has changed. -/
structure Filters (r : Registry) (keep : LaneWaiter → Bool) (r' : Registry) : Prop where
  waiters : r'.laneWaiters = r.laneWaiters.filter keep
  slots : SameSlots r r'
  unique : UniqueBoth r → UniqueBoth r'

theorem filters_ite (r : Registry) (keep : LaneWaiter → Bool) (c : Prop) [Decidable c]
    (writes : Bool) :
    Filters r keep (if c then { r with laneWaiters := r.laneWaiters.filter keep }
      else persistLaneWaiters { r with laneWaiters := r.laneWaiters.filter keep } writes) := by
  by_cases hc : c
  · rw [if_pos hc]
    exact ⟨rfl, ⟨rfl, rfl⟩, fun h => ⟨unique_filter h.1 keep, h.2⟩⟩
  · rw [if_neg hc]
    have hslots :=
      persistLaneWaiters_slots { r with laneWaiters := r.laneWaiters.filter keep } writes
    refine ⟨persistLaneWaiters_waiters _ writes, ⟨hslots.agents, hslots.reservations⟩, ?_⟩
    intro h
    apply persistLaneWaiters_unique
    exact ⟨unique_filter h.1 keep, h.2⟩

theorem evict_filters (r : Registry) (place : Place) (now : DateTime) (writes : Bool) :
    Filters r (fun w => !(w.place = place && stale now w))
      (r.evictStaleLaneWaiters place now writes) :=
  filters_ite r _ _ writes

theorem clear_filters (r : Registry) (place : Place) (key : String) (writes : Bool) :
    Filters r (fun w => !(w.place = place && w.key = key))
      (r.clearLaneWait place key writes).1 := by
  unfold clearLaneWait
  rw [apply_ite Prod.fst]
  exact filters_ite r _ _ writes

theorem clear_failed (h : (r.clearLaneWait place key writes).2 = false) :
    writes = false ∧ (place, key) ∈ r.waiterIds := by
  unfold clearLaneWait at h
  dsimp only at h
  split at h
  · cases h
  · rename_i hlen
    refine ⟨h, ?_⟩
    by_contra hno
    apply hlen
    congr 1
    apply filter_eq_self.mpr
    intro w hw
    have hne : (decide (w.place = place) && decide (w.key = key)) = false := by
      apply Bool.eq_false_iff.mpr
      intro hsame
      rw [Bool.and_eq_true, decide_eq_true_eq, decide_eq_true_eq] at hsame
      exact hno (mem_map.mpr ⟨w, hw, Prod.ext hsame.1 hsame.2⟩)
    rw [hne]
    rfl

theorem record_slots (r : Registry) (place : Place) (key : String) (now : DateTime) (writes : Bool) :
    SameSlots r (r.recordLaneWait place key now writes) := by
  unfold recordLaneWait
  split
  · split
    · exact ⟨rfl, rfl⟩
    · split
      · exact ⟨rfl, rfl⟩
      · split <;> exact ⟨rfl, rfl⟩
  · split <;> exact ⟨rfl, rfl⟩

/-- Nobody but the key joins, at the end, and nobody leaves. -/
theorem record_ids (r : Registry) (place : Place) (key : String) (now : DateTime) (writes : Bool) :
    (r.recordLaneWait place key now writes).waiterIds =
      r.waiterIds ++ if (place, key) ∈ r.waiterIds then [] else [(place, key)] := by
  unfold recordLaneWait waiterIds
  cases hidx : r.laneWaiters.findIdx? fun w => w.place = place && w.key = key with
  | some i =>
    obtain ⟨hi, hfound, -⟩ := findIdx?_eq_some_iff_getElem.mp hidx
    rw [Bool.and_eq_true, decide_eq_true_eq, decide_eq_true_eq] at hfound
    have hm : (place, key) ∈ r.laneWaiters.map LaneWaiter.id :=
      mem_map.mpr ⟨r.laneWaiters[i], getElem_mem hi, Prod.ext hfound.1 hfound.2⟩
    rw [if_pos hm, append_nil]
    dsimp only
    rw [getElem?_eq_getElem hi]
    dsimp only
    split
    · rfl
    · split
      · show (r.laneWaiters.set i _).map LaneWaiter.id = _
        rw [map_set]
        have hi' : i < (r.laneWaiters.map LaneWaiter.id).length := by
          rw [length_map]
          exact hi
        have hsame : LaneWaiter.id { r.laneWaiters[i] with lastSeen := now } =
            (r.laneWaiters.map LaneWaiter.id)[i] := by
          rw [getElem_map]
          rfl
        rw [hsame, set_getElem_self]
      · rfl
  | none =>
    have hno : (place, key) ∉ r.laneWaiters.map LaneWaiter.id := by
      intro hm
      obtain ⟨w, hw, he⟩ := mem_map.mp hm
      have hmiss := findIdx?_eq_none_iff.mp hidx w hw
      have hp : w.place = place := congrArg Prod.fst he
      have hk : w.key = key := congrArg Prod.snd he
      simp [hp, hk] at hmiss
    dsimp only
    split
    · exact map_append
    · exact map_append

theorem record_unique (h : UniqueBoth r) (place : Place) (key : String) (now : DateTime)
    (writes : Bool) : UniqueBoth (r.recordLaneWait place key now writes) := by
  have hids : Unique (r.recordLaneWait place key now writes).laneWaiters := by
    show ((r.recordLaneWait place key now writes).waiterIds).Nodup
    rw [record_ids]
    split
    · rw [append_nil]
      exact h.1
    · rename_i hno
      exact nodup_append.mpr ⟨h.1, nodup_singleton _, fun a ha b hb he =>
        hno (mem_singleton.mp hb ▸ he ▸ ha)⟩
  refine ⟨hids, ?_⟩
  revert hids
  unfold recordLaneWait
  split
  · split
    · exact fun _ => h.2
    · split
      · exact fun _ => h.2
      · split
        · exact fun hids => hids
        · exact fun _ => h.2
  · split
    · exact fun hids => hids
    · exact fun _ => h.2

theorem evict_queue (r : Registry) (place : Place) (now : DateTime) (writes : Bool) :
    (r.evictStaleLaneWaiters place now writes).queue place = r.freshQueue place now := by
  unfold queue queueOf freshQueue
  rw [(evict_filters r place now writes).waiters, filter_filter]
  congr 2
  funext w
  cases decide (w.place = place) with
  | true | false => simp

theorem evict_queue_ne (r : Registry) (now : DateTime) (writes : Bool) (hp : p ≠ place) :
    (r.evictStaleLaneWaiters place now writes).queue p = r.queue p := by
  unfold queue queueOf
  rw [(evict_filters r place now writes).waiters, filter_filter]
  congr 2
  funext w
  by_cases hw : w.place = p
  · simp [hw, hp]
  · simp [hw]

theorem freshQueue_sublist (r : Registry) (place : Place) (now : DateTime) :
    (r.freshQueue place now).Sublist (r.queue place) := by
  apply List.Sublist.map
  have h : (r.laneWaiters.filter fun w => w.place = place && !stale now w) =
      (r.laneWaiters.filter fun w => w.place = place).filter fun w => !stale now w := by
    rw [filter_filter]
    congr 1
    funext w
    exact Bool.and_comm _ _
  rw [h]
  exact filter_sublist

theorem queue_nodup (h : Unique r.laneWaiters) (place : Place) : (r.queue place).Nodup := by
  rw [queue_eq]
  apply List.Nodup.map_on _ (h.filter _)
  intro i hi j hj he
  have hip := of_decide_eq_true (mem_filter.mp hi).2
  have hjp := of_decide_eq_true (mem_filter.mp hj).2
  exact Prod.ext (hip.trans hjp.symm) he

theorem append_ids_queue {r' : Registry} (h : r'.waiterIds = r.waiterIds ++
    if (place, key) ∈ r.waiterIds then [] else [(place, key)]) :
    r'.queue place = r.queue place ++ (if key ∈ r.queue place then [] else [key]) ∧
      ∀ p, p ≠ place → r'.queue p = r.queue p := by
  by_cases hm : (place, key) ∈ r.waiterIds
  · rw [if_pos hm, append_nil] at h
    rw [if_pos (mem_queue.mpr hm), append_nil]
    refine ⟨?_, fun p _ => ?_⟩
    · rw [queue_eq, queue_eq, h]
    · rw [queue_eq, queue_eq, h]
  · rw [if_neg hm] at h
    rw [if_neg (fun hq => hm (mem_queue.mp hq))]
    refine ⟨?_, fun p hp => ?_⟩
    · rw [queue_eq, queue_eq, h, filter_append, map_append]
      simp
    · rw [queue_eq, queue_eq, h, filter_append, map_append]
      simp [hp.symm]

theorem clear_queue (r : Registry) (place : Place) (key : String) (writes : Bool) :
    (r.clearLaneWait place key writes).1.queue place = (r.queue place).filter (fun k => k ≠ key) ∧
      ∀ p, p ≠ place → (r.clearLaneWait place key writes).1.queue p = r.queue p := by
  unfold queue queueOf
  rw [(clear_filters r place key writes).waiters]
  refine ⟨?_, fun p hp => ?_⟩
  · rw [filter_filter, filter_map, filter_filter]
    congr 2
    funext w
    by_cases hw : w.place = place
    · simp [hw]
    · simp [hw]
  · rw [filter_filter]
    congr 2
    funext w
    by_cases hw : w.place = p
    · simp [hw, hp]
    · simp [hw]

theorem blockedBehind_eq (r : Registry) (place : Place) (key : String) :
    r.blockedBehind place key = false ↔ ∀ k, (r.queue place).head? = some k → k = key := by
  unfold blockedBehind queue queueOf
  rw [head?_map, head?_filter]
  cases r.laneWaiters.find? fun w => w.place = place with
  | none | some w => simp

inductive LaneAnswer (r : Registry) (place : Place) (cap : Nat) (key : String) (env : LaneEnv)
    (r' : Registry) : Bool → Prop
  | admitted (free : r.liveOrReservedLaneWip place < cap)
      (head : ∀ k, (r.freshQueue place env.evictAt).head? = some k → k = key)
      (agents : r'.agents = r.agents)
      (reservations : r'.laneReservations = place :: r.laneReservations)
      (queue : r'.queue place = (r.freshQueue place env.evictAt).filter fun k => k ≠ key) :
      LaneAnswer r place cap key env r' true
  | refused (slots : SameSlots r r') (queue : r'.queue place = r.freshQueue place env.evictAt ++
        if key ∈ r.freshQueue place env.evictAt then [] else [key]) :
      LaneAnswer r place cap key env r' false
  | unwritten (free : r.liveOrReservedLaneWip place < cap)
      (head : (r.freshQueue place env.evictAt).head? = some key) (writes : env.writes = false)
      (slots : SameSlots r r') : LaneAnswer r place cap key env r' false

theorem tryReserve_spec (hcap : 1 ≤ cap) (r : Registry) (place : Place) (key : String)
    (env : LaneEnv) :
    LaneAnswer r place cap key env (r.tryReserveLaneWip place cap key env).1
        (r.tryReserveLaneWip place cap key env).2 ∧
      ∀ p, p ≠ place → (r.tryReserveLaneWip place cap key env).1.queue p = r.queue p := by
  have hev := (evict_filters r place env.evictAt env.evictWrites).slots
  have hqueue := evict_queue r place env.evictAt env.evictWrites
  have hother : ∀ p, p ≠ place →
      (r.evictStaleLaneWaiters place env.evictAt env.evictWrites).queue p = r.queue p :=
    fun p hp => evict_queue_ne r env.evictAt env.evictWrites hp
  have hcount := hev.count place
  unfold tryReserveLaneWip
  rw [if_neg (by omega)]
  generalize r.evictStaleLaneWaiters place env.evictAt env.evictWrites = r₁ at hev hqueue hother hcount
  dsimp only
  split
  · obtain ⟨hrec, hne⟩ := append_ids_queue (record_ids r₁ place key env.recordAt env.writes)
    have hslots := record_slots r₁ place key env.recordAt env.writes
    refine ⟨.refused ⟨hslots.agents.trans hev.agents, hslots.reservations.trans hev.reservations⟩ ?_,
      fun p hp => (hne p hp).trans (hother p hp)⟩
    rw [hrec, hqueue]
  · rename_i hgo
    simp only [Bool.or_eq_true, decide_eq_true_eq, not_or, Bool.not_eq_true] at hgo
    obtain ⟨hhead, hfree⟩ := hgo
    rw [blockedBehind_eq, hqueue] at hhead
    have hslots := (clear_filters r₁ place key env.writes).slots
    obtain ⟨hclear, hne⟩ := clear_queue r₁ place key env.writes
    cases hcl : r₁.clearLaneWait place key env.writes with
    | mk r₂ ok =>
      rw [hcl] at hslots hclear hne
      cases ok with
      | true =>
        refine ⟨.admitted (by omega) hhead (hslots.agents.trans hev.agents) ?_ ?_,
          fun p hp => (hne p hp).trans (hother p hp)⟩
        · show place :: r₂.laneReservations = _
          rw [hslots.reservations, hev.reservations]
        · rw [← hqueue]
          exact hclear
      | false =>
        have hfail : (r₁.clearLaneWait place key env.writes).2 = false := by rw [hcl]
        obtain ⟨hw, hm⟩ := clear_failed hfail
        have hin : key ∈ r.freshQueue place env.evictAt := by
          rw [← hqueue]
          exact mem_queue.mpr hm
        refine ⟨.unwritten (by omega) ?_ hw
          ⟨hslots.agents.trans hev.agents, hslots.reservations.trans hev.reservations⟩,
          fun p hp => (hne p hp).trans (hother p hp)⟩
        cases hq : r.freshQueue place env.evictAt with
        | nil =>
          rw [hq] at hin
          cases hin
        | cons k ks =>
          rw [hhead k (by rw [hq]; rfl)]
          rfl

theorem tryReserve_unique (h : UniqueBoth r) (place : Place) (cap : Nat) (key : String)
    (env : LaneEnv) : UniqueBoth (r.tryReserveLaneWip place cap key env).1 := by
  unfold tryReserveLaneWip
  split
  · exact h
  · dsimp only
    have h₁ := (evict_filters r place env.evictAt env.evictWrites).unique h
    split
    · exact record_unique h₁ _ _ _ _
    · have h₂ := (clear_filters _ place key env.writes).unique h₁
      cases hcl : (r.evictStaleLaneWaiters place env.evictAt env.evictWrites).clearLaneWait place key
          env.writes with
      | mk r₂ ok =>
        rw [hcl] at h₂
        cases ok with
        | true | false => exact h₂

theorem tryReserve_turn {rest : List String} (hu : Unique r.laneWaiters)
    (hqueue : r.queue place = key :: rest)
    (hfresh : ∀ w ∈ r.laneWaiters, w.place = place → stale env.evictAt w = false)
    (hwrites : env.writes = true) (hfree : r.liveOrReservedLaneWip place < cap) :
    ∃ r', r.tryReserveLaneWip place cap key env = (r', true) ∧
      r'.laneWaiters.Sublist r.laneWaiters ∧ r'.queue place = rest ∧
      r'.liveOrReservedLaneWip place = r.liveOrReservedLaneWip place + 1 := by
  have hkept : (r.laneWaiters.filter fun w => !(w.place = place && stale env.evictAt w)) =
      r.laneWaiters := filter_eq_self.mpr fun w hw => by
    by_cases hp : w.place = place
    · simp [hp, hfresh w hw hp]
    · simp [hp]
  have hevict : r.evictStaleLaneWaiters place env.evictAt env.evictWrites = r := by
    rw [evictStaleLaneWaiters, hkept]
    exact if_pos rfl
  have hhead : r.blockedBehind place key = false :=
    (blockedBehind_eq r place key).mpr fun k hk => by simpa [hqueue, eq_comm] using hk
  have hclear := clear_filters r place key env.writes
  have hleft := (clear_queue r place key env.writes).1
  unfold tryReserveLaneWip
  rw [if_neg (by omega), hevict]
  dsimp only
  rw [hhead, if_neg (by simp; omega)]
  cases hcl : r.clearLaneWait place key env.writes with
  | mk r₂ ok =>
    rw [hcl] at hclear hleft
    cases ok with
    | false =>
      have hfailed := (clear_failed (congrArg Prod.snd hcl)).1
      rw [hwrites] at hfailed
      cases hfailed
    | true =>
      refine ⟨_, rfl, ?_, ?_, ?_⟩
      · show r₂.laneWaiters.Sublist r.laneWaiters
        rw [hclear.waiters]
        exact filter_sublist
      · show r₂.queue place = rest
        have hnodup := hqueue ▸ queue_nodup hu place
        rw [hleft, hqueue, filter_cons_of_neg (by simp)]
        exact filter_eq_self.mpr fun k hk => by
          simpa using ne_of_mem_of_not_mem hk (nodup_cons.mp hnodup).1
      · show r₂.liveAt place + (place :: r₂.laneReservations).count place = _
        rw [count_cons_self, ← hclear.slots.count place]
        rfl

theorem mem_freshQueue_of_fresh (h : key ∈ r.queue place) (hno : key ∉ r.freshQueue place now) :
    ∃ w ∈ r.laneWaiters, w.place = place ∧ w.key = key ∧ stale now w = true := by
  obtain ⟨w, hw, hk⟩ := mem_map.mp h
  obtain ⟨hm, hp⟩ := mem_filter.mp hw
  refine ⟨w, hm, of_decide_eq_true hp, hk, ?_⟩
  by_contra hfresh
  apply hno
  refine mem_map.mpr ⟨w, mem_filter.mpr ⟨hm, ?_⟩, hk⟩
  rw [hp, Bool.eq_false_iff.mpr hfresh]
  rfl

end

structure InOrder (s : Lanes) : Prop where
  unique : UniqueBoth s.registry
  cap : CapKept s
  order : RefusalsKeepOrder s.log
  fair : Fair s.log
  asked : ∀ place key, key ∈ s.registry.queue place → ∃ a ∈ s.log, a.asks place key = true
  waiting : ∀ pre refusal since, s.log = pre ++ refusal :: since → refusal.isRefusal = true →
    ∀ j, j ≠ refusal.key → (∀ a ∈ pre ++ [refusal], a.asks refusal.place j = false) →
      Waits pre refusal since → Ahead (s.registry.queue refusal.place) refusal.key j

/-- How a logged call changes the queues: some leave the lane that were silent or are done
waiting, and a refused key is in it at the end. -/
structure Change (s : Lanes) (a : Ask) (r : Registry) : Prop where
  other : ∀ p, p ≠ a.place → r.queue p = s.registry.queue p
  own : ∃ kept joined : List String, r.queue a.place = kept ++ joined ∧
    kept.Sublist (s.registry.queue a.place) ∧
    (∀ key ∈ s.registry.queue a.place, key ∉ kept →
      Silent s.log a.place key a.time ∨ a.settles a.place key = true) ∧
    ∀ key ∈ joined, a.asks a.place key = true
  stays : a.isRefusal = true → a.key ∈ r.queue a.place
  head : a.admission.isSome = true → ∃ fresh : List String, fresh.Sublist (s.registry.queue a.place) ∧
    (∀ key ∈ s.registry.queue a.place, key ∉ fresh → Silent s.log a.place key a.time) ∧
    ∀ key, fresh.head? = some key → key = a.key
  order : ∀ before after, a.outcome = .refused before after → OrderKept s.log a before after

section
variable {s : Lanes} {r : Registry} {a : Ask} {log pre since : List Ask} {refusal : Ask}

theorem concat_eq_split {pre since : List Ask} (h : log ++ [a] = pre ++ refusal :: since) :
    (since = [] ∧ log = pre ∧ a = refusal) ∨
      ∃ before, since = before ++ [a] ∧ log = pre ++ refusal :: before := by
  rcases eq_nil_or_concat' since with rfl | ⟨before, last, rfl⟩
  · obtain ⟨hl, hr⟩ := append_inj' h rfl
    cases hr
    exact .inl ⟨rfl, hl, rfl⟩
  · have h' : log ++ [a] = (pre ++ refusal :: before) ++ [last] := by
      rw [h, append_assoc, cons_append]
    obtain ⟨hl, hr⟩ := append_inj' h' rfl
    cases hr
    exact .inr ⟨before, rfl, hl⟩

theorem Waits.init {before : List Ask} (h : Waits pre refusal (before ++ [a])) :
    Waits pre refusal before := by
  refine ⟨fun x hx => h.1 x (mem_append_left _ hx), fun early x late he => ?_⟩
  apply h.2 early x (late ++ [a])
  rw [he, append_assoc, cons_append]

theorem Waits.last {before : List Ask} (h : Waits pre refusal (before ++ [a])) :
    a.settles refusal.place refusal.key = false ∧
      ¬ Silent (pre ++ refusal :: before) refusal.place refusal.key a.time :=
  ⟨h.1 a (mem_append_right _ (mem_singleton.mpr rfl)), h.2 before a [] rfl⟩

theorem Change.ahead (h : Change s a r) (hu : UniqueBoth s.registry) {place : Place} {k j : String}
    (hq : Ahead (s.registry.queue place) k j) (hsettles : a.settles place k = false)
    (hsilent : ¬ Silent s.log place k a.time) : Ahead (r.queue place) k j := by
  by_cases hp : place = a.place
  · subst hp
    obtain ⟨kept, joined, hown, hsub, hleft, -⟩ := h.own
    rw [hown]
    have hk : k ∈ kept := by
      by_contra hno
      rcases hleft k hq.1 hno with hs | hs
      · exact hsilent hs
      · rw [hsettles] at hs
        cases hs
    exact (hq.sublist (queue_nodup hu.1 _) hsub hk).append joined
  · rw [h.other place hp]
    exact hq

theorem Change.not_admitted (h : Change s a r) (hu : UniqueBoth s.registry) {k : String}
    (hq : Ahead (s.registry.queue a.place) k a.key) (hne : a.key ≠ k)
    (hsilent : ¬ Silent s.log a.place k a.time) : a.admission.isSome = false := by
  by_contra hadm
  obtain ⟨fresh, hsub, hleft, hhead⟩ := h.head (by rw [Bool.not_eq_false] at hadm; exact hadm)
  have hk : k ∈ fresh := by
    by_contra hno
    exact hsilent (hleft k hq.1 hno)
  have hahead := hq.sublist (queue_nodup hu.1 _) hsub hk
  cases hf : fresh with
  | nil =>
    rw [hf] at hk
    cases hk
  | cons x xs =>
    have hx : x = a.key := hhead x (by rw [hf]; rfl)
    exact hne (hahead.head (by rw [hf, hx]; rfl))

theorem InOrder.note (h : InOrder s) (hc : Change s a r) (hu : UniqueBoth r)
    (hcap : CapKept (s.note r a)) : InOrder (s.note r a) := by
  have hasked : ∀ place key, key ∈ r.queue place → ∃ x ∈ s.log ++ [a], x.asks place key = true := by
    intro place key hkey
    by_cases hp : place = a.place
    · subst hp
      obtain ⟨kept, joined, hown, hsub, -, hjoined⟩ := hc.own
      rw [hown] at hkey
      rcases mem_append.mp hkey with hkey | hkey
      · obtain ⟨x, hx, hask⟩ := h.asked a.place key (hsub.mem hkey)
        exact ⟨x, mem_append_left _ hx, hask⟩
      · exact ⟨a, mem_append_right _ (mem_singleton.mpr rfl), hjoined key hkey⟩
    · rw [hc.other place hp] at hkey
      obtain ⟨x, hx, hask⟩ := h.asked place key hkey
      exact ⟨x, mem_append_left _ hx, hask⟩
  refine ⟨hu, hcap, ?_, ?_, hasked, ?_⟩
  · intro pre x post hsplit before after hout
    rcases concat_eq_split hsplit with ⟨-, rfl, rfl⟩ | ⟨post', -, hlog⟩
    · exact hc.order before after hout
    · exact h.order pre x post' hlog before after hout
  · intro pre refusal mid admission post hsplit href hplace hadm hne hfirst hwaits
    have hsplit' : s.log ++ [a] = (pre ++ refusal :: mid) ++ admission :: post := by
      rw [append_assoc]
      exact hsplit
    rcases concat_eq_split hsplit' with ⟨-, hlog, rfl⟩ | ⟨post', -, hlog⟩
    · have hold := h.waiting pre refusal mid hlog href a.key hne hfirst hwaits.init
      have hl := hwaits.last
      rw [← hlog, ← hplace] at hl
      rw [← hplace] at hold
      rw [hc.not_admitted h.unique hold hne hl.2] at hadm
      cases hadm
    · rw [append_assoc] at hlog
      exact h.fair pre refusal mid admission post' hlog href hplace hadm hne hfirst hwaits
  · intro pre refusal since hsplit href j hne hfirst hwaits
    rcases concat_eq_split hsplit with ⟨-, rfl, rfl⟩ | ⟨before, rfl, hlog⟩
    · apply ahead_of_not_mem (hc.stays href)
      intro hj
      obtain ⟨x, hx, hask⟩ := hasked a.place j hj
      rw [hfirst x hx] at hask
      cases hask
    · have hl := hwaits.last
      rw [← hlog] at hl
      exact hc.ahead h.unique (h.waiting pre refusal before hlog href j hne hfirst hwaits.init)
        hl.1 hl.2

theorem InOrder.quiet (h : InOrder s) {clock : DateTime} (hq : ∀ p, r.queue p = s.registry.queue p)
    (hu : UniqueBoth r) (hcap : ∀ p, r.liveOrReservedLaneWip p ≤ s.registry.liveOrReservedLaneWip p) :
    InOrder { s with registry := r, clock } := by
  refine ⟨hu, fun place cap hl => ?_, h.order, h.fair, fun place key hkey => ?_,
    fun pre refusal since hsplit href j hne hfirst hwaits => ?_⟩
  · exact Nat.le_trans (hcap place) (h.cap place cap hl)
  · exact h.asked place key (hq place ▸ hkey)
  · show Ahead (r.queue refusal.place) refusal.key j
    rw [hq]
    exact h.waiting pre refusal since hsplit href j hne hfirst hwaits

theorem lastAdmission_concat (log : List Ask) (a : Ask) (place : Place) :
    lastAdmission (log ++ [a]) place =
      if a.place = place then a.admission.or (lastAdmission log place)
      else lastAdmission log place := by
  unfold lastAdmission
  rw [filter_append]
  by_cases hp : a.place = place
  · rw [if_pos hp, filter_cons_of_pos (by simpa using hp), filter_nil, filterMap_append]
    cases ha : a.admission with
    | none | some cap => simp [ha]
  · rw [if_neg hp, filter_cons_of_neg (by simpa using hp), filter_nil, append_nil]

theorem capKept_note (h : CapKept s) (hadm : ∀ cap, a.admission = some cap →
      r.liveOrReservedLaneWip a.place ≤ cap)
    (hle : ∀ place, a.place ≠ place ∨ a.admission = none →
      r.liveOrReservedLaneWip place ≤ s.registry.liveOrReservedLaneWip place) :
    CapKept (s.note r a) := by
  intro place cap hl
  have hlast' : lastAdmission (s.log ++ [a]) place = some cap := hl
  rw [lastAdmission_concat] at hlast'
  by_cases hp : a.place = place
  · rw [if_pos hp] at hlast'
    cases ha : a.admission with
    | none =>
      rw [ha] at hlast'
      exact Nat.le_trans (hle place (.inr ha)) (h place cap hlast')
    | some c =>
      rw [ha] at hlast'
      cases hlast'
      exact hp ▸ hadm _ ha
  · rw [if_neg hp] at hlast'
    exact Nat.le_trans (hle place (.inl hp)) (h place cap hlast')

theorem liveAt_congr {r r' : Registry} (h : r'.agents = r.agents) (place : Place) :
    r'.liveAt place = r.liveAt place := by
  unfold liveAt liveCount records
  rw [h]

theorem inOrder_tryReserve (h : InOrder s) {place : Place} {cap : Nat} {key : String} {env : LaneEnv}
    (hcap : 1 ≤ cap) (hg : laneGuard s (.tryReserve place cap key env)) :
    InOrder (s.tryReserve place cap key env) := by
  obtain ⟨hstale, hwrites⟩ := hg
  obtain ⟨hanswer, hother⟩ := tryReserve_spec hcap s.registry place key env
  have hunique := tryReserve_unique h.unique place cap key env
  have hfresh := freshQueue_sublist s.registry place env.evictAt
  have hsilent : ∀ k ∈ s.registry.queue place, k ∉ s.registry.freshQueue place env.evictAt →
      Silent s.log place k env.evictAt := by
    intro k hk hno
    obtain ⟨w, hw, hp, hwk, hs⟩ := mem_freshQueue_of_fresh hk hno
    exact hwk ▸ hstale w hw hp hs
  -- The clock of the lanes plays no part in what is promised.
  have hclock : InOrder { s with clock := env.recordAt } :=
    h.quiet (fun _ => rfl) h.unique (fun _ => Nat.le_refl _)
  unfold Lanes.tryReserve
  generalize s.registry.tryReserveLaneWip place cap key env = answer at hanswer hother hunique
  obtain ⟨r', ok⟩ := answer
  dsimp only at hanswer hother hunique ⊢
  cases hanswer with
  | admitted free head agents reservations queue =>
    have hl := liveAt_congr agents
    apply hclock.note _ hunique
    · apply capKept_note hclock.cap
      · intro c hc
        cases hc
        show r'.liveAt place + r'.laneReservations.count place ≤ cap
        unfold liveOrReservedLaneWip reservedAt at free
        rw [hl, reservations, count_cons_self]
        omega
      · intro p hp
        have hne : place ≠ p := by
          rcases hp with hp | hp
          · exact hp
          · cases hp
        show r'.liveAt p + r'.laneReservations.count p ≤ _
        rw [hl, reservations, count_cons_of_ne hne]
        exact Nat.le_refl _
    · refine ⟨hother, ⟨(s.registry.freshQueue place env.evictAt).filter fun k => k ≠ key, [], ?_, ?_,
        ?_, ?_⟩, ?_, ?_, ?_⟩
      · rw [append_nil]
        exact queue
      · exact filter_sublist.trans hfresh
      · intro k hk hno
        by_cases hkey : k = key
        · right
          show (decide (place = place) && decide (key = k) && _) = true
          simp [hkey, Ask.isRefusal]
        · left
          apply hsilent k hk
          intro hin
          exact hno (mem_filter.mpr ⟨hin, by simpa using hkey⟩)
      · nofun
      · nofun
      · intro _
        exact ⟨_, hfresh, hsilent, head⟩
      · nofun
  | refused slots queue =>
    apply hclock.note _ hunique
    · apply capKept_note hclock.cap
      · nofun
      · intro p _
        exact Nat.le_of_eq (slots.count p)
    · refine ⟨hother, ⟨s.registry.freshQueue place env.evictAt, _, queue, hfresh, ?_, ?_⟩, ?_, ?_, ?_⟩
      · intro k hk hno
        exact .inl (hsilent k hk hno)
      · intro k hk
        split at hk
        · cases hk
        · rw [mem_singleton.mp hk]
          show (decide (place = place) && decide (key = key) && _) = true
          simp [Ask.isRefusal]
      · intro _
        show key ∈ r'.queue place
        rw [queue]
        by_cases hin : key ∈ s.registry.freshQueue place env.evictAt
        · exact mem_append_left _ hin
        · rw [if_neg hin]
          exact mem_append_right _ (mem_singleton.mpr rfl)
      · nofun
      · intro before after hout
        cases hout
        exact ⟨_, hfresh, hsilent, queue⟩
  | unwritten free head writes slots =>
    rw [hwrites head free] at writes
    cases writes

theorem inOrder_abandon (h : InOrder s) (place : Place) (key : String) (now : DateTime)
    (writes : Bool) :
    InOrder (({ s with clock := now } : Lanes).note
      (s.registry.abandonLaneWait place key writes).1 ⟨place, key, now, .abandoned⟩) := by
  have hclock : InOrder { s with clock := now } :=
    h.quiet (fun _ => rfl) h.unique (fun _ => Nat.le_refl _)
  obtain ⟨hown, hother⟩ := clear_queue s.registry place key writes
  apply hclock.note _ ((clear_filters s.registry place key writes).unique h.unique)
  · apply capKept_note hclock.cap
    · nofun
    · intro p _
      exact Nat.le_of_eq ((clear_filters s.registry place key writes).slots.count p)
  · refine ⟨hother, ⟨(s.registry.queue place).filter fun k => k ≠ key, [], ?_, filter_sublist,
      ?_, ?_⟩, ?_, ?_, ?_⟩
    · rw [append_nil]
      exact hown
    · intro k hk hno
      right
      have hkey : k = key := by
        by_contra hne
        exact hno (mem_filter.mpr ⟨hk, by simpa using hne⟩)
      show (decide (place = place) && decide (key = k) && _) = true
      simp [hkey, Ask.isRefusal]
    all_goals nofun

theorem count_erase_le (l : List Place) (place p : Place) : (l.erase place).count p ≤ l.count p :=
  (erase_sublist).count_le p

theorem liveCount_modify_le (r : Registry) (name : String) {f : AgentRecord → AgentRecord}
    (hf : ∀ record, (f record).state.isLive = false) (p : AgentRecord → Bool) :
    ({ r with agents := r.agents.modify name f } : Registry).liveCount p ≤ r.liveCount p := by
  unfold liveCount records
  rw [← countP_eq_length_filter, ← countP_eq_length_filter]
  show ((r.agents.rows.map fun row => if row.1 = name then (row.1, f row.2) else row).map
    Prod.snd).countP _ ≤ _
  rw [map_map, countP_map, countP_map]
  apply countP_mono_left
  intro row _ hq
  simp only [Function.comp_apply] at hq ⊢
  by_cases hn : row.1 = name
  · rw [if_pos hn, hf, Bool.false_and] at hq
    cases hq
  · rw [if_neg hn] at hq
    exact hq

theorem restart_empty (r : Registry) (hr : r.laneReservations = []) (now : DateTime) (writes : Bool)
    (place : Place) : (r.orphanLiveAgents now writes).liveOrReservedLaneWip place = 0 := by
  have hreserved : (r.orphanLiveAgents now writes).laneReservations = [] := by
    cases writes <;> exact hr
  unfold liveOrReservedLaneWip reservedAt liveAt liveCount records
  rw [hreserved]
  have hn : ((r.orphanLiveAgents now writes).agents.rows.map Prod.snd).filter (fun record =>
      record.state.isLive && decide ((record.repoName, .forRole record.role) = place)) = [] := by
    apply filter_eq_nil_iff.mpr
    intro record hrecord
    obtain ⟨row, hrow, rfl⟩ := mem_map.mp hrecord
    simp [orphaned_none hrow]
  rw [hn]
  rfl

theorem restart_waiters (reads : String → String) (disk : Disk) (now : DateTime) (writes : Bool) :
    ((Registry.load reads disk).orphanLiveAgents now writes).laneWaiters = disk.laneWaiters ∧
      ((Registry.load reads disk).orphanLiveAgents now writes).disk.laneWaiters = disk.laneWaiters := by
  cases writes <;> exact ⟨rfl, rfl⟩

theorem inOrder_step {s' : Lanes} {op : LaneOp} (h : InOrder s) (hg : laneGuard s op)
    (hs : s.step op = some s') : InOrder s' := by
  cases op with
  | tryReserve place cap key env =>
    simp only [Lanes.step] at hs
    split at hs
    · rename_i hen
      cases hs
      exact inOrder_tryReserve h hen.1 hg
    · cases hs
  | release place cap =>
    simp only [Lanes.step] at hs
    obtain ⟨hcap, hs⟩ := Option.ite_none_right_eq_some.mp hs
    cases hs
    unfold releaseLaneWip
    rw [if_neg (by omega)]
    refine h.quiet (fun _ => rfl) h.unique ?_
    intro p
    have hle := count_erase_le s.registry.laneReservations place p
    show s.registry.liveAt p + (s.registry.laneReservations.erase place).count p ≤ _
    unfold liveOrReservedLaneWip reservedAt
    omega
  | abandon place key now writes =>
    simp only [Lanes.step] at hs
    split at hs
    · cases hs
      exact inOrder_abandon h place key now writes
    · cases hs
  | ends name =>
    cases hs
    refine h.quiet (fun _ => rfl) h.unique ?_
    intro p
    have hle := liveCount_modify_le s.registry name (f := settle) (fun _ => rfl)
      fun record => (record.repoName, .forRole record.role) = p
    exact Nat.add_le_add_right hle _
  | restart reads now writes =>
    simp only [Lanes.step] at hs
    split at hs
    · cases hs
      obtain ⟨hw, hd⟩ := restart_waiters reads s.registry.disk now writes
      apply h.quiet
      · intro p
        rw [queue_eq, queue_eq]
        unfold waiterIds
        rw [hw, hg]
      · unfold UniqueBoth
        rw [hw, hd]
        exact ⟨h.unique.2, h.unique.2⟩
      · intro p
        rw [restart_empty _ rfl]
        exact Nat.zero_le _
    · cases hs

theorem InOrder.orderly (h : InOrder s) : Orderly s := ⟨h.unique.1, h.cap, h.order, h.fair⟩

def Lanes.open (agents : Table String AgentRecord) (clock : DateTime) : Lanes :=
  { registry := { agents, disk := { agents } }, clock }

theorem inOrder_open (agents : Table String AgentRecord) (clock : DateTime) :
    InOrder (Lanes.open agents clock) := by
  refine ⟨⟨nodup_nil, nodup_nil⟩, ?_, ?_, ?_, ?_, ?_⟩
  · nofun
  · intro pre a post hsplit
    exact absurd (congrArg List.length hsplit) (by simp [Lanes.open])
  · intro pre refusal mid admission post hsplit
    exact absurd (congrArg List.length hsplit) (by simp [Lanes.open])
  · nofun
  · intro pre refusal since hsplit
    exact absurd (congrArg List.length hsplit) (by simp [Lanes.open])

/-- Along every run of calls on the lanes that meet the guard, the lanes are orderly. -/
theorem lanes_stay_orderly (agents : Table String AgentRecord) (clock : DateTime) (ops : List LaneOp)
    (hg : Meets Lanes.step laneGuard (Lanes.open agents clock) ops) :
    Keeps Lanes.step Orderly (Lanes.open agents clock) ops := by
  have hkeeps := keeps_of_meets (fun s op s' h hs hg => inOrder_step h hg hs)
    (inOrder_open agents clock) hg
  exact hkeeps.mono fun s h => h.orderly

end

def barnLane : Place := ("barn", .implementation)

def askAt (key : String) (seconds : Int) (writes : Bool) : LaneOp :=
  .tryReserve barnLane 1 key
    { evictAt := seconds * DateTime.nanosPerSecond, recordAt := seconds * DateTime.nanosPerSecond
      writes }

def lostPlace : List LaneOp :=
  [askAt "a" 0 true, askAt "b" 1 true, .release barnLane 1, askAt "b" 2 false, askAt "c" 3 true]

def lostLog : List Ask :=
  [⟨barnLane, "a", 0, .admitted 1⟩, ⟨barnLane, "b", 1000000000, .refused [] ["b"]⟩,
    ⟨barnLane, "b", 2000000000, .refused ["b"] []⟩, ⟨barnLane, "c", 3000000000, .admitted 1⟩]

theorem not_fair_lostLog : ¬ Fair lostLog := by
  intro hfair
  apply hfair [⟨barnLane, "a", 0, .admitted 1⟩] ⟨barnLane, "b", 1000000000, .refused [] ["b"]⟩
    [⟨barnLane, "b", 2000000000, .refused ["b"] []⟩] ⟨barnLane, "c", 3000000000, .admitted 1⟩ [] rfl
    rfl rfl rfl (by decide) (by decide)
  refine ⟨by decide, fun early a late hsplit => ?_⟩
  match early, hsplit with
  | [], hsplit =>
    obtain ⟨rfl, -⟩ := List.cons.inj hsplit
    decide
  | [x], hsplit =>
    obtain ⟨rfl, hrest⟩ := List.cons.inj hsplit
    obtain ⟨rfl, -⟩ := List.cons.inj hrest
    decide
  | x :: y :: early, hsplit =>
    have hlen := congrArg List.length hsplit
    simp at hlen

/-- A write that fails costs the key at the head its place. -/
theorem failed_write_loses_place :
    ¬ Keeps Lanes.step Orderly (Lanes.open Table.empty 0) lostPlace := by
  intro hk
  have hend : ((run Lanes.step (.open .empty 0) lostPlace).any fun s =>
      decide (s.log = lostLog)) = true := by decide +kernel
  obtain ⟨s, hrun, hlog⟩ := run_of_any hend
  have hfair := (hk.last hrun).fair
  rw [of_decide_eq_true hlog] at hfair
  exact not_fair_lostLog hfair

def keptPlace : List LaneOp :=
  [askAt "a" 0 true, askAt "b" 1 true, askAt "c" 2 true, .restart id (3 * DateTime.nanosPerSecond) true,
    askAt "c" 4 true, askAt "b" 5 true, .release barnLane 1, askAt "c" 6 true]

theorem lanes_stay_orderly_restarted :
    Keeps Lanes.step Orderly (Lanes.open Table.empty 0) keptPlace := by
  apply lanes_stay_orderly
  decide +kernel

/-- With a slot for each, the waiters of a lane are admitted in the order of their queue. -/
theorem lane_drains {place : Place} {cap : Nat} (asks : List (String × LaneEnv)) {s s' : Lanes}
    (hu : Unique s.registry.laneWaiters) (hqueue : s.registry.queue place = asks.map Prod.fst)
    (hfresh : ∀ w ∈ s.registry.laneWaiters, w.place = place →
      ∀ a ∈ asks, stale a.2.evictAt w = false)
    (hwrites : ∀ a ∈ asks, a.2.writes = true)
    (hroom : s.registry.liveOrReservedLaneWip place + asks.length ≤ cap)
    (hrun : run Lanes.step s (asks.map fun a => .tryReserve place cap a.1 a.2) = some s') :
    s'.log = s.log ++ asks.map (fun a => ⟨place, a.1, a.2.evictAt, .admitted cap⟩) ∧
      s'.registry.queue place = [] := by
  induction asks generalizing s with
  | nil =>
    cases hrun
    exact ⟨(append_nil _).symm, hqueue⟩
  | cons a asks ih =>
    rw [length_cons] at hroom
    have hfree : s.registry.liveOrReservedLaneWip place < cap := by omega
    obtain ⟨r', hr, hsub, hrest, hcount⟩ := tryReserve_turn hu hqueue
      (fun w hw hp => hfresh w hw hp a mem_cons_self) (hwrites a mem_cons_self) hfree
    obtain ⟨s₁, hs, hrun⟩ := run_cons hrun
    obtain ⟨-, hs⟩ := Option.ite_none_right_eq_some.mp hs
    rw [Lanes.tryReserve, hr] at hs
    cases hs
    have hu' : Unique r'.laneWaiters := (hsub.map LaneWaiter.id).nodup hu
    have hroom' : r'.liveOrReservedLaneWip place + asks.length ≤ cap := by omega
    obtain ⟨hlog, hempty⟩ := ih hu' hrest
      (fun w hw hp a' ha => hfresh w (hsub.subset hw) hp a' (mem_cons_of_mem a ha))
      (fun a' ha => hwrites a' (mem_cons_of_mem a ha)) hroom' hrun
    exact ⟨by rw [hlog]; simp [Lanes.note], hempty⟩

def barnPair : Lanes :=
  { registry := { laneWaiters := [⟨barnLane, "b", 0, 0⟩, ⟨barnLane, "c", 0, 0⟩] }, clock := 0 }

theorem lane_drains_pair : ∃ s', run Lanes.step barnPair
      [.tryReserve barnLane 2 "b" ⟨1, 2, true, true⟩, .tryReserve barnLane 2 "c" ⟨3, 4, true, true⟩] =
        some s' ∧
    s'.log = [⟨barnLane, "b", 1, .admitted 2⟩, ⟨barnLane, "c", 3, .admitted 2⟩] ∧
      s'.registry.queue barnLane = [] := by
  have hu : Unique barnPair.registry.laneWaiters := by unfold Unique; decide
  have hrun : run Lanes.step barnPair ([("b", ⟨1, 2, true, true⟩), ("c", ⟨3, 4, true, true⟩)].map
    fun a => .tryReserve barnLane 2 a.1 a.2) = some _ := rfl
  exact ⟨_, hrun, lane_drains _ hu rfl (by decide) (by decide) (by decide) hrun⟩

end RatKingdom.Agents
