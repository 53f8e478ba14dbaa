/-
The durable landing queue: one tuple per candidate, transitions that write the
successor before they delete the predecessor, and a read that heals the duplicates a
crash between the two leaves.

The tuples the pipeline keeps in the space are typed here by their identity:
`landing_queue_entry` rows, `landing_processed` markers, `landing_queue_quarantine`
archives, `landing_gate_infra_retry` evidence and `landing_admission_hold` holds.  A
list stands in the order its tuples were written, which is the order a scan reads them.
-/
import Mathlib.Data.List.Sort
import RatKingdom.Core.Tuple
import RatKingdom.Lib.Crash
import RatKingdom.Lib.First

namespace RatKingdom.Landing

open Lib Core List

structure BootClock where
  boot : String
  nanos : Nat
  deriving DecidableEq

structure AdmissionWindow where
  clock : Option BootClock
  deadlineNanos : Nat
  startedAt : DateTime
  deadline : DateTime
  observedAt : DateTime
  deriving DecidableEq

inductive LandingEntryStatus where
  | queued | runningGates | awaitingReview | landing
  deriving DecidableEq

/-- The phases of `span::Phase` a queued candidate can be in. -/
inductive Phase where
  | verificationQueued | semanticReview | merge
  deriving DecidableEq

def LandingEntryStatus.phase : LandingEntryStatus → Phase
  | .queued | .runningGates => .verificationQueued
  | .awaitingReview => .semanticReview
  | .landing => .merge

/-- One landing candidate.  The ids in `admissionHold` and `admissionRecovery` are kept
as ids, not as the texts the payload holds. -/
structure LandingQueueEntry where
  admission : Option AdmissionWindow := none
  admissionHold : Option RecordId := none
  admissionRecovery : Option RecordId := none
  repoName : String
  repoPath : String
  branch : String
  target : String
  headSha : String
  diffClass : String
  task : String
  sourceSpawn : Option String := none
  candidateSha : Option String := none
  candidateBase : Option String := none
  candidateRef : Option String := none
  batchBranches : List String := []
  operatorFastLane : Bool := false
  keepBranch : Bool := false
  seq : Nat := 0
  status : LandingEntryStatus := .queued
  rev : Nat := 0
  enqueuedAt : Option DateTime := none
  phaseEnteredAt : Option DateTime := none
  gateInfraRetryUsed : Bool := false
  gateInfraRetryCheck : Option String := none
  deriving DecidableEq

/-- What makes two queue tuples the same work: the fields `contains_work_key` compares. -/
structure WorkKey where
  branch : String
  target : String
  headSha : String
  task : String
  deriving DecidableEq

def u64 : Nat := 2 ^ 64

namespace LandingQueueEntry

section
variable (e : LandingQueueEntry)

def key : WorkKey := ⟨e.branch, e.target, e.headSha, e.task⟩

def validatePersisted : Except String Unit :=
  if e.enqueuedAt.isNone || e.phaseEnteredAt.isNone then
    .error "landing queue entry predates the exact phase-clock schema; drain or clear it with the previous release before upgrading"
  else .ok ()

/-- Move to `status`; the phase clock restarts only when the phase changes. -/
def transitionTo (status : LandingEntryStatus) (now : DateTime) : LandingQueueEntry :=
  { e with
    phaseEnteredAt :=
      if e.phaseEnteredAt.isNone || decide (status.phase ≠ e.status.phase) then some now
      else e.phaseEnteredAt
    status := status }

/-- `rev.wrapping_add(1)`.  An entry starts at 0 and makes no 2^64 transitions, so the
wrap is left out. -/
def bump : LandingQueueEntry := { e with rev := e.rev + 1 }

def claimed (now : DateTime) : LandingQueueEntry :=
  (if e.status ≠ .landing then e.transitionTo .runningGates now else e).bump

def moved (status : LandingEntryStatus) (now : DateTime) : LandingQueueEntry :=
  (e.transitionTo status now).bump

/-- The entry `enqueue` writes: a new place in the order, and clocks only a fresh
candidate starts. -/
def queuedAs (seq : Nat) (now : DateTime) : LandingQueueEntry :=
  { ({ e with seq := seq } : LandingQueueEntry).transitionTo .queued now with
    rev := 0
    enqueuedAt := some (e.enqueuedAt.getD now) }

/-- The entry `requeue_tail` hands back to `enqueue`: a fresh attempt that keeps its age. -/
def retry : LandingQueueEntry :=
  { e with
    seq := 0
    rev := 0
    admission := none
    admissionHold := none
    candidateSha := none
    candidateBase := none
    candidateRef := none
    batchBranches := []
    gateInfraRetryUsed := false
    gateInfraRetryCheck := none }

@[simp] theorem moved_rev (st now) :
    (e.moved st now).rev = e.rev + 1 := rfl

@[simp] theorem claimed_seq (now) : (e.claimed now).seq = e.seq := by
  unfold claimed
  split <;> rfl

@[simp] theorem claimed_repoName (now) : (e.claimed now).repoName = e.repoName := by
  unfold claimed
  split <;> rfl

@[simp] theorem claimed_key (now) : (e.claimed now).key = e.key := by
  unfold claimed
  split <;> rfl

@[simp] theorem claimed_rev (now) : (e.claimed now).rev = e.rev + 1 := by
  unfold claimed
  split <;> rfl

@[simp] theorem claimed_used (now) : (e.claimed now).gateInfraRetryUsed = e.gateInfraRetryUsed := by
  unfold claimed
  split <;> rfl

@[simp] theorem claimed_check (now) :
    (e.claimed now).gateInfraRetryCheck = e.gateInfraRetryCheck := by
  unfold claimed
  split <;> rfl

end

end LandingQueueEntry

/-- A `landing_queue_entry` tuple; its scope is the entry's repository. -/
structure Row where
  id : RecordId
  entry : LandingQueueEntry
  deriving DecidableEq

/-- A `landing_processed` marker. -/
structure Processed where
  id : RecordId
  repoName : String
  branch : String
  target : String
  targetHead : Option String
  headSha : String
  task : String
  outcome : String
  admissionHold : Option RecordId
  admissionRecovery : Option RecordId
  deriving DecidableEq

structure Quarantine where
  entry : LandingQueueEntry
  reason : String
  affectedCandidates : List (String × Option String)

/-- One `landing_gate_infra_retry` event. -/
structure GateAttempt where
  repoName : String
  branch : String
  target : String
  task : String
  candidateSha : String
  seq : Nat
  check : String
  command : String
  ordinal : Nat
  exit : Option Int
  signal : Option Int
  verdict : String
  disposition : String
  reconstructed : Bool

/-- The answer of one managed run of a check.  A missing `executed` or `reason` reads as
null. -/
structure CheckValue where
  verdict : String
  exit : Option Int := none
  signal : Option Int := none
  executed : Option Bool := none
  reason : Option String := none

inductive GateRunOutcome where
  | pass | fail | infraRetryExhausted | admissionHeld
  deriving DecidableEq

/-- A gate run that returned: what it ran on, the checks whose in-flight retry it took up,
its outcome, and the retry events recorded by then. -/
structure GateRun where
  repoName : String
  seq : Nat
  candidateSha : String
  resumed : List String
  outcome : GateRunOutcome
  evidence : List GateAttempt

structure AdmissionHold where
  id : RecordId
  entry : LandingQueueEntry
  check : String
  candidateSha : String
  result : CheckValue
  retryEligible : Bool

/-- The receipt an operator's admission recovery leaves. -/
structure Receipt where
  id : RecordId
  hold : RecordId
  processed : RecordId
  reason : String
  entry : LandingQueueEntry

/-- What the pipeline reads and writes: the tuples and sequence files that survive a
crash, and the sequence cache that does not.  `log` holds every queue row ever written,
`gateRuns` the gate runs that returned, and `minted` counts the ids drawn; no function
decides anything by the first two. -/
structure Daemon where
  rows : List Row := []
  log : List Row := []
  processed : List Processed := []
  quarantine : List Quarantine := []
  attempts : List GateAttempt := []
  holds : List AdmissionHold := []
  receipts : List Receipt := []
  gateRuns : List GateRun := []
  minted : Nat := 0
  seqFile : String → Option Nat := fun _ => none
  seqCache : String → Option Nat := fun _ => none

def Daemon.restart (d : Daemon) : Daemon := { d with seqCache := fun _ => none }

abbrev Op := Prog Daemon String

def sanitizePathComponent (raw : String) : String :=
  String.ofList (raw.toList.map fun c => if c = '/' ∨ c = '\\' then '_' else c)

/-- The file write and the cache insert of `next_seq`.  Only a crash can come between
them, and it empties the cache, so they are one step.  A write that stops inside is
`Daemon.tear`. -/
def Daemon.setSeq (repo : String) (n : Nat) (d : Daemon) : Daemon :=
  { d with
    seqFile := fun f => if f = sanitizePathComponent repo then some n else d.seqFile f
    seqCache := fun r => if r = repo then some n else d.seqCache r }

/-- `d` after a write that was to make it `after` and stops inside: `fs::write` truncates
a counter file before it writes it, and a tuple is written whole or not at all. -/
def Daemon.tear (d after : Daemon) : Daemon :=
  { d with seqFile := fun f => if after.seqFile f = d.seqFile f then d.seqFile f else none }

def Daemon.currentSeq (d : Daemon) (repo : String) : Nat :=
  match d.seqCache repo with
  | some v => v
  | none => (d.seqFile (sanitizePathComponent repo)).getD 0

/-- `next_seq`.  `current + 1` is an unsigned addition: past the largest `u64` it panics
and nothing is written. -/
def nextSeq (repo : String) : Op Nat := do
  let d ← Prog.read
  let next := d.currentSeq repo + 1
  if u64 ≤ next then Prog.fail "attempt to add with overflow"
  else
    Prog.write (Daemon.setSeq repo next)
    pure next

def Row.seq (r : Row) : Nat := r.entry.seq

def Row.rev (r : Row) : Nat := r.entry.rev

/-- `(rev, id)` of `a` above that of `b`. -/
def Row.fresher (a b : Row) : Prop := b.rev < a.rev ∨ (b.rev = a.rev ∧ b.id < a.id)
deriving Decidable

/-- The winners by sequence number, and the ids to delete. -/
structure Healing where
  bySeq : List Row := []
  stale : List RecordId := []

/-- One iteration of the loop of `scan_current`. -/
def Healing.add (h : Healing) (t : Row) : Healing :=
  match h.bySeq.find? (fun r => r.seq = t.seq) with
  | none => { h with bySeq := h.bySeq ++ [t] }
  | some existing =>
    let rest := h.bySeq.filter (fun r => r.seq ≠ t.seq)
    if t.fresher existing then
      { bySeq := rest ++ [t], stale := h.stale ++ [existing.id] }
    else
      { bySeq := rest ++ [existing], stale := h.stale ++ [t.id] }

def healing (pending : List Row) : Healing := pending.foldl Healing.add {}

def Daemon.deleteRow (id : RecordId) (d : Daemon) : Daemon :=
  { d with rows := d.rows.filter (fun r => r.id ≠ id) }

def Daemon.pending (d : Daemon) (repo : String) (target : Option String) : List Row :=
  d.rows.filter fun r =>
    r.entry.repoName = repo ∧ (target = none ∨ target = some r.entry.target)

def deleteAll : List RecordId → Op Unit
  | [] => pure ()
  | id :: ids => do
    Prog.write (Daemon.deleteRow id)
    deleteAll ids

/-- `scan_current`.  The values of the map come out in no order a caller depends on. -/
def scanCurrent (repo : String) (target : Option String) : Op (List Row) := do
  let d ← Prog.read
  let h := healing (d.pending repo target)
  deleteAll h.stale
  pure h.bySeq

def find (entry : LandingQueueEntry) : Op (Option Row) := do
  let rows ← scanCurrent entry.repoName none
  pure (rows.find? fun r => r.seq = entry.seq)

def containsWorkKey (entry : LandingQueueEntry) : Op Bool := do
  let rows ← scanCurrent entry.repoName none
  pure (rows.any fun r => r.entry.key = entry.key)

def Row.lane (r : Row) : Nat := if r.entry.operatorFastLane then 0 else 1

def Row.before (a b : Row) : Prop :=
  a.lane < b.lane ∨ (a.lane = b.lane ∧ (a.seq < b.seq ∨ (a.seq = b.seq ∧ a.id ≤ b.id)))

instance : DecidableRel Row.before := fun a b => inferInstanceAs (Decidable (_ ∨ _))

def claimOrder (rows : List Row) : List Row := rows.insertionSort Row.before

/-! ## Writing the queue

`mint n` is the id of the `n`-th tuple written. -/

section
variable (mint : Nat → RecordId)

def Daemon.addRow (entry : LandingQueueEntry) (d : Daemon) : Daemon :=
  let row : Row := ⟨mint d.minted, entry⟩
  { d with rows := d.rows ++ [row], log := d.log ++ [row], minted := d.minted + 1 }

/-- `LandingQueue::write`. -/
def writeRow (entry : LandingQueueEntry) : Op Unit := Prog.write (Daemon.addRow mint entry)

def enqueue (entry : LandingQueueEntry) (now : DateTime) : Op Nat := do
  let seq ← nextSeq entry.repoName
  writeRow mint (entry.queuedAs seq now)
  pure seq

def replaceRow (next : LandingQueueEntry) (id : RecordId) : Op Unit := do
  writeRow mint next
  Prog.write (Daemon.deleteRow id)

/-- The body `claim_next` and the loop of `claim_batch` share. -/
def claimRow (now : DateTime) (row : Row) : Op LandingQueueEntry := do
  match row.entry.validatePersisted with
  | .error e => Prog.fail e
  | .ok () =>
    replaceRow mint (row.entry.claimed now) row.id
    pure (row.entry.claimed now)

def claimNext (repo target : String) (now : DateTime) : Op (Option LandingQueueEntry) := do
  let pending ← scanCurrent repo (some target)
  match (claimOrder pending).head? with
  | none => pure none
  | some row => do
    let entry ← claimRow mint now row
    pure (some entry)

def claimRows (now : DateTime) : List Row → Op (List LandingQueueEntry)
  | [] => pure []
  | row :: rows => do
    let entry ← claimRow mint now row
    let rest ← claimRows now rows
    pure (entry :: rest)

def claimBatch (repo target : String) (max : Nat) (now : DateTime) :
    Op (List LandingQueueEntry) := do
  let pending ← scanCurrent repo (some target)
  claimRows mint now ((claimOrder pending).take max)

/-- `set_status`: the caller's entry is borrowed, so it keeps its old `rev`. -/
def setStatus (entry : LandingQueueEntry) (status : LandingEntryStatus) (now : DateTime) :
    Op Unit := do
  match ← find entry with
  | none => pure ()
  | some row => replaceRow mint (entry.moved status now) row.id

/-- `persist`: the caller's entry is updated in place, so the new entry is returned.
Without a durable tuple it stays as it is. -/
def persist (entry : LandingQueueEntry) (status : LandingEntryStatus) (now : DateTime) :
    Op LandingQueueEntry := do
  match ← find entry with
  | none => pure entry
  | some row => do
    replaceRow mint (entry.moved status now) row.id
    pure (entry.moved status now)

def requeueTail (entry : LandingQueueEntry) (now : DateTime) : Op Nat :=
  enqueue mint entry.retry now

end

def remove (entry : LandingQueueEntry) : Op Unit := do
  match ← find entry with
  | none => pure ()
  | some row => Prog.write (Daemon.deleteRow row.id)

variable {a b : Row}

theorem Row.fresher.trans {c : Row} (hab : a.fresher b) (hbc : b.fresher c) : a.fresher c := by
  rcases hab with hab | ⟨hab, hab'⟩ <;> rcases hbc with hbc | ⟨hbc, hbc'⟩
  · exact .inl (hbc.trans hab)
  · exact .inl (hbc ▸ hab)
  · exact .inl (hab ▸ hbc)
  · exact .inr ⟨hbc.trans hab, hbc'.trans hab'⟩

theorem Row.fresher_of_not (h : ¬ a.fresher b) (hid : a.id ≠ b.id) : b.fresher a := by
  rcases Nat.lt_trichotomy a.rev b.rev with hlt | heq | hgt
  · exact .inl hlt
  · rcases Nat.lt_or_gt_of_ne hid with hid | hid
    · exact .inr ⟨heq, hid⟩
    · exact absurd (.inr ⟨heq.symm, hid⟩) h
  · exact absurd (.inl hgt) h

theorem Row.fresher.ne (h : a.fresher b) : a ≠ b := by
  rintro rfl
  rcases h with h | ⟨-, h⟩
  · exact Nat.lt_irrefl _ h
  · exact Nat.lt_irrefl _ h

/-- What the loop of `scan_current` knows after the rows `seen`: one winner for each
sequence number, fresher than every other row of it, and every loser in `stale`. -/
structure Healing.Sound (seen : List Row) (h : Healing) : Prop where
  sub : ∀ r ∈ h.bySeq, r ∈ seen
  seqs : (h.bySeq.map Row.seq).Nodup
  best : ∀ r ∈ seen, ∃ w ∈ h.bySeq, w.seq = r.seq ∧ (w = r ∨ w.fresher r)
  kept : ∀ r ∈ seen, r ∈ h.bySeq ∨ r.id ∈ h.stale
  lost : ∀ i ∈ h.stale, ∃ r ∈ seen, r.id = i ∧ r ∉ h.bySeq

variable {seen : List Row} {h : Healing}

theorem Healing.Sound.unique (hs : h.Sound seen) (ha : a ∈ h.bySeq) (hb : b ∈ h.bySeq)
    (hab : a.seq = b.seq) : a = b :=
  inj_on_of_nodup_map hs.seqs ha hb hab

variable {t : Row}

theorem Healing.Sound.add_new (hs : h.Sound seen) (ht : t ∉ seen)
    (hnew : ∀ r ∈ h.bySeq, r.seq ≠ t.seq) :
    Healing.Sound (seen ++ [t]) { h with bySeq := h.bySeq ++ [t] } := by
  have hlost : ∀ r ∈ seen, r ∉ h.bySeq → r ∉ h.bySeq ++ [t] := by
    intro r hr hn hm
    rcases mem_append.mp hm with hm | hm
    · exact hn hm
    · rw [mem_singleton.mp hm] at hr
      exact ht hr
  refine ⟨?_, ?_, ?_, ?_, ?_⟩
  · exact forall_mem_append.mpr
      ⟨fun r hr => mem_append_left _ (hs.sub r hr), fun _ hr => mem_append_right _ hr⟩
  · exact nodup_concat_key hs.seqs hnew
  · intro r hr
    rcases mem_append.mp hr with hr | hr
    · obtain ⟨w, hw, hseq, hb⟩ := hs.best r hr
      exact ⟨w, mem_append_left _ hw, hseq, hb⟩
    · rw [mem_singleton.mp hr]
      exact ⟨t, mem_concat_self, rfl, .inl rfl⟩
  · intro r hr
    rcases mem_append.mp hr with hr | hr
    · exact (hs.kept r hr).imp (mem_append_left _) id
    · exact .inl (mem_append_right _ hr)
  · intro i hi
    obtain ⟨r, hr, hid, hn⟩ := hs.lost i hi
    exact ⟨r, mem_append_left _ hr, hid, hlost r hr hn⟩

/-- Of two rows with one sequence number the fresher stays and the other is stale. -/
theorem Healing.Sound.add_old {w l : Row} (hs : h.Sound seen) (ht : t ∉ seen) {old : Row}
    (hold : old ∈ h.bySeq) (hseq : old.seq = t.seq) (hpair : (w = t ∧ l = old) ∨ (w = old ∧ l = t))
    (hwl : w.fresher l) :
    Healing.Sound (seen ++ [t])
      { bySeq := h.bySeq.filter (fun r => r.seq ≠ t.seq) ++ [w], stale := h.stale ++ [l.id] } := by
  have hwseq : w.seq = t.seq := by
    rcases hpair with ⟨rfl, -⟩ | ⟨rfl, -⟩
    · rfl
    · exact hseq
  have hlseq : l.seq = t.seq := by
    rcases hpair with ⟨-, rfl⟩ | ⟨-, rfl⟩
    · exact hseq
    · rfl
  have holdw : w = old ∨ w.fresher old := by
    rcases hpair with ⟨-, rfl⟩ | ⟨rfl, -⟩
    · exact .inr hwl
    · exact .inl rfl
  have hlmem : l ∈ seen ++ [t] := by
    rcases hpair with ⟨-, rfl⟩ | ⟨-, rfl⟩
    · exact mem_append_left _ (hs.sub _ hold)
    · exact mem_concat_self
  have hwmem : w ∈ seen ++ [t] := by
    rcases hpair with ⟨rfl, -⟩ | ⟨rfl, -⟩
    · exact mem_concat_self
    · exact mem_append_left _ (hs.sub _ hold)
  have hrest : ∀ r, r ∈ h.bySeq.filter (fun r => r.seq ≠ t.seq) ↔ r ∈ h.bySeq ∧ r.seq ≠ t.seq := by
    intro r
    rw [mem_filter, decide_eq_true_iff]
  refine ⟨?_, ?_, ?_, ?_, ?_⟩
  · intro r hr
    rcases mem_append.mp hr with hr | hr
    · exact mem_append_left _ (hs.sub r ((hrest r).mp hr).1)
    · rw [mem_singleton.mp hr]
      exact hwmem
  · refine nodup_concat_key (hs.seqs.sublist (filter_sublist.map _)) fun r hr => ?_
    rw [hwseq]
    exact ((hrest r).mp hr).2
  · intro r hr
    by_cases hrt : r.seq = t.seq
    · refine ⟨w, mem_concat_self, by rw [hwseq, hrt], ?_⟩
      rcases mem_append.mp hr with hr | hr
      · obtain ⟨x, hx, hxs, hxr⟩ := hs.best r hr
        have hxo : x = old := hs.unique hx hold (by rw [hxs, hrt, hseq])
        subst hxo
        rcases hxr with rfl | hxr
        · exact holdw
        · rcases holdw with rfl | hw
          · exact .inr hxr
          · exact .inr (hw.trans hxr)
      · have hr' : r = t := mem_singleton.mp hr
        subst hr'
        rcases hpair with ⟨rfl, -⟩ | ⟨-, rfl⟩
        · exact .inl rfl
        · exact .inr hwl
    · rcases mem_append.mp hr with hr | hr
      · obtain ⟨x, hx, hxs, hxr⟩ := hs.best r hr
        have hxt : x.seq ≠ t.seq := by
          rw [hxs]
          exact hrt
        exact ⟨x, mem_append_left _ ((hrest x).mpr ⟨hx, hxt⟩), hxs, hxr⟩
      · rw [mem_singleton.mp hr] at hrt
        exact absurd rfl hrt
  · intro r hr
    have hwl' : r = w ∨ r = l → r ∈ h.bySeq.filter (fun r => r.seq ≠ t.seq) ++ [w] ∨
        r.id ∈ h.stale ++ [l.id] := by
      rintro (rfl | rfl)
      · exact .inl (mem_concat_self)
      · exact .inr (mem_concat_self)
    rcases mem_append.mp hr with hr | hr
    · rcases hs.kept r hr with hb | hst
      · by_cases hrt : r.seq = t.seq
        · have hro : r = old := hs.unique hb hold (by rw [hrt, hseq])
          apply hwl'
          rcases hpair with ⟨-, rfl⟩ | ⟨rfl, -⟩
          · exact .inr hro
          · exact .inl hro
        · exact .inl (mem_append_left _ ((hrest r).mpr ⟨hb, hrt⟩))
      · exact .inr (mem_append_left _ hst)
    · apply hwl'
      rw [mem_singleton.mp hr]
      rcases hpair with ⟨rfl, -⟩ | ⟨-, rfl⟩
      · exact .inl rfl
      · exact .inr rfl
  · intro i hi
    rcases mem_append.mp hi with hi | hi
    · obtain ⟨r, hr, hid, hn⟩ := hs.lost i hi
      refine ⟨r, mem_append_left _ hr, hid, ?_⟩
      intro hm
      rcases mem_append.mp hm with hm | hm
      · exact hn ((hrest r).mp hm).1
      · have hrw : r = w := mem_singleton.mp hm
        subst hrw
        rcases hpair with ⟨rfl, -⟩ | ⟨rfl, -⟩
        · exact ht hr
        · exact hn hold
    · refine ⟨l, hlmem, (mem_singleton.mp hi).symm, ?_⟩
      intro hm
      rcases mem_append.mp hm with hm | hm
      · exact ((hrest l).mp hm).2 hlseq
      · exact hwl.ne (mem_singleton.mp hm).symm

theorem Healing.Sound.add (hs : h.Sound seen) (ht : t.id ∉ seen.map Row.id) :
    (h.add t).Sound (seen ++ [t]) := by
  have htn : t ∉ seen := fun hm => ht (mem_map_of_mem hm)
  unfold Healing.add
  cases hf : h.bySeq.find? (fun r => r.seq = t.seq) with
  | none =>
    have hnew : ∀ r ∈ h.bySeq, r.seq ≠ t.seq := by
      intro r hr
      simpa using find?_eq_none.mp hf r hr
    exact hs.add_new htn hnew
  | some old =>
    have hold : old ∈ h.bySeq := mem_of_find?_eq_some hf
    have hseq : old.seq = t.seq := by simpa using find?_some hf
    have hid : t.id ≠ old.id := by
      intro he
      rw [he] at ht
      exact ht (mem_map_of_mem (hs.sub old hold))
    by_cases hfr : t.fresher old
    · simp only [if_pos hfr]
      exact hs.add_old htn hold hseq (.inl ⟨rfl, rfl⟩) hfr
    · simp only [if_neg hfr]
      exact hs.add_old htn hold hseq (.inr ⟨rfl, rfl⟩) (Row.fresher_of_not hfr hid)

theorem Healing.Sound.foldl (hs : h.Sound seen) (ts : List Row)
    (hnd : ((seen ++ ts).map Row.id).Nodup) :
    (ts.foldl Healing.add h).Sound (seen ++ ts) := by
  induction ts generalizing seen h with
  | nil => simpa using hs
  | cons t ts ih =>
    have ht : t.id ∉ seen.map Row.id := by
      rw [map_append, nodup_append] at hnd
      intro hm
      exact hnd.2.2 _ hm _ mem_cons_self rfl
    have happ : seen ++ t :: ts = (seen ++ [t]) ++ ts := by simp
    rw [happ] at hnd ⊢
    exact ih (hs.add ht) hnd

theorem healing_sound {pending : List Row} (hnd : (pending.map Row.id).Nodup) :
    (healing pending).Sound pending := by
  have h0 : Healing.Sound [] {} := by
    refine ⟨?_, ?_, ?_, ?_, ?_⟩ <;> simp
  exact h0.foldl pending hnd

theorem Healing.Sound.winner_not_stale (hs : h.Sound seen) (hnd : (seen.map Row.id).Nodup) {w : Row}
    (hw : w ∈ h.bySeq) : w.id ∉ h.stale := by
  intro hm
  obtain ⟨r, hr, hid, hn⟩ := hs.lost w.id hm
  have hrw : r = w := inj_on_of_nodup_map hnd hr (hs.sub w hw) hid
  exact hn (hrw ▸ hw)

variable {d : Daemon}

theorem mem_pending {repo : String} {target : Option String} {r : Row} :
    r ∈ d.pending repo target ↔
      r ∈ d.rows ∧ r.entry.repoName = repo ∧ (target = none ∨ target = some r.entry.target) := by
  simp [Daemon.pending]

theorem pending_nodup (hnd : (d.rows.map Row.id).Nodup) (repo : String) (target : Option String) :
    ((d.pending repo target).map Row.id).Nodup :=
  hnd.sublist (filter_sublist.map _)

theorem mem_deleteRow {i : RecordId} {r : Row} :
    r ∈ (d.deleteRow i).rows ↔ r ∈ d.rows ∧ r.id ≠ i := by
  simp [Daemon.deleteRow]

/-- A condition that survives the deletion of each of `ids` survives all of them, and
the rows are gone. -/
theorem deleteAll_triple {J : Daemon → Prop} (ids : List RecordId)
    (hJ : ∀ d, J d → ∀ i ∈ ids, J (d.deleteRow i)) :
    Triple J J (deleteAll ids) (fun _ d => J d ∧ ∀ i ∈ ids, ∀ r ∈ d.rows, r.id ≠ i) := by
  induction ids generalizing J with
  | nil => exact .pure fun d hd => ⟨hd, fun i hi => (not_mem_nil hi).elim⟩
  | cons i ids ih =>
    let J' : Daemon → Prop := fun d => J d ∧ ∀ r ∈ d.rows, r.id ≠ i
    have hJ' : ∀ d, J' d → ∀ j ∈ ids, J' (d.deleteRow j) := by
      rintro d ⟨hd, hi⟩ j hj
      exact ⟨hJ d hd j (mem_cons_of_mem _ hj), fun r hr => hi r (mem_deleteRow.mp hr).1⟩
    have hfirst : ∀ d, J d → J' (d.deleteRow i) :=
      fun d hd => ⟨hJ d hd i mem_cons_self, fun r hr => (mem_deleteRow.mp hr).2⟩
    refine .bind (Q := fun _ => J') (.write (fun d hd => (hfirst d hd).1) hfirst) ?_
    intro _
    refine ((ih hJ').crash_mono fun d hd => hd.1).mono (fun _ hd => hd) ?_
    rintro _ d ⟨⟨hd, hi⟩, hids⟩
    exact ⟨hd, forall_mem_cons.mpr ⟨hi, hids⟩⟩

theorem deleteRow_of_absent {i : RecordId} (h : ∀ r ∈ d.rows, r.id ≠ i) : d.deleteRow i = d := by
  have hf : d.rows.filter (fun r => decide (r.id ≠ i)) = d.rows :=
    filter_eq_self.mpr fun r hr => decide_eq_true (h r hr)
  unfold Daemon.deleteRow
  rw [hf]

/-- What a scan answers: rows that are all there is to read, one for each number. -/
structure Scanned (repo : String) (target : Option String) (rows : List Row) (d : Daemon) :
    Prop where
  seqs : (rows.map Row.seq).Nodup
  sub : ∀ r ∈ rows, r ∈ d.pending repo target
  all : ∀ r ∈ d.pending repo target, r ∈ rows

/-- A scan deletes a row only while a fresher one of the same number is there, so it
keeps every condition that such a deletion keeps. -/
theorem scanCurrent_triple {J : Daemon → Prop} (hnd : ∀ d, J d → (d.rows.map Row.id).Nodup)
    (hJ : ∀ d x w, J d → x ∈ d.rows → w ∈ d.rows → w.entry.repoName = x.entry.repoName →
      w.seq = x.seq → w.fresher x → J (d.deleteRow x.id))
    (repo : String) (target : Option String) :
    Triple J J (scanCurrent repo target) (fun rows d => J d ∧ Scanned repo target rows d) := by
  refine .of_start fun d₀ h₀ => ?_
  have hp := pending_nodup (hnd d₀ h₀) repo target
  have hs := healing_sound hp
  refine .read_from ?_
  rintro x rfl
  -- the state after some of the deletions
  let K : Daemon → Prop := fun d => J d ∧ d.rows ⊆ x.rows ∧
    ∀ w ∈ (healing (x.pending repo target)).bySeq, w ∈ d.rows
  have hkeep : ∀ d, K d → ∀ i ∈ (healing (x.pending repo target)).stale, K (d.deleteRow i) := by
    rintro d ⟨hd, hsub, hwin⟩ i hi
    refine ⟨?_, fun r hr => hsub (mem_deleteRow.mp hr).1, fun w hw => mem_deleteRow.mpr ⟨hwin w hw,
      fun he => hs.winner_not_stale hp hw (he ▸ hi)⟩⟩
    by_cases hex : ∃ r ∈ d.rows, r.id = i
    · obtain ⟨r, hr, rfl⟩ := hex
      obtain ⟨l, hl, hlid, hlw⟩ := hs.lost r.id hi
      have hrl : r = l := inj_on_of_nodup_map (hnd x h₀) (hsub hr) (mem_pending.mp hl).1 hlid.symm
      subst hrl
      obtain ⟨w, hw, hseq, hor⟩ := hs.best r hl
      have hfr : w.fresher r := by
        rcases hor with rfl | hfr
        · exact absurd hw hlw
        · exact hfr
      refine hJ d r w hd hr (hwin w hw) ?_ hseq hfr
      rw [(mem_pending.mp (hs.sub w hw)).2.1, (mem_pending.mp hl).2.1]
    · rw [deleteRow_of_absent fun r hr he => hex ⟨r, hr, he⟩]
      exact hd
  refine .bind (((deleteAll_triple _ hkeep).crash_mono fun d hd => hd.1).mono ?_
    fun _ _ hd => hd) fun _ => .pure ?_
  · rintro d rfl
    exact ⟨h₀, List.Subset.refl _, fun w hw => (mem_pending.mp (hs.sub w hw)).1⟩
  · rintro d ⟨⟨hd, hsub, hwin⟩, hgone⟩
    refine ⟨hd, hs.seqs, ?_, ?_⟩
    · intro r hr
      exact mem_pending.mpr ⟨hwin r hr, (mem_pending.mp (hs.sub r hr)).2⟩
    · intro r hr
      obtain ⟨hm, hcond⟩ := mem_pending.mp hr
      rcases hs.kept r (mem_pending.mpr ⟨hsub hm, hcond⟩) with hb | hst
      · exact hb
      · exact absurd rfl (hgone r.id hst r hm)

end RatKingdom.Landing
