/-
Which tip a recorded verdict speaks about.

`process_entry` prepares a candidate on the target's tip, judges it for as long as
gates and review take, and stamps its marker with the tip it finds when it writes
the marker.  `enqueue_disposition` lets a held verdict stand while the target's tip
is the stamped one.  The verdicts below runs these calls in their phases, with the
target branches moving between any two of them, and keeps for every marker the tip
its verdict was computed against.
-/
import RatKingdom.Lib.Run
import RatKingdom.Landing.Pipeline

namespace RatKingdom.Landing

open Lib Core List

section
variable {mint : Nat → RecordId}

theorem deleteAll_processed (ids : List RecordId) : Frame Daemon.processed (deleteAll ids) := by
  induction ids with
  | nil => exact .pure _
  | cons id ids ih => exact .bind (.write fun _ => rfl) fun _ => ih

theorem scanCurrent_processed (repo : String) (target : Option String) :
    Frame Daemon.processed (scanCurrent repo target) :=
  .bind .read fun _ => .bind (deleteAll_processed _) fun _ => .pure _

theorem find_processed (entry : LandingQueueEntry) : Frame Daemon.processed (find entry) :=
  .bind (scanCurrent_processed _ _) fun _ => .pure _

theorem replaceRow_processed (next : LandingQueueEntry) (id : RecordId) :
    Frame Daemon.processed (replaceRow mint next id) :=
  .bind (.write fun _ => rfl) fun _ => .write fun _ => rfl

theorem persist_processed (entry : LandingQueueEntry) (status : LandingEntryStatus)
    (now : DateTime) : Frame Daemon.processed (persist mint entry status now) := by
  refine .bind (find_processed entry) fun row => ?_
  cases row with
  | none => exact .pure _
  | some row => exact .bind (replaceRow_processed _ _) fun _ => .pure _

theorem enqueue_processed (entry : LandingQueueEntry) (now : DateTime) :
    Frame Daemon.processed (enqueue mint entry now) := by
  refine .bind ?_ fun _ => .bind (.write fun _ => rfl) fun _ => .pure _
  refine .bind .read fun d => ?_
  simp only
  split
  · exact .fail _
  · exact .bind (.write fun _ => rfl) fun _ => .pure _

end

def held (word : String) : Prop :=
  word = "gate-held" ∨ word = "no-gate" ∨ word = "rework-filed" ∨ word = "escalated"
deriving Decidable

/-- An entry inside `process_entry`, with the tip its candidate was built on. -/
structure Judging where
  entry : LandingQueueEntry
  judged : Option String
  deriving DecidableEq

/-- The daemon, the tip of every target branch by repository path and branch, the
entries being judged, and the tip behind every marker written so far. -/
structure Verdicts where
  daemon : Daemon
  tips : String → String → Option String
  judging : List Judging
  verdicts : List (Processed × Option String)

open Verdicts

def Verdicts.start : Verdicts :=
  { daemon := {}, tips := fun _ _ => none, judging := [], verdicts := [] }

def Verdicts.currentTargetHead (b : Verdicts) (entry : LandingQueueEntry) : Option String :=
  b.tips entry.repoPath entry.target

def LandingQueueEntry.candidate (e : LandingQueueEntry) : Option PreparedMerge :=
  match e.candidateSha, e.candidateBase, e.candidateRef with
  | some commit, some base, some candidateRef => some ⟨commit, base, candidateRef⟩
  | _, _, _ => none

inductive VerdictStep where
  | move (repoPath target : String) (tip : Option String)
  /-- `process_entry` up to the point where it has found no current marker -/
  | begin (entry : LandingQueueEntry)
  /-- `prepare_merge_at` builds a candidate on the tip it reads -/
  | prepare (j : Judging) (commit candidateRef : String) (now : DateTime)
  | conflict (j : Judging)
  | conclude (j : Judging) (outcome : LandingOutcome)
  | enqueue (entry : LandingQueueEntry) (contained : Bool) (now : DateTime)

section
variable (mint : Nat → RecordId)

def Verdicts.record (b : Verdicts) (daemon : Daemon) (judged : Option String) : Verdicts :=
  { b with
    daemon := daemon
    verdicts := b.verdicts ++
      (daemon.processed.drop b.daemon.processed.length).map fun m => (m, judged) }

/-- The verdicts once an outcome has been acted on: a landing moves the target itself,
before the marker is written. -/
def Verdicts.acted (b : Verdicts) (j : Judging) (outcome : LandingOutcome) : Verdicts :=
  { b with
    tips := fun p t =>
      if outcome = .landed ∧ p = j.entry.repoPath ∧ t = j.entry.target then j.entry.candidateSha
      else b.tips p t
    judging := b.judging.erase j }

def Verdicts.step (b : Verdicts) : VerdictStep → Option Verdicts
  | .move repoPath target tip =>
    some { b with
      tips := fun p t => if p = repoPath ∧ t = target then tip else b.tips p t }
  | .begin entry =>
    match b.daemon.admissionMarker entry (b.currentTargetHead entry) with
    | .ok none =>
      some { b with judging := ⟨entry, entry.candidate.map PreparedMerge.base⟩ :: b.judging }
    -- reconciled with its marker, or refused
    | _ => some b
  | .prepare j commit candidateRef now =>
    if j ∈ b.judging ∧ j.entry.candidate = none then
      match b.currentTargetHead j.entry with
      | none => none
      | some base =>
        let prepared := { j.entry with
          candidateSha := some commit, candidateBase := some base
          candidateRef := some candidateRef }
        match persist mint prepared .runningGates now b.daemon with
        | (_, .error _) => none
        | (ps, .ok entry) =>
          some { b with
            daemon := stop b.daemon ps
            judging := ⟨entry, some base⟩ :: b.judging.erase j }
    else none
  | .conflict j =>
    if j ∈ b.judging ∧ j.entry.candidate = none then
      some { b with
        judging := ⟨j.entry, b.currentTargetHead j.entry⟩ :: b.judging.erase j }
    else none
  | .conclude j outcome =>
    if j ∈ b.judging then
      let b := b.acted j outcome
      some (b.record
        ((markProcessed mint j.entry outcome (b.currentTargetHead j.entry)).final b.daemon) j.judged)
    else none
  | .enqueue entry contained now =>
    some (b.record
      ((enqueueDisposition mint entry (b.currentTargetHead entry) contained now).final b.daemon)
      (b.currentTargetHead entry))

/-- A held verdict suppresses a submission only for the tip it judged: whenever
`enqueue_disposition` would answer `Processed` now because of a held marker, the
target's tip is the one behind the verdict, or the two tips cannot be compared. -/
def Verdicts.Current (b : Verdicts) : Prop :=
  ∀ entry contained now m judged,
    (enqueueDisposition mint entry (b.currentTargetHead entry) contained now b.daemon).2 =
      .ok .processed →
    b.daemon.admissionMarker entry (b.currentTargetHead entry) = .ok (some m) →
    held m.outcome → (m, judged) ∈ b.verdicts →
    b.currentTargetHead entry = judged ∨ m.targetHead = none ∨ b.currentTargetHead entry = none

/-- The condition on a step: a held verdict is marked while the target is still at
the tip it was computed against, or while that tip cannot be read. -/
def Verdicts.unmoved (b : Verdicts) : VerdictStep → Prop
  | .conclude j outcome =>
    ∀ word, outcome.recorded = some word → held word →
      b.currentTargetHead j.entry = j.judged ∨ b.currentTargetHead j.entry = none
  | _ => True

variable {mint}

theorem admissionMarker_current {d : Daemon} {entry : LandingQueueEntry} {tip : Option String}
    {m : Processed} (h : d.admissionMarker entry tip = .ok (some m)) (hw : m.outcome ≠ "landed") :
    m.targetHead = none ∨ tip = none ∨ tip = m.targetHead := by
  unfold Daemon.admissionMarker at h
  cases hp : d.processedMarker entry with
  | none => simp [hp] at h
  | some marker =>
    cases hr : d.recoverySupersedes entry marker with
    | error e => simp [hp, hr] at h
    | ok superseded =>
      cases superseded with
      | true => simp [hp, hr] at h
      | false =>
        simp only [hp, hr] at h
        by_cases hl : marker.outcome = "landed"
        · simp only [hl, if_true] at h
          cases h
          exact absurd hl hw
        · simp only [hl, if_false] at h
          cases hh : marker.targetHead with
          | none =>
            simp only [hh] at h
            cases h
            exact .inl hh
          | some recorded =>
            cases ht : tip with
            | none => exact .inr (.inl rfl)
            | some current =>
              simp only [hh, ht] at h
              by_cases he : current = recorded
              · simp only [he, if_true] at h
                cases h
                right; right
                rw [hh, he]
              · simp [he] at h

theorem markProcessed_processed (entry : LandingQueueEntry) (outcome : LandingOutcome)
    (tip : Option String) (d : Daemon) :
    ((markProcessed mint entry outcome tip).final d).processed =
      d.processed ++ (outcome.recorded.toList.map fun word =>
        { id := mint d.minted, repoName := entry.repoName, branch := entry.branch
          target := entry.target, targetHead := tip, headSha := entry.headSha
          task := entry.task, outcome := word, admissionHold := entry.admissionHold
          admissionRecovery := entry.admissionRecovery }) := by
  unfold markProcessed
  cases outcome.recorded with
  | none => simp [Prog.final, Pure.pure, Prog.pure]
  | some word => simp [Prog.final, Prog.write, Daemon.addProcessed]

/-- `enqueue_disposition` leaves the markers alone, or adds that of an empty
candidate. -/
theorem enqueueDisposition_processed (entry : LandingQueueEntry) (tip : Option String)
    (contained : Bool) (now : DateTime) (d : Daemon) :
    ∃ new, ((enqueueDisposition mint entry tip contained now).final d).processed =
      d.processed ++ new ∧ ∀ m ∈ new, m.outcome = "empty" := by
  have hframe : ∀ m : Op EnqueueDisposition, Frame Daemon.processed m →
      ∃ new, (m.final d).processed = d.processed ++ new ∧ ∀ p ∈ new, p.outcome = "empty" :=
    fun m hm => ⟨[], by rw [hm.final d, append_nil], fun _ h => absurd h not_mem_nil⟩
  rw [enqueueDisposition, Prog.final_read]
  cases d.admissionMarker entry tip with
  | error e => exact hframe _ (.fail e)
  | ok marker =>
    cases marker with
    | some marker =>
      simp only
      split
      · exact hframe _ (.fail _)
      · exact hframe _ (.pure _)
    | none =>
      simp only
      split
      · refine ⟨_, markProcessed_processed entry .empty tip d, ?_⟩
        intro m hm
        obtain rfl := mem_singleton.mp hm
        rfl
      · refine hframe _ (.bind (.bind (scanCurrent_processed _ _) fun _ => .pure _)
          fun present => ?_)
        cases present with
        | true => exact .pure _
        | false => exact .bind (enqueue_processed entry now) fun _ => .pure _

/-- Every marker has its verdict, and a held one is stamped with the tip behind it
or with none. -/
structure Verdicts.Stamped (b : Verdicts) : Prop where
  recorded : b.verdicts.map Prod.fst = b.daemon.processed
  stamp : ∀ v ∈ b.verdicts, held v.1.outcome → v.1.targetHead = none ∨ v.1.targetHead = v.2

theorem Verdicts.record_verdicts {b : Verdicts} {daemon : Daemon} {new : List Processed}
    (h : daemon.processed = b.daemon.processed ++ new) (judged : Option String) :
    (b.record daemon judged).verdicts = b.verdicts ++ new.map fun m => (m, judged) := by
  simp [record, h]

theorem Verdicts.Stamped.record {b : Verdicts} (hb : b.Stamped) {daemon : Daemon} {new : List Processed}
    {judged : Option String} (h : daemon.processed = b.daemon.processed ++ new)
    (hnew : ∀ m ∈ new, held m.outcome → m.targetHead = none ∨ m.targetHead = judged) :
    (b.record daemon judged).Stamped where
  recorded := by
    rw [record_verdicts h, map_append, hb.recorded, map_map]
    show _ = daemon.processed
    rw [h]
    simp [Function.comp_def]
  stamp := by
    rw [record_verdicts h]
    refine forall_mem_append.mpr ⟨hb.stamp, ?_⟩
    intro v hv
    obtain ⟨m, hm, rfl⟩ := mem_map.mp hv
    exact hnew m hm

variable {b b' : Verdicts}

theorem Verdicts.Stamped.same (hb : b.Stamped)
    (hp : b'.daemon.processed = b.daemon.processed) (hv : b'.verdicts = b.verdicts) :
    b'.Stamped where
  recorded := by rw [hv, hp]; exact hb.recorded
  stamp := by rw [hv]; exact hb.stamp

theorem held_ne_landed {word : String} (h : held word) : word ≠ "landed" := by
  rintro rfl
  revert h
  decide

theorem not_held_empty : ¬ held "empty" := by decide

theorem Verdicts.Stamped.current {b : Verdicts} (hb : b.Stamped) : b.Current mint := by
  intro entry contained now m judged _ hm hheld hv
  rcases admissionMarker_current hm (held_ne_landed hheld) with hn | hn | heq
  · exact .inr (.inl hn)
  · exact .inr (.inr hn)
  · rcases hb.stamp (m, judged) hv hheld with hs | hs
    · exact .inr (.inl hs)
    · exact .inl (heq.trans hs)

theorem recorded_landed {outcome : LandingOutcome} {word : String}
    (h : outcome.recorded = some word) (hw : word ≠ "landed") : outcome ≠ .landed := by
  rintro rfl
  cases h
  exact hw rfl

/-- The tip the marker of a held verdict is stamped with is the tip before the
step. -/
theorem conclude_eq {j : Judging} {outcome : LandingOutcome}
    (h : b.step mint (.conclude j outcome) = some b') (ho : outcome ≠ .landed) :
    b'.tips = b.tips ∧ b'.daemon =
      (markProcessed mint j.entry outcome (b.currentTargetHead j.entry)).final b.daemon ∧
    b'.verdicts = b.verdicts ++ ((b'.daemon.processed.drop b.daemon.processed.length).map
      fun m => (m, j.judged)) := by
  simp only [step] at h
  split at h
  · have hacted : (b.acted j outcome).tips = b.tips := by
      simp [acted, ho]
    have htip : (b.acted j outcome).currentTargetHead j.entry = b.currentTargetHead j.entry := by
      rw [currentTargetHead, hacted]
      rfl
    rw [htip] at h
    cases h
    exact ⟨hacted, rfl, rfl⟩
  · cases h

theorem stamped_step {l : VerdictStep} (hb : b.Stamped)
    (h : b.step mint l = some b') (hg : b.unmoved l) : b'.Stamped := by
  cases l with
  | move repoPath target tip =>
    cases h
    exact hb.same rfl rfl
  | begin entry =>
    simp only [step] at h
    split at h <;> (cases h; exact hb.same rfl rfl)
  | prepare j commit candidateRef now =>
    simp only [step] at h
    split at h
    · split at h
      · cases h
      next base _ =>
      split at h
      · cases h
      next ps entry hp =>
        cases h
        refine hb.same ?_ rfl
        refine @Frame.stop _ _ _ b.daemon ps ?_
        have hframe := @persist_processed mint { j.entry with
          candidateSha := some commit, candidateBase := some base
          candidateRef := some candidateRef } .runningGates now b.daemon
        rw [hp] at hframe
        exact hframe
    · cases h
  | conflict j =>
    simp only [step] at h
    split at h
    · cases h
      exact hb.same rfl rfl
    · cases h
  | conclude j outcome =>
    simp only [step] at h
    split at h
    · cases h
      have hacted : (b.acted j outcome).Stamped := hb.same rfl rfl
      refine hacted.record (markProcessed_processed _ _ _ _) ?_
      intro m hm hheld
      obtain ⟨word, hword, rfl⟩ := mem_map.mp hm
      have hrec : outcome.recorded = some word := by simpa using hword
      have ho := recorded_landed hrec (held_ne_landed hheld)
      simp only [currentTargetHead, acted, ho, false_and, if_false]
      exact (hg word hrec hheld).symm
    · cases h
  | enqueue entry contained now =>
    cases h
    obtain ⟨new, hnew, hempty⟩ := @enqueueDisposition_processed mint entry
      (b.currentTargetHead entry) contained now b.daemon
    refine hb.record hnew fun m hm hheld => ?_
    rw [hempty m hm] at hheld
    exact absurd hheld not_held_empty

theorem newest_suppresses {d : Daemon} {entry : LandingQueueEntry} {old : List Processed}
    {m : Processed} {head : String} (hp : d.processed = old ++ [m])
    (hkey : m.repoName = entry.repoName ∧ m.branch = entry.branch ∧ m.headSha = entry.headSha ∧
      m.target = entry.target) (hrec : entry.admissionRecovery = none)
    (hw : m.outcome ≠ "landed") (hhead : m.targetHead = some head) :
    d.admissionMarker entry (some head) = .ok (some m) := by
  have hm : d.processedMarker entry = some m := by
    simp [Daemon.processedMarker, hp, hkey]
  simp [Daemon.admissionMarker, hm, Daemon.recoverySupersedes, hrec, hw, hhead]

/-- After a step that marks a held verdict on a moved target, a resubmission is
suppressed by a verdict on another tip. -/
theorem unmoved_of_current {l : VerdictStep} (h : b.step mint l = some b') (hc : b'.Current mint) :
    b.unmoved l := by
  cases l with
  | conclude j outcome =>
    intro word hrec hheld
    have ho := recorded_landed hrec (held_ne_landed hheld)
    obtain ⟨htips, hdaemon, hverdicts⟩ := conclude_eq h ho
    cases htip : b.currentTargetHead j.entry with
    | none => exact .inr rfl
    | some head =>
      left
      have hp := @markProcessed_processed mint j.entry outcome (some head) b.daemon
      rw [htip] at hdaemon
      rw [← hdaemon, hrec] at hp
      simp only [Option.toList_some, map_cons, map_nil] at hp
      let again : LandingQueueEntry := { j.entry with admissionRecovery := none }
      have htip' : b'.currentTargetHead again = some head := by
        show b'.tips j.entry.repoPath j.entry.target = some head
        rw [htips]
        exact htip
      have hm := @newest_suppresses b'.daemon again _ _ _ hp ⟨rfl, rfl, rfl, rfl⟩ rfl
        (held_ne_landed hheld) rfl
      have hmem := hverdicts
      rw [hp, drop_left] at hmem
      have hcur := hc again false 0 _ j.judged ?_ (by rw [htip']; exact hm) hheld
        (by rw [hmem]; exact mem_append_right _ mem_cons_self)
      · rw [htip'] at hcur
        rcases hcur with hcur | hcur | hcur
        · exact hcur
        · cases hcur
        · cases hcur
      · rw [htip']
        show (Prog.bind Prog.read _ b'.daemon).2 = _
        simp only [Prog.bind, Prog.read, stop_nil, hm]
        simp [again, Pure.pure, Prog.pure]
  | move repoPath target tip | begin entry | prepare j commit candidateRef now | conflict j
  | enqueue entry contained now => trivial

theorem start_stamped : start.Stamped where
  recorded := rfl
  stamp := fun _ h => absurd h not_mem_nil

/-- In a run, held verdicts suppress resubmissions only for the tips they judged,
exactly when every held verdict is marked while the target has not moved from the
tip it was computed against. -/
theorem held_verdict_current (ls : List VerdictStep) :
    Keeps (step mint) (Verdicts.Current mint) start ls ↔
      Meets (step mint) unmoved start ls :=
  keeps_iff_meets_of_guarded (I := Verdicts.Stamped) (fun _ _ _ hb h hg => stamped_step hb h hg)
    (fun _ hb => hb.current) (fun _ _ _ _ h hc => unmoved_of_current h hc) start_stamped

end

def slowCandidate : LandingQueueEntry :=
  { repoName := "repo", repoPath := "/repo", branch := "topic", target := "main", headSha := "h1"
    diffClass := "code", task := "TKT-1" }

def slowClaimed : LandingQueueEntry := (slowCandidate.queuedAs 1 0).claimed 1

def slowPrepared : LandingQueueEntry :=
  ({ slowClaimed with
      candidateSha := some "c1", candidateBase := some "b1"
      candidateRef := some "refs/rk/candidates/c1" } : LandingQueueEntry).moved .runningGates 2

/-- The candidate is built on `b1`, an unrelated commit lands as `b2` while its gates
run, and the hold is marked after that. -/
def movedUnderGates : List VerdictStep :=
  [.move "/repo" "main" (some "b1"), .enqueue slowCandidate false 0, .begin slowClaimed,
   .prepare ⟨slowClaimed, none⟩ "c1" "refs/rk/candidates/c1" 2,
   .move "/repo" "main" (some "b2"), .conclude ⟨slowPrepared, some "b1"⟩ .gateHeld]

/-- A resubmission is answered `Processed` at `b2` by a verdict on `b1`. -/
def suppressedByOldVerdict (b : Verdicts) : Bool :=
  match b.daemon.admissionMarker slowCandidate (b.currentTargetHead slowCandidate),
    (enqueueDisposition id slowCandidate (b.currentTargetHead slowCandidate) false 3 b.daemon).2 with
  | .ok (some m), .ok .processed =>
    decide (held m.outcome ∧ (m, some "b1") ∈ b.verdicts ∧ m.targetHead = some "b2" ∧
      b.currentTargetHead slowCandidate = some "b2")
  | _, _ => false

theorem moved_target_keeps_old_verdict :
    ¬ Keeps (step id) (Verdicts.Current id) start movedUnderGates := by
  intro h
  obtain ⟨b, hr, hb⟩ := run_of_any (p := suppressedByOldVerdict)
    (show (run (step id) .start movedUnderGates).any suppressedByOldVerdict = true by
      decide +kernel)
  have hc : b.Current id := h.last hr
  unfold suppressedByOldVerdict at hb
  split at hb
  next m hm hq =>
    obtain ⟨hheld, hv, hstamp, htip⟩ := of_decide_eq_true hb
    rcases hc slowCandidate false 3 m _ hq hm hheld hv with he | he | he
    · rw [htip] at he
      exact absurd he (by decide)
    · rw [hstamp] at he
      cases he
    · rw [htip] at he
      cases he
  · cases hb

end RatKingdom.Landing
