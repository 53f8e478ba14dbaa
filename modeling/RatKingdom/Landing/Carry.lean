/-
One walk through the pipeline for every invariant.

The pipeline writes few things: the successor of an entry that is known, the deletion of a
row another row of its number stays beside, a marker, and records beside the queue.  An
invariant that survives these is carried by every operation on an entry, whatever it was
interrupted at, and what `process_entry` returns with is read off how it ended.
-/
import RatKingdom.Landing.Pipeline

namespace RatKingdom.Landing

open Lib Core List

/-- The same work at the same place of the order. -/
structure Same (e e' : LandingQueueEntry) : Prop where
  repoName : e'.repoName = e.repoName
  seq : e'.seq = e.seq
  key : e'.key = e.key

theorem Same.trans {e e' e'' : LandingQueueEntry} (h : Same e e') (h' : Same e' e'') : Same e e'' :=
  ⟨h'.repoName.trans h.repoName, h'.seq.trans h.seq, h'.key.trans h.key⟩

theorem mem_claimOrder {rows : List Row} {r : Row} : r ∈ claimOrder rows ↔ r ∈ rows :=
  mem_insertionSort Row.before

theorem claimOrder_perm (rows : List Row) : (claimOrder rows).Perm rows :=
  perm_insertionSort Row.before rows

/-- The same work at the same place of the order, under the same recovery. -/
structure Kin (e e' : LandingQueueEntry) : Prop extends Same e e' where
  recovery : e'.admissionRecovery = e.admissionRecovery

theorem Kin.refl (e : LandingQueueEntry) : Kin e e := ⟨⟨rfl, rfl, rfl⟩, rfl⟩

theorem Kin.trans {e e' e'' : LandingQueueEntry} (h : Kin e e') (h' : Kin e' e'') : Kin e e'' :=
  ⟨h.toSame.trans h'.toSame, h'.recovery.trans h.recovery⟩

theorem Kin.edit {e₀ e e' : LandingQueueEntry} (h : Kin e₀ e)
    (hs : (e'.repoName, e'.seq, e'.key, e'.admissionRecovery) =
      (e.repoName, e.seq, e.key, e.admissionRecovery)) : Kin e₀ e' := by
  simp only [Prod.mk.injEq] at hs
  exact h.trans ⟨⟨hs.1, hs.2.1, hs.2.2.1⟩, hs.2.2.2⟩

theorem moved_kin (e : LandingQueueEntry) (st : LandingEntryStatus) (now : DateTime) :
    Kin e (e.moved st now) := ⟨⟨rfl, rfl, rfl⟩, rfl⟩

theorem claimed_kin (e : LandingQueueEntry) (now : DateTime) : Kin e (e.claimed now) := by
  refine ⟨⟨by simp, by simp, by simp⟩, ?_⟩
  unfold LandingQueueEntry.claimed
  split <;> rfl

/-- Only records beside the queue, the markers and the receipts were written. -/
structure Beside (d d' : Daemon) : Prop where
  rows : d'.rows = d.rows
  log : d'.log = d.log
  processed : d'.processed = d.processed
  receipts : d'.receipts = d.receipts
  holds : d'.holds = d.holds
  seqFile : d'.seqFile = d.seqFile
  seqCache : d'.seqCache = d.seqCache
  quarantine : d.quarantine ⊆ d'.quarantine
  minted : d.minted ≤ d'.minted

def Daemon.Archived (d : Daemon) (e : LandingQueueEntry) : Prop :=
  ∃ q ∈ d.quarantine, q.entry.repoName = e.repoName ∧ q.entry.key = e.key

theorem archived_of_findQuarantine {d : Daemon} {e : LandingQueueEntry} {q : Quarantine}
    (h : d.findQuarantine e = some q) : d.Archived e := by
  have hf := find?_some h
  simp only [decide_eq_true_eq] at hf
  obtain ⟨hrepo, -, -, hb, hh, ht, htask⟩ := hf
  exact ⟨q, mem_of_find?_eq_some h, hrepo, by simp [LandingQueueEntry.key, hb, hh, ht, htask]⟩

/-- What an invariant has to survive to be carried through the queue, and which entries
are known while it holds. -/
structure Carries (mint : Nat → RecordId) (J : Daemon → Prop)
    (L : LandingQueueEntry → Daemon → Prop) : Prop where
  nodup : ∀ d, J d → (d.rows.map Row.id).Nodup
  fresh : ∀ d, J d → ∀ r ∈ d.rows, r.id ≠ mint d.minted
  logged : ∀ d, J d → ∀ r ∈ d.rows, L r.entry d
  kin : ∀ d e e', L e d → Kin e e' → L e' d
  drop : ∀ d x w, J d → x ∈ d.rows → w ∈ d.rows → w.id ≠ x.id →
    w.entry.repoName = x.entry.repoName → w.seq = x.seq → J (d.deleteRow x.id)
  write : ∀ d next, J d → L next d → 0 < next.rev → J (d.addRow mint next)
  note : ∀ d d', J d → Beside d d' → J d'
  hold : ∀ d h, J d → L (h (mint d.minted)).entry d → J (d.addHold mint h)

section
variable {mint : Nat → RecordId} {J : Daemon → Prop} {L : LandingQueueEntry → Daemon → Prop}

theorem Carries.and {S : Daemon → Prop} (hJ : Carries mint J L)
    (hdrop : ∀ d i, S d → S (d.deleteRow i)) (hwrite : ∀ d next, S d → S (d.addRow mint next))
    (hnote : ∀ d d', S d → Beside d d' → S d') (hhold : ∀ d h, S d → S (d.addHold mint h)) :
    Carries mint (fun d => J d ∧ S d) L where
  nodup := fun d h => hJ.nodup d h.1
  fresh := fun d h => hJ.fresh d h.1
  logged := fun d h => hJ.logged d h.1
  kin := hJ.kin
  drop := fun d x w h hx hw hne hr hs => ⟨hJ.drop d x w h.1 hx hw hne hr hs, hdrop d x.id h.2⟩
  write := fun d next h hn hrev => ⟨hJ.write d next h.1 hn hrev, hwrite d next h.2⟩
  note := fun d d' h hb => ⟨hJ.note d d' h.1 hb, hnote d d' h.2 hb⟩
  hold := fun d x h hx => ⟨hJ.hold d x h.1 hx, hhold d x h.2⟩

section
variable (hJ : Carries mint J L)
include hJ

theorem scanCurrent_carries (r : String) (t : Option String) :
    Triple J J (scanCurrent r t) (fun rows d => J d ∧ Scanned r t rows d) := by
  apply scanCurrent_triple hJ.nodup
  intro d x w hd hx hw hr hs hfr
  apply hJ.drop d x w hd hx hw _ hr hs
  intro he
  exact hfr.ne (inj_on_of_nodup_map (hJ.nodup d hd) hw hx he)

theorem find_carries (e : LandingQueueEntry) :
    Triple J J (find e) (fun o d => J d ∧ ∀ row, o = some row →
      row ∈ d.rows ∧ row.entry.repoName = e.repoName ∧ row.seq = e.seq) := by
  refine .bind (scanCurrent_carries hJ e.repoName none) fun rows => .pure ?_
  intro d ⟨hd, hrows⟩
  refine ⟨hd, fun row hrow => ?_⟩
  obtain ⟨hm, hr, -⟩ := mem_pending.mp (hrows.sub row (mem_of_find?_eq_some hrow))
  exact ⟨hm, hr, by simpa using find?_some hrow⟩

/-- Write-then-delete of a row by its successor.  The rows in `others` stay. -/
theorem replaceRow_carries (others : List Row) {next : LandingQueueEntry} {i : RecordId}
    (hrev : 0 < next.rev) :
    Triple J (fun d => J d ∧ L next d ∧
        (∃ row ∈ d.rows, row.id = i ∧ row.entry.repoName = next.repoName ∧ row.seq = next.seq) ∧
        ∀ x ∈ others, x ∈ d.rows ∧ x.id ≠ i)
      (replaceRow mint next i)
      (fun _ d => J d ∧
        ∃ new ∈ d.rows, new.entry = next ∧ ∀ x ∈ others, x ∈ d.rows ∧ x.id ≠ new.id) := by
  refine .of_start ?_
  rintro d ⟨hd, hlog, ⟨row, hrow, hid, hrr, hseq⟩, hothers⟩
  have hadd : J (d.addRow mint next) := hJ.write d next hd hlog hrev
  have hnew : (⟨mint d.minted, next⟩ : Row) ∈ (d.addRow mint next).rows :=
    mem_concat_self
  have hinew : mint d.minted ≠ i := fun he => hJ.fresh d hd row hrow (hid.trans he.symm)
  have hdel : J ((d.addRow mint next).deleteRow i) := by
    rw [← hid]
    apply hJ.drop _ row _ hadd (mem_append_left _ hrow) hnew
    · exact fun he => hinew (he.trans hid)
    · exact hrr.symm
    · exact hseq.symm
  refine .bind (Q := fun _ t => t = d.addRow mint next) ?_ fun _ => ?_
  · refine .write ?_ ?_
    · rintro t rfl
      exact hadd
    · rintro t rfl
      rfl
  · refine .write ?_ ?_
    · rintro t rfl
      exact hdel
    · rintro t rfl
      refine ⟨hdel, _, mem_deleteRow.mpr ⟨hnew, hinew⟩, rfl, ?_⟩
      intro x hx
      obtain ⟨hm, hxi⟩ := hothers x hx
      exact ⟨mem_deleteRow.mpr ⟨mem_append_left _ hm, hxi⟩, hJ.fresh d hd x hm⟩

theorem persist_carries {e₀ e : LandingQueueEntry} (hlog : ∀ d, J d → L e₀ d)
    (hk : Kin e₀ e) (st : LandingEntryStatus) (now : DateTime) :
    Triple J J (persist mint e st now) (fun e' d => J d ∧ Kin e₀ e') := by
  refine .bind (find_carries hJ e) fun o => ?_
  cases o with
  | none => exact .pure fun d hd => ⟨hd.1, hk⟩
  | some row =>
    refine .bind (Q := fun _ d => J d) ?_ fun _ => ?_
    · refine (replaceRow_carries hJ [] (by simp)).mono ?_ fun _ d hd => hd.1
      intro d ⟨hd, hrow⟩
      obtain ⟨hm, hr, hseq⟩ := hrow row rfl
      refine ⟨hd, hJ.kin d _ _ (hlog d hd) (hk.trans (moved_kin e st now)), ?_, by simp⟩
      exact ⟨row, hm, rfl, hr, hseq⟩
    · exact .pure fun d hd => ⟨hd, hk.trans (moved_kin e st now)⟩

theorem setStatus_carries {e : LandingQueueEntry} (hlog : ∀ d, J d → L e d)
    (st : LandingEntryStatus) (now : DateTime) :
    Triple J J (setStatus mint e st now) (fun _ d => J d) := by
  refine .bind (find_carries hJ e) fun o => ?_
  cases o with
  | none => exact .pure fun d hd => hd.1
  | some row =>
    refine (replaceRow_carries hJ [] (by simp)).mono ?_ fun _ d hd => hd.1
    intro d ⟨hd, hrow⟩
    obtain ⟨hm, hr, hseq⟩ := hrow row rfl
    refine ⟨hd, hJ.kin d _ _ (hlog d hd) (moved_kin e st now), ?_, by simp⟩
    exact ⟨row, hm, rfl, hr, hseq⟩

theorem claimRow_carries (others : List Row) (row : Row) (now : DateTime) :
    Triple J (fun d => J d ∧ row ∈ d.rows ∧ ∀ x ∈ others, x ∈ d.rows ∧ x.id ≠ row.id)
      (claimRow mint now row)
      (fun e d => J d ∧
        ∃ new ∈ d.rows, new.entry = e ∧ ∀ x ∈ others, x ∈ d.rows ∧ x.id ≠ new.id) := by
  unfold claimRow
  cases row.entry.validatePersisted with
  | error _ => exact .fail
  | ok _ =>
    refine .bind ((replaceRow_carries hJ others (by simp)).mono ?_ fun _ _ h => h)
      fun _ => .pure fun d hd => hd
    intro d ⟨hd, hrow, hothers⟩
    have hk := claimed_kin row.entry now
    refine ⟨hd, hJ.kin d _ _ (hJ.logged d hd row hrow) hk, ⟨row, hrow, rfl, ?_, ?_⟩, hothers⟩
    · exact hk.repoName.symm
    · exact hk.seq.symm

/-- Claiming rows one after another; `done` are the rows claimed before. -/
theorem claimRows_carries (now : DateTime) (rows done : List Row) :
    Triple J (fun d => J d ∧ ((rows ++ done).map Row.id).Nodup ∧ ∀ x ∈ rows ++ done, x ∈ d.rows)
      (claimRows mint now rows)
      (fun es d => J d ∧ (∀ x ∈ done, x ∈ d.rows) ∧ ∀ e ∈ es, ∃ r ∈ d.rows, r.entry = e) := by
  induction rows generalizing done with
  | nil =>
    refine .pure ?_
    rintro d ⟨hd, -, hm⟩
    exact ⟨hd, hm, fun e he => (not_mem_nil he).elim⟩
  | cons row rows ih =>
    refine .of_start ?_
    rintro d₀ ⟨hd₀, hnd, hmem₀⟩
    obtain ⟨hrow, hnd'⟩ := nodup_cons.mp hnd
    have hpre : ∀ x ∈ rows ++ done, x ∈ d₀.rows ∧ x.id ≠ row.id := by
      intro x hx
      refine ⟨hmem₀ x (mem_cons_of_mem _ hx), fun he => hrow ?_⟩
      exact he ▸ mem_map_of_mem hx
    refine .bind ((claimRow_carries hJ (rows ++ done) row now).mono ?_ fun _ _ h => h) fun e => ?_
    · rintro t rfl
      exact ⟨hd₀, hmem₀ row mem_cons_self, hpre⟩
    · refine .of_start ?_
      rintro d₁ ⟨hd₁, new, hnew, hne, hothers⟩
      refine .bind ((ih (new :: done)).mono ?_ fun _ _ h => h) fun es => .pure ?_
      · rintro t rfl
        refine ⟨hd₁, ?_, ?_⟩
        · have hperm : (rows ++ new :: done).Perm (new :: (rows ++ done)) := perm_middle
          rw [(hperm.map Row.id).nodup_iff, map_cons, nodup_cons]
          refine ⟨?_, hnd'⟩
          intro hin
          obtain ⟨x, hx, hid⟩ := mem_map.mp hin
          exact (hothers x hx).2 hid
        · refine forall_mem_append.mpr ⟨fun x hx => (hothers x (mem_append_left _ hx)).1, ?_⟩
          intro x hx
          rcases mem_cons.mp hx with rfl | hx
          · exact hnew
          · exact (hothers x (mem_append_right _ hx)).1
      · rintro d₂ ⟨hd₂, hdone, hes⟩
        refine ⟨hd₂, fun x hx => hdone x (mem_cons_of_mem _ hx), ?_⟩
        exact forall_mem_cons.mpr ⟨⟨new, hdone new mem_cons_self, hne⟩, hes⟩

theorem claimNext_carries (r t : String) (now : DateTime) :
    Triple J J (claimNext mint r t now) (fun o d =>
      J d ∧ ∀ e, o = some e → ∃ x ∈ d.rows, x.entry = e) := by
  refine .bind (scanCurrent_carries hJ r (some t)) fun rows => ?_
  cases hh : (claimOrder rows).head? with
  | none => exact .pure fun d hd => ⟨hd.1, fun e he => (by cases he)⟩
  | some row =>
    refine .bind ((claimRow_carries hJ [] row now).mono ?_ fun _ _ h => h) fun e => .pure ?_
    · rintro d ⟨hd, hrows⟩
      have hm : row ∈ rows := mem_claimOrder.mp (mem_of_mem_head? hh)
      exact ⟨hd, (mem_pending.mp (hrows.sub row hm)).1, by simp⟩
    · rintro d ⟨hd, new, hnew, hne, -⟩
      refine ⟨hd, fun x hx => ?_⟩
      cases hx
      exact ⟨new, hnew, hne⟩

theorem claimBatch_carries (r t : String) (n : Nat) (now : DateTime) :
    Triple J J (claimBatch mint r t n now) (fun es d =>
      J d ∧ ∀ e ∈ es, ∃ x ∈ d.rows, x.entry = e) := by
  refine .bind (scanCurrent_carries hJ r (some t)) fun rows => ?_
  refine (claimRows_carries hJ now _ []).mono ?_ fun es d hd => ⟨hd.1, hd.2.2⟩
  rintro d ⟨hd, hrows⟩
  have hsub : ∀ x ∈ (claimOrder rows).take n, x ∈ d.rows := fun x hx =>
    (mem_pending.mp (hrows.sub x (mem_claimOrder.mp (mem_of_mem_take hx)))).1
  have hnd : ((claimOrder rows).take n).Nodup := by
    have hrowsnd : rows.Nodup := List.Nodup.of_map _ hrows.seqs
    exact ((claimOrder_perm rows).nodup_iff.mpr hrowsnd).sublist (take_sublist _ _)
  rw [append_nil]
  refine ⟨hd, ?_, hsub⟩
  refine hnd.map_on ?_
  intro x hx y hy hid
  exact inj_on_of_nodup_map (hJ.nodup d hd) (hsub x hx) (hsub y hy) hid

end

theorem then_carries {α β : Type} (e₀ : LandingQueueEntry) {Q : α → LandingQueueEntry} {m : Op α}
    {f : α → Op β} {R : β → Daemon → Prop} (hm : Triple J J m (fun a d => J d ∧ Kin e₀ (Q a)))
    (hf : ∀ a, Kin e₀ (Q a) → Triple J J (f a) R) : Triple J J (m >>= f) R := by
  refine .bind hm fun a => ?_
  refine .of_start ?_
  rintro d ⟨hd, hk'⟩
  refine (hf a hk').mono ?_ fun _ _ h => h
  rintro t rfl
  exact hd

section
variable (hJ : Carries mint J L) {e₀ e : LandingQueueEntry} (hlog : ∀ d, J d → L e₀ d)
  (hk : Kin e₀ e)
include hJ hlog hk

theorem runCheck_carries (r : CheckRun) (now : DateTime) :
    Triple J J (runCheck mint e r now) (fun e' d => J d ∧ Kin e₀ e') := by
  refine then_carries e₀ (Q := id) ?_ fun e' hk' =>
    persist_carries hJ hlog (hk'.edit (by rfl)) _ now
  unfold admissionRemaining
  cases e.admission with
  | none => exact .fail
  | some w =>
    refine .bind (persist_carries hJ hlog (hk.edit (by rfl)) _ now) fun e' => .pure ?_
    intro d ⟨hd, hk'⟩
    exact ⟨hd, hk'.edit rfl⟩

omit hlog hk in
theorem note_carries {f : Daemon → Daemon} (hf : ∀ d, Beside d (f d)) :
    Triple J J (Prog.write f : Op PUnit) (fun _ d => J d) :=
  .write (fun d hd => hJ.note d _ hd (hf d)) fun d hd => hJ.note d _ hd (hf d)

theorem holdAdmission_carries (check candidate : String) (v : CheckValue) (now : DateTime) :
    Triple J J (holdAdmission mint e check candidate v now) (fun e' d => J d ∧ Kin e₀ e') := by
  refine .bind (Q := fun _ d => J d) (.read fun d hd => hd) fun s => ?_
  cases s.findHold e check candidate with
  | some prior => exact persist_carries hJ hlog (hk.edit (by rfl)) _ now
  | none =>
    have hheld : ∀ d, J d → J (d.addHold mint fun id =>
        { id, entry := { e with admissionHold := some (mint s.minted) }, check
          candidateSha := candidate, result := v
          retryEligible := !e.gateInfraRetryUsed && e.batchBranches.isEmpty }) :=
      fun d hd => hJ.hold d _ hd (hJ.kin d _ _ (hlog d hd) (hk.edit rfl))
    exact .bind (.write hheld hheld) fun _ =>
      persist_carries hJ hlog (hk.edit (by rfl)) _ now

omit hlog hk in
theorem recordGateInfraAttempt_carries (e : LandingQueueEntry) (candidate : String) (check : Check)
    (n : Nat) (v : CheckValue) (b : Bool) :
    Triple J J (recordGateInfraAttempt e candidate check n v b) (fun _ d => J d) :=
  note_carries hJ fun _ => ⟨rfl, rfl, rfl, rfl, rfl, rfl, rfl, List.Subset.refl _, Nat.le_succ _⟩

theorem settleRetry_carries (candidate : String) (check : Check) (r : CheckRun) (now : DateTime) :
    Triple J J (settleRetry mint e candidate check r now) (fun p d => J d ∧ Kin e₀ p.1) := by
  refine then_carries e₀ (Q := id) (runCheck_carries hJ hlog hk r now) fun e' hk' => ?_
  cases r.expired with
  | some v =>
    exact .bind (holdAdmission_carries hJ hlog hk' check.name candidate v now)
      fun _ => .pure fun _ h => h
  | none =>
    refine .bind (Q := fun p d => J d ∧ Kin e₀ p.1) ?_ fun _ => .pure fun _ h => h
    refine .bind (recordGateInfraAttempt_carries hJ e' candidate check 2 r.settled false)
      fun _ => ?_
    exact .bind (persist_carries hJ hlog (hk'.edit (by rfl)) _ now) fun _ => .pure fun _ h => h

theorem resumeRetry_carries (candidate : String) (check : Check) (r : CheckRun) (now : DateTime) :
    Triple J J (resumeRetry mint e candidate check r now) (fun p d => J d ∧ Kin e₀ p.1) := by
  refine .bind (Q := fun _ d => J d) ?_ fun _ => ?_
  · refine .bind (Q := fun _ d => J d) (.read fun _ h => h) fun s => ?_
    split
    · exact .pure fun _ h => h
    · exact recordGateInfraAttempt_carries hJ e candidate check 1 _ true
  · refine .bind (Q := fun _ d => J d) (.read fun _ h => h) fun s => ?_
    cases s.settledInfraRetry e candidate check.name with
    | some passed =>
      exact .bind (persist_carries hJ hlog (hk.edit (by rfl)) _ now) fun _ => .pure fun _ h => h
    | none => exact settleRetry_carries hJ hlog hk candidate check r now

theorem freshCheck_carries (candidate : String) (check : Check) (run retry : CheckRun)
    (now : DateTime) :
    Triple J J (freshCheck mint e candidate check run retry now) (fun p d => J d ∧ Kin e₀ p.1) := by
  refine then_carries e₀ (Q := id) (runCheck_carries hJ hlog hk run now) fun e' hk' => ?_
  have hstop : ∀ o, Triple J J (pure (e', o) : Op (LandingQueueEntry × Option GateRunOutcome))
      (fun p d => J d ∧ Kin e₀ p.1) := fun o => .pure fun t h => ⟨h, hk'⟩
  cases run.expired with
  | some v =>
    exact .bind (holdAdmission_carries hJ hlog hk' check.name candidate v now)
      fun _ => .pure fun _ h => h
  | none =>
    cases run.answer with
    | error _ => exact hstop _
    | ok v =>
      dsimp only [id]
      split
      · exact hstop _
      split
      · refine then_carries e₀ (Q := id) (persist_carries hJ hlog (hk'.edit (by rfl)) _ now)
          fun e'' hk'' => ?_
        refine .bind (recordGateInfraAttempt_carries hJ e'' candidate check 1 v false) ?_
        exact fun _ => settleRetry_carries hJ hlog hk'' candidate check retry now
      · exact hstop _

theorem gateLoop_carries (env : GateEnv) (candidate : String) (plan : List Check)
    (taken : List String) (i : Nat) :
    Triple J J (gateLoop mint env candidate i plan taken e) (fun p d => J d ∧ Kin e₀ p.1) := by
  induction plan generalizing i e taken with
  | nil => exact .pure fun d hd => ⟨hd, hk⟩
  | cons check plan ih =>
    refine then_carries e₀ (Q := Prod.fst) ?_ fun p hk' => ?_
    · unfold gateCheck
      split
      · exact resumeRetry_carries hJ hlog hk candidate check _ _
      split
      · exact .pure fun d hd => ⟨hd, hk⟩
      · exact freshCheck_carries hJ hlog hk candidate check _ _ _
    · cases hp : p.2 with
      | some o =>
        simp only [hp]
        exact .pure fun d hd => ⟨hd, hk'⟩
      | none =>
        simp only [hp]
        exact ih hk' _ (i + 1)

theorem executeGatePlanAt_carries (env : GateEnv) (plan : List Check) (candidate : String) :
    Triple J J (executeGatePlanAt mint env plan candidate e) (fun p d => J d ∧ Kin e₀ p.1) := by
  refine then_carries e₀ (Q := id) ?_ fun e' hk' => ?_
  · unfold openAdmission
    split
    · exact persist_carries hJ hlog (hk.edit (by rfl)) _ _
    · exact .pure fun d hd => ⟨hd, hk⟩
  · refine then_carries e₀ (Q := Prod.fst)
      (gateLoop_carries hJ hlog hk' env candidate plan [] 0) fun p hk'' => ?_
    refine .bind (note_carries hJ fun d => ?_) fun _ => .pure fun d hd => ⟨hd, hk''⟩
    exact ⟨rfl, rfl, rfl, rfl, rfl, rfl, rfl, List.Subset.refl _, Nat.le_refl _⟩

end

def markerOf (e : LandingQueueEntry) (word : String) (targetHead : Option String) (id : RecordId) :
    Processed :=
  { id, repoName := e.repoName, branch := e.branch, target := e.target, targetHead
    headSha := e.headSha, task := e.task, outcome := word, admissionHold := e.admissionHold
    admissionRecovery := e.admissionRecovery }

/-- Whether `process_entry` puts the entry in quarantine from here. -/
def Daemon.quarantines (d : Daemon) (env : EntryEnv) (e : LandingQueueEntry) : Bool :=
  (d.findQuarantine e).isSome || d.tainted e || env.invalidSource.isSome ||
    (env.targetMissing && match d.admissionMarker e env.targetHead with
      | .ok none => true
      | _ => false)

/-- What `K` has to hold of, so that it holds of whatever the entry `e₀` ends with. -/
structure Accounts (mint : Nat → RecordId) (J : Daemon → Prop)
    (L : LandingQueueEntry → Daemon → Prop) (K : LandingOutcome → Daemon → Prop)
    (e₀ : LandingQueueEntry) : Prop extends Carries mint J L where
  known : ∀ d, J d → L e₀ d
  mark : ∀ d e o word tip, J d → Kin e₀ e → o.recorded = some word →
    J (d.addProcessed mint (markerOf e word tip)) ∧ K o (d.addProcessed mint (markerOf e word tip))
  reconcile : ∀ d tip m, J d → d.admissionMarker e₀ tip = .ok (some m) → K (.reconciled m.outcome) d
  requeue : ∀ e now, Kin e₀ e → e₀.admissionRecovery = none →
    Triple J J (requeueTail mint e now) (fun n d => J d ∧ K (.requeued n) d)

section
variable {K : LandingOutcome → Daemon → Prop} {e₀ e : LandingQueueEntry} (hE : Accounts mint J L K e₀)
  (hk : Kin e₀ e) (env : EntryEnv)
include hE hk

theorem finish_accounts {o : LandingOutcome} {word : String} (ho : o.recorded = some word) :
    Triple J J (finish mint env e o) (fun o d => J d ∧ K o d) := by
  refine .bind (Q := fun _ d => J d ∧ K o d) ?_ fun _ => .pure fun _ h => h
  unfold markProcessed
  rw [ho]
  exact .write (fun d hd => (hE.mark d e o word env.targetHead hd hk ho).1)
    fun d hd => hE.mark d e o word env.targetHead hd hk ho

theorem requeueStale_accounts : Triple J J (requeueStale mint env e) (fun o d => J d ∧ K o d) := by
  unfold requeueStale
  split
  · exact finish_accounts hE hk env rfl
  next hn =>
    have he : e₀.admissionRecovery = none := by
      rw [← hk.recovery]
      simpa using hn
    exact .bind (hE.requeue e env.now hk he) fun _ => .pure fun _ h => h

theorem advanceTarget_accounts :
    Triple J J (advanceTarget mint env e) (fun o d => J d ∧ K o d) := by
  refine .bind (setStatus_carries hE.toCarries (fun d hd => hE.kin d _ _ (hE.known d hd) hk)
    .landing env.now) fun _ => ?_
  cases env.advance with
  | landed | blocked => exact finish_accounts hE hk env rfl
  | stale => exact requeueStale_accounts hE hk env

theorem dispatchReviews_carries (n : Nat) :
    Triple J J (dispatchReviews mint env e n) (fun _ d => J d) := by
  induction n with
  | zero => exact .pure fun _ h => h
  | succ n ih =>
    refine .bind (setStatus_carries hE.toCarries (fun d hd => hE.kin d _ _ (hE.known d hd) hk)
      .awaitingReview env.now) fun _ => ih

theorem routeVerdict_accounts : Triple J J (routeVerdict mint env e) (fun o d => J d ∧ K o d) := by
  unfold routeVerdict
  cases env.verdict with
  | approve => exact advanceTarget_accounts hE hk env
  | rework | escalate => exact finish_accounts hE hk env rfl

theorem landPrepared_accounts (candidate : String) :
    Triple J J (landPrepared mint env e candidate) (fun o d => J d ∧ K o d) := by
  unfold landPrepared
  cases env.plan with
  | none => exact finish_accounts hE hk env rfl
  | some plan =>
    refine then_carries e₀ (Q := Prod.fst)
      (executeGatePlanAt_carries hE.toCarries hE.known hk env.gates plan candidate) ?_
    intro ⟨e', outcome⟩ hk'
    dsimp only
    split
    · exact finish_accounts hE hk' env rfl
    split
    · exact advanceTarget_accounts hE hk' env
    · refine .bind (dispatchReviews_carries hE hk' env env.dispatches) fun _ => ?_
      exact routeVerdict_accounts hE hk' env

theorem attemptEntry_accounts : Triple J J (attemptEntry mint env e) (fun o d => J d ∧ K o d) := by
  unfold attemptEntry
  split
  · exact finish_accounts hE hk env rfl
  split
  · exact finish_accounts hE hk env rfl
  split
  · exact finish_accounts hE hk env rfl
  split
  · exact landPrepared_accounts hE hk env _
  split
  · exact finish_accounts hE hk env rfl
  · refine then_carries e₀ (Q := id)
      (persist_carries hE.toCarries hE.known (hk.edit (by rfl)) .runningGates env.now)
      fun e' hk' => ?_
    exact landPrepared_accounts hE hk' env _

omit hk in
theorem archiveQuarantine_carries (reason : String) :
    Triple J J (archiveQuarantine e reason) (fun o d => J d ∧ o = .quarantined ∧ d.Archived e) := by
  refine .bind (scanCurrent_carries hE.toCarries e.repoName (some e.target)) fun rows => ?_
  have hnote : ∀ d q, J d → J (d.addQuarantine q) := fun d q hd => hE.note d _ hd
    ⟨rfl, rfl, rfl, rfl, rfl, rfl, rfl, subset_append_left _ _, Nat.le_succ _⟩
  refine .bind (Q := fun _ d => J d ∧ d.Archived e)
    (.write (fun d hd => hnote d _ hd.1) fun d hd => ⟨hnote d _ hd.1, ?_⟩)
    fun _ => .pure fun d hd => ⟨hd.1, rfl, hd.2⟩
  exact ⟨_, mem_concat_self, rfl, rfl⟩

omit hk in
theorem archived_accounts (hq : ∀ d, J d → d.Archived e → K .quarantined d) (reason : String) :
    Triple J J (do
      let o ← archiveQuarantine e reason
      pure (some o)) (fun o d => J d ∧ ∃ x, o = some x ∧ K x d) := by
  refine .bind (archiveQuarantine_carries hE reason) fun o => .pure ?_
  intro d ⟨hd, ho, harch⟩
  refine ⟨hd, o, rfl, ?_⟩
  rw [ho]
  exact hq d hd harch

/-- A check that stops the entry accounts for it; one that lets it on has written nothing. -/
def Screened (J : Daemon → Prop) (K : LandingOutcome → Daemon → Prop) (d₀ : Daemon)
    (o : Option LandingOutcome) (d : Daemon) : Prop :=
  J d ∧ ((∃ x, o = some x ∧ K x d) ∨ (o = none ∧ d = d₀))

omit hk in
theorem quarantineInvalidSource_accounts {d₀ : Daemon} (hd₀ : J d₀)
    (hq : d₀.quarantines env e₀ = true → ∀ d, J d → d.Archived e₀ → K .quarantined d) :
    Triple J (fun d => d = d₀) (quarantineInvalidSource e₀ env.invalidSource) (Screened J K d₀) := by
  have harchive : ∀ reason, d₀.quarantines env e₀ = true → Triple J (fun d => d = d₀) (do
      let o ← archiveQuarantine e₀ reason
      pure (some o)) (Screened J K d₀) := by
    intro reason hb
    refine (archived_accounts hE (hq hb) reason).mono ?_ fun _ _ h => ⟨h.1, .inl h.2⟩
    rintro d rfl
    exact hd₀
  refine .read_from ?_
  rintro t rfl
  cases hf : t.findQuarantine e₀ with
  | some q =>
    refine .pure ?_
    rintro d rfl
    exact ⟨hd₀, .inl ⟨.quarantined, rfl, hq (by simp [Daemon.quarantines, hf]) d hd₀
      (archived_of_findQuarantine hf)⟩⟩
  | none =>
    dsimp only
    split
    next ht => exact harchive _ (by simp [Daemon.quarantines, ht])
    next ht =>
      cases hi : env.invalidSource with
      | some reason => exact harchive reason (by simp [Daemon.quarantines, hi])
      | none =>
        refine .pure ?_
        rintro d rfl
        exact ⟨hd₀, .inr ⟨rfl, rfl⟩⟩

omit hk in
theorem quarantineInvalidTarget_accounts {d₀ : Daemon} (hd₀ : J d₀)
    (hm : d₀.admissionMarker e₀ env.targetHead = .ok none)
    (hq : d₀.quarantines env e₀ = true → ∀ d, J d → d.Archived e₀ → K .quarantined d) :
    Triple J (fun d => d = d₀) (quarantineInvalidTarget e₀ env.targetMissing) (Screened J K d₀) := by
  refine .read_from ?_
  rintro t rfl
  cases hf : t.findQuarantine e₀ with
  | some q =>
    refine .pure ?_
    rintro d rfl
    exact ⟨hd₀, .inl ⟨.quarantined, rfl, hq (by simp [Daemon.quarantines, hf]) d hd₀
      (archived_of_findQuarantine hf)⟩⟩
  | none =>
    dsimp only
    split
    next hmiss =>
      have hb : t.quarantines env e₀ = true := by simp [Daemon.quarantines, hmiss, hm]
      refine (archived_accounts hE (hq hb) _).mono ?_ fun _ _ h => ⟨h.1, .inl h.2⟩
      rintro d rfl
      exact hd₀
    · refine .pure ?_
      rintro d rfl
      exact ⟨hd₀, .inr ⟨rfl, rfl⟩⟩

omit hk in
/-- However `process_entry` ends, `K` accounts for it, if it does for a quarantine where
there is one. -/
theorem processEntry_accounts {d₀ : Daemon} (hd₀ : J d₀)
    (hq : d₀.quarantines env e₀ = true → ∀ d, J d → d.Archived e₀ → K .quarantined d) :
    Triple J (fun d => d = d₀) (processEntry mint env e₀) (fun o d => J d ∧ K o d) := by
  refine .bind (quarantineInvalidSource_accounts hE env hd₀ hq) fun o => ?_
  cases o with
  | some o =>
    refine .pure fun d hd => ?_
    rcases hd.2 with ⟨x, hx, hK⟩ | ⟨hx, -⟩
    · cases hx
      exact ⟨hd.1, hK⟩
    · cases hx
  | none =>
    refine .bind (Q := fun s d => s = d₀ ∧ d = d₀) (.read ?_) fun s => ?_
    · rintro d ⟨-, ⟨x, hx, -⟩ | ⟨-, rfl⟩⟩
      · cases hx
      · exact ⟨rfl, rfl⟩
    refine .of_start ?_
    rintro t ⟨rfl, rfl⟩
    cases hm : t.admissionMarker e₀ env.targetHead with
    | error _ => exact .fail
    | ok o =>
      cases o with
      | some marker =>
        refine .pure ?_
        rintro d rfl
        exact ⟨hd₀, hE.reconcile d env.targetHead marker hd₀ hm⟩
      | none =>
        refine .bind (quarantineInvalidTarget_accounts hE env hd₀ hm hq) fun o => ?_
        cases o with
        | some o =>
          refine .pure fun d hd => ?_
          rcases hd.2 with ⟨x, hx, hK⟩ | ⟨hx, -⟩
          · cases hx
            exact ⟨hd.1, hK⟩
          · cases hx
        | none => exact (attemptEntry_accounts hE (.refl e₀) env).mono (fun _ h => h.1) fun _ _ h => h

end

end

end RatKingdom.Landing
