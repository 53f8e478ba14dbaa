/-
Gate runs of one repository, from claim to removal, with every crash and failed call.

The consumer claims a key only when it holds nothing of it, and an error ends its work on
that key.  Over all such runs the retry budget is spent once and its evidence recorded
once.  That a lost retry is never followed by a pass does not hold of all of them: the
marker is cleared before the verdict is terminal, and a run that starts in between reads
neither.
-/
import Mathlib.Data.List.Perm.Basic
import RatKingdom.Landing.Gates

namespace RatKingdom.Landing

open Lib Core List Function Option Consumer LandingQueueEntry

/-- `k` is the position of an entry among those the consumer holds. -/
inductive Work where
  | arrive (entry : LandingQueueEntry) (now : DateTime)
  | claimNext (target : String) (now : DateTime)
  | claimBatch (target : String) (max : Nat) (now : DateTime)
  | stage (k : Nat) (candidate : Option PreparedMerge) (branches : List String) (now : DateTime)
  | gates (k : Nat) (env : GateEnv) (plan : List Check) (candidate : String)
  | process (k : Nat) (env : EntryEnv)
  | land (k : Nat) (env : EntryEnv)
  | conclude (k : Nat) (env : EntryEnv) (ending : Ending)

structure WorkLabel where
  work : Work
  interrupted : Option Interruption := none

/-- A call from `s`: the entries held after it returns, and after it fails. -/
def Consumer.call {α : Type} (s : Consumer) (m : Op α) (next : α → List LandingQueueEntry)
    (left : List LandingQueueEntry) : Option Interruption → Option Consumer
  | none =>
    match (m s.daemon).2 with
    | .ok a => some ⟨m.final s.daemon, next a⟩
    | .error _ => some ⟨m.final s.daemon, left⟩
  | some (.crash k) => (m.crash s.daemon k).map fun d => ⟨d.restart, []⟩
  | some (.fault k) => (m.crash s.daemon k).map fun d => ⟨d, left⟩

def Consumer.elsewhere (s : Consumer) (target : String) : List LandingQueueEntry :=
  s.held.filter fun e => e.target ≠ target

/-- `process_batch` and `bisect_batch` before they persist a member. -/
def LandingQueueEntry.staged (e : LandingQueueEntry) (candidate : Option PreparedMerge)
    (branches : List String) : LandingQueueEntry :=
  { e with
    candidateSha := candidate.map PreparedMerge.commit
    candidateBase := candidate.map PreparedMerge.base
    candidateRef := candidate.map PreparedMerge.candidateRef
    batchBranches := branches }

def thenRemove (m : Op LandingOutcome) (e : LandingQueueEntry) : Op LandingOutcome := do
  let outcome ← m
  remove e
  pure outcome

section
variable (mint : Nat → RecordId) (repo : String)

/-- Submissions build their entry with no budget spent, and an admission recovery refuses
one whose budget is. -/
def Consumer.work (s : Consumer) (l : WorkLabel) : Option Consumer :=
  match l.work with
  | .arrive e now =>
    if e.repoName = repo ∧ Fresh e then
      s.call (enqueue mint e now) (fun _ => s.held) s.held l.interrupted
    else none
  | .claimNext target now =>
    if ∀ e ∈ s.held, e.target ≠ target then
      s.call (Landing.claimNext mint repo target now) (fun o => s.held ++ o.toList) s.held
        l.interrupted
    else none
  | .claimBatch target max now =>
    if ∀ e ∈ s.held, e.target ≠ target then
      s.call (Landing.claimBatch mint repo target max now) (fun es => s.held ++ es) s.held
        l.interrupted
    else none
  | .stage k candidate branches now => do
    let e ← s.held[k]?
    s.call (persist mint (e.staged candidate branches) .runningGates now)
      (fun p => s.held.set k p) (s.elsewhere e.target) l.interrupted
  | .gates k env plan candidate => do
    let e ← s.held[k]?
    s.call (executeGatePlanAt mint env plan candidate e) (fun x => s.held.set k x.1)
      (s.elsewhere e.target) l.interrupted
  | .process k env => do
    let e ← s.held[k]?
    s.call (thenRemove (processEntry mint env e) e) (fun _ => s.held.eraseIdx k)
      (s.elsewhere e.target) l.interrupted
  | .land k env => do
    let e ← s.held[k]?
    s.call (thenRemove (advanceTarget mint env e) e) (fun _ => s.held.eraseIdx k)
      (s.elsewhere e.target) l.interrupted
  | .conclude k env ending => do
    let e ← s.held[k]?
    s.call (thenRemove (Landing.conclude mint env e ending) e) (fun _ => s.held.eraseIdx k)
      (s.elsewhere e.target) l.interrupted

end

structure Working (H : Prop) (mint : Nat → RecordId) (repo : String) (s : Consumer) : Prop where
  guarded : Guarded H mint repo s.held s.daemon
  apart : (s.held.map seq).Nodup

section
variable {H : Prop} {mint : Nat → RecordId} {repo : String} {s s' : Consumer} {d : Daemon}
  {os : List LandingQueueEntry}

theorem Guarded.restart (h : Guarded H mint repo os d) : Guarded H mint repo [] d.restart :=
  ⟨h.metered.record rfl rfl rfl rfl rfl (nofun) (Nat.le_refl _), fun _ he => (not_mem_nil he).elim⟩

/-- A call whose triple ends in the entries it hands back keeps `Working` however it is
interrupted. -/
theorem call_working {α : Type} {m : Op α} {next : α → List LandingQueueEntry}
    {left : List LandingQueueEntry} {i : Option Interruption} (hs : Working H mint repo s)
    (hsub : left.Sublist s.held)
    (hm : Triple (Guarded H mint repo left) (fun x => x = s.daemon) m
      (fun a x => Working H mint repo ⟨x, next a⟩))
    (h : s.call m next left i = some s') : Working H mint repo s' := by
  have hleft : Guarded H mint repo left s.daemon := hs.guarded.subset hsub.subset
  have hnd : (left.map seq).Nodup := hs.apart.sublist (hsub.map _)
  have hpre : ∀ x, x = s.daemon → Guarded H mint repo left x := by
    rintro x rfl
    exact hleft
  unfold call at h
  cases i with
  | none =>
    cases ho : (m s.daemon).2 with
    | ok a =>
      simp only [ho, some.injEq] at h
      subst h
      exact (hm s.daemon rfl).2 a ho
    | error e =>
      simp only [ho, some.injEq] at h
      subst h
      exact ⟨hm.final hpre rfl, hnd⟩
  | some i =>
    cases i with
    | crash k =>
      obtain ⟨d, hd, rfl⟩ := map_eq_some_iff.mp h
      exact ⟨(hm.crash hpre rfl hd).restart, nodup_nil⟩
    | fault k =>
      obtain ⟨d, hd, rfl⟩ := map_eq_some_iff.mp h
      exact ⟨hm.crash hpre rfl hd, hnd⟩

variable {e : LandingQueueEntry}

theorem Working.split (hs : Working H mint repo s) {k : Nat} (hk : s.held[k]? = some e) :
    Guarded H mint repo (e :: s.held.eraseIdx k) s.daemon ∧ Apart (s.held.eraseIdx k) e ∧
      ∀ p, Same e p → ∀ d, Guarded H mint repo (p :: s.held.eraseIdx k) d →
        Working H mint repo ⟨d, s.held.set k p⟩ := by
  obtain ⟨hlt, rfl⟩ := List.getElem?_eq_some_iff.mp hk
  have hperm := getElem_cons_eraseIdx_perm hlt
  have hnd : ((s.held[k] :: s.held.eraseIdx k).map seq).Nodup :=
    (hperm.map _).nodup_iff.mpr hs.apart
  rw [map_cons, nodup_cons] at hnd
  refine ⟨hs.guarded.subset hperm.subset, ?_, ?_⟩
  · intro o ho he
    exact hnd.1 (he ▸ mem_map_of_mem ho)
  · intro p hp d hd
    have hset := set_perm_cons_eraseIdx hlt p
    refine ⟨hd.subset hset.subset, ?_⟩
    rw [(hset.map _).nodup_iff, map_cons, nodup_cons, hp.seq]
    exact hnd

theorem Working.drop (hs : Working H mint repo s) (k : Nat)
    (hd : Guarded H mint repo (s.held.eraseIdx k) d) :
    Working H mint repo ⟨d, s.held.eraseIdx k⟩ :=
  ⟨hd, hs.apart.sublist ((eraseIdx_sublist _ _).map _)⟩

theorem Consumer.elsewhere_subset {k : Nat} (hk : s.held[k]? = some e) :
    s.elsewhere e.target ⊆ s.held.eraseIdx k := by
  intro x hx
  obtain ⟨hm, hne⟩ := mem_filter.mp hx
  obtain ⟨hlt, rfl⟩ := List.getElem?_eq_some_iff.mp hk
  rcases mem_cons.mp ((getElem_cons_eraseIdx_perm hlt).symm.subset hm) with rfl | hm
  · simp at hne
  · exact hm

variable {target : String}

theorem Guarded.unclaimed (h : Guarded H mint repo os d) (hfree : ∀ e ∈ os, e.target ≠ target)
    {rows : List Row} (hrows : Scanned repo (some target) rows d) {row : Row} (hrow : row ∈ rows) :
    ∀ o ∈ os, o.seq ≠ row.seq := by
  intro o ho he
  obtain ⟨r, hr, rfl⟩ := h.owned o ho
  obtain ⟨hm, -, ht⟩ := mem_pending.mp (hrows.sub row hrow)
  have htarget : row.entry.target = target := by
    rcases ht with ht | ht
    · cases ht
    · exact (some.inj ht).symm
  have heq := h.metered.sane.targets r (h.metered.sane.logged hr.1) row
    (h.metered.sane.logged hm) he
  exact hfree r.entry ho (heq.trans htarget)

theorem Working.claim (hs : Working H mint repo s) {es : List LandingQueueEntry} {rows : List Row}
    (hd : Guarded H mint repo (es ++ s.held) d) (hes : es.map seq = rows.map Row.seq)
    (hnd : (rows.map Row.seq).Nodup) (hrows : ∀ row ∈ rows, ∀ o ∈ s.held, o.seq ≠ row.seq) :
    Working H mint repo ⟨d, s.held ++ es⟩ := by
  refine ⟨hd.subset perm_append_comm.subset, ?_⟩
  show ((s.held ++ es).map seq).Nodup
  rw [map_append, hes, nodup_append]
  refine ⟨hs.apart, hnd, ?_⟩
  intro a ha b hb
  obtain ⟨o, ho, rfl⟩ := mem_map.mp ha
  obtain ⟨row, hrow, rfl⟩ := mem_map.mp hb
  exact hrows row hrow o ho

section
variable (hmint : Injective mint) (hs : Working H mint repo s)
  (hfree : ∀ e ∈ s.held, e.target ≠ target)
include hmint hs hfree

theorem claimBatch_working (max : Nat) (now : DateTime) :
    Triple (Guarded H mint repo s.held) (fun x => x = s.daemon)
      (claimBatch mint repo target max now) (fun es x =>
        Working H mint repo ⟨x, s.held ++ es⟩) := by
  have hstart : ∀ x, x = s.daemon → Guarded H mint repo s.held x := by
    rintro x rfl
    exact hs.guarded
  refine .bind ((scanCurrent_guarded repo (some target)).mono hstart fun _ _ h => h) fun rows => ?_
  refine .of_start ?_
  rintro d ⟨hd, hrows⟩
  have hsub : ∀ r ∈ (claimOrder rows).take max, r ∈ rows :=
    fun r hr => mem_claimOrder.mp (mem_of_mem_take hr)
  have hnd : (((claimOrder rows).take max).map Row.seq).Nodup :=
    (((claimOrder_perm rows).map Row.seq).nodup_iff.mpr hrows.seqs).sublist
      ((take_sublist _ _).map _)
  have hapart : ∀ row ∈ (claimOrder rows).take max, ∀ o ∈ s.held, o.seq ≠ row.seq :=
    fun row hrow => hd.unclaimed hfree hrows (hsub row hrow)
  refine (claimRows_guarded hmint now _ hnd hapart).mono ?_ ?_
  · rintro x rfl
    exact ⟨hd, fun r hr => hrows.sole hd.metered.sane (hsub r hr)⟩
  · rintro es x ⟨hx, hes⟩
    exact hs.claim hx hes hnd hapart

theorem claimNext_working (now : DateTime) :
    Triple (Guarded H mint repo s.held) (fun x => x = s.daemon)
      (claimNext mint repo target now) (fun o x =>
        Working H mint repo ⟨x, s.held ++ o.toList⟩) := by
  have hstart : ∀ x, x = s.daemon → Guarded H mint repo s.held x := by
    rintro x rfl
    exact hs.guarded
  refine .bind ((scanCurrent_guarded repo (some target)).mono hstart fun _ _ h => h) fun rows => ?_
  refine .of_start ?_
  rintro d ⟨hd, hrows⟩
  cases hh : (claimOrder rows).head? with
  | none =>
    refine .pure ?_
    rintro x rfl
    refine ⟨?_, ?_⟩
    · rw [toList_none, append_nil]
      exact hd
    · rw [toList_none, append_nil]
      exact hs.apart
  | some row =>
    have hm : row ∈ rows := mem_claimOrder.mp (mem_of_mem_head? hh)
    have hapart := hd.unclaimed hfree hrows hm
    refine .bind (claimRow_tended hmint now hd (hrows.sole hd.metered.sane hm) hapart)
      fun e => .pure ?_
    rintro x ⟨⟨hx, -⟩, rfl⟩
    have hseq : [row.entry.claimed now].map seq = [row].map Row.seq := by
      simp [Row.seq]
    refine hs.claim hx.toGuarded hseq (nodup_singleton _) fun r hr => ?_
    rw [mem_singleton.mp hr]
    exact hapart

end

theorem conclude_ends (hmint : Injective mint) (hr : e.repoName = repo) (env : EntryEnv)
    (ending : Ending) :
    Ends H mint repo os e (conclude mint env e ending) := by
  cases ending with
  | mark o => exact finish_ends env o
  | quarantine reason => exact archiveQuarantine_ends reason
  | stale => exact requeueStale_ends hmint hr env

/-- A gate run starts with every lost retry of its candidate still marked on the entry and
in its plan. -/
def Protected (repo : String) (s : Consumer) (l : WorkLabel) : Prop :=
  match l.work with
  | .gates k _ plan candidate =>
    ∀ e ∈ s.held[k]?, Owed repo s.daemon.attempts e candidate (plan.map Check.name)
  | .process k env =>
    ∀ e ∈ s.held[k]?, ∀ x ∈ s.daemon.gated env e,
      Owed repo s.daemon.attempts e x.1 (x.2.map Check.name)
  | _ => True

instance (repo : String) (as : List GateAttempt) (e : LandingQueueEntry) (candidate : String)
    (names : List String) : Decidable (Owed repo as e candidate names) :=
  inferInstanceAs (Decidable (∀ _ ∈ _, _))

instance (repo : String) (s : Consumer) : ∀ l : WorkLabel, Decidable (Protected repo s l)
  | ⟨.gates k _ plan candidate, _⟩ => inferInstanceAs (Decidable (∀ _ ∈ _, _))
  | ⟨.process k env, _⟩ => inferInstanceAs (Decidable (∀ _ ∈ _, _))
  | ⟨.arrive _ _, _⟩ | ⟨.claimNext _ _, _⟩ | ⟨.claimBatch _ _ _, _⟩ | ⟨.stage _ _ _ _, _⟩
  | ⟨.land _ _, _⟩ | ⟨.conclude _ _ _, _⟩ => inferInstanceAs (Decidable True)

theorem work_working (hmint : Injective mint) {l : WorkLabel} (hs : Working H mint repo s)
    (hg : H → Protected repo s l) (h : s.work mint repo l = some s') : Working H mint repo s' := by
  obtain ⟨op, i⟩ := l
  have hend : ∀ {k : Nat} {e : LandingQueueEntry} {m : Op LandingOutcome}, s.held[k]? = some e →
      Triple (Guarded H mint repo (s.held.eraseIdx k)) (fun x => x = s.daemon) m
        (fun _ x => Guarded H mint repo (s.held.eraseIdx k) x) →
      s.call (thenRemove m e) (fun _ => s.held.eraseIdx k) (s.elsewhere e.target) i = some s' →
      Working H mint repo s' := by
    intro k e m hk hm h
    obtain ⟨hd, hapart, -⟩ := hs.split hk
    refine call_working hs filter_sublist ?_ h
    refine (Triple.bind hm fun _ => Triple.bind (remove_guarded (hd.scope mem_cons_self)
      hapart) fun _ => Triple.pure fun x hx => hs.drop k hx).crash_mono ?_
    exact fun _ hx => hx.subset (elsewhere_subset hk)
  cases op with
  | arrive e now =>
    by_cases hc : e.repoName = repo ∧ Fresh e
    · simp only [work, if_pos hc] at h
      refine call_working hs (List.Sublist.refl _) ?_ h
      refine (enqueue_guarded hmint hc.1 hc.2 now).mono ?_ fun _ _ hx => ⟨hx, hs.apart⟩
      rintro x rfl
      exact hs.guarded
    · simp [work, if_neg hc] at h
  | claimNext target now =>
    by_cases hc : ∀ e ∈ s.held, e.target ≠ target
    · simp only [work, if_pos hc] at h
      exact call_working hs (List.Sublist.refl _) (claimNext_working hmint hs hc now) h
    · simp only [work, if_neg hc] at h
      cases h
  | claimBatch target max now =>
    by_cases hc : ∀ e ∈ s.held, e.target ≠ target
    · simp only [work, if_pos hc] at h
      exact call_working hs (List.Sublist.refl _) (claimBatch_working hmint hs hc max now) h
    · simp only [work, if_neg hc] at h
      cases h
  | stage k candidate branches now =>
    obtain ⟨e, hk, h⟩ := bind_eq_some_iff.mp h
    obtain ⟨hd, hapart, hset⟩ := hs.split hk
    refine call_working hs filter_sublist ?_ h
    have hedit : Alike e (e.staged candidate branches) := .edit
    have hstart : ∀ x, x = s.daemon →
        Tended H mint repo (e :: s.held.eraseIdx k) s.daemon.attempts x := by
      rintro x rfl
      exact ⟨hd, rfl⟩
    refine ((persist_alike hmint hapart hedit .runningGates now).crash_mono
      fun _ hx => hx.subset (elsewhere_subset hk)).mono hstart ?_
    · rintro p x ⟨hx, hp⟩
      exact hset p hp.toSame x hx.toGuarded
  | gates k env plan candidate =>
    obtain ⟨e, hk, h⟩ := bind_eq_some_iff.mp h
    obtain ⟨hd, hapart, hset⟩ := hs.split hk
    refine call_working hs filter_sublist ?_ h
    have howed : H → Owed repo s.daemon.attempts e candidate (plan.map Check.name) :=
      fun hH => hg hH e hk
    refine ((executeGatePlanAt_tended hmint candidate hapart env plan howed).crash_mono
      fun _ hx => hx.subset (elsewhere_subset hk)).mono ?_ ?_
    · rintro x rfl
      exact ⟨hd, rfl⟩
    · rintro p x ⟨hx, hp⟩
      exact hset p.1 hp x hx
  | process k env =>
    obtain ⟨e, hk, h⟩ := bind_eq_some_iff.mp h
    obtain ⟨hd, hapart, -⟩ := hs.split hk
    exact hend hk (processEntry_ends hmint hd hapart env fun hH => hg hH e hk) h
  | land k env =>
    obtain ⟨e, hk, h⟩ := bind_eq_some_iff.mp h
    obtain ⟨hd, hapart, -⟩ := hs.split hk
    refine hend hk ((advanceTarget_ends hmint (hd.scope mem_cons_self) hapart env).mono ?_
      fun _ _ hx => hx) h
    rintro x rfl
    exact hd.copied
  | conclude k env ending =>
    obtain ⟨e, hk, h⟩ := bind_eq_some_iff.mp h
    obtain ⟨hd, hapart, -⟩ := hs.split hk
    refine hend hk ((conclude_ends hmint (hd.scope mem_cons_self) env ending).mono ?_
      fun _ _ hx => hx) h
    rintro x rfl
    exact hd.copied

theorem working_fresh : Working H mint repo {} := by
  have hgood : Good mint repo {} := good_fresh
  refine ⟨⟨?_, by simp⟩, by simp⟩
  constructor
  case sane => exact hgood.sane
  all_goals simp

def spends : List Bool → Nat
  | [] => 0
  | b :: bs => (if b = false ∧ bs.head? = some true then 1 else 0) + spends bs

theorem spends_of_all {bs : List Bool} (h : ∀ b ∈ bs, b = true) : spends bs = 0 := by
  induction bs with
  | nil => rfl
  | cons b bs ih =>
    have hb : b = true := h b mem_cons_self
    simp [spends, hb, ih fun x hx => h x (mem_cons_of_mem _ hx)]

theorem spends_le_one {bs : List Bool} (h : bs.Pairwise fun a b => a = true → b = true) :
    spends bs ≤ 1 := by
  induction bs with
  | nil => exact Nat.zero_le _
  | cons b bs ih =>
    obtain ⟨hb, hbs⟩ := pairwise_cons.mp h
    have ih := ih hbs
    rw [spends]
    split
    · rename_i hflip
      cases bs with
      | nil => simp at hflip
      | cons c cs =>
        have hc : c = true := by simpa using hflip.2
        have hcs := (pairwise_cons.mp hbs).1
        have hall : spends (c :: cs) = 0 := by
          refine spends_of_all fun x hx => ?_
          rcases mem_cons.mp hx with rfl | hx
          · exact hc
          · exact hcs x hx hc
        omega
    · omega

/-- The budget flags of the rows written under `seq`, oldest first. -/
def Daemon.flags (d : Daemon) (repo : String) (seq : Nat) : List Bool :=
  (d.log.filter fun r => r.entry.repoName = repo ∧ r.seq = seq).map Row.used

/-- Each attempt of a check is recorded once for a queue generation and candidate, a
budget is spent once, and a retry taken up has both attempts when its run returns. -/
def RetryBudget (repo : String) (s : Consumer) : Prop :=
  (∀ seq candidate check n,
    s.daemon.attempts.countP (fun a => a.records repo seq candidate check n) ≤ 1) ∧
  (∀ seq, spends (s.daemon.flags repo seq) ≤ 1) ∧
  ∀ g ∈ s.daemon.gateRuns, g.Complete

theorem Metered.retryBudget (h : Metered H mint repo d) (held : List LandingQueueEntry) :
    RetryBudget repo ⟨d, held⟩ := by
  refine ⟨fun seq candidate check n => ?_, fun seq => ?_, h.complete⟩
  · have hcount := nodup_iff_count_le_one.mp h.distinct (repo, seq, candidate, check, n)
    rw [List.count, countP_map] at hcount
    refine Nat.le_trans (Nat.le_of_eq (countP_congr fun a _ => ?_)) hcount
    simp [GateAttempt.records_iff]
  · refine spends_le_one (pairwise_map.mpr ?_)
    have hsub := h.once.sublist (filter_sublist
      (p := fun r => decide (r.entry.repoName = repo ∧ r.seq = seq)))
    refine hsub.imp_of_mem fun {a b} ha hb hab => hab ?_
    have ha' := (of_decide_eq_true (mem_filter.mp ha).2).2
    have hb' := (of_decide_eq_true (mem_filter.mp hb).2).2
    exact ha'.trans hb'.symm

/-- Whatever the checks answer and wherever a run is cut, no attempt is recorded twice, no
budget spent twice, and no retry taken up returns half recorded. -/
theorem retry_budget_kept (hmint : Injective mint) (repo : String) (ls : List WorkLabel) :
    Keeps (work mint repo) (RetryBudget repo) {} ls := by
  have hstep : ∀ s l s', Working False mint repo s → work mint repo s l = some s' →
      True → Working False mint repo s' :=
    fun _ _ _ hs h _ => work_working hmint hs False.elim h
  have hkeeps : Keeps (work mint repo) (Working False mint repo) {} ls :=
    keeps_of_meets hstep working_fresh (meets_of_forall (fun _ _ => trivial) _)
  exact hkeeps.mono fun s hs => hs.guarded.metered.retryBudget s.held

def verify : Check := ⟨"verify", "just verify"⟩

def answered (verdict : String) : CheckRun := ⟨⟨0, none⟩, ⟨0, none⟩, 0, 0, .ok { verdict }⟩

def verified (first retry : String) : EntryEnv :=
  { noPlan with
    plan := some [verify]
    advance := .landed
    gates := ⟨0, 10, ⟨0, none⟩, fun _ => false, fun _ => answered first, fun _ => answered retry⟩ }

/-- The process dies between the write that spends the budget and the delete of the row
before it; the next one takes the retry up. -/
def cutSpend : List WorkLabel :=
  [ { work := .arrive candidate 1 },
    { work := .claimNext "main" 2 },
    { work := .process 0 (verified "infra" "pass"), interrupted := some (.crash 9) },
    { work := .claimNext "main" 3 },
    { work := .process 0 (verified "infra" "pass") } ]

theorem retry_budget_kept_cutSpend :
    ((run (work id "rk") {} cutSpend).map fun s =>
      (s.daemon.attempts.map fun a => (a.ordinal, a.verdict, a.reconstructed),
        s.daemon.gateRuns.map fun g => (g.resumed, g.outcome))) =
      some ([(1, "infra", true), (2, "pass", false)], [(["verify"], .pass)]) ∧
    Keeps (work id "rk") (RetryBudget "rk") {} cutSpend :=
  ⟨by decide +kernel, retry_budget_kept Function.injective_id "rk" cutSpend⟩

/-- No gate run passes over a lost retry of its own generation and candidate. -/
def StaysLost (s : Consumer) : Prop := ∀ g ∈ s.daemon.gateRuns, g.Honest
deriving Decidable

/-- A lost retry stays lost along every run whose gate runs all start with their lost
retries still marked. -/
theorem lost_retry_stays_lost (hmint : Injective mint) (repo : String)
    (ls : List WorkLabel) (h : Meets (work mint repo) (Protected repo) {} ls) :
    Keeps (work mint repo) StaysLost {} ls := by
  have hstep : ∀ s l s', Working True mint repo s → work mint repo s l = some s' →
      Protected repo s l → Working True mint repo s' :=
    fun _ _ _ hs h hg => work_working hmint hs (fun _ => hg) h
  have hkeeps : Keeps (work mint repo) (Working True mint repo) {} ls :=
    keeps_of_meets hstep working_fresh h
  exact hkeeps.mono fun _ hs => hs.guarded.metered.honest trivial

/-- Claim, spend the budget and lose the retry; the process dies after `k` writes.  The
next run of the same entry passes. -/
def cutLoss (k : Nat) : List WorkLabel :=
  [ { work := .arrive candidate 1 },
    { work := .claimNext "main" 2 },
    { work := .process 0 (verified "infra" "fail"), interrupted := some (.crash k) },
    { work := .claimNext "main" 3 },
    { work := .process 0 (verified "pass" "pass") } ]

/-- Between the evidence and the clearing of the marker the loss is found again. -/
theorem lost_retry_stays_lost_cutLoss :
    ((run (work id "rk") {} (cutLoss 16)).map fun s =>
      (s.daemon.gateRuns.map fun g => g.outcome, s.daemon.processed.map Processed.outcome)) =
      some ([.infraRetryExhausted], ["gate-held"]) ∧
    Keeps (work id "rk") StaysLost {} (cutLoss 16) :=
  ⟨by decide +kernel, lost_retry_stays_lost Function.injective_id "rk" (cutLoss 16)
    (by decide +kernel)⟩

/-- Once the marker is cleared, nothing says so: the same candidate runs its check again
and lands. -/
theorem lost_retry_passes_again :
    ((run (work id "rk") {} (cutLoss 18)).map fun s =>
      (s.daemon.attempts.map fun a => (a.ordinal, a.verdict),
        s.daemon.gateRuns.map fun g => g.outcome, s.daemon.processed.map Processed.outcome)) =
      some ([(1, "infra"), (2, "fail")], [.pass], ["landed"]) ∧
    ¬ Keeps (work id "rk") StaysLost {} (cutLoss 18) :=
  ⟨by decide +kernel, not_keeps_of_run (by decide +kernel)⟩

end

end RatKingdom.Landing
