/-
Healing and the newest state of an entry.

A single consumer claims entries of one repository and moves them along with
`set_status` and `persist`.  A crash between the write and the delete of a transition
leaves two rows under one sequence number, and the next scan keeps the one with the
higher revision.  That is the row written last exactly as long as every successor is
built with a revision above that of the row it replaces, which `set_status` does not
ensure: the caller's entry keeps its old revision.
-/
import RatKingdom.Landing.Retain

namespace RatKingdom.Landing

open Lib Core List Function

inductive Transition where
  | enqueue (entry : LandingQueueEntry) (now : DateTime)
  | claimNext (target : String) (now : DateTime)
  | claimBatch (target : String) (max : Nat) (now : DateTime)
  | setStatus (k : Nat) (status : LandingEntryStatus) (now : DateTime)
  | persist (k : Nat) (patch : Patch) (status : LandingEntryStatus) (now : DateTime)

/-- `cut = some j`: the process dies between the write and the delete of the `j`-th row
the call replaces. -/
structure CutLabel where
  transition : Transition
  cut : Option Nat := none

structure Consumer where
  daemon : Daemon := {}
  held : List LandingQueueEntry := []

open Consumer

/-- A call that fails is no transition. -/
def Consumer.exec {α : Type} (s : Consumer) (m : Op α) (next : α → List LandingQueueEntry) :
    Option Nat → Option Consumer
  | none =>
    match (m s.daemon).2 with
    | .ok a => some ⟨m.final s.daemon, next a⟩
    | .error _ => none
  | some j =>
    ((m s.daemon).1.find? fun d => d.log.length = s.daemon.log.length + (j + 1)).map
      fun d => ⟨d.restart, []⟩

section
variable (mint : Nat → RecordId) (repo : String)

def Consumer.step (s : Consumer) (l : CutLabel) : Option Consumer :=
  match l.transition with
  | .enqueue e now =>
    if e.repoName = repo then s.exec (Landing.enqueue mint e now) (fun _ => s.held) none else none
  | .claimNext target now =>
    s.exec (Landing.claimNext mint repo target now) (fun o => s.held ++ o.toList) l.cut
  | .claimBatch target max now =>
    s.exec (Landing.claimBatch mint repo target max now) (fun es => s.held ++ es) l.cut
  | .setStatus k status now => do
    let e ← s.held[k]?
    s.exec (Landing.setStatus mint e status now) (fun _ => s.held) l.cut
  | .persist k patch status now => do
    let e ← s.held[k]?
    s.exec (Landing.persist mint (patch.apply e) status now) (fun e' => s.held.set k e') l.cut

end

/-- The rows a scan of the whole repository leaves under `seq`. -/
def Daemon.scanned (d : Daemon) (repo : String) (seq : Nat) : List Row :=
  ((scanCurrent repo none).final d).rows.filter fun r => r.entry.repoName = repo ∧ r.seq = seq

def Daemon.lastWritten (d : Daemon) (repo : String) (seq : Nat) : Option Row :=
  (d.log.filter fun r => r.entry.repoName = repo ∧ r.seq = seq).getLast?

def KeepsNewest (repo : String) (s : Consumer) : Prop :=
  ∀ r ∈ s.daemon.rows, r.entry.repoName = repo →
    s.daemon.scanned repo r.seq = (s.daemon.lastWritten repo r.seq).toList
deriving Decidable

def Consumer.claims (s : Consumer) (repo target : String) (now : DateTime) :
    List (Row × LandingQueueEntry) :=
  (claimOrder (healing (s.daemon.pending repo (some target))).bySeq).map
    fun r => (r, r.entry.claimed now)

/-- The row a status transition of `e` replaces, with what it writes for it. -/
def Consumer.moves (s : Consumer) (e : LandingQueueEntry) (status : LandingEntryStatus)
    (now : DateTime) : List (Row × LandingQueueEntry) :=
  (((healing (s.daemon.pending e.repoName none)).bySeq.find? fun r => r.seq = e.seq).map
    fun r => (r, e.moved status now)).toList

def Consumer.replacements (repo : String) (s : Consumer) : Transition →
    List (Row × LandingQueueEntry)
  | .enqueue _ _ => []
  | .claimNext target now => s.claims repo target now
  | .claimBatch target _ now => s.claims repo target now
  | .setStatus k status now => (s.held[k]?.toList).flatMap fun e => s.moves e status now
  | .persist k patch status now =>
    (s.held[k]?.toList).flatMap fun e => s.moves (patch.apply e) status now

/-- The transition a crash cuts writes a revision above that of the row it replaces. -/
def Increasing (repo : String) (s : Consumer) (l : CutLabel) : Prop :=
  ∀ j, l.cut = some j → ∀ m, (s.replacements repo l.transition)[j]? = some m → m.1.rev < m.2.rev
deriving Decidable

/-- What holds of every state, cut or not. -/
structure Sane (mint : Nat → RecordId) (repo : String) (d : Daemon) : Prop where
  nodup : (d.rows.map Row.id).Nodup
  minted : ∀ r ∈ d.rows, ∃ n < d.minted, r.id = mint n
  logged : d.rows ⊆ d.log
  scope : ∀ r ∈ d.rows, r.entry.repoName = repo
  targets : ∀ r ∈ d.log, ∀ r' ∈ d.log, r.seq = r'.seq → r.entry.target = r'.entry.target
  bound : ∀ r ∈ d.log, r.seq ≤ d.counter repo
  cached : ∀ v, d.seqCache repo = some v → v = d.counter repo

/-- Every row is the one written last under its number or has a lower revision than it. -/
def Tidy (repo : String) (d : Daemon) : Prop :=
  ∀ r ∈ d.rows, ∃ l ∈ d.rows, d.lastWritten repo r.seq = some l ∧ (r = l ∨ r.rev < l.rev)

def HeldSane (repo : String) (held : List LandingQueueEntry) (d : Daemon) : Prop :=
  ∀ e ∈ held, e.repoName = repo ∧ ∃ r ∈ d.log, r.seq = e.seq ∧ r.entry.target = e.target

structure Good (mint : Nat → RecordId) (repo : String) (s : Consumer) : Prop where
  sane : Sane mint repo s.daemon
  tidy : Tidy repo s.daemon
  held : HeldSane repo s.held s.daemon

section
variable {mint : Nat → RecordId} {repo : String} {d : Daemon}

theorem lastWritten_mem {q : Nat} {l : Row} (h : d.lastWritten repo q = some l) :
    l ∈ d.log ∧ l.entry.repoName = repo ∧ l.seq = q := by
  have hm := mem_of_getLast? h
  simpa using mem_filter.mp hm

def Daemon.heal (d : Daemon) (repo : String) (target : Option String) : Daemon :=
  { d with rows := d.rows.filter fun r => r.id ∉ (healing (d.pending repo target)).stale }

theorem deleteAll_run (ids : List RecordId) (d : Daemon) :
    ∃ ps, deleteAll ids d = (ps, .ok ()) ∧ (∀ t ∈ ps, t.log = d.log) ∧
      stop d ps = { d with rows := d.rows.filter fun r => r.id ∉ ids } := by
  induction ids generalizing d with
  | nil => exact ⟨[], rfl, by simp, by simp⟩
  | cons i ids ih =>
    obtain ⟨ps, hrun, hlog, hstop⟩ := ih (d.deleteRow i)
    have hw : (.write (.deleteRow i) : Op PUnit) d = ([d.deleteRow i], .ok ⟨⟩) := rfl
    refine ⟨d.deleteRow i :: ps, ?_, ?_, ?_⟩
    · show (.write (.deleteRow i) >>= fun _ => deleteAll ids : Op Unit) d = _
      rw [Prog.bind_ok hw, stop_singleton, hrun]
      rfl
    · refine forall_mem_cons.mpr ⟨?_, hlog⟩
      rfl
    · have hcons : stop d (d.deleteRow i :: ps) = stop (d.deleteRow i) ps :=
        stop_append d [d.deleteRow i] ps
      rw [hcons, hstop]
      simp only [Daemon.deleteRow, filter_filter]
      congr 1
      refine filter_congr fun r _ => ?_
      simp [not_or, Bool.and_comm]

theorem scanCurrent_run (d : Daemon) (repo : String) (target : Option String) :
    ∃ ps, scanCurrent repo target d = (ps, .ok (healing (d.pending repo target)).bySeq) ∧
      (∀ t ∈ ps, t.log = d.log) ∧ stop d ps = d.heal repo target := by
  obtain ⟨ps, hrun, hlog, hstop⟩ := deleteAll_run (healing (d.pending repo target)).stale d
  refine ⟨ps, ?_, hlog, hstop⟩
  have hread : (.read : Op Daemon) d = ([], .ok d) := rfl
  show (.read >>= fun d => deleteAll (healing (d.pending repo target)).stale >>= fun _ =>
    pure (healing (d.pending repo target)).bySeq : Op (List Row)) d = _
  rw [Prog.bind_ok hread, stop_nil, Prog.bind_ok hrun]
  show (([] : List Daemon) ++ (ps ++ []), _) = _
  rw [append_nil, nil_append]
  rfl

theorem scanCurrent_final (d : Daemon) (repo : String) (target : Option String) :
    (scanCurrent repo target).final d = d.heal repo target := by
  obtain ⟨ps, hrun, -, hstop⟩ := scanCurrent_run d repo target
  rw [Prog.final, hrun]
  exact hstop

variable {t : Option String} {r : Row}

theorem mem_heal :
    r ∈ (d.heal repo t).rows ↔ r ∈ d.rows ∧ r.id ∉ (healing (d.pending repo t)).stale := by
  simp [Daemon.heal]

section
variable (h : Sane mint repo d)
include h

theorem Sane.pending_of_seq {r' : Row} (hr : r ∈ d.pending repo t) (hr' : r' ∈ d.rows)
    (hseq : r'.seq = r.seq) : r' ∈ d.pending repo t := by
  obtain ⟨hm, -, ht⟩ := mem_pending.mp hr
  have htarget : r'.entry.target = r.entry.target :=
    h.targets r' (h.logged hr') r (h.logged hm) hseq
  exact mem_pending.mpr ⟨hr', h.scope r' hr', htarget ▸ ht⟩

theorem Tidy.winner (htidy : Tidy repo d) (hr : r ∈ d.pending repo t) {w : Row}
    (hw : w ∈ (healing (d.pending repo t)).bySeq) (hseq : w.seq = r.seq) :
    d.lastWritten repo r.seq = some w := by
  have hs := healing_sound (pending_nodup h.nodup repo t)
  have hwmem : w ∈ d.rows := (mem_pending.mp (hs.sub w hw)).1
  obtain ⟨l, hl, hlast, hor⟩ := htidy w hwmem
  rw [hseq] at hlast
  have hlseq : l.seq = r.seq := (lastWritten_mem hlast).2.2
  obtain ⟨x, hx, hxseq, hxor⟩ := hs.best l (h.pending_of_seq hr hl hlseq)
  have hxw : x = w := hs.unique hx hw (by rw [hxseq, hlseq, hseq])
  subst hxw
  have hxl : x = l := by
    rcases hor with hor | hlt
    · exact hor
    · rcases hxor with hxor | hfr
      · exact hxor
      · rcases hfr with hfr | ⟨hfr, -⟩ <;> omega
  rw [hlast, hxl]

theorem Tidy.last_not_stale (htidy : Tidy repo d) {q : Nat} {l : Row} (hl : l ∈ d.rows)
    (hlast : d.lastWritten repo q = some l) : l.id ∉ (healing (d.pending repo t)).stale := by
  intro hst
  have hs := healing_sound (pending_nodup h.nodup repo t)
  obtain ⟨x, hx, hid, hn⟩ := hs.lost l.id hst
  have hxl : x = l := inj_on_of_nodup_map h.nodup (mem_pending.mp hx).1 hl hid
  subst hxl
  obtain ⟨w, hw, hseq, -⟩ := hs.best x hx
  have hwl : d.lastWritten repo x.seq = some w := htidy.winner h hx hw hseq
  rw [(lastWritten_mem hlast).2.2, hlast] at hwl
  cases hwl
  exact hn hw

theorem Sane.rows_subset {rows : List Row} (hsub : rows.Sublist d.rows) :
    Sane mint repo { d with rows := rows } :=
  { nodup := h.nodup.sublist (hsub.map _)
    minted := fun r hr => h.minted r (hsub.subset hr)
    logged := fun _ hr => h.logged (hsub.subset hr)
    scope := fun r hr => h.scope r (hsub.subset hr)
    targets := h.targets
    bound := h.bound
    cached := h.cached }

theorem Sane.heal (t : Option String) : Sane mint repo (d.heal repo t) :=
  h.rows_subset filter_sublist

theorem Tidy.heal (htidy : Tidy repo d) (t : Option String) : Tidy repo (d.heal repo t) := by
  intro r hr
  obtain ⟨l, hl, hlast, hor⟩ := htidy r (mem_heal.mp hr).1
  exact ⟨l, mem_heal.mpr ⟨hl, htidy.last_not_stale h hl hlast⟩, hlast, hor⟩

end

def Sole (d : Daemon) (r : Row) : Prop := r ∈ d.rows ∧ ∀ r' ∈ d.rows, r'.seq = r.seq → r' = r

theorem Sane.sole (h : Sane mint repo d) {w : Row} (hw : w ∈ (healing (d.pending repo t)).bySeq) :
    Sole (d.heal repo t) w := by
  have hnd := pending_nodup h.nodup repo t
  have hs := healing_sound hnd
  have hwp : w ∈ d.pending repo t := hs.sub w hw
  refine ⟨mem_heal.mpr ⟨(mem_pending.mp hwp).1, hs.winner_not_stale hnd hw⟩, ?_⟩
  intro r hr hseq
  obtain ⟨hm, hns⟩ := mem_heal.mp hr
  rcases hs.kept r (h.pending_of_seq hwp hm hseq) with hb | hst
  · exact hs.unique hb hw hseq
  · exact absurd hst hns

variable {s : Consumer}

theorem Good.keepsNewest (h : Good mint repo s) : KeepsNewest repo s := by
  intro r hr hrepo
  have hp : r ∈ s.daemon.pending repo none := mem_pending.mpr ⟨hr, hrepo, .inl rfl⟩
  have hnd := pending_nodup h.sane.nodup repo none
  have hs := healing_sound hnd
  obtain ⟨w, hw, hseq, -⟩ := hs.best r hp
  have hl : s.daemon.lastWritten repo r.seq = some w := h.tidy.winner h.sane hp hw hseq
  obtain ⟨hwmem, hsole⟩ := h.sane.sole hw
  rw [hl, Daemon.scanned, scanCurrent_final]
  have hnd' : ((s.daemon.heal repo none).rows).Nodup :=
    List.Nodup.of_map _ (h.sane.heal none).nodup
  refine perm_singleton.mp ((perm_ext_iff_of_nodup (hnd'.filter _)
    (nodup_singleton w)).mpr fun x => ?_)
  rw [mem_filter, decide_eq_true_iff, mem_singleton]
  constructor
  · rintro ⟨hx, -, hxseq⟩
    exact hsole x hx (hxseq.trans hseq.symm)
  · rintro rfl
    exact ⟨hwmem, (h.sane.heal none).scope x hwmem, hseq⟩

structure Continues (repo : String) (r : Row) (next : LandingQueueEntry) : Prop where
  scope : next.repoName = repo
  seq : next.seq = r.seq
  target : next.target = r.entry.target

theorem Sane.fresh_id (h : Sane mint repo d) (hmint : Injective mint) (hr : r ∈ d.rows) :
    r.id ≠ mint d.minted :=
  fresh_of_drawn hmint h.minted r hr

variable {e : LandingQueueEntry}

theorem Sane.addRow (h : Sane mint repo d) (hmint : Injective mint)
    (hrepo : e.repoName = repo) (hle : e.seq ≤ d.counter repo)
    (htarget : ∀ r ∈ d.log, r.seq = e.seq → r.entry.target = e.target) :
    Sane mint repo (d.addRow mint e) := by
  have hrows : ∀ r ∈ (d.addRow mint e).rows, r ∈ d.rows ∨ r = ⟨mint d.minted, e⟩ :=
    fun r hr => (mem_append.mp hr).imp id mem_singleton.mp
  have hlog : ∀ r ∈ (d.addRow mint e).log, r ∈ d.log ∨ r = ⟨mint d.minted, e⟩ :=
    fun r hr => (mem_append.mp hr).imp id mem_singleton.mp
  constructor
  case nodup => exact nodup_concat_key h.nodup (fresh_of_drawn hmint h.minted)
  case minted => exact drawn_concat h.minted rfl
  case logged =>
    intro r hr
    rcases hrows r hr with hr | rfl
    · exact mem_append_left _ (h.logged hr)
    · exact mem_concat_self
  case scope =>
    intro r hr
    rcases hrows r hr with hr | rfl
    · exact h.scope r hr
    · exact hrepo
  case targets =>
    intro r hr r' hr' hseq
    rcases hlog r hr with hr | rfl <;> rcases hlog r' hr' with hr' | rfl
    · exact h.targets r hr r' hr' hseq
    · exact htarget r hr hseq
    · exact (htarget r' hr' hseq.symm).symm
    · rfl
  case bound =>
    intro r hr
    rcases hlog r hr with hr | rfl
    · exact h.bound r hr
    · exact hle
  case cached => exact h.cached

variable {next : LandingQueueEntry}

theorem Sane.continues (h : Sane mint repo d) (hmint : Injective mint) (hr : r ∈ d.rows)
    (hc : Continues repo r next) :
    Sane mint repo (d.addRow mint next) := by
  refine h.addRow hmint hc.scope ?_ ?_
  · rw [hc.seq]
    exact h.bound r (h.logged hr)
  · intro x hx hseq
    rw [hc.target]
    exact h.targets x hx r (h.logged hr) (hseq.trans hc.seq)

theorem lastWritten_addRow (next : LandingQueueEntry) (q : Nat) (hrepo : next.repoName = repo) :
    (d.addRow mint next).lastWritten repo q =
      if next.seq = q then some ⟨mint d.minted, next⟩ else d.lastWritten repo q := by
  simp only [Daemon.lastWritten, Daemon.addRow, filter_append]
  by_cases hq : next.seq = q
  · simp [hq, hrepo, Row.seq]
  · simp [hq, Row.seq]

theorem Tidy.addRow (htidy : Tidy repo d) (hsole : Sole d r) (hc : Continues repo r next)
    (hrev : r.rev < next.rev) :
    Tidy repo (d.addRow mint next) := by
  have hnew : (⟨mint d.minted, next⟩ : Row) ∈ (d.addRow mint next).rows :=
    mem_concat_self
  intro x hx
  rw [lastWritten_addRow next x.seq hc.scope]
  rcases mem_append.mp hx with hx | hx
  · by_cases hseq : next.seq = x.seq
    · have hxr : x = r := hsole.2 x hx (by rw [← hseq, hc.seq])
      rw [if_pos hseq, hxr]
      exact ⟨_, hnew, rfl, .inr hrev⟩
    · obtain ⟨l, hl, hlast, hor⟩ := htidy x hx
      rw [if_neg hseq]
      exact ⟨l, mem_append_left _ hl, hlast, hor⟩
  · have hxnew : x = ⟨mint d.minted, next⟩ := mem_singleton.mp hx
    have hseq : next.seq = x.seq := by rw [hxnew, Row.seq]
    rw [if_pos hseq]
    exact ⟨_, hnew, rfl, .inl hxnew⟩

theorem Tidy.replace (h : Sane mint repo d) (hmint : Injective mint) (htidy : Tidy repo d)
    (hsole : Sole d r) (hc : Continues repo r next) :
    Tidy repo ((d.addRow mint next).deleteRow r.id) := by
  have hnew : (⟨mint d.minted, next⟩ : Row) ∈ ((d.addRow mint next).deleteRow r.id).rows :=
    mem_deleteRow.mpr ⟨mem_concat_self, (h.fresh_id hmint hsole.1).symm⟩
  intro x hx
  obtain ⟨hx, hid⟩ := mem_deleteRow.mp hx
  show ∃ l ∈ _, (d.addRow mint next).lastWritten repo x.seq = some l ∧ _
  rw [lastWritten_addRow next x.seq hc.scope]
  rcases mem_append.mp hx with hx | hx
  · have hseq : next.seq ≠ x.seq := by
      intro he
      exact hid (congrArg Row.id (hsole.2 x hx (by rw [← he, hc.seq])))
    obtain ⟨l, hl, hlast, hor⟩ := htidy x hx
    rw [if_neg hseq]
    refine ⟨l, mem_deleteRow.mpr ⟨mem_append_left _ hl, ?_⟩, hlast, hor⟩
    intro he
    have hlr : l = r := inj_on_of_nodup_map h.nodup hl hsole.1 he
    have hlseq := (lastWritten_mem hlast).2.2
    rw [hlr, ← hc.seq] at hlseq
    exact hseq hlseq
  · have hxnew : x = ⟨mint d.minted, next⟩ := mem_singleton.mp hx
    have hseq : next.seq = x.seq := by rw [hxnew, Row.seq]
    rw [if_pos hseq]
    exact ⟨_, hnew, rfl, .inl hxnew⟩

theorem Sane.replace (h : Sane mint repo d) (hmint : Injective mint) (hr : r ∈ d.rows)
    (hc : Continues repo r next) :
    Sane mint repo ((d.addRow mint next).deleteRow r.id) :=
  (h.continues hmint hr hc).rows_subset filter_sublist

/-- A state between two writes of a call that began with `n` rows written: tidy if `g`
says that the row written last in it went up in revision. -/
def CutTidy (mint : Nat → RecordId) (repo : String) (g : Nat → Prop) (n : Nat) (d : Daemon) :
    Prop :=
  ∀ j, d.log.length = n + (j + 1) → g j → Sane mint repo d ∧ Tidy repo d

variable {C : Daemon → Prop}

theorem scanCurrent_exact (hC : ∀ x, x.log = d.log → C x) (r : String) (t : Option String) :
    Triple C (fun x => x = d) (scanCurrent r t) (fun rows x =>
      rows = (healing (d.pending r t)).bySeq ∧ x = d.heal r t) := by
  rintro x rfl
  obtain ⟨ps, hrun, hlog, hstop⟩ := scanCurrent_run x r t
  rw [hrun]
  refine ⟨fun y hy => hC y (hlog y hy), fun rows hrows => ?_⟩
  cases hrows
  exact ⟨rfl, scanCurrent_final x r t⟩

theorem find_exact (hC : ∀ x, x.log = d.log → C x) (e : LandingQueueEntry) :
    Triple C (fun x => x = d) (find e) (fun o x =>
      o = (healing (d.pending e.repoName none)).bySeq.find? (fun r => r.seq = e.seq) ∧
        x = d.heal e.repoName none) := by
  refine .bind (scanCurrent_exact hC e.repoName none) fun rows => .pure ?_
  rintro x ⟨rfl, rfl⟩
  exact ⟨rfl, rfl⟩

theorem replaceRow_exact {i : RecordId} (hw : C (d.addRow mint next))
    (hd : C ((d.addRow mint next).deleteRow i)) :
    Triple C (fun x => x = d) (replaceRow mint next i)
      (fun _ x => x = (d.addRow mint next).deleteRow i) := by
  refine .bind (Q := fun _ x => x = d.addRow mint next) (.write ?_ ?_) fun _ =>
    .write ?_ ?_
  · rintro x rfl
    exact hw
  · rintro x rfl
    rfl
  · rintro x rfl
    exact hd
  · rintro x rfl
    rfl

variable {g : Nat → Prop}

/-- The two states of a transition that replaces the only row `r` of its number, after
`j` rows were written. -/
theorem CutTidy.replace (hmint : Injective mint) {n j : Nat} (h : Sane mint repo d)
    (htidy : Tidy repo d) (hlen : d.log.length = n + j) (hsole : Sole d r)
    (hc : Continues repo r next) (hg : g j → r.rev < next.rev) :
    CutTidy mint repo g n (d.addRow mint next) ∧
      CutTidy mint repo g n ((d.addRow mint next).deleteRow r.id) := by
  constructor
  · intro j' hlen' hgj
    have hj : j' = j := by
      have hadd : (d.addRow mint next).log.length = d.log.length + 1 := length_append
      omega
    subst hj
    exact ⟨h.continues hmint hsole.1 hc, htidy.addRow hsole hc (hg hgj)⟩
  · intro _ _ _
    exact ⟨h.replace hmint hsole.1 hc, htidy.replace h hmint hsole hc⟩

theorem HeldSane.mono {held : List LandingQueueEntry} {d' : Daemon} (h : HeldSane repo held d)
    (hlog : d.log ⊆ d'.log) : HeldSane repo held d' := by
  intro e he
  obtain ⟨hr, r, hr', hk⟩ := h e he
  exact ⟨hr, r, hlog hr', hk⟩

variable {e' : LandingQueueEntry} {row : Row}

theorem Sane.held_continues (h : Sane mint repo d) {held : List LandingQueueEntry}
    (hheld : HeldSane repo held d) (he : e ∈ held) (hr : e'.repoName = e.repoName)
    (hs : e'.seq = e.seq) (ht : e'.target = e.target) (hrow : row ∈ d.log)
    (hseq : row.seq = e.seq) : Continues repo row e' := by
  obtain ⟨hrepo, r, hr', hrs, hrt⟩ := hheld e he
  refine ⟨hr.trans hrepo, hs.trans hseq.symm, ?_⟩
  rw [ht, ← hrt]
  exact h.targets r hr' row hrow (hrs.trans hseq.symm)

/-- What a call leaves when it returns. -/
structure Left (mint : Nat → RecordId) (repo : String) (d x : Daemon) : Prop where
  sane : Sane mint repo x
  tidy : Tidy repo x
  log : d.log ⊆ x.log

/-- The replacement `set_status` and `persist` make once they found the row. -/
theorem move_left {s : Consumer} (h : Good mint repo s) (hmint : Injective mint)
    {e e' : LandingQueueEntry} (he : e ∈ s.held) (hr : e'.repoName = e.repoName)
    (hs : e'.seq = e.seq) (ht : e'.target = e.target) (status : LandingEntryStatus)
    (now : DateTime) {g : Nat → Prop}
    (hg : g 0 → ∀ m ∈ s.moves e' status now, m.1.rev < m.2.rev) {row : Row}
    (hrow : (healing (s.daemon.pending e'.repoName none)).bySeq.find? (fun r => r.seq = e'.seq) =
      some row) :
    Triple (CutTidy mint repo g s.daemon.log.length) (fun x => x = s.daemon.heal e'.repoName none)
      (replaceRow mint (e'.moved status now) row.id)
      (fun _ x => Left mint repo s.daemon x) := by
  have hrepo : e'.repoName = repo := hr.trans (h.held e he).1
  have hmoves : s.moves e' status now = [(row, e'.moved status now)] := by
    simp [moves, hrow]
  rw [hrepo] at hrow ⊢
  have hw : row ∈ (healing (s.daemon.pending repo none)).bySeq := mem_of_find?_eq_some hrow
  have hseq : row.seq = e'.seq := by simpa using find?_some hrow
  have hsane := h.sane.heal none
  have htidy := h.tidy.heal h.sane none
  have hsole := h.sane.sole hw
  have hlogged : row ∈ s.daemon.log := h.sane.logged (mem_heal.mp hsole.1).1
  have hc : Continues repo row (e'.moved status now) :=
    ⟨hrepo, hseq.symm, (h.sane.held_continues h.held he hr hs ht hlogged (hseq.trans hs)).target⟩
  obtain ⟨hc1, hc2⟩ := CutTidy.replace hmint (n := s.daemon.log.length) (j := 0) hsane htidy rfl
    hsole hc fun hg0 => hg hg0 (row, e'.moved status now) (by rw [hmoves]; exact mem_singleton_self _)
  refine (replaceRow_exact hc1 hc2).mono (fun _ hx => hx) ?_
  rintro _ x rfl
  exact ⟨hsane.replace hmint hsole.1 hc, htidy.replace hsane hmint hsole hc, subset_append_left _ _⟩

theorem CutTidy.of_log {x : Daemon} (hx : x.log = d.log) : CutTidy mint repo g d.log.length x := by
  intro j hj
  rw [hx] at hj
  omega

theorem Good.left_heal (h : Good mint repo s) (t : Option String) :
    Left mint repo s.daemon (s.daemon.heal repo t) :=
  ⟨h.sane.heal t, h.tidy.heal h.sane t, List.Subset.refl _⟩

theorem setStatus_left (h : Good mint repo s) (hmint : Injective mint) (he : e ∈ s.held)
    (status : LandingEntryStatus) (now : DateTime)
    (hg : g 0 → ∀ m ∈ s.moves e status now, m.1.rev < m.2.rev) :
    Triple (CutTidy mint repo g s.daemon.log.length) (fun x => x = s.daemon)
      (setStatus mint e status now) (fun _ x => Left mint repo s.daemon x) := by
  refine .bind (find_exact (fun _ hx => .of_log hx) e) fun o => ?_
  cases o with
  | none =>
    refine .pure ?_
    rintro x ⟨-, rfl⟩
    rw [(h.held e he).1]
    exact h.left_heal none
  | some row =>
    refine .of_start ?_
    rintro x ⟨hrow, rfl⟩
    exact move_left h hmint he rfl rfl rfl status now hg hrow.symm

theorem persist_left (h : Good mint repo s) (hmint : Injective mint) (he : e ∈ s.held)
    (hr : e'.repoName = e.repoName) (hs : e'.seq = e.seq) (ht : e'.target = e.target)
    (status : LandingEntryStatus) (now : DateTime)
    (hg : g 0 → ∀ m ∈ s.moves e' status now, m.1.rev < m.2.rev) :
    Triple (CutTidy mint repo g s.daemon.log.length) (fun x => x = s.daemon)
      (persist mint e' status now) (fun p x => Left mint repo s.daemon x ∧
        p.repoName = e.repoName ∧ p.seq = e.seq ∧ p.target = e.target) := by
  refine .bind (find_exact (fun _ hx => .of_log hx) e') fun o => ?_
  cases o with
  | none =>
    refine .pure ?_
    rintro x ⟨-, rfl⟩
    refine ⟨?_, hr, hs, ht⟩
    rw [hr, (h.held e he).1]
    exact h.left_heal none
  | some row =>
    refine .of_start ?_
    rintro x ⟨hrow, rfl⟩
    exact .bind (move_left h hmint he hr hs ht status now hg hrow.symm) fun _ =>
      .pure fun y hy => ⟨hy, hr, hs, ht⟩

theorem claimRow_exact (now : DateTime) (row : Row) (hw : C (d.addRow mint (row.entry.claimed now)))
    (hd : C ((d.addRow mint (row.entry.claimed now)).deleteRow row.id)) :
    Triple C (fun x => x = d) (claimRow mint now row) (fun e x =>
      e = row.entry.claimed now ∧
        x = (d.addRow mint (row.entry.claimed now)).deleteRow row.id) := by
  unfold claimRow
  cases row.entry.validatePersisted with
  | error _ => exact .fail
  | ok _ =>
    exact .bind (replaceRow_exact hw hd) fun _ => .pure fun x hx => ⟨rfl, hx⟩

theorem Sane.claimed_continues (h : Sane mint repo d) (hr : row ∈ d.rows) (now : DateTime) :
    Continues repo row (row.entry.claimed now) := by
  refine ⟨?_, by simp [Row.seq], ?_⟩
  · rw [LandingQueueEntry.claimed_repoName]
    exact h.scope row hr
  · exact congrArg WorkKey.target (row.entry.claimed_key now)

/-- Claiming the rows `rows`, each the only one of its number, after `i` rows were
written. -/
theorem claimRows_left (hmint : Injective mint) (now : DateTime) {n : Nat} (log rows : List Row)
    (i : Nat) (hg : ∀ j r, rows[j]? = some r → g (i + j) → r.rev < (r.entry.claimed now).rev) :
    Triple (CutTidy mint repo g n)
      (fun x => Sane mint repo x ∧ Tidy repo x ∧ log ⊆ x.log ∧ x.log.length = n + i ∧
        (rows.map Row.seq).Nodup ∧ ∀ r ∈ rows, Sole x r)
      (claimRows mint now rows)
      (fun es x => Sane mint repo x ∧ Tidy repo x ∧ log ⊆ x.log ∧ HeldSane repo es x) := by
  induction rows generalizing i log with
  | nil =>
    refine .pure ?_
    rintro x ⟨hsane, htidy, hlog, -⟩
    exact ⟨hsane, htidy, hlog, fun e he => (not_mem_nil he).elim⟩
  | cons row rows ih =>
    refine .of_start ?_
    rintro x ⟨hsane, htidy, hlog, hlen, hnd, hsole⟩
    have hsr := hsole row mem_cons_self
    have hc := hsane.claimed_continues hsr.1 now
    obtain ⟨hc1, hc2⟩ := CutTidy.replace hmint hsane htidy hlen hsr hc (hg 0 row rfl)
    have hkeep : ∀ r ∈ rows, Sole ((x.addRow mint (row.entry.claimed now)).deleteRow row.id) r := by
      intro r hr
      have hne : r.seq ≠ row.seq := by
        intro he
        rw [map_cons, nodup_cons] at hnd
        exact hnd.1 (he ▸ mem_map_of_mem hr)
      obtain ⟨hm, huniq⟩ := hsole r (mem_cons_of_mem _ hr)
      refine ⟨mem_deleteRow.mpr ⟨mem_append_left _ hm, fun he => hne ?_⟩, ?_⟩
      · exact congrArg Row.seq (inj_on_of_nodup_map hsane.nodup hm hsr.1 he)
      · intro y hy hyseq
        rcases mem_append.mp (mem_deleteRow.mp hy).1 with hy | hy
        · exact huniq y hy hyseq
        · rw [mem_singleton.mp hy] at hyseq
          exact absurd (hyseq.symm.trans hc.seq) hne
    refine .bind (claimRow_exact now row hc1 hc2) fun e => ?_
    refine .of_start ?_
    rintro y ⟨rfl, rfl⟩
    have hlen' : ((x.addRow mint (row.entry.claimed now)).deleteRow row.id).log.length =
        n + (i + 1) := by
      have hadd : ((x.addRow mint (row.entry.claimed now)).deleteRow row.id).log.length =
        x.log.length + 1 := length_append
      omega
    have hg' : ∀ j r, rows[j]? = some r → g (i + 1 + j) → r.rev < (r.entry.claimed now).rev := by
      intro j r hj hgj
      refine hg (j + 1) r hj ?_
      rw [Nat.add_comm j 1, ← Nat.add_assoc]
      exact hgj
    refine .bind ((ih x.log (i + 1) hg').mono ?_ fun _ _ hz => hz) fun es => .pure ?_
    · rintro y rfl
      rw [map_cons, nodup_cons] at hnd
      exact ⟨hsane.replace hmint hsr.1 hc, htidy.replace hsane hmint hsr hc,
        subset_append_left _ _, hlen', hnd.2, hkeep⟩
    · rintro z ⟨hsane', htidy', hlog', hes⟩
      refine ⟨hsane', htidy', fun r hr => hlog' (hlog hr), ?_⟩
      refine forall_mem_cons.mpr ⟨?_, hes⟩
      exact ⟨hc.scope, row, hlog' (hsane.logged hsr.1), hc.seq.symm, hc.target.symm⟩

theorem HeldSane.append {xs ys : List LandingQueueEntry} (hx : HeldSane repo xs d)
    (hy : HeldSane repo ys d) : HeldSane repo (xs ++ ys) d := by
  exact forall_mem_append.mpr ⟨hx, hy⟩

theorem Good.claimable (h : Good mint repo s) {rows : List Row}
    (hsub : rows.Sublist (claimOrder (healing (s.daemon.pending repo t)).bySeq)) :
    (rows.map Row.seq).Nodup ∧ ∀ r ∈ rows, Sole (s.daemon.heal repo t) r := by
  have hs := healing_sound (pending_nodup h.sane.nodup repo t)
  constructor
  · have hnd := ((claimOrder_perm (healing (s.daemon.pending repo t)).bySeq).map
      Row.seq).nodup_iff.mpr hs.seqs
    exact hnd.sublist (hsub.map _)
  · intro r hr
    exact h.sane.sole (mem_claimOrder.mp (hsub.subset hr))

theorem claimBatch_left (h : Good mint repo s) (hmint : Injective mint) (t : String) (max : Nat)
    (now : DateTime) (hg : ∀ j, g j → ∀ m, (s.claims repo t now)[j]? = some m → m.1.rev < m.2.rev) :
    Triple (CutTidy mint repo g s.daemon.log.length) (fun x => x = s.daemon)
      (claimBatch mint repo t max now) (fun es x =>
        Left mint repo s.daemon x ∧ HeldSane repo es x) := by
  refine .bind (scanCurrent_exact (fun _ hx => .of_log hx) repo (some t)) fun rows => ?_
  refine .of_start ?_
  rintro x ⟨rfl, rfl⟩
  obtain ⟨hnd, hsole⟩ := h.claimable (t := some t) (take_sublist max _)
  have hg' : ∀ j r, ((claimOrder (healing (s.daemon.pending repo (some t))).bySeq).take max)[j]? =
      some r → g (0 + j) → r.rev < (r.entry.claimed now).rev := by
    intro j r hj hgj
    rw [Nat.zero_add] at hgj
    refine hg j hgj (r, r.entry.claimed now) ?_
    have hj' : (claimOrder (healing (s.daemon.pending repo (some t))).bySeq)[j]? = some r := by
      rw [getElem?_take] at hj
      split at hj
      · exact hj
      · cases hj
    rw [claims, getElem?_map, hj']
    rfl
  refine (claimRows_left hmint now s.daemon.log _ 0 hg').mono ?_ ?_
  · rintro x rfl
    exact ⟨h.sane.heal _, h.tidy.heal h.sane _, List.Subset.refl _, rfl, hnd, hsole⟩
  · rintro es x ⟨hsane, htidy, hlog, hes⟩
    exact ⟨⟨hsane, htidy, hlog⟩, hes⟩

theorem claimNext_left (h : Good mint repo s) (hmint : Injective mint) (t : String)
    (now : DateTime) (hg : ∀ j, g j → ∀ m, (s.claims repo t now)[j]? = some m → m.1.rev < m.2.rev) :
    Triple (CutTidy mint repo g s.daemon.log.length) (fun x => x = s.daemon)
      (claimNext mint repo t now) (fun o x =>
        Left mint repo s.daemon x ∧ HeldSane repo o.toList x) := by
  refine .bind (scanCurrent_exact (fun _ hx => .of_log hx) repo (some t)) fun rows => ?_
  refine .of_start ?_
  rintro x ⟨rfl, rfl⟩
  cases hh : (claimOrder (healing (s.daemon.pending repo (some t))).bySeq).head? with
  | none =>
    refine .pure ?_
    rintro x rfl
    exact ⟨h.left_heal _, fun e he => by simp at he⟩
  | some row =>
    have hw := mem_claimOrder.mp (mem_of_mem_head? hh)
    have hsane := h.sane.heal (some t)
    have htidy := h.tidy.heal h.sane (some t)
    have hsole := h.sane.sole hw
    have hc := hsane.claimed_continues hsole.1 now
    have hfirst : (s.claims repo t now)[0]? = some (row, row.entry.claimed now) := by
      rw [claims, getElem?_map, ← head?_eq_getElem?, hh]
      rfl
    obtain ⟨hc1, hc2⟩ := CutTidy.replace hmint (n := s.daemon.log.length) (j := 0) hsane htidy rfl
      hsole hc fun hg0 => hg 0 hg0 _ hfirst
    refine .bind (claimRow_exact now row hc1 hc2) fun e => .pure ?_
    rintro x ⟨rfl, rfl⟩
    refine ⟨⟨hsane.replace hmint hsole.1 hc, htidy.replace hsane hmint hsole hc,
      subset_append_left _ _⟩, ?_⟩
    intro e he
    have he' : e = row.entry.claimed now := by simpa using he
    subst he'
    exact ⟨hc.scope, row, mem_append_left _ (hsane.logged hsole.1), hc.seq.symm, hc.target.symm⟩

theorem Sane.setSeq (h : Sane mint repo d) :
    Sane mint repo (d.setSeq repo (d.currentSeq repo + 1)) ∧
      ∀ r ∈ d.log, r.seq < d.currentSeq repo + 1 := by
  have hcur : d.currentSeq repo = d.counter repo := currentSeq_eq_counter h.cached
  have hlt : ∀ r ∈ d.log, r.seq < d.currentSeq repo + 1 := by
    intro r hr
    have hle := h.bound r hr
    omega
  refine ⟨{ h with bound := ?_, cached := cached_setSeq h.cached (.inl rfl) _ }, hlt⟩
  intro r hr
  rw [counter_setSeq]
  exact Nat.le_of_lt (hlt r hr)

theorem Tidy.addNew (htidy : Tidy repo d) (hr : e.repoName = repo)
    (hnew : ∀ r ∈ d.rows, r.seq ≠ e.seq) : Tidy repo (d.addRow mint e) := by
  have hm : (⟨mint d.minted, e⟩ : Row) ∈ (d.addRow mint e).rows :=
    mem_concat_self
  intro x hx
  rw [lastWritten_addRow e x.seq hr]
  rcases mem_append.mp hx with hx | hx
  · obtain ⟨l, hl, hlast, hor⟩ := htidy x hx
    rw [if_neg (Ne.symm (hnew x hx))]
    exact ⟨l, mem_append_left _ hl, hlast, hor⟩
  · have hxnew : x = ⟨mint d.minted, e⟩ := mem_singleton.mp hx
    have hseq : e.seq = x.seq := by rw [hxnew, Row.seq]
    rw [if_pos hseq]
    exact ⟨_, hm, rfl, .inl hxnew⟩

theorem enqueue_exact {C : Daemon → Prop} {e : LandingQueueEntry} (hr : e.repoName = repo)
    (now : DateTime) (hw : C (d.setSeq repo (d.currentSeq repo + 1)))
    (ha : C ((d.setSeq repo (d.currentSeq repo + 1)).addRow mint
      (e.queuedAs (d.currentSeq repo + 1) now))) :
    Triple C (fun x => x = d) (enqueue mint e now) (fun _ x =>
      x = (d.setSeq repo (d.currentSeq repo + 1)).addRow mint
        (e.queuedAs (d.currentSeq repo + 1) now)) := by
  subst hr
  refine .bind (nextSeq_exact hw) fun n => ?_
  · refine .bind (.write ?_ ?_) fun _ => .pure fun _ hx => hx
    · rintro x ⟨rfl, rfl⟩
      exact ha
    · rintro x ⟨rfl, rfl⟩
      rfl

theorem enqueue_good (h : Good mint repo s) (hmint : Injective mint)
    (hr : e.repoName = repo) (now : DateTime) :
    Triple (fun _ => True) (fun x => x = s.daemon) (enqueue mint e now)
      (fun _ x => Good mint repo ⟨x, s.held⟩) := by
  obtain ⟨hsane, hlt⟩ := h.sane.setSeq
  refine (enqueue_exact hr now trivial trivial).mono (fun _ hx => hx) ?_
  rintro _ x rfl
  refine ⟨hsane.addRow hmint hr ?_ ?_, ?_, h.held.mono (subset_append_left _ _)⟩
  · rw [counter_setSeq]
    exact Nat.le_refl _
  · intro r hr' hseq
    exact absurd hseq (Nat.ne_of_lt (hlt r hr'))
  · exact .addNew h.tidy hr fun r hr' => Nat.ne_of_lt (hlt r (h.sane.logged hr'))

theorem exec_good {α : Type} {s s' : Consumer} {m : Op α} {next : α → List LandingQueueEntry}
    {cut : Option Nat} {g : Nat → Prop}
    (hm : Triple (CutTidy mint repo g s.daemon.log.length) (fun x => x = s.daemon) m
      (fun a x => Good mint repo ⟨x, next a⟩))
    (hg : ∀ j, cut = some j → g j) (h : s.exec m next cut = some s') : Good mint repo s' := by
  cases cut with
  | none =>
    unfold exec at h
    cases ho : (m s.daemon).2 with
    | ok a =>
      simp only [ho, Option.some.injEq] at h
      subst h
      exact (hm s.daemon rfl).2 a ho
    | error e => simp [ho] at h
  | some j =>
    obtain ⟨d, hd, rfl⟩ := Option.map_eq_some_iff.mp h
    have hlen : d.log.length = s.daemon.log.length + (j + 1) := by
      simpa using find?_some hd
    obtain ⟨hsane, htidy⟩ := (hm s.daemon rfl).1 d (mem_of_find?_eq_some hd) j hlen (hg j rfl)
    exact ⟨{ hsane with cached := nofun }, htidy, fun e he => (not_mem_nil he).elim⟩

theorem moves_first {status : LandingEntryStatus} {now : DateTime} {m : Row × LandingQueueEntry}
    (hm : m ∈ s.moves e status now) :
    (s.moves e status now)[0]? = some m := by
  unfold moves at hm ⊢
  rw [Option.mem_toList] at hm
  simp [hm]

theorem step_good (hmint : Injective mint) {s' : Consumer} {l : CutLabel}
    (hs : Good mint repo s) (hg : Increasing repo s l) (h : s.step mint repo l = some s') :
    Good mint repo s' := by
  have hheld : ∀ {x}, Left mint repo s.daemon x → HeldSane repo s.held x :=
    fun hx => hs.held.mono hx.log
  obtain ⟨op, cut⟩ := l
  cases op with
  | enqueue e now =>
    by_cases hr : e.repoName = repo
    · simp only [step, if_pos hr] at h
      have hm : Triple (CutTidy mint repo (fun _ => False) s.daemon.log.length)
          (fun x => x = s.daemon) (Landing.enqueue mint e now)
          (fun _ x => Good mint repo ⟨x, s.held⟩) :=
        fun x hx => ⟨fun _ _ _ _ hf => hf.elim, (enqueue_good hs hmint hr now x hx).2⟩
      have hn : ∀ j, (none : Option Nat) = some j → False := nofun
      exact exec_good hm hn h
    · simp [step, if_neg hr] at h
  | claimNext t now =>
    refine exec_good ((claimNext_left hs hmint t now fun j hj => hj).mono (fun _ hx => hx) ?_) hg h
    rintro o x ⟨hx, ho⟩
    exact ⟨hx.sane, hx.tidy, (hheld hx).append ho⟩
  | claimBatch t max now =>
    refine exec_good ((claimBatch_left hs hmint t max now fun j hj => hj).mono (fun _ hx => hx) ?_)
      hg h
    rintro es x ⟨hx, hes⟩
    exact ⟨hx.sane, hx.tidy, (hheld hx).append hes⟩
  | setStatus k status now =>
    obtain ⟨e, hk, h⟩ := Option.bind_eq_some_iff.mp h
    have hmoves : s.replacements repo (.setStatus k status now) = s.moves e status now := by
      simp [replacements, hk]
    refine exec_good ((setStatus_left hs hmint (mem_of_getElem? hk) status now ?_).mono
      (fun _ hx => hx) ?_) hg h
    · intro h0 m hm
      exact h0 m (hmoves ▸ moves_first hm)
    · intro _ x hx
      exact ⟨hx.sane, hx.tidy, hheld hx⟩
  | persist k patch status now =>
    obtain ⟨e, hk, h⟩ := Option.bind_eq_some_iff.mp h
    have he := mem_of_getElem? hk
    have hmoves : s.replacements repo (.persist k patch status now) =
        s.moves (patch.apply e) status now := by
      simp [replacements, hk]
    have hpr : (patch.apply e).repoName = e.repoName := rfl
    have hps : (patch.apply e).seq = e.seq := rfl
    have hpt : (patch.apply e).target = e.target := rfl
    refine exec_good ((persist_left hs hmint he hpr hps hpt status now ?_).mono
      (fun _ hx => hx) ?_) hg h
    · intro h0 m hm
      exact h0 m (hmoves ▸ moves_first hm)
    · rintro p x ⟨hx, hr, hq, ht⟩
      refine ⟨hx.sane, hx.tidy, ?_⟩
      intro y hy
      rcases mem_or_eq_of_mem_set hy with hy | rfl
      · exact hheld hx y hy
      · obtain ⟨hrepo, r, hmem, hrs, hrt⟩ := hheld hx e he
        exact ⟨hr.trans hrepo, r, hmem, hrs.trans hq.symm, hrt.trans ht.symm⟩

theorem good_fresh : Good mint repo {} := by
  refine ⟨?_, ?_, ?_⟩
  · constructor <;> simp
  · simp [Tidy]
  · simp [HeldSane]

/-- When every transition that a crash cuts writes a revision above that of the row it
replaces, every scan keeps the row written last, whatever ids the rows got. -/
theorem healing_keeps_newest (hmint : Injective mint) (repo : String)
    (ls : List CutLabel) (h : Meets (step mint repo) (Increasing repo) {} ls) :
    Keeps (step mint repo) (KeepsNewest repo) {} ls := by
  have hstep : ∀ s l s', Good mint repo s → step mint repo s l = some s' →
      Increasing repo s l → Good mint repo s' :=
    fun _ _ _ hs hstep hg => step_good hmint hs hg hstep
  exact (keeps_of_meets hstep good_fresh h).mono fun _ hs => hs.keepsNewest

def descending (n : Nat) : Nat := if n < 16 then 16 - n else n + 1

theorem descending_injective : Injective descending := by
  intro a b h
  unfold descending at h
  split at h <;> split at h <;> omega

def cutPersist : List CutLabel :=
  [ { transition := .enqueue candidate 1 },
    { transition := .claimNext "main" 2 },
    { transition := .persist 0 ⟨none, none, some "m1", some "b0", some "refs/rk/m1", [], false, none⟩
        .runningGates 3,
      cut := some 0 },
    { transition := .claimNext "main" 4 },
    { transition := .setStatus 0 .awaitingReview 5, cut := some 0 } ]

theorem healing_keeps_newest_cutPersist :
    ((run (step descending "rk") {} cutPersist).map fun s =>
      s.daemon.rows.map fun r => (r.id, r.rev)) = some [(13, 3), (12, 4)] ∧
    Keeps (step descending "rk") (KeepsNewest "rk") {} cutPersist :=
  ⟨by decide +kernel, healing_keeps_newest descending_injective "rk" cutPersist (by decide +kernel)⟩

/-- The review is dispatched, then the candidate approved: two status transitions from
the same held entry, the second cut before its delete. -/
def approvedReview : List CutLabel :=
  [ { transition := .enqueue candidate 1 },
    { transition := .claimNext "main" 2 },
    { transition := .setStatus 0 .awaitingReview 3 },
    { transition := .setStatus 0 .landing 4, cut := some 0 } ]

/-- Both rows carry revision 2, and the scan keeps the one that awaits its review. -/
theorem second_status_is_healed_away :
    Injective descending ∧
      ¬ Keeps (step descending "rk") (KeepsNewest "rk") {} approvedReview :=
  ⟨descending_injective, not_keeps_of_run (by decide +kernel)⟩

end

end RatKingdom.Landing
