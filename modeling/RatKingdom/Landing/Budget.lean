/-
The retry budget of a landing entry across crashes.

Budget flag, in-flight marker and attempt evidence live in different tuples, each
written on its own.  `Metered` relates them in every state a crash can leave: a row that
has its budget has no evidence under its number, a marked row has spent it, and a row
that does not know of the spending is outlived by one that does.  `Own d e` says that the
consumer's copy `e` is the only row of its number, which is what lets a gate run edit it.
-/
import RatKingdom.Landing.Heal

namespace RatKingdom.Landing

open Lib Core List Function LandingQueueEntry

/-- `a` is the event of attempt `ordinal` of `check`, for one queue generation and
candidate. -/
def GateAttempt.records (a : GateAttempt) (repo : String) (seq : Nat) (candidate check : String)
    (ordinal : Nat) : Prop :=
  a.repoName = repo ∧ a.seq = seq ∧ a.candidateSha = candidate ∧ a.check = check ∧
    a.ordinal = ordinal
deriving Decidable

/-- `a` is a retry of this generation and candidate that did not pass. -/
def GateAttempt.lost (a : GateAttempt) (repo : String) (seq : Nat) (candidate : String) : Prop :=
  a.repoName = repo ∧ a.seq = seq ∧ a.candidateSha = candidate ∧ a.ordinal = 2 ∧ a.verdict ≠ "pass"
deriving Decidable

def GateAttempt.slot (a : GateAttempt) : String × Nat × String × String × Nat :=
  (a.repoName, a.seq, a.candidateSha, a.check, a.ordinal)

variable {repo : String}

theorem GateAttempt.records_iff {a : GateAttempt} {seq : Nat} {candidate check : String}
    {ordinal : Nat} :
    a.records repo seq candidate check ordinal ↔ a.slot = (repo, seq, candidate, check, ordinal) := by
  simp [GateAttempt.records, GateAttempt.slot]

def Both (as : List GateAttempt) (repo : String) (seq : Nat) (candidate check : String) : Prop :=
  (∃ a ∈ as, a.records repo seq candidate check 1) ∧ ∃ a ∈ as, a.records repo seq candidate check 2
deriving Decidable

theorem Both.mono {as as' : List GateAttempt} {seq : Nat} {candidate check : String}
    (h : Both as repo seq candidate check) (hsub : as ⊆ as') :
    Both as' repo seq candidate check := by
  obtain ⟨⟨a, ha, hr⟩, b, hb, hr'⟩ := h
  exact ⟨⟨a, hsub ha, hr⟩, b, hsub hb, hr'⟩

/-- A run that returned anything but a held admission has both attempts of every retry it
took up. -/
def GateRun.Complete (g : GateRun) : Prop :=
  g.outcome ≠ .admissionHeld → ∀ c ∈ g.resumed, Both g.evidence g.repoName g.seq g.candidateSha c
deriving Decidable

/-- A run that passed has no lost retry of its generation and candidate behind it. -/
def GateRun.Honest (g : GateRun) : Prop :=
  g.outcome = .pass → ∀ a ∈ g.evidence, ¬ a.lost g.repoName g.seq g.candidateSha
deriving Decidable

abbrev Row.used (r : Row) : Bool := r.entry.gateInfraRetryUsed

structure Metered (H : Prop) (mint : Nat → RecordId) (repo : String) (d : Daemon) : Prop where
  sane : Sane mint repo d
  keys : ∀ r ∈ d.log, ∀ r' ∈ d.log, r.seq = r'.seq → r.entry.key = r'.entry.key
  attempted : ∀ a ∈ d.attempts, a.repoName = repo ∧ ∃ r ∈ d.log, r.seq = a.seq ∧
    r.entry.branch = a.branch ∧ r.entry.target = a.target ∧ r.entry.task = a.task
  distinct : (d.attempts.map GateAttempt.slot).Nodup
  marked : ∀ r ∈ d.rows, r.entry.gateInfraRetryCheck.isSome → r.used = true
  unspent : ∀ r ∈ d.rows, r.used = false → ∀ a ∈ d.attempts, a.seq ≠ r.seq
  spent : ∀ r ∈ d.log, r.used = true → ∀ x ∈ d.rows, x.seq = r.seq →
    x.used = true ∨ ∃ w ∈ d.rows, w.seq = x.seq ∧ w.used = true ∧ x.rev < w.rev
  once : d.log.Pairwise fun r r' => r.seq = r'.seq → r.used = true → r'.used = true
  complete : ∀ g ∈ d.gateRuns, g.Complete
  honest : H → ∀ g ∈ d.gateRuns, g.Honest

def Own (d : Daemon) (e : LandingQueueEntry) : Prop := ∃ r, Sole d r ∧ r.entry = e

structure Succeeds (repo : String) (r : Row) (next : LandingQueueEntry) : Prop where
  scope : next.repoName = repo
  seq : next.seq = r.seq
  key : next.key = r.entry.key
  used : r.used = true → next.gateInfraRetryUsed = true
  marked : next.gateInfraRetryCheck.isSome → next.gateInfraRetryUsed = true
  rev : next.gateInfraRetryUsed = true → r.used = true ∨ r.rev < next.rev

theorem Succeeds.continues {r : Row} {next : LandingQueueEntry} (h : Succeeds repo r next) :
    Continues repo r next :=
  ⟨h.scope, h.seq, congrArg WorkKey.target h.key⟩

section
variable {H : Prop} {mint : Nat → RecordId} {repo : String} {d : Daemon}

theorem Metered.rows_subset (h : Metered H mint repo d) {rows : List Row}
    (hsub : rows.Sublist d.rows)
    (hspent : ∀ r ∈ d.log, r.used = true → ∀ x ∈ rows, x.seq = r.seq →
      x.used = true ∨ ∃ w ∈ rows, w.seq = x.seq ∧ w.used = true ∧ x.rev < w.rev) :
    Metered H mint repo { d with rows := rows } :=
  { h with
    sane := h.sane.rows_subset hsub
    marked := fun r hr => h.marked r (hsub.subset hr)
    unspent := fun r hr => h.unspent r (hsub.subset hr)
    spent := hspent }

variable {w x : Row}

theorem Metered.deleteStale (h : Metered H mint repo d) (hx : x ∈ d.rows) (hw : w ∈ d.rows)
    (hseq : w.seq = x.seq) (hfr : w.fresher x) :
    Metered H mint repo (d.deleteRow x.id) := by
  have hkeep : ∀ y ∈ d.rows, y ≠ x → y ∈ (d.deleteRow x.id).rows := by
    intro y hy hne
    exact mem_deleteRow.mpr ⟨hy, fun he => hne (inj_on_of_nodup_map h.sane.nodup hy hx he)⟩
  have hrev : x.rev ≤ w.rev := by
    rcases hfr with hlt | ⟨heq, -⟩ <;> omega
  refine h.rows_subset filter_sublist ?_
  intro r hr hused y hy hyseq
  have hy' : y ∈ d.rows := (mem_deleteRow.mp hy).1
  rcases h.spent r hr hused y hy' hyseq with hu | ⟨z, hz, hzseq, hzu, hlt⟩
  · exact .inl hu
  · right
    by_cases hzx : z = x
    -- the witness is the row that goes: the fresher one stands in, or what outlives it
    · subst hzx
      have hws : w.seq = y.seq := hseq.trans hzseq
      rcases h.spent r hr hused w hw (hws.trans hyseq) with hwu | ⟨v, hv, hvseq, hvu, hvlt⟩
      · exact ⟨w, hkeep w hw hfr.ne, hws, hwu, by omega⟩
      · refine ⟨v, hkeep v hv ?_, hvseq.trans hws, hvu, by omega⟩
        rintro rfl
        omega
    · exact ⟨z, hkeep z hz hzx, hzseq, hzu, hlt⟩

theorem Metered.deleteSole (h : Metered H mint repo d) (hx : Sole d x) :
    Metered H mint repo (d.deleteRow x.id) := by
  refine h.rows_subset filter_sublist ?_
  intro r hr hused y hy hyseq
  obtain ⟨hy', hid⟩ := mem_deleteRow.mp hy
  rcases h.spent r hr hused y hy' hyseq with hu | ⟨z, hz, hzseq, hzu, hlt⟩
  · exact .inl hu
  · refine .inr ⟨z, mem_deleteRow.mpr ⟨hz, fun he => ?_⟩, hzseq, hzu, hlt⟩
    have hzx : z = x := inj_on_of_nodup_map h.sane.nodup hz hx.1 he
    have hyx : y = x := hx.2 y hy' (by rw [← hzseq, hzx])
    exact hid (congrArg Row.id hyx)

variable {d' : Daemon}

theorem Metered.record (h : Metered H mint repo d) (hrows : d'.rows = d.rows)
    (hlog : d'.log = d.log) (hatt : d'.attempts = d.attempts) (hruns : d'.gateRuns = d.gateRuns)
    (hfile : d'.seqFile = d.seqFile)
    (hcache : ∀ v, d'.seqCache repo = some v → d.seqCache repo = some v)
    (hmin : d.minted ≤ d'.minted) : Metered H mint repo d' := by
  have hcount : d'.counter repo = d.counter repo := by rw [Daemon.counter, hfile, Daemon.counter]
  have hs := h.sane
  have hsane : Sane mint repo d' := by
    constructor
    case nodup => rw [hrows]; exact hs.nodup
    case minted =>
      intro r hr
      obtain ⟨n, hn, hid⟩ := hs.minted r (hrows ▸ hr)
      exact ⟨n, Nat.lt_of_lt_of_le hn hmin, hid⟩
    case logged => rw [hrows, hlog]; exact hs.logged
    case scope => rw [hrows]; exact hs.scope
    case targets => rw [hlog]; exact hs.targets
    case bound => rw [hlog, hcount]; exact hs.bound
    case cached =>
      intro v hv
      rw [hcount]
      exact hs.cached v (hcache v hv)
  constructor
  case sane => exact hsane
  case keys => rw [hlog]; exact h.keys
  case attempted => rw [hlog, hatt]; exact h.attempted
  case distinct => rw [hatt]; exact h.distinct
  case marked => rw [hrows]; exact h.marked
  case unspent => rw [hrows, hatt]; exact h.unspent
  case spent => rw [hrows, hlog]; exact h.spent
  case once => rw [hlog]; exact h.once
  case complete => rw [hruns]; exact h.complete
  case honest => rw [hruns]; exact h.honest

variable {e : LandingQueueEntry}

theorem Own.of_rows (h : Own d e) (hrows : d'.rows = d.rows) : Own d' e := by
  obtain ⟨r, ⟨hr, huniq⟩, hre⟩ := h
  exact ⟨r, ⟨hrows ▸ hr, hrows ▸ huniq⟩, hre⟩

theorem Own.deleteRow (h : Own d e) (hnd : (d.rows.map Row.id).Nodup)
    (hx : x ∈ d.rows) (hne : x.seq ≠ e.seq) : Own (d.deleteRow x.id) e := by
  obtain ⟨r, ⟨hr, huniq⟩, rfl⟩ := h
  refine ⟨r, ⟨mem_deleteRow.mpr ⟨hr, fun he => hne ?_⟩, ?_⟩, rfl⟩
  · rw [inj_on_of_nodup_map hnd hr hx he]
    rfl
  · exact fun y hy => huniq y (mem_deleteRow.mp hy).1

theorem Own.deleteStale (h : Own d e) (hnd : (d.rows.map Row.id).Nodup)
    (hx : x ∈ d.rows) (hw : w ∈ d.rows) (hseq : w.seq = x.seq) (hfr : w.fresher x) :
    Own (d.deleteRow x.id) e := by
  refine h.deleteRow hnd hx fun he => ?_
  obtain ⟨r, ⟨-, huniq⟩, rfl⟩ := h
  have hxr : x = r := huniq x hx he
  have hwr : w = r := huniq w hw (hseq.trans he)
  exact hfr.ne (hwr.trans hxr.symm)

variable {next : LandingQueueEntry}

theorem Own.addRow (h : Own d e) (hne : next.seq ≠ e.seq) : Own (d.addRow mint next) e := by
  obtain ⟨r, ⟨hr, huniq⟩, rfl⟩ := h
  refine ⟨r, ⟨mem_append_left _ hr, ?_⟩, rfl⟩
  exact forall_mem_concat.mpr ⟨huniq, fun hyseq => absurd hyseq hne⟩

/-- A row of a number that is new, or of one whose only row is `r`. -/
theorem Metered.addRow (h : Metered H mint repo d) {next : LandingQueueEntry}
    (hsane : Sane mint repo (d.addRow mint next))
    (hkey : ∀ r ∈ d.log, r.seq = next.seq → r.entry.key = next.key)
    (hmark : next.gateInfraRetryCheck.isSome → next.gateInfraRetryUsed = true)
    (hfree : next.gateInfraRetryUsed = false → ∀ a ∈ d.attempts, a.seq ≠ next.seq)
    (hlater : ∀ r ∈ d.log, r.seq = next.seq → r.used = true → next.gateInfraRetryUsed = true)
    (hold : next.gateInfraRetryUsed = true → ∀ x ∈ d.rows, x.seq = next.seq →
      x.used = true ∨ x.rev < next.rev) :
    Metered H mint repo (d.addRow mint next) := by
  have hrows : ∀ r ∈ (d.addRow mint next).rows, r ∈ d.rows ∨ r = ⟨mint d.minted, next⟩ :=
    fun r hr => (mem_append.mp hr).imp id mem_singleton.mp
  have hlog : ∀ r ∈ (d.addRow mint next).log, r ∈ d.log ∨ r = ⟨mint d.minted, next⟩ :=
    fun r hr => (mem_append.mp hr).imp id mem_singleton.mp
  have hnew : (⟨mint d.minted, next⟩ : Row) ∈ (d.addRow mint next).rows :=
    mem_concat_self
  constructor
  case sane => exact hsane
  case keys =>
    intro r hr r' hr' hseq
    rcases hlog r hr with hr | rfl <;> rcases hlog r' hr' with hr' | rfl
    · exact h.keys r hr r' hr' hseq
    · exact hkey r hr hseq
    · exact (hkey r' hr' hseq.symm).symm
    · rfl
  case attempted =>
    intro a ha
    obtain ⟨hrepo, r, hr, hk⟩ := h.attempted a ha
    exact ⟨hrepo, r, mem_append_left _ hr, hk⟩
  case distinct => exact h.distinct
  case marked =>
    intro r hr
    rcases hrows r hr with hr | rfl
    · exact h.marked r hr
    · exact hmark
  case unspent =>
    intro r hr
    rcases hrows r hr with hr | rfl
    · exact h.unspent r hr
    · exact hfree
  case spent =>
    intro r hr hused x hx hseq
    rcases hrows x hx with hx | rfl
    · rcases hlog r hr with hr | rfl
      · rcases h.spent r hr hused x hx hseq with hu | ⟨w, hw, hk⟩
        · exact .inl hu
        · exact .inr ⟨w, mem_append_left _ hw, hk⟩
      · rcases hold hused x hx hseq with hu | hlt
        · exact .inl hu
        · exact .inr ⟨_, hnew, hseq.symm, hused, hlt⟩
    · left
      rcases hlog r hr with hr | rfl
      · exact hlater r hr hseq.symm hused
      · exact hused
  case once =>
    show (d.log ++ [(⟨mint d.minted, next⟩ : Row)]).Pairwise _
    rw [pairwise_append]
    refine ⟨h.once, pairwise_singleton _ _, ?_⟩
    intro r hr r' hr' hseq hused
    rw [mem_singleton.mp hr'] at hseq ⊢
    exact hlater r hr hseq hused
  case complete => exact h.complete
  case honest => exact h.honest

variable {r : Row}

theorem Metered.sole_spent (h : Metered H mint repo d) (hx : Sole d x) (hr : r ∈ d.log)
    (hseq : r.seq = x.seq) (hused : r.used = true) : x.used = true := by
  rcases h.spent r hr hused x hx.1 hseq.symm with hu | ⟨w, hw, hws, -, hlt⟩
  · exact hu
  · rw [hx.2 w hw hws] at hlt
    omega

theorem Metered.succeed (h : Metered H mint repo d) (hmint : Injective mint)
    (hsole : Sole d r) (hn : Succeeds repo r next) :
    Metered H mint repo (d.addRow mint next) := by
  have hrl : r ∈ d.log := h.sane.logged hsole.1
  refine h.addRow (h.sane.continues hmint hsole.1 hn.continues) ?_ hn.marked ?_ ?_ ?_
  · intro x hx hseq
    rw [hn.key]
    exact h.keys x hx r hrl (hseq.trans hn.seq)
  · intro hfalse
    rw [hn.seq]
    refine h.unspent r hsole.1 ?_
    cases hu : r.used with
    | false => rfl
    | true =>
      have := hn.used hu
      rw [hfalse] at this
      cases this
  · intro x hx hseq hused
    exact hn.used (h.sole_spent hsole hx (hseq.trans hn.seq) hused)
  · intro hused x hx hseq
    rw [hsole.2 x hx (hseq.trans hn.seq)]
    exact hn.rev hused

theorem Sole.replace (h : Sane mint repo d) (hmint : Injective mint) (hsole : Sole d r)
    (hseq : next.seq = r.seq) :
    Sole ((d.addRow mint next).deleteRow r.id) ⟨mint d.minted, next⟩ := by
  refine ⟨mem_deleteRow.mpr ⟨mem_concat_self, (h.fresh_id hmint hsole.1).symm⟩, ?_⟩
  intro y hy hyseq
  obtain ⟨hy, hid⟩ := mem_deleteRow.mp hy
  rcases mem_append.mp hy with hy | hy
  · have hyr : y = r := hsole.2 y hy (hyseq.trans hseq)
    exact absurd (congrArg Row.id hyr) hid
  · exact mem_singleton.mp hy

theorem Metered.replace (h : Metered H mint repo d) (hmint : Injective mint)
    (hsole : Sole d r) (hn : Succeeds repo r next) :
    Metered H mint repo ((d.addRow mint next).deleteRow r.id) := by
  have hadd := h.succeed hmint hsole hn
  refine hadd.rows_subset filter_sublist ?_
  intro x hx hused y hy hyseq
  obtain ⟨hy', -⟩ := mem_deleteRow.mp hy
  rcases hadd.spent x hx hused y hy' hyseq with hu | ⟨w, hw, hws, hwu, hlt⟩
  · exact .inl hu
  · by_cases hid : w.id = r.id
    -- above the row that goes there is only its successor, which knows what it knew
    · have hwr : w = r :=
        inj_on_of_nodup_map hadd.sane.nodup hw (mem_append_left _ hsole.1) hid
      have hys : y.seq = (⟨mint d.minted, next⟩ : Row).seq := by
        rw [← hws, hwr]
        exact hn.seq.symm
      have hynew := (Sole.replace h.sane hmint hsole hn.seq).2 y hy hys
      left
      rw [hynew]
      exact hn.used (hwr ▸ hwu)
    · exact .inr ⟨w, mem_deleteRow.mpr ⟨hw, hid⟩, hws, hwu, hlt⟩

/-- The state while the consumer holds `os`, and after an error in the work on another
entry. -/
structure Guarded (H : Prop) (mint : Nat → RecordId) (repo : String)
    (os : List LandingQueueEntry) (d : Daemon) : Prop where
  metered : Metered H mint repo d
  owned : ∀ e ∈ os, Own d e

structure Tended (H : Prop) (mint : Nat → RecordId) (repo : String)
    (os : List LandingQueueEntry) (as : List GateAttempt) (d : Daemon) : Prop
    extends Guarded H mint repo os d where
  attempts : d.attempts = as

variable {os : List LandingQueueEntry} {as : List GateAttempt} {e : LandingQueueEntry}

theorem Tended.tail (h : Tended H mint repo (e :: os) as d) : Guarded H mint repo os d :=
  ⟨h.metered, fun x hx => h.owned x (mem_cons_of_mem _ hx)⟩

section
variable (h : Guarded H mint repo os d)
include h

theorem Guarded.scope (he : e ∈ os) : e.repoName = repo := by
  obtain ⟨r, hr, rfl⟩ := h.owned e he
  exact h.metered.sane.scope r hr.1

theorem Guarded.marked (he : e ∈ os) (hm : e.gateInfraRetryCheck.isSome) :
    e.gateInfraRetryUsed = true := by
  obtain ⟨r, hr, rfl⟩ := h.owned e he
  exact h.metered.marked r hr.1 hm

theorem Guarded.record (hrows : d'.rows = d.rows) (hlog : d'.log = d.log)
    (hatt : d'.attempts = d.attempts) (hruns : d'.gateRuns = d.gateRuns)
    (hfile : d'.seqFile = d.seqFile) (hcache : d'.seqCache = d.seqCache)
    (hmin : d.minted ≤ d'.minted) : Guarded H mint repo os d' :=
  ⟨h.metered.record hrows hlog hatt hruns hfile (fun _ hv => hcache ▸ hv) hmin,
    fun e he => (h.owned e he).of_rows hrows⟩

theorem Guarded.deleteStale (hx : x ∈ d.rows) (hw : w ∈ d.rows) (hseq : w.seq = x.seq)
    (hfr : w.fresher x) : Guarded H mint repo os (d.deleteRow x.id) :=
  ⟨h.metered.deleteStale hx hw hseq hfr,
    fun e he => (h.owned e he).deleteStale h.metered.sane.nodup hx hw hseq hfr⟩

end

theorem scanCurrent_guarded (r : String) (t : Option String) :
    Triple (Guarded H mint repo os) (Guarded H mint repo os) (scanCurrent r t)
      (fun rows d => Guarded H mint repo os d ∧ Scanned r t rows d) :=
  scanCurrent_triple (fun _ h => h.metered.sane.nodup)
    (fun _ _ _ hd hx hw _ hseq hfr => hd.deleteStale hx hw hseq hfr) r t

theorem scanCurrent_tended (r : String) (t : Option String) :
    Triple (Tended H mint repo os as) (Tended H mint repo os as) (scanCurrent r t)
      (fun rows d => Tended H mint repo os as d ∧ Scanned r t rows d) :=
  scanCurrent_triple (fun _ h => h.metered.sane.nodup)
    (fun _ _ _ hd hx hw _ hseq hfr => ⟨hd.deleteStale hx hw hseq hfr, hd.attempts⟩) r t

variable {row : Row}

theorem Scanned.sole {rows : List Row} {t : Option String} (h : Scanned repo t rows d)
    (hs : Sane mint repo d) (hrow : row ∈ rows) : Sole d row := by
  have hp := h.sub row hrow
  refine ⟨(mem_pending.mp hp).1, fun y hy hseq => ?_⟩
  exact inj_on_of_nodup_map h.seqs (h.all y (hs.pending_of_seq hp hy hseq)) hrow hseq

theorem find_tended (he : e ∈ os) {e' : LandingQueueEntry} (hr : e'.repoName = e.repoName)
    (hq : e'.seq = e.seq) :
    Triple (Tended H mint repo os as) (Tended H mint repo os as) (find e') (fun o d =>
      Tended H mint repo os as d ∧ ∃ row, o = some row ∧ Sole d row ∧ row.entry = e) := by
  refine .bind (scanCurrent_tended e'.repoName none) fun rows => .pure ?_
  rintro d ⟨hd, hrows⟩
  refine ⟨hd, ?_⟩
  have hscope := hd.scope he
  obtain ⟨r, hsole, rfl⟩ := hd.owned e he
  have hm : r ∈ rows :=
    hrows.all r (mem_pending.mpr ⟨hsole.1, hscope.trans (hr.trans hscope).symm, .inl rfl⟩)
  cases hf : rows.find? (fun x => x.seq = e'.seq) with
  | none =>
    have hno := find?_eq_none.mp hf r hm
    exact absurd (decide_eq_true hq.symm) hno
  | some row =>
    have hrow := (mem_pending.mp (hrows.sub row (mem_of_find?_eq_some hf))).1
    have hseq : row.seq = e'.seq := by simpa using find?_some hf
    have hrr : row = r := hsole.2 row hrow (hseq.trans hq)
    subst hrr
    exact ⟨row, rfl, hsole, rfl⟩

theorem replaceRow_tended (hmint : Injective mint) (hd : Guarded H mint repo os d)
    (hsole : Sole d row) (hn : Succeeds repo row next) (hos : ∀ o ∈ os, o.seq ≠ row.seq) :
    Triple (Guarded H mint repo os) (fun x => x = d) (replaceRow mint next row.id)
      (fun _ x => Tended H mint repo (next :: os) d.attempts x ∧
        ∀ r, Sole d r → r.seq ≠ row.seq → Sole x r) := by
  have hnd := (hd.metered.sane.continues hmint hsole.1 hn.continues).nodup
  have hadd : Guarded H mint repo os (d.addRow mint next) :=
    ⟨hd.metered.succeed hmint hsole hn,
      fun o ho => (hd.owned o ho).addRow (hn.seq ▸ (hos o ho).symm)⟩
  have hdel : Guarded H mint repo os ((d.addRow mint next).deleteRow row.id) :=
    ⟨hd.metered.replace hmint hsole hn, fun o ho =>
      (hadd.owned o ho).deleteRow hnd (mem_append_left _ hsole.1) (hos o ho).symm⟩
  refine (replaceRow_exact hadd hdel).mono (fun _ hx => hx) ?_
  rintro _ x rfl
  refine ⟨⟨⟨hdel.metered, forall_mem_cons.mpr ⟨?_, hdel.owned⟩⟩, rfl⟩, fun r hr hne => ?_⟩
  · exact ⟨_, .replace hd.metered.sane hmint hsole hn.seq, rfl⟩
  · refine ⟨mem_deleteRow.mpr ⟨mem_append_left _ hr.1, fun he => hne ?_⟩, ?_⟩
    · rw [inj_on_of_nodup_map hd.metered.sane.nodup hr.1 hsole.1 he]
    · intro y hy hseq
      rcases mem_append.mp (mem_deleteRow.mp hy).1 with hy | hy
      · exact hr.2 y hy hseq
      · rw [mem_singleton.mp hy] at hseq
        exact absurd (hseq.symm.trans hn.seq) hne

structure Edit (e e' : LandingQueueEntry) : Prop extends Same e e' where
  rev : e'.rev = e.rev
  used : e.gateInfraRetryUsed = true → e'.gateInfraRetryUsed = true
  marked : e'.gateInfraRetryCheck.isSome → e'.gateInfraRetryUsed = true

theorem persist_tended (hmint : Injective mint) {e' : LandingQueueEntry}
    (he : Edit e e') (hos : ∀ o ∈ os, o.seq ≠ e.seq) (st : LandingEntryStatus) (now : DateTime) :
    Triple (Guarded H mint repo os) (Tended H mint repo (e :: os) as) (persist mint e' st now)
      (fun p d => Tended H mint repo (p :: os) as d ∧ p = e'.moved st now) := by
  refine .bind (((find_tended mem_cons_self he.repoName he.seq).crash_mono
    fun _ h => h.tail).mono (fun _ h => h) fun _ _ h => h) fun o => ?_
  refine .of_start ?_
  rintro d ⟨hd, row, rfl, hsole, rfl⟩
  have hn : Succeeds repo row (e'.moved st now) :=
    { scope := he.repoName.trans (hd.scope mem_cons_self)
      seq := he.seq
      key := he.key
      used := he.used
      marked := he.marked
      rev := fun _ => .inr (by rw [moved_rev, he.rev]; exact Nat.lt_succ_self _) }
  refine .bind (replaceRow_tended hmint hd.tail hsole hn hos) fun _ => .pure ?_
  rintro x ⟨hx, -⟩
  exact ⟨⟨hx.toGuarded, hx.attempts.trans hd.attempts⟩, rfl⟩

/-- The same work with the same budget. -/
structure Alike (e e' : LandingQueueEntry) : Prop extends Same e e' where
  used : e'.gateInfraRetryUsed = e.gateInfraRetryUsed
  check : e'.gateInfraRetryCheck = e.gateInfraRetryCheck

theorem Alike.refl (e : LandingQueueEntry) : Alike e e := ⟨⟨rfl, rfl, rfl⟩, rfl, rfl⟩

/-- The consumer's copy `e` agrees with the owned row in all but status and revision. -/
def Copied (H : Prop) (mint : Nat → RecordId) (repo : String) (os : List LandingQueueEntry)
    (e : LandingQueueEntry) (d : Daemon) : Prop :=
  ∃ e₁, Alike e₁ e ∧ Guarded H mint repo (e₁ :: os) d

theorem Copied.tail (h : Copied H mint repo os e d) : Guarded H mint repo os d := by
  obtain ⟨e₁, -, hd⟩ := h
  exact ⟨hd.metered, fun o ho => hd.owned o (mem_cons_of_mem _ ho)⟩

theorem setStatus_copied (hmint : Injective mint) (hos : ∀ o ∈ os, o.seq ≠ e.seq)
    (st : LandingEntryStatus) (now : DateTime) :
    Triple (Guarded H mint repo os) (Copied H mint repo os e) (setStatus mint e st now)
      (fun _ d => Copied H mint repo os e d) := by
  refine .of_start ?_
  rintro d ⟨e₁, hs, hd⟩
  have hstart : ∀ x, x = d → Tended H mint repo (e₁ :: os) d.attempts x := by
    rintro x rfl
    exact ⟨hd, rfl⟩
  refine .bind (((find_tended mem_cons_self hs.repoName hs.seq).crash_mono
    fun _ h => h.tail).mono hstart fun _ _ h => h) fun o => ?_
  refine .of_start ?_
  rintro x ⟨hx, row, rfl, hsole, rfl⟩
  have hn : Succeeds repo row (e.moved st now) :=
    { scope := hs.repoName.trans (hx.scope mem_cons_self)
      seq := hs.seq
      key := hs.key
      used := hs.used.trans
      marked := fun hm => hs.used.trans (hx.marked mem_cons_self (hs.check ▸ hm))
      rev := fun hu => .inl (hs.used.symm.trans hu) }
  have hos' : ∀ o ∈ os, o.seq ≠ row.seq := fun o ho he => hos o ho (he.trans hs.seq.symm)
  refine (replaceRow_tended hmint hx.tail hsole hn hos').mono (fun _ h => h) ?_
  rintro _ y ⟨hy, -⟩
  exact ⟨e.moved st now, ⟨⟨rfl, rfl, rfl⟩, rfl, rfl⟩, hy.toGuarded⟩

theorem find_guarded (hr : e.repoName = repo) :
    Triple (Guarded H mint repo os) (Guarded H mint repo os) (find e) (fun o d =>
      Guarded H mint repo os d ∧ ∀ row, o = some row → Sole d row ∧ row.seq = e.seq) := by
  refine .bind (scanCurrent_guarded e.repoName none) fun rows => .pure ?_
  rintro x ⟨hx, hrows⟩
  rw [hr] at hrows
  refine ⟨hx, fun row hrow => ⟨?_, by simpa using find?_some hrow⟩⟩
  exact hrows.sole hx.metered.sane (mem_of_find?_eq_some hrow)

theorem remove_guarded (hr : e.repoName = repo) (hos : ∀ o ∈ os, o.seq ≠ e.seq) :
    Triple (Guarded H mint repo os) (Guarded H mint repo os) (remove e)
      (fun _ d => Guarded H mint repo os d) := by
  refine .bind (find_guarded hr) fun o => ?_
  cases o with
  | none => exact .pure fun _ h => h.1
  | some row =>
    have hdel : ∀ x, (Guarded H mint repo os x ∧ ∀ r, some row = some r → Sole x r ∧
        r.seq = e.seq) → Guarded H mint repo os (x.deleteRow row.id) := by
      rintro x ⟨hx, hrow⟩
      obtain ⟨hsole, hseq⟩ := hrow row rfl
      exact ⟨hx.metered.deleteSole hsole, fun o ho => (hx.owned o ho).deleteRow
        hx.metered.sane.nodup hsole.1 (hseq ▸ (hos o ho).symm)⟩
    exact .write hdel hdel

/-- An entry without a budget spent, as submissions and `requeue_tail` make it. -/
def Fresh (e : LandingQueueEntry) : Prop :=
  e.gateInfraRetryUsed = false ∧ e.gateInfraRetryCheck = none
deriving Decidable

theorem enqueue_guarded (hmint : Injective mint) (hr : e.repoName = repo) (hf : Fresh e)
    (now : DateTime) :
    Triple (Guarded H mint repo os) (Guarded H mint repo os) (enqueue mint e now)
      (fun _ d => Guarded H mint repo os d) := by
  refine .of_start fun d hd => ?_
  obtain ⟨hsane, hlt⟩ := hd.metered.sane.setSeq
  let n := d.currentSeq repo + 1
  have hset : Guarded H mint repo os (d.setSeq repo n) :=
    ⟨{ hd.metered with sane := hsane }, fun o ho => (hd.owned o ho).of_rows rfl⟩
  have hne : ∀ r ∈ d.log, r.seq ≠ n := fun r hr' => Nat.ne_of_lt (hlt r hr')
  have hadd : Guarded H mint repo os ((d.setSeq repo n).addRow mint (e.queuedAs n now)) := by
    refine ⟨hset.metered.addRow (hsane.addRow hmint hr ?_ ?_) ?_ ?_ ?_ ?_ ?_, fun o ho => ?_⟩
    · rw [counter_setSeq]
      exact Nat.le_refl _
    · exact fun r hr' hseq => absurd hseq (hne r hr')
    · exact fun r hr' hseq => absurd hseq (hne r hr')
    · intro hm
      have hn : (e.queuedAs n now).gateInfraRetryCheck = none := hf.2
      rw [hn] at hm
      cases hm
    · intro _ a ha hseq
      obtain ⟨-, r, hr', hrs, -⟩ := hd.metered.attempted a ha
      exact hne r hr' (hrs.trans hseq)
    · exact fun r hr' hseq => absurd hseq (hne r hr')
    · exact fun _ x hx hseq => absurd hseq (hne x (hd.metered.sane.logged hx))
    · refine (hset.owned o ho).addRow fun he => ?_
      obtain ⟨r, hsole, rfl⟩ := hd.owned o ho
      exact hne r (hd.metered.sane.logged hsole.1) he.symm
  refine (enqueue_exact hr now hset hadd).mono (fun _ hx => hx) ?_
  rintro _ x rfl
  exact hadd

theorem Guarded.subset {os' : List LandingQueueEntry} (h : Guarded H mint repo os d)
    (hsub : os' ⊆ os) : Guarded H mint repo os' d :=
  ⟨h.metered, fun e he => h.owned e (hsub he)⟩

theorem claimRow_tended (hmint : Injective mint) (now : DateTime)
    (hd : Guarded H mint repo os d) (hsole : Sole d row) (hos : ∀ o ∈ os, o.seq ≠ row.seq) :
    Triple (Guarded H mint repo os) (fun x => x = d) (claimRow mint now row) (fun e x =>
      (Tended H mint repo (e :: os) d.attempts x ∧ ∀ r, Sole d r → r.seq ≠ row.seq → Sole x r) ∧
        e = row.entry.claimed now) := by
  unfold claimRow
  cases row.entry.validatePersisted with
  | error _ => exact .fail
  | ok _ =>
    have hn : Succeeds repo row (row.entry.claimed now) :=
      { scope := (row.entry.claimed_repoName now).trans (hd.metered.sane.scope row hsole.1)
        seq := row.entry.claimed_seq now
        key := row.entry.claimed_key now
        used := fun hu => (row.entry.claimed_used now).trans hu
        marked := by
          rw [claimed_check, claimed_used]
          exact hd.metered.marked row hsole.1
        rev := fun hu => .inl ((row.entry.claimed_used now).symm.trans hu) }
    exact .bind (replaceRow_tended hmint hd hsole hn hos) fun _ =>
      .pure fun x hx => ⟨hx, rfl⟩

/-- Claiming the rows `rows`, each the only one of its number and none of them owned. -/
theorem claimRows_guarded (hmint : Injective mint) (now : DateTime) (rows : List Row) :
    ∀ {os : List LandingQueueEntry}, (rows.map Row.seq).Nodup →
      (∀ row ∈ rows, ∀ o ∈ os, o.seq ≠ row.seq) →
      Triple (Guarded H mint repo os) (fun d => Guarded H mint repo os d ∧ ∀ row ∈ rows, Sole d row)
        (claimRows mint now rows) (fun es d => Guarded H mint repo (es ++ os) d ∧
          es.map seq = rows.map Row.seq) := by
  induction rows with
  | nil =>
    intro os _ _
    exact .pure fun d hd => ⟨hd.1, rfl⟩
  | cons row rows ih =>
    intro os hnd hos
    rw [map_cons, nodup_cons] at hnd
    refine .of_start ?_
    rintro d ⟨hd, hsole⟩
    refine .bind (claimRow_tended hmint now hd (hsole row mem_cons_self)
      (hos row mem_cons_self)) fun _ => ?_
    refine .of_start ?_
    rintro x ⟨⟨hx, hkeep⟩, rfl⟩
    have hne : ∀ r ∈ rows, r.seq ≠ row.seq :=
      fun r hr he => hnd.1 (he ▸ mem_map_of_mem hr)
    have hos' : ∀ r ∈ rows, ∀ o ∈ row.entry.claimed now :: os, o.seq ≠ r.seq := by
      intro r hr
      refine forall_mem_cons.mpr ⟨?_, hos r (mem_cons_of_mem _ hr)⟩
      rw [claimed_seq]
      exact (hne r hr).symm
    have hstart : ∀ y, y = x → Guarded H mint repo (row.entry.claimed now :: os) y ∧
        ∀ r ∈ rows, Sole y r := by
      rintro y rfl
      exact ⟨hx.toGuarded, fun r hr => hkeep r (hsole r (mem_cons_of_mem _ hr)) (hne r hr)⟩
    refine .bind (((ih hnd.2 hos').crash_mono fun _ h => h.subset (subset_cons_self _ _)).mono
      hstart fun _ _ h => h) fun es => .pure ?_
    rintro y ⟨hy, hes⟩
    refine ⟨hy.subset ?_, ?_⟩
    · have hperm : (es ++ row.entry.claimed now :: os).Perm (row.entry.claimed now :: (es ++ os)) :=
        perm_middle
      exact hperm.symm.subset
    · rw [map_cons, map_cons, hes, claimed_seq]
      rfl

end

end RatKingdom.Landing
