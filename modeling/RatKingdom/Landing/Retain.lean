/-
The landing queue loses no candidate.

Every operation is a program of single writes, so a crash or a failed call can leave
any of the states in between.  `Safe` is the condition all of these states satisfy: the
rows of a repository that share a sequence number carry the same work, no number beyond
the counter file is in use, and every accepted candidate still has a row, a processed
marker or a quarantine archive.
-/
import RatKingdom.Lib.Run
import RatKingdom.Landing.Carry

namespace RatKingdom.Landing

open Lib Core List Function Option

/-- An entry in the hands of the consumer; `settled` once processing it has returned. -/
structure Held where
  entry : LandingQueueEntry
  settled : Bool := false

/-- What is known outside the store: the entries the consumer holds, and the candidates
an enqueue has accepted so far. -/
structure Client where
  held : List Held := []
  accepted : List LandingQueueEntry := []

def Daemon.counter (d : Daemon) (repo : String) : Nat :=
  (d.seqFile (sanitizePathComponent repo)).getD 0

/-- A `landing_processed` marker of the same branch, head and target, or a quarantine
archive of the same work. -/
def Daemon.Retired (d : Daemon) (repo : String) (k : WorkKey) : Prop :=
  (∃ m ∈ d.processed, m.repoName = repo ∧ m.branch = k.branch ∧ m.headSha = k.headSha ∧
    m.target = k.target) ∨
  (∃ q ∈ d.quarantine, q.entry.repoName = repo ∧ q.entry.key = k)

def Daemon.Live (d : Daemon) (repo : String) (k : WorkKey) : Prop :=
  ∃ r ∈ d.rows, r.entry.repoName = repo ∧ r.entry.key = k

def Daemon.Kept (d : Daemon) (repo : String) (k : WorkKey) : Prop :=
  d.Live repo k ∨ d.Retired repo k

/-- The repository itself, or one whose counter is another file. -/
def Alone (repo other : String) : Prop :=
  other = repo ∨ sanitizePathComponent other ≠ sanitizePathComponent repo

section
variable (repo : String) (c : Client)

/-- The entry's number has been handed out, and no row and no held entry of the
repository uses it for other work. -/
def Fits (d : Daemon) (e : LandingQueueEntry) : Prop :=
  e.repoName = repo → e.seq ≤ d.counter repo ∧
    (∀ r ∈ d.rows, r.entry.repoName = repo → r.seq = e.seq → r.entry.key = e.key) ∧
    (∀ h ∈ c.held, h.entry.repoName = repo → h.entry.seq = e.seq → h.entry.key = e.key)

def Succeeded (d : Daemon) (e : LandingQueueEntry) : Prop :=
  e.repoName = repo → d.Retired repo e.key ∨
    ∃ r ∈ d.rows, r.entry.repoName = repo ∧ r.entry.key = e.key ∧ e.seq < r.seq

structure Safe (mint : Nat → RecordId) (d : Daemon) : Prop where
  nodup : (d.rows.map Row.id).Nodup
  minted : ∀ r ∈ d.rows, ∃ n < d.minted, r.id = mint n
  alone : ∀ r ∈ d.rows, Alone repo r.entry.repoName
  fits : ∀ r ∈ d.rows, Fits repo c d r.entry
  cached : ∀ v, d.seqCache repo = some v → v = d.counter repo
  heldAlone : ∀ h ∈ c.held, Alone repo h.entry.repoName
  heldFits : ∀ h ∈ c.held, Fits repo c d h.entry
  settled : ∀ h ∈ c.held, h.settled = true → Succeeded repo d h.entry
  accepted : ∀ e ∈ c.accepted, e.repoName = repo → d.Kept repo e.key

end

section
variable {mint : Nat → RecordId} {repo : String} {c : Client} {d : Daemon}

theorem Daemon.Retired.mono {d' : Daemon} {k : WorkKey} (h : d.Retired repo k)
    (hp : d.processed ⊆ d'.processed) (hq : d.quarantine ⊆ d'.quarantine) :
    d'.Retired repo k := by
  rcases h with ⟨m, hm, hk⟩ | ⟨q, hq', hk⟩
  · exact .inl ⟨m, hp hm, hk⟩
  · exact .inr ⟨q, hq hq', hk⟩

variable {e e' : LandingQueueEntry}

theorem Fits.congr (h : Fits repo c d e) (hr : e'.repoName = e.repoName) (hs : e'.seq = e.seq)
    (hk : e'.key = e.key) :
    Fits repo c d e' := by
  intro he
  rw [hs, hk]
  exact h (hr ▸ he)

theorem Fits.addRow {x : LandingQueueEntry} (hx : Fits repo c d x)
    (hex : e.repoName = repo → x.repoName = repo → e.seq = x.seq → e.key = x.key) :
    Fits repo c (d.addRow mint e) x := by
  intro hr
  obtain ⟨hle, hrows, hheld⟩ := hx hr
  refine ⟨hle, ?_, hheld⟩
  exact forall_mem_concat.mpr ⟨hrows, fun hrr hseq => hex hrr hr hseq⟩

/-- A row for work whose number is its own may be written. -/
theorem Safe.addRow (h : Safe repo c mint d) (hmint : Injective mint)
    (ha : Alone repo e.repoName) (he : Fits repo c d e) :
    Safe repo c mint (d.addRow mint e) := by
  have hrows : ∀ r ∈ (d.addRow mint e).rows, r ∈ d.rows ∨ r = ⟨mint d.minted, e⟩ := by
    intro r hr
    exact (mem_append.mp hr).imp id mem_singleton.mp
  have hkeep : ∀ r ∈ d.rows, r ∈ (d.addRow mint e).rows := fun r hr => mem_append_left _ hr
  constructor
  case nodup => exact nodup_concat_key h.nodup (fresh_of_drawn hmint h.minted)
  case minted => exact drawn_concat h.minted rfl
  case alone =>
    intro r hr
    rcases hrows r hr with hr | rfl
    · exact h.alone r hr
    · exact ha
  case fits =>
    intro r hr
    rcases hrows r hr with hr | rfl
    · refine (h.fits r hr).addRow fun hre hrr hseq => ?_
      exact ((he hre).2.1 r hr hrr hseq.symm).symm
    · exact he.addRow fun _ _ _ => rfl
  case cached => exact h.cached
  case heldAlone => exact h.heldAlone
  case heldFits =>
    intro x hx
    refine (h.heldFits x hx).addRow fun hre hxr hseq => ?_
    exact ((he hre).2.2 x hx hxr hseq.symm).symm
  case settled =>
    intro x hx hset hxr
    rcases h.settled x hx hset hxr with hret | ⟨r, hr, hk⟩
    · exact .inl hret
    · exact .inr ⟨r, hkeep r hr, hk⟩
  case accepted =>
    intro x hx hxr
    rcases h.accepted x hx hxr with ⟨r, hr, hk⟩ | hret
    · exact .inl ⟨r, hkeep r hr, hk⟩
    · exact .inr hret

/-- Another row carries the same work at the same place of the order or a later one, or
the work is retired. -/
def Outlived (repo : String) (d : Daemon) (r : Row) : Prop :=
  d.Retired repo r.entry.key ∨
    ∃ r' ∈ d.rows, r'.id ≠ r.id ∧ r'.entry.repoName = repo ∧ r'.entry.key = r.entry.key ∧
      r.seq ≤ r'.seq

theorem Safe.deleteRow (h : Safe repo c mint d) {i : RecordId}
    (ho : ∀ r ∈ d.rows, r.id = i → r.entry.repoName = repo → Outlived repo d r) :
    Safe repo c mint (d.deleteRow i) := by
  have hsub : ∀ r ∈ (d.deleteRow i).rows, r ∈ d.rows := fun r hr => (mem_deleteRow.mp hr).1
  have hfits : ∀ e, Fits repo c d e → Fits repo c (d.deleteRow i) e := by
    intro e he hr
    obtain ⟨hle, hrows, hheld⟩ := he hr
    exact ⟨hle, fun r hm => hrows r (hsub r hm), hheld⟩
  -- a row of the repository is still there, or what outlives it is
  have hl : ∀ r ∈ d.rows, r.entry.repoName = repo → d.Retired repo r.entry.key ∨
      ∃ r' ∈ (d.deleteRow i).rows, r'.entry.repoName = repo ∧ r'.entry.key = r.entry.key ∧
        r.seq ≤ r'.seq := by
    intro r hr hrr
    by_cases hid : r.id = i
    · rcases ho r hr hid hrr with hret | ⟨r', hr', hne, hr'r, hk, hle⟩
      · exact .inl hret
      · exact .inr ⟨r', mem_deleteRow.mpr ⟨hr', hid ▸ hne⟩, hr'r, hk, hle⟩
    · exact .inr ⟨r, mem_deleteRow.mpr ⟨hr, hid⟩, hrr, rfl, Nat.le_refl _⟩
  constructor
  case nodup => exact h.nodup.sublist (filter_sublist.map _)
  case minted => exact fun r hr => h.minted r (hsub r hr)
  case alone => exact fun r hr => h.alone r (hsub r hr)
  case fits => exact fun r hr => hfits _ (h.fits r (hsub r hr))
  case cached => exact h.cached
  case heldAlone => exact h.heldAlone
  case heldFits => exact fun x hx => hfits _ (h.heldFits x hx)
  case settled =>
    intro x hx hset hxr
    rcases h.settled x hx hset hxr with hret | ⟨r, hr, hrr, hk, hlt⟩
    · exact .inl hret
    · rcases hl r hr hrr with hret | ⟨r', hr', hr'r, hk', hle⟩
      · exact .inl (hk ▸ hret)
      · exact .inr ⟨r', hr', hr'r, hk'.trans hk, Nat.lt_of_lt_of_le hlt hle⟩
  case accepted =>
    intro x hx hxr
    rcases h.accepted x hx hxr with ⟨r, hr, hrr, hk⟩ | hret
    · rcases hl r hr hrr with hret | ⟨r', hr', hr'r, hk', -⟩
      · exact .inr (hk ▸ hret)
      · exact .inl ⟨r', hr', hr'r, hk'.trans hk⟩
    · exact .inr hret

theorem Safe.record (h : Safe repo c mint d) {d' : Daemon} (hrows : d'.rows = d.rows)
    (hfile : d'.seqFile = d.seqFile) (hcache : d'.seqCache = d.seqCache)
    (hmin : d.minted ≤ d'.minted) (hp : d.processed ⊆ d'.processed)
    (hq : d.quarantine ⊆ d'.quarantine) : Safe repo c mint d' := by
  have hcount : d'.counter repo = d.counter repo := by rw [Daemon.counter, hfile, Daemon.counter]
  have hfits : ∀ e, Fits repo c d e → Fits repo c d' e := by
    intro e he hr
    rw [hcount, hrows]
    exact he hr
  constructor
  case nodup => rw [hrows]; exact h.nodup
  case minted =>
    intro r hr
    obtain ⟨n, hn, hid⟩ := h.minted r (hrows ▸ hr)
    exact ⟨n, Nat.lt_of_lt_of_le hn hmin, hid⟩
  case alone => rw [hrows]; exact h.alone
  case fits =>
    intro r hr
    exact hfits _ (h.fits r (hrows ▸ hr))
  case cached => rw [hcache, hcount]; exact h.cached
  case heldAlone => exact h.heldAlone
  case heldFits => exact fun x hx => hfits _ (h.heldFits x hx)
  case settled =>
    intro x hx hset hxr
    rcases h.settled x hx hset hxr with hret | hrow
    · exact .inl (hret.mono hp hq)
    · exact .inr (hrows ▸ hrow)
  case accepted =>
    intro x hx hxr
    rcases h.accepted x hx hxr with hl | hret
    · left
      unfold Daemon.Live
      rw [hrows]
      exact hl
    · exact .inr (hret.mono hp hq)

theorem currentSeq_eq_counter (h : ∀ v, d.seqCache repo = some v → v = d.counter repo) :
    d.currentSeq repo = d.counter repo := by
  unfold Daemon.currentSeq
  cases hv : d.seqCache repo with
  | none => rfl
  | some v => exact h v hv

@[simp] theorem counter_setSeq (d : Daemon) (repo : String) (n : Nat) :
    (d.setSeq repo n).counter repo = n := by
  simp [Daemon.counter, Daemon.setSeq]

variable {other : String}

theorem counter_setSeq_ne (ha : Alone repo other) (ho : other ≠ repo) (n : Nat) :
    (d.setSeq other n).counter repo = d.counter repo := by
  have hs : sanitizePathComponent repo ≠ sanitizePathComponent other :=
    (ha.resolve_left ho).symm
  simp [Daemon.counter, Daemon.setSeq, hs]

theorem counter_le_setSeq (hcached : ∀ v, d.seqCache repo = some v → v = d.counter repo)
    (ha : Alone repo other) :
    d.counter repo ≤ (d.setSeq other (d.currentSeq other + 1)).counter repo := by
  by_cases ho : other = repo
  · subst ho
    rw [counter_setSeq, currentSeq_eq_counter hcached]
    exact Nat.le_succ _
  · rw [counter_setSeq_ne ha ho]

theorem cached_setSeq (hcached : ∀ v, d.seqCache repo = some v → v = d.counter repo)
    (ha : Alone repo other) (n v : Nat) (hv : (d.setSeq other n).seqCache repo = some v) :
    v = (d.setSeq other n).counter repo := by
  by_cases ho : other = repo
  · subst ho
    rw [counter_setSeq]
    simpa [Daemon.setSeq] using hv.symm
  · rw [counter_setSeq_ne ha ho]
    simp only [Daemon.setSeq, if_neg (Ne.symm ho)] at hv
    exact hcached v hv

theorem Safe.setSeq (h : Safe repo c mint d) (ha : Alone repo other) :
    Safe repo c mint (d.setSeq other (d.currentSeq other + 1)) ∧
      (other = repo → (d.setSeq other (d.currentSeq other + 1)).counter repo =
        d.counter repo + 1) := by
  have hmono := counter_le_setSeq h.cached ha
  have hfits : ∀ e, Fits repo c d e → Fits repo c (d.setSeq other (d.currentSeq other + 1)) e := by
    intro e he hr
    obtain ⟨hle, hrest⟩ := he hr
    exact ⟨hle.trans hmono, hrest⟩
  refine ⟨?_, ?_⟩
  · constructor
    case nodup => exact h.nodup
    case minted => exact h.minted
    case alone => exact h.alone
    case fits => exact fun r hr => hfits _ (h.fits r hr)
    case cached => exact cached_setSeq h.cached ha _
    case heldAlone => exact h.heldAlone
    case heldFits => exact fun x hx => hfits _ (h.heldFits x hx)
    case settled => exact h.settled
    case accepted => exact h.accepted
  · intro ho
    subst ho
    rw [counter_setSeq, currentSeq_eq_counter h.cached]

/-- The consumer holds this work. -/
def Tracked (c : Client) (e : LandingQueueEntry) : Prop := ∃ h ∈ c.held, Same h.entry e

theorem Safe.tracked (h : Safe repo c mint d) (ht : Tracked c e) :
    Alone repo e.repoName ∧ Fits repo c d e := by
  obtain ⟨x, hx, hs⟩ := ht
  exact ⟨hs.repoName ▸ h.heldAlone x hx, (h.heldFits x hx).congr hs.repoName hs.seq hs.key⟩

theorem Succeeded.of_same (h : Succeeded repo d e') (hs : Same e e') : Succeeded repo d e := by
  intro he
  rw [← hs.key, ← hs.seq]
  exact h (hs.repoName.trans he)

/-- Entries of the repository, or of one with a counter of its own, whose numbers fit. -/
abbrev Placed (repo : String) (c : Client) (e : LandingQueueEntry) (d : Daemon) : Prop :=
  Alone repo e.repoName ∧ Fits repo c d e

theorem safe_carries (hmint : Injective mint) :
    Carries mint (Safe repo c mint) (Placed repo c) where
  nodup := fun _ h => h.nodup
  fresh := by
    intro d h r hr he
    obtain ⟨n, hn, hid⟩ := h.minted r hr
    have hnd : n = d.minted := hmint (hid.symm.trans he)
    omega
  logged := fun _ h r hr => ⟨h.alone r hr, h.fits r hr⟩
  kin := fun _ _ _ h hk => ⟨hk.repoName ▸ h.1, h.2.congr hk.repoName hk.seq hk.key⟩
  drop := by
    intro d x w hd hx hw hne hwr hseq
    refine hd.deleteRow ?_
    intro y hy hid hyr
    have hyx : y = x := inj_on_of_nodup_map hd.nodup hy hx hid
    subst hyx
    have hkey : w.entry.key = y.entry.key := (hd.fits y hx hyr).2.1 w hw (hwr.trans hyr) hseq
    exact .inr ⟨w, hw, hne, hwr.trans hyr, hkey, Nat.le_of_eq hseq.symm⟩
  write := fun _ _ h hn _ => h.addRow hmint hn.1 hn.2
  note := fun _ _ h hb => h.record hb.rows hb.seqFile hb.seqCache hb.minted
    (hb.processed ▸ List.Subset.refl _) hb.quarantine
  hold := fun _ _ h _ =>
    h.record rfl rfl rfl (Nat.le_succ _) (List.Subset.refl _) (List.Subset.refl _)

theorem nextSeq_exact {C : Daemon → Prop} {r : String} (hw : C (d.setSeq r (d.currentSeq r + 1))) :
    Triple C (fun t => t = d) (nextSeq r)
      (fun n t => n = d.currentSeq r + 1 ∧ t = d.setSeq r (d.currentSeq r + 1)) := by
  refine .bind (Q := fun s t => s = d ∧ t = d) (.read ?_) fun s => ?_
  · rintro t rfl
    exact ⟨rfl, rfl⟩
  · by_cases hov : u64 ≤ s.currentSeq r + 1
    · simp only [if_pos hov]
      exact .fail
    · simp only [if_neg hov]
      refine .bind (Q := fun _ t => s = d ∧ t = d.setSeq r (d.currentSeq r + 1))
        (.write ?_ ?_) fun _ => .pure ?_
      · rintro t ⟨rfl, rfl⟩
        exact hw
      all_goals
        rintro t ⟨rfl, rfl⟩
        exact ⟨rfl, rfl⟩

theorem nextSeq_safe {r : String} (ha : Alone repo r) :
    Triple (Safe repo c mint) (Safe repo c mint) (nextSeq r) (fun n d =>
      Safe repo c mint d ∧ (r = repo → n = d.counter repo ∧
        (∀ x ∈ d.rows, x.entry.repoName = repo → x.seq < n) ∧
        ∀ h ∈ c.held, h.entry.repoName = repo → h.entry.seq < n)) := by
  refine .of_start fun d hd => ?_
  obtain ⟨hsafe, hcount⟩ := hd.setSeq ha
  refine (nextSeq_exact hsafe).mono (fun _ ht => ht) ?_
  rintro n t ⟨rfl, rfl⟩
  refine ⟨hsafe, fun hr => ?_⟩
  have hc := hcount hr
  have hcur : d.currentSeq r + 1 = d.counter repo + 1 := by
    rw [← hc, hr, counter_setSeq]
  refine ⟨by rw [hc, hcur], ?_, ?_⟩
  · intro x hx hxr
    have hle : x.seq ≤ d.counter repo := (hd.fits x hx hxr).1
    omega
  · intro h hh hhr
    have hle := (hd.heldFits h hh hhr).1
    omega

variable {e : LandingQueueEntry}

theorem enqueue_safe (hmint : Injective mint) (ha : Alone repo e.repoName) (now : DateTime) :
    Triple (Safe repo c mint) (Safe repo c mint) (enqueue mint e now) (fun _ d =>
      Safe repo c mint d ∧ (e.repoName = repo → ∃ r ∈ d.rows, r.entry.repoName = repo ∧
        r.entry.key = e.key ∧ ∀ h ∈ c.held, h.entry.repoName = repo → h.entry.seq < r.seq)) := by
  refine .bind (nextSeq_safe ha) fun n => ?_
  refine .bind (Q := fun _ d => Safe repo c mint d ∧ (e.repoName = repo →
    ∃ r ∈ d.rows, r.entry.repoName = repo ∧ r.entry.key = e.key ∧
      ∀ h ∈ c.held, h.entry.repoName = repo → h.entry.seq < r.seq)) ?_
    fun _ => .pure fun d hd => hd
  have hadd : ∀ d, Safe repo c mint d ∧ (e.repoName = repo → n = d.counter repo ∧
        (∀ x ∈ d.rows, x.entry.repoName = repo → x.seq < n) ∧
        ∀ h ∈ c.held, h.entry.repoName = repo → h.entry.seq < n) →
      Safe repo c mint (d.addRow mint (e.queuedAs n now)) := by
    rintro d ⟨hsafe, hn⟩
    refine hsafe.addRow hmint ha ?_
    intro hr
    obtain ⟨hcount, hrows, hheld⟩ := hn hr
    refine ⟨Nat.le_of_eq hcount, ?_, ?_⟩
    · intro x hx hxr hxs
      have hlt := hrows x hx hxr
      rw [hxs] at hlt
      exact absurd hlt (Nat.lt_irrefl n)
    · intro h hh hhr hhs
      have hlt := hheld h hh hhr
      rw [hhs] at hlt
      exact absurd hlt (Nat.lt_irrefl n)
  refine .write hadd ?_
  rintro d ⟨hsafe, hn⟩
  refine ⟨hadd d ⟨hsafe, hn⟩, fun hr => ?_⟩
  exact ⟨⟨mint d.minted, e.queuedAs n now⟩, mem_concat_self, hr, rfl, (hn hr).2.2⟩

theorem retired_of_admissionMarker {tip : Option String} {m : Processed}
    (h : d.admissionMarker e tip = .ok (some m)) (hr : e.repoName = repo) :
    d.Retired repo e.key := by
  unfold Daemon.admissionMarker at h
  cases hp : d.processedMarker e with
  | none => rw [hp] at h; cases h
  | some marker =>
    have hm := mem_reverse.mp (mem_of_find?_eq_some hp)
    have hf := find?_some hp
    simp only [decide_eq_true_eq] at hf
    obtain ⟨hrepo, hb, hh, ht⟩ := hf
    exact .inl ⟨marker, hm, hrepo.trans hr, hb, hh, ht⟩

theorem requeueTail_safe (hmint : Injective mint) (ht : Tracked c e)
    (ha : Alone repo e.repoName) (now : DateTime) :
    Triple (Safe repo c mint) (Safe repo c mint) (requeueTail mint e now) (fun _ d =>
      Safe repo c mint d ∧ Succeeded repo d e) := by
  refine (enqueue_safe (e := e.retry) hmint ha now).mono (fun _ h => h) ?_
  rintro n d ⟨hsafe, hrow⟩
  refine ⟨hsafe, fun hr => ?_⟩
  obtain ⟨r, hr', hrr, hk, hlt⟩ := hrow hr
  obtain ⟨x, hx, hs⟩ := ht
  refine .inr ⟨r, hr', hrr, hk, ?_⟩
  rw [hs.seq]
  exact hlt x hx (hs.repoName ▸ hr)

theorem safe_accounts (hmint : Injective mint) (ht : Tracked c e) :
    Accounts mint (Safe repo c mint) (Placed repo c) (fun _ d => Succeeded repo d e) e where
  toCarries := safe_carries hmint
  known := fun _ hd => hd.tracked ht
  mark := by
    intro d e' o word tip hd hk _
    refine ⟨hd.record rfl rfl rfl (Nat.le_succ _) (subset_append_left _ _)
      (List.Subset.refl _), fun hr => .inl (.inl ?_)⟩
    have hkey := hk.key
    simp only [LandingQueueEntry.key, WorkKey.mk.injEq] at hkey
    exact ⟨_, mem_concat_self, hk.repoName.trans hr, hkey.1, hkey.2.2.1, hkey.2.1⟩
  reconcile := fun _ _ _ _ hm hr => .inl (retired_of_admissionMarker hm hr)
  requeue := by
    intro e' now hk _
    obtain ⟨x, hx, hs⟩ := ht
    refine .of_start fun d hd => ?_
    have ha : Alone repo e'.repoName := hk.repoName ▸ (hd.tracked ⟨x, hx, hs⟩).1
    refine (requeueTail_safe hmint ⟨x, hx, hs.trans hk.toSame⟩ ha now).mono ?_
      fun _ _ h => ⟨h.1, h.2.of_same hk.toSame⟩
    rintro t rfl
    exact hd

theorem succeeded_of_archived (h : d.Archived e) : Succeeded repo d e := by
  obtain ⟨q, hq, hrepo, hk⟩ := h
  exact fun hr => .inl (.inr ⟨q, hq, hrepo.trans hr, hk⟩)

theorem remove_safe (hmint : Injective mint) {h : Held} (hh : h ∈ c.held) (hset : h.settled = true) :
    Triple (Safe repo c mint) (Safe repo c mint) (remove h.entry)
      (fun _ d => Safe repo c mint d) := by
  refine .bind (find_carries (safe_carries hmint) h.entry) fun o => ?_
  cases o with
  | none => exact .pure fun d hd => hd.1
  | some row =>
    have hdel : ∀ d, (Safe repo c mint d ∧ ∀ r, some row = some r →
        r ∈ d.rows ∧ r.entry.repoName = h.entry.repoName ∧ r.seq = h.entry.seq) →
        Safe repo c mint (d.deleteRow row.id) := by
      rintro d ⟨hd, hrow⟩
      obtain ⟨hm, hr, hseq⟩ := hrow row rfl
      refine hd.deleteRow ?_
      intro x hx hid hxr
      have hxrow : x = row := inj_on_of_nodup_map hd.nodup hx hm hid
      subst hxrow
      have hhr : h.entry.repoName = repo := hr.symm.trans hxr
      have hkey : x.entry.key = h.entry.key := (hd.heldFits h hh hhr).2.1 x hx hxr hseq
      rcases hd.settled h hh hset hhr with hret | ⟨r, hr', hrr, hk, hlt⟩
      · exact .inl (hkey ▸ hret)
      · refine .inr ⟨r, hr', ?_, hrr, hk.trans hkey.symm, by omega⟩
        intro he
        have hrx : r = x := inj_on_of_nodup_map hd.nodup hr' hx he
        rw [hrx] at hlt
        omega
    exact .write hdel hdel

theorem enqueueDisposition_safe (hmint : Injective mint) (ha : Alone repo e.repoName)
    (tip : Option String) (contained : Bool) (now : DateTime) :
    Triple (Safe repo c mint) (Safe repo c mint) (enqueueDisposition mint e tip contained now)
      (fun o d => Safe repo c mint d ∧
        ∀ n, o = .queued n → e.repoName = repo → d.Live repo e.key) := by
  refine .bind (Q := fun _ d => Safe repo c mint d) (.read fun _ h => h) fun s => ?_
  cases s.admissionMarker e tip with
  | error _ => exact .fail
  | ok o =>
    cases o with
    | none =>
      cases contained with
      | true =>
        have hmark : ∀ d, Safe repo c mint d →
            Safe repo c mint (d.addProcessed mint (markerOf e "empty" tip)) := fun d hd =>
          hd.record rfl rfl rfl (Nat.le_succ _) (subset_append_left _ _) (List.Subset.refl _)
        refine .bind (Q := fun _ d => Safe repo c mint d) (.write hmark hmark) fun _ =>
          .pure fun d hd => ?_
        exact ⟨hd, nofun⟩
      | false =>
        refine .bind (Q := fun _ d => Safe repo c mint d) ?_ fun b => ?_
        · exact .bind (scanCurrent_carries (safe_carries hmint) e.repoName none) fun _ =>
            .pure fun _ h => h.1
        · cases b with
          | true => exact .pure fun d hd => ⟨hd, nofun⟩
          | false =>
            refine .bind (enqueue_safe hmint ha now) fun _ => .pure fun d hd => ?_
            refine ⟨hd.1, fun n _ hr => ?_⟩
            obtain ⟨r, hr', hrr, hk, -⟩ := hd.2 hr
            exact ⟨r, hr', hrr, hk⟩
    | some marker =>
      dsimp only
      split
      · exact .fail
      · exact .pure fun d hd => ⟨hd, nofun⟩

end

/-- The fields a caller sets before it persists an entry. -/
structure Patch where
  admission : Option AdmissionWindow
  admissionHold : Option RecordId
  candidateSha : Option String
  candidateBase : Option String
  candidateRef : Option String
  batchBranches : List String
  gateInfraRetryUsed : Bool
  gateInfraRetryCheck : Option String

def Patch.apply (p : Patch) (e : LandingQueueEntry) : LandingQueueEntry :=
  { e with
    admission := p.admission
    admissionHold := p.admissionHold
    candidateSha := p.candidateSha
    candidateBase := p.candidateBase
    candidateRef := p.candidateRef
    batchBranches := p.batchBranches
    gateInfraRetryUsed := p.gateInfraRetryUsed
    gateInfraRetryCheck := p.gateInfraRetryCheck }

/-- How `process_batch` settles a member it does not hand to `process_entry`. -/
inductive Ending where
  | mark (outcome : LandingOutcome)
  | quarantine (reason : String)
  | stale

def conclude (mint : Nat → RecordId) (env : EntryEnv) (e : LandingQueueEntry) :
    Ending → Op LandingOutcome
  | .mark outcome => finish mint env e outcome
  | .quarantine reason => archiveQuarantine e reason
  | .stale => requeueStale mint env e

def Ending.settles : Ending → Bool
  | .mark outcome => outcome.recorded.isSome
  | .quarantine _ => true
  | .stale => true

/-- `k` is the position of an entry among those the consumer holds. -/
inductive Operation where
  | enqueue (entry : LandingQueueEntry) (now : DateTime)
  | submit (entry : LandingQueueEntry) (targetHead : Option String) (contained : Bool)
      (now : DateTime)
  | claimNext (repo target : String) (now : DateTime)
  | claimBatch (repo target : String) (max : Nat) (now : DateTime)
  | setStatus (k : Nat) (status : LandingEntryStatus) (now : DateTime)
  | persist (k : Nat) (patch : Patch) (status : LandingEntryStatus) (now : DateTime)
  | requeueTail (k : Nat) (now : DateTime)
  | process (k : Nat) (env : EntryEnv)
  | conclude (k : Nat) (env : EntryEnv) (ending : Ending)
  | remove (k : Nat)
  | scan (repo : String) (target : Option String)

/-- After `k` writes the process dies, or the call fails and the process goes on. -/
inductive Interruption where
  | crash (k : Nat)
  | fault (k : Nat)

/-- `torn`: the interruption falls inside the write after those. -/
structure Label where
  op : Operation
  interrupted : Option Interruption := none
  torn : Bool := false

structure State where
  daemon : Daemon := {}
  client : Client := {}

/-- What an interruption of `m` after `k` writes, or inside the next one, leaves. -/
def Daemon.cut {α : Type} (d : Daemon) (m : Op α) (torn : Bool) (k : Nat) : Option Daemon :=
  if torn then do
    let before ← m.crash d k
    let after ← m.crash d (k + 1)
    some (before.tear after)
  else m.crash d k

/-- Run `m`; `next` is what the client knows when it returns a value. -/
def State.exec {α : Type} (s : State) (m : Op α) (next : α → Client) (torn : Bool) :
    Option Interruption → Option State
  | none =>
    match (m s.daemon).2 with
    | .ok a => some ⟨m.final s.daemon, next a⟩
    | .error _ => some ⟨m.final s.daemon, s.client⟩
  | some (.crash k) =>
    (s.daemon.cut m torn k).map fun d => ⟨d.restart, { s.client with held := [] }⟩
  | some (.fault k) => (s.daemon.cut m torn k).map fun d => ⟨d, s.client⟩

def Client.accept (c : Client) (e : LandingQueueEntry) : Client :=
  { c with accepted := c.accepted ++ [e] }

def Client.claim (c : Client) (es : List LandingQueueEntry) : Client :=
  { c with held := c.held ++ es.map fun e => { entry := e } }

def Client.update (c : Client) (k : Nat) (h : Held) : Client := { c with held := c.held.set k h }

section
variable (mint : Nat → RecordId)

def State.step (s : State) (l : Label) : Option State :=
  match l.op with
  | .enqueue e now =>
    s.exec (Landing.enqueue mint e now) (fun _ => s.client.accept e) l.torn l.interrupted
  | .submit e tip contained now =>
    s.exec (enqueueDisposition mint e tip contained now) (fun o => match o with
        | .queued _ => s.client.accept e
        | _ => s.client) l.torn l.interrupted
  | .claimNext repo target now =>
    s.exec (Landing.claimNext mint repo target now) (fun o => s.client.claim o.toList)
      l.torn l.interrupted
  | .claimBatch repo target max now =>
    s.exec (Landing.claimBatch mint repo target max now) s.client.claim l.torn l.interrupted
  | .setStatus k status now => do
    let h ← s.client.held[k]?
    s.exec (Landing.setStatus mint h.entry status now) (fun _ => s.client) l.torn l.interrupted
  | .persist k patch status now => do
    let h ← s.client.held[k]?
    s.exec (Landing.persist mint (patch.apply h.entry) status now)
      (fun e => s.client.update k { h with entry := e }) l.torn l.interrupted
  | .requeueTail k now => do
    let h ← s.client.held[k]?
    s.exec (Landing.requeueTail mint h.entry now) (fun _ => s.client) l.torn l.interrupted
  | .process k env => do
    let h ← s.client.held[k]?
    s.exec (processEntry mint env h.entry)
      (fun _ => s.client.update k { h with settled := true }) l.torn l.interrupted
  | .conclude k env ending => do
    let h ← s.client.held[k]?
    s.exec (Landing.conclude mint env h.entry ending)
      (fun _ => if ending.settles then s.client.update k { h with settled := true } else s.client)
      l.torn l.interrupted
  | .remove k => do
    let h ← s.client.held[k]?
    if h.settled then
      s.exec (Landing.remove h.entry) (fun _ => { s.client with held := s.client.held.eraseIdx k })
        l.torn l.interrupted
    else none
  | .scan repo target =>
    s.exec (scanCurrent repo target) (fun _ => s.client) l.torn l.interrupted

end

section
variable {mint : Nat → RecordId} {repo : String} {c c' : Client} {d : Daemon}

/-- The client may trade the entries it holds for other copies of the same work, and
call those settled whose rows may go. -/
theorem Safe.client (h : Safe repo c mint d) (hacc : c'.accepted = c.accepted)
    (hheld : ∀ x ∈ c'.held, ∃ y ∈ c.held, Same y.entry x.entry ∧
      (x.settled = true → y.settled = true ∨ Succeeded repo d x.entry)) :
    Safe repo c' mint d := by
  have hfits : ∀ e, Fits repo c d e → Fits repo c' d e := by
    intro e he hr
    obtain ⟨hle, hrows, hkeys⟩ := he hr
    refine ⟨hle, hrows, ?_⟩
    intro x hx hxr hseq
    obtain ⟨y, hy, hs, -⟩ := hheld x hx
    rw [hs.key]
    exact hkeys y hy (hs.repoName.symm.trans hxr) (hs.seq.symm.trans hseq)
  constructor
  case nodup => exact h.nodup
  case minted => exact h.minted
  case alone => exact h.alone
  case fits => exact fun r hr => hfits _ (h.fits r hr)
  case cached => exact h.cached
  case heldAlone =>
    intro x hx
    obtain ⟨y, hy, hs, -⟩ := hheld x hx
    exact hs.repoName ▸ h.heldAlone y hy
  case heldFits =>
    intro x hx
    obtain ⟨y, hy, hs, -⟩ := hheld x hx
    exact hfits _ ((h.heldFits y hy).congr hs.repoName hs.seq hs.key)
  case settled =>
    intro x hx hset
    obtain ⟨y, hy, hs, hor⟩ := hheld x hx
    rcases hor hset with hy' | hsucc
    · intro hr
      rw [hs.key, hs.seq]
      exact h.settled y hy hy' (hs.repoName ▸ hr)
    · exact hsucc
  case accepted => rw [hacc]; exact h.accepted

theorem Safe.claim (h : Safe repo c mint d) {es : List LandingQueueEntry}
    (hes : ∀ e ∈ es, ∃ r ∈ d.rows, r.entry = e) : Safe repo (c.claim es) mint d := by
  have hheld : ∀ x ∈ (c.claim es).held, x ∈ c.held ∨
      (x.settled = false ∧ ∃ r ∈ d.rows, r.entry = x.entry) := by
    intro x hx
    rcases mem_append.mp hx with hx | hx
    · exact .inl hx
    · obtain ⟨e, he, rfl⟩ := mem_map.mp hx
      exact .inr ⟨rfl, hes e he⟩
  have hfits : ∀ e, Fits repo c d e → Fits repo (c.claim es) d e := by
    intro e he hr
    obtain ⟨hle, hrows, hkeys⟩ := he hr
    refine ⟨hle, hrows, ?_⟩
    intro x hx hxr hseq
    rcases hheld x hx with hx | ⟨-, r, hr', hre⟩
    · exact hkeys x hx hxr hseq
    · rw [← hre] at hxr hseq ⊢
      exact hrows r hr' hxr hseq
  constructor
  case nodup => exact h.nodup
  case minted => exact h.minted
  case alone => exact h.alone
  case fits => exact fun r hr => hfits _ (h.fits r hr)
  case cached => exact h.cached
  case heldAlone =>
    intro x hx
    rcases hheld x hx with hx | ⟨-, r, hr', hre⟩
    · exact h.heldAlone x hx
    · exact hre ▸ h.alone r hr'
  case heldFits =>
    intro x hx
    rcases hheld x hx with hx | ⟨-, r, hr', hre⟩
    · exact hfits _ (h.heldFits x hx)
    · exact hre ▸ hfits _ (h.fits r hr')
  case settled =>
    intro x hx hset
    rcases hheld x hx with hx | ⟨hns, -⟩
    · exact h.settled x hx hset
    · rw [hns] at hset
      cases hset
  case accepted => exact h.accepted

theorem Safe.accept (h : Safe repo c mint d) (he : e.repoName = repo → d.Live repo e.key) :
    Safe repo (c.accept e) mint d :=
  { h with
    accepted := by
      intro x hx hr
      rcases mem_append.mp hx with hx | hx
      · exact h.accepted x hx hr
      · rw [mem_singleton.mp hx] at hr ⊢
        exact .inl (he hr) }

theorem Safe.update (h : Safe repo c mint d) {k : Nat} {x y : Held} (hk : c.held[k]? = some x)
    (hs : Same x.entry y.entry)
    (hset : y.settled = true → x.settled = true ∨ Succeeded repo d y.entry) :
    Safe repo (c.update k y) mint d := by
  refine h.client rfl fun z hz => ?_
  rcases mem_or_eq_of_mem_set hz with hz | rfl
  · exact ⟨z, hz, ⟨rfl, rfl, rfl⟩, .inl⟩
  · exact ⟨x, mem_of_getElem? hk, hs, hset⟩

theorem Safe.restart (h : Safe repo c mint d) : Safe repo { c with held := [] } mint d.restart := by
  have hn : ∀ x ∈ ({ c with held := [] } : Client).held, ∃ y ∈ c.held, Same y.entry x.entry ∧
      (x.settled = true → y.settled = true ∨ Succeeded repo d x.entry) :=
    fun x hx => (not_mem_nil hx).elim
  have h' : Safe repo { c with held := [] } mint d := h.client rfl hn
  exact { h' with cached := nofun }

variable {s : State}

section
variable {α : Type} {s s' : State} {m : Op α} {next : α → Client} {i : Option Interruption}

/-- An operation whose triple ends in the client's new knowledge keeps what is known of the
client and the daemon, wherever it is interrupted between its writes. -/
theorem exec_keeps {I : Client → Daemon → Prop}
    (hrestart : ∀ d, I s.client d → I { s.client with held := [] } d.restart)
    (hs : I s.client s.daemon)
    (hm : Triple (I s.client) (fun d => d = s.daemon) m (fun a d => I (next a) d))
    (h : s.exec m next false i = some s') : I s'.client s'.daemon := by
  have hstart : ∀ d, d = s.daemon → I s.client d := by
    rintro d rfl
    exact hs
  unfold State.exec at h
  cases i with
  | none =>
    cases ho : (m s.daemon).2 with
    | ok a =>
      simp only [ho, some.injEq] at h
      subst h
      exact (hm s.daemon rfl).2 a ho
    | error e =>
      simp only [ho, some.injEq] at h
      subst h
      exact hm.final hstart rfl
  | some i =>
    cases i with
    | crash k =>
      obtain ⟨d, hd, rfl⟩ := map_eq_some_iff.mp h
      exact hrestart d (hm.crash hstart rfl hd)
    | fault k =>
      obtain ⟨d, hd, rfl⟩ := map_eq_some_iff.mp h
      exact hm.crash hstart rfl hd

theorem exec_safe (hs : Safe repo s.client mint s.daemon)
    (hm : Triple (Safe repo s.client mint) (fun d => d = s.daemon) m
      (fun a d => Safe repo (next a) mint d))
    (h : s.exec m next false i = some s') : Safe repo s'.client mint s'.daemon :=
  exec_keeps (I := fun c d => Safe repo c mint d) (fun _ hd => hd.restart) hs hm h

end

/-- An ending of the consumer's own settles the entry as one of `process_entry` does. -/
theorem conclude_accounts {J : Daemon → Prop} {L : LandingQueueEntry → Daemon → Prop}
    {K : LandingOutcome → Daemon → Prop} (hE : Accounts mint J L K e)
    (env : EntryEnv) (ending : Ending)
    (hq : ∀ reason, ending = .quarantine reason → ∀ d, J d → d.Archived e → K .quarantined d) :
    Triple J J (conclude mint env e ending) (fun o d => J d ∧ (ending.settles = true → K o d)) := by
  cases ending with
  | mark o =>
    cases ho : o.recorded with
    | none =>
      refine .bind (Q := fun _ d => J d) ?_ fun _ => .pure ?_
      · unfold markProcessed
        rw [ho]
        exact .pure fun _ h => h
      · exact fun d hd => ⟨hd, fun hset => by simp [Ending.settles, ho] at hset⟩
    | some word =>
      exact (finish_accounts hE (.refl _) env ho).mono (fun _ h => h) fun _ _ hd =>
        ⟨hd.1, fun _ => hd.2⟩
  | quarantine reason =>
    refine (archiveQuarantine_carries hE reason).mono (fun _ h => h) fun o d hd => ?_
    exact ⟨hd.1, fun _ => hd.2.1 ▸ hq reason rfl d hd.1 hd.2.2⟩
  | stale =>
    exact (requeueStale_accounts hE (.refl _) env).mono (fun _ h => h) fun _ _ hd =>
      ⟨hd.1, fun _ => hd.2⟩

/-- No counter file is torn, and work arrives only for the repository itself or for one with
a counter of its own. -/
def Label.On (repo : String) (l : Label) : Prop :=
  l.torn = false ∧ match l.op with
  | .enqueue e _ => Alone repo e.repoName
  | .submit e _ _ _ => Alone repo e.repoName
  | _ => True

theorem step_safe (hmint : Injective mint) {s' : State} {l : Label} (hl : l.On repo)
    (hs : Safe repo s.client mint s.daemon) (h : s.step mint l = some s') :
    Safe repo s'.client mint s'.daemon := by
  have htrack : ∀ {k : Nat} {x : Held}, s.client.held[k]? = some x → Tracked s.client x.entry :=
    fun hk => ⟨_, mem_of_getElem? hk, ⟨rfl, rfl, rfl⟩⟩
  have halone : ∀ {k : Nat} {x : Held}, s.client.held[k]? = some x → Alone repo x.entry.repoName :=
    fun hk => hs.heldAlone _ (mem_of_getElem? hk)
  have hstart : ∀ d, d = s.daemon → Safe repo s.client mint d := by
    rintro d rfl
    exact hs
  have hJ : Carries mint (Safe repo s.client mint) (Placed repo s.client) := safe_carries hmint
  obtain ⟨op, i, torn⟩ := l
  obtain ⟨rfl, hl⟩ : torn = false ∧ _ := hl
  cases op with
  | enqueue e now =>
    refine exec_safe hs ((enqueue_safe hmint hl now).mono hstart ?_) h
    rintro n d ⟨hd, hrow⟩
    refine hd.accept fun hr => ?_
    obtain ⟨r, hr', hrr, hk, -⟩ := hrow hr
    exact ⟨r, hr', hrr, hk⟩
  | submit e tip contained now =>
    refine exec_safe hs ((enqueueDisposition_safe hmint hl tip contained now).mono hstart ?_) h
    rintro o d ⟨hd, hlive⟩
    cases o with
    | queued n => exact hd.accept (hlive n rfl)
    | pending | processed => exact hd
  | claimNext r t now =>
    refine exec_safe hs ((claimNext_carries hJ r t now).mono hstart ?_) h
    rintro o d ⟨hd, hes⟩
    exact hd.claim fun e he => hes e (mem_toList.mp he)
  | claimBatch r t n now =>
    refine exec_safe hs ((claimBatch_carries hJ r t n now).mono hstart ?_) h
    rintro es d ⟨hd, hes⟩
    exact hd.claim hes
  | setStatus k st now =>
    obtain ⟨x, hk, h⟩ := bind_eq_some_iff.mp h
    exact exec_safe hs ((setStatus_carries hJ (fun _ hd => hd.tracked (htrack hk)) st now).mono
      hstart fun _ _ hd => hd) h
  | persist k patch st now =>
    obtain ⟨x, hk, h⟩ := bind_eq_some_iff.mp h
    refine exec_safe hs ((persist_carries hJ (fun _ hd => hd.tracked (htrack hk))
      ((Kin.refl x.entry).edit (by rfl)) st now).mono hstart ?_) h
    rintro e d ⟨hd, hkin⟩
    exact hd.update hk hkin.toSame .inl
  | requeueTail k now =>
    obtain ⟨x, hk, h⟩ := bind_eq_some_iff.mp h
    exact exec_safe hs ((requeueTail_safe hmint (htrack hk) (halone hk) now).mono hstart
      fun _ _ hd => hd.1) h
  | process k env =>
    obtain ⟨x, hk, h⟩ := bind_eq_some_iff.mp h
    refine exec_safe hs ((processEntry_accounts (safe_accounts hmint (htrack hk)) env hs
      fun _ _ _ => succeeded_of_archived).mono (fun _ h => h) ?_) h
    rintro o d ⟨hd, hsucc⟩
    exact hd.update hk ⟨rfl, rfl, rfl⟩ fun _ => .inr hsucc
  | conclude k env ending =>
    obtain ⟨x, hk, h⟩ := bind_eq_some_iff.mp h
    refine exec_safe hs ((conclude_accounts (safe_accounts hmint (htrack hk)) env ending
      fun _ _ _ _ => succeeded_of_archived).mono hstart ?_) h
    rintro o d ⟨hd, hsucc⟩
    cases hb : ending.settles with
    | true => exact hd.update hk ⟨rfl, rfl, rfl⟩ fun _ => .inr (hsucc hb)
    | false => exact hd
  | remove k =>
    obtain ⟨x, hk, h⟩ := bind_eq_some_iff.mp h
    cases hset : x.settled with
    | false => simp [hset] at h
    | true =>
      rw [hset, if_pos rfl] at h
      refine exec_safe hs ((remove_safe hmint (mem_of_getElem? hk) hset).mono hstart ?_) h
      intro _ d hd
      exact hd.client rfl fun z hz =>
        ⟨z, mem_of_mem_eraseIdx hz, ⟨rfl, rfl, rfl⟩, .inl⟩
  | scan r t =>
    exact exec_safe hs ((scanCurrent_carries hJ r t).mono hstart fun _ _ hd => hd.1) h

/-- Every accepted candidate of the repository has a row, a marker or an archive, and two
rows with one sequence number are the same work. -/
def NeverLost (repo : String) (s : State) : Prop :=
  (∀ e ∈ s.client.accepted, e.repoName = repo → s.daemon.Kept repo e.key) ∧
  ∀ r ∈ s.daemon.rows, ∀ r' ∈ s.daemon.rows, r.entry.repoName = repo →
    r'.entry.repoName = repo → r.seq = r'.seq → r.entry.key = r'.entry.key

theorem Safe.neverLost (h : Safe repo s.client mint s.daemon) : NeverLost repo s :=
  ⟨h.accepted, fun r hr r' hr' hrr hrr' hseq => (h.fits r' hr' hrr').2.1 r hr hrr hseq⟩

theorem safe_fresh : Safe repo {} mint {} := by
  constructor <;> simp

/-- A candidate of repository `rk`. -/
def candidate : LandingQueueEntry :=
  { repoName := "rk", repoPath := "/srv/rk", branch := "rat/one", target := "main",
    headSha := "a1", diffClass := "trivial", task := "TKT-1" }

/-- A policy without a gate plan. -/
def noPlan : EntryEnv :=
  let clock : Reading := ⟨0, none⟩
  let quiet : CheckRun := ⟨clock, clock, 0, 0, .error "not run"⟩
  { now := 0, invalidSource := none, targetHead := some "b0", targetMissing := false
    landedAlready := false, recoveryRefs := true, contained := false
    prepared := some ⟨"m1", "b0", "refs/rk/m1"⟩, plan := none
    gates := ⟨0, 0, clock, fun _ => false, fun _ => quiet, fun _ => quiet⟩
    dispatches := 0, verdict := .escalate, advance := .blocked }

/-- A claim cut between its write and its delete, then a claim that heals it, a verdict
and the removal. -/
def cutClaim : List Label :=
  [ { op := .submit candidate (some "b0") false 1 },
    { op := .claimNext "rk" "main" 2, interrupted := some (.crash 1) },
    { op := .claimNext "rk" "main" 3 },
    { op := .process 0 noPlan },
    { op := .remove 0 } ]

def otherCandidate : LandingQueueEntry := { candidate with branch := "rat/two", headSha := "a2" }

/-- The write of the counter file fails once it has truncated the file, a claim is cut after
its first tuple write, and the next process counts from the start. -/
def tornCounter : List Label :=
  [ { op := .submit candidate (some "b0") false 1 },
    { op := .submit otherCandidate (some "b0") false 2, interrupted := some (.fault 0), torn := true },
    { op := .claimNext "rk" "main" 3, interrupted := some (.crash 1) },
    { op := .submit otherCandidate (some "b0") false 4 } ]

end

end RatKingdom.Landing
