/-
One recovery for an admission hold.

An operator retries a candidate whose checks were never admitted.  The retry writes an
immutable receipt and then queues the entry the receipt holds; a restart completes the
second half from the receipt alone.  Whether the entry was queued before is told by a
row with its work key or by a marker newer than the one the receipt was granted on.  A
quarantine removes the row and leaves no marker, so the next pass queues the entry again.
-/
import RatKingdom.Landing.Retain

namespace RatKingdom.Landing

open Lib Core List Function Daemon

def Daemon.addReceipt (mint : Nat → RecordId) (r : RecordId → Receipt) (d : Daemon) : Daemon :=
  { d with receipts := d.receipts ++ [r (mint d.minted)], minted := d.minted + 1 }

def Daemon.admissionReceipt (d : Daemon) (hold : RecordId) : Option Receipt :=
  d.receipts.find? fun r => r.hold = hold

inductive RecoveryAnswer where
  | alreadyProcessed (recovery : RecordId) (outcome : String) (merged : Bool)
  | alreadyQueued (recovery : RecordId)
  | queued (recovery : RecordId) (seq : Nat)

/-- What a retry is told from outside the space: whether the hold's repository is the
caller's, what `validate_recovery_refs` answers before the grant and before the enqueue,
and the gate timeout of the new window. -/
structure RecoveryEnv where
  now : DateTime
  samePath : Bool
  refs : Except String Unit
  refsAgain : Except String Unit
  budget : Except String Nat
  opened : Reading

def LandingQueueEntry.recovered (e : LandingQueueEntry) (window : AdmissionWindow)
    (receipt : RecordId) : LandingQueueEntry :=
  { e with
    admission := some window
    admissionHold := none
    seq := 0
    rev := 0
    operatorFastLane := true
    keepBranch := true
    admissionRecovery := some receipt }

section
variable (mint : Nat → RecordId)

/-- The end of `resume_admission_receipt`: the receipt's entry is queued unless its work
already is. -/
def queueReceipt (receipt : Receipt) (refs : Except String Unit) (now : DateTime) :
    Op RecoveryAnswer := do
  let queued ← containsWorkKey receipt.entry
  if queued then pure (.alreadyQueued receipt.id)
  else
    match refs with
    | .error e => Prog.fail e
    | .ok () => do
      let seq ← enqueue mint receipt.entry now
      pure (.queued receipt.id seq)

def resumeAdmissionReceipt (receipt : Receipt) (refs : Except String Unit) (now : DateTime) :
    Op RecoveryAnswer := do
  let d ← Prog.read
  match d.processedMarker receipt.entry with
  | none => Prog.fail "admission recovery lost its original processed evidence"
  | some marker =>
    if marker.admissionRecovery = some receipt.id then
      pure (.alreadyProcessed receipt.id marker.outcome (decide (marker.outcome = "landed")))
    else
      match d.recoverySupersedes receipt.entry marker with
      | .error e => Prog.fail e
      | .ok false => Prog.fail "admission recovery was superseded by another terminal result"
      | .ok true => queueReceipt mint receipt refs now

/-- The grant in `retry_admission`: the receipt first, then the queue. -/
def grantRecovery (hold : AdmissionHold) (marker : Processed) (reason : String) (budget : Nat)
    (env : RecoveryEnv) : Op RecoveryAnswer := do
  let receipt id : Receipt :=
    { id, hold := hold.id, processed := marker.id, reason
      entry := hold.entry.recovered (.new budget env.opened) id }
  let d ← Prog.read
  Prog.write (addReceipt mint receipt)
  resumeAdmissionReceipt mint (receipt (mint d.minted)) env.refsAgain env.now

/-- `retry_admission`, under the lock admission is made under. -/
def retryAdmission (hold : RecordId) (reason : String) (env : RecoveryEnv) : Op RecoveryAnswer :=
  if trim reason = "" then Prog.fail "admission recovery requires an operator reason"
  else do
    let d ← Prog.read
    match d.holds.find? fun h => h.id = hold with
    | none =>
      Prog.fail "admission hold not found; legacy gate-held markers are not eligible"
    | some h =>
      if h.retryEligible = false ∨ h.result.executed ≠ some false ∨
          h.result.reason ≠ some "admission-timeout" then
        Prog.fail "only a typed admission-only hold permits recovery"
      else if env.samePath = false ∨ h.entry.admissionHold ≠ some hold ∨
          h.entry.gateInfraRetryUsed = true ∨ h.entry.batchBranches ≠ [] then
        Prog.fail "admission hold repository or retry identity mismatch"
      else
        match d.admissionReceipt hold with
        | some receipt => resumeAdmissionReceipt mint receipt env.refsAgain env.now
        | none =>
          match env.refs, d.processedMarker h.entry, env.budget with
          | .error e, _, _ => Prog.fail e
          | .ok (), none, _ => Prog.fail "admission hold is not terminal yet"
          | .ok (), some marker, budget =>
            if marker.admissionHold ≠ some hold ∨ marker.outcome ≠ "gate-held" then
              Prog.fail "admission hold was superseded or already delivered"
            else
              match budget with
              | .error e => Prog.fail e
              | .ok budget => grantRecovery mint h marker (trim reason) budget env

/-- The loop of `resume_admission_recoveries`; a receipt that cannot be resumed does not
hold up the others. -/
def resumeEach (refs : RecordId → Except String Unit) (now : DateTime) : List Receipt → Op Unit
  | [] => pure ()
  | receipt :: rest => do
    let _ ← (resumeAdmissionReceipt mint receipt (refs receipt.id) now).attempt
    resumeEach refs now rest

def resumeAdmissionRecoveries (refs : RecordId → Except String Unit) (now : DateTime) : Op Unit := do
  let d ← Prog.read
  resumeEach mint refs now d.receipts

inductive Errand where
  | queue (op : Operation)
  | retry (hold : RecordId) (reason : String) (env : RecoveryEnv)
  | resume (refs : RecordId → Except String Unit) (now : DateTime)

structure ErrandLabel where
  errand : Errand
  interrupted : Option Interruption := none
  torn : Bool := false

def State.admits (s : State) : Operation → Bool
  | .enqueue e _ => e.admissionRecovery.isNone
  | .submit e _ _ _ => e.admissionRecovery.isNone
  | .requeueTail k _ => (s.client.held[k]?.map fun h => h.entry.admissionRecovery.isNone).getD true
  | _ => true

def State.recover (s : State) (l : ErrandLabel) : Option State :=
  match l.errand with
  | .queue op => if s.admits op then s.step mint ⟨op, l.interrupted, l.torn⟩ else none
  | .retry hold reason env =>
    s.exec (retryAdmission mint hold reason env) (fun _ => s.client) l.torn l.interrupted
  | .resume refs now =>
    s.exec (resumeAdmissionRecoveries mint refs now) (fun _ => s.client) l.torn l.interrupted

end

/-- The row an enqueue wrote for the receipt `id`; every later row of the entry has been
through a transition. -/
def enqueuedFor (id : RecordId) (r : Row) : Bool :=
  decide (r.entry.admissionRecovery = some id ∧ r.rev = 0)

/-- How often an entry was queued for the receipt `id`. -/
def Daemon.recoveries (d : Daemon) (id : RecordId) : Nat := d.log.countP (enqueuedFor id)

structure OneRecovery (repo : String) (d : Daemon) : Prop where
  receipts : ∀ hold, d.receipts.countP (fun r => r.hold = hold) ≤ 1
  queued : ∀ r ∈ d.receipts, r.entry.repoName = repo → d.recoveries r.id ≤ 1
  marked : ∀ r ∈ d.receipts, r.entry.repoName = repo →
    ∀ m ∈ d.processed, m.admissionRecovery = some r.id → d.recoveries r.id = 1

/-- The newest marker of the receipt's work is not the one it was granted on. -/
def Receipt.Settled (r : Receipt) (d : Daemon) : Prop :=
  ∃ m, d.processedMarker r.entry = some m ∧ m.id ≠ r.processed

def Receipt.Live (r : Receipt) (d : Daemon) : Prop :=
  ∃ row ∈ d.rows, row.entry.admissionRecovery = some r.id

structure Lineage (mint : Nat → RecordId) (repo : String) (d : Daemon) : Prop where
  nodup : (d.rows.map Row.id).Nodup
  minted : ∀ r ∈ d.rows, ∃ n < d.minted, r.id = mint n
  logged : ∀ r ∈ d.rows, r ∈ d.log
  alone : ∀ r ∈ d.log, Alone repo r.entry.repoName
  bound : ∀ r ∈ d.log, r.entry.repoName = repo → r.seq ≤ d.counter repo
  cached : ∀ v, d.seqCache repo = some v → v = d.counter repo
  kin : ∀ a ∈ d.log, ∀ b ∈ d.log, a.entry.repoName = repo → b.entry.repoName = repo →
    a.seq = b.seq → a.entry.admissionRecovery = b.entry.admissionRecovery
  begun : ∀ r ∈ d.log, ∀ id, r.entry.admissionRecovery = some id → 1 ≤ d.recoveries id

structure Granted (mint : Nat → RecordId) (repo : String) (d : Daemon) : Prop where
  markerIds : (d.processed.map Processed.id).Nodup
  markerMinted : ∀ m ∈ d.processed, ∃ n < d.minted, m.id = mint n
  marks : ∀ m ∈ d.processed, ∀ id, m.admissionRecovery = some id → 1 ≤ d.recoveries id
  heldAlone : ∀ h ∈ d.holds, Alone repo h.entry.repoName
  alone : ∀ r ∈ d.receipts, Alone repo r.entry.repoName
  ids : (d.receipts.map Receipt.id).Nodup
  idMinted : ∀ r ∈ d.receipts, ∃ n < d.minted, r.id = mint n
  holds : (d.receipts.map Receipt.hold).Nodup
  evidence : ∀ r ∈ d.receipts, r.entry.admissionRecovery = some r.id ∧
    ∃ m ∈ d.processed, m.id = r.processed ∧ m.admissionHold = some r.hold ∧ m.outcome = "gate-held"
  known : ∀ row ∈ d.log, ∀ id, row.entry.admissionRecovery = some id →
    ∃ r ∈ d.receipts, r.id = id ∧ row.entry.repoName = r.entry.repoName ∧
      row.entry.key = r.entry.key
  once : ∀ r ∈ d.receipts, r.entry.repoName = repo → d.recoveries r.id = 0 ∨
    d.recoveries r.id = 1 ∧ (r.Live d ∨ r.Settled d)

def Accounted (repo : String) (e : LandingQueueEntry) (d : Daemon) : Prop :=
  e.repoName = repo → ∀ r ∈ d.receipts, e.admissionRecovery = some r.id → r.Settled d

def Logged (e : LandingQueueEntry) (d : Daemon) : Prop := ∃ r ∈ d.log, Kin r.entry e

theorem Logged.kin {e e' : LandingQueueEntry} {d : Daemon} (h : Logged e d) (hk : Kin e e') :
    Logged e' d := by
  obtain ⟨r, hr, hkr⟩ := h
  exact ⟨r, hr, hkr.trans hk⟩

/-- What holds of the entries in the consumer's hands. -/
structure InHand (repo : String) (c : Client) (d : Daemon) : Prop where
  logged : ∀ h ∈ c.held, Logged h.entry d
  settled : ∀ h ∈ c.held, h.settled = true → Accounted repo h.entry d

structure Traced (mint : Nat → RecordId) (repo : String) (c : Client) (d : Daemon) : Prop where
  lineage : Lineage mint repo d
  granted : Granted mint repo d
  inHand : InHand repo c d

section
variable {mint : Nat → RecordId} {repo : String} {c : Client} {d d' : Daemon}

theorem recoveries_addRow (d : Daemon) (next : LandingQueueEntry) (id : RecordId) :
    (d.addRow mint next).recoveries id =
      d.recoveries id + if next.admissionRecovery = some id ∧ next.rev = 0 then 1 else 0 := by
  simp only [recoveries, addRow, countP_append, countP_singleton, enqueuedFor, decide_eq_true_eq]
  rfl

variable {r : Receipt}

theorem Receipt.Settled.congr (h : r.Settled d) (hp : d'.processed = d.processed) :
    r.Settled d' := by
  obtain ⟨m, hm, hne⟩ := h
  refine ⟨m, ?_, hne⟩
  unfold processedMarker at hm ⊢
  rw [hp]
  exact hm

theorem drawn_ne {n : Nat} {i : RecordId} (hmint : Injective mint) (hn : n < d.minted)
    (hi : i = mint n) : i ≠ mint d.minted := by
  intro he
  have : n = d.minted := hmint (hi.symm.trans he)
  omega

theorem Lineage.congr (h : Lineage mint repo d) (hrows : d'.rows = d.rows) (hlog : d'.log = d.log)
    (hfile : d'.seqFile = d.seqFile) (hcache : d'.seqCache = d.seqCache)
    (hmin : d.minted ≤ d'.minted) : Lineage mint repo d' := by
  have hcount : d'.counter repo = d.counter repo := by rw [counter, hfile, counter]
  have hrec : ∀ id, d'.recoveries id = d.recoveries id := by
    intro id
    rw [recoveries, hlog, recoveries]
  constructor
  case nodup => rw [hrows]; exact h.nodup
  case minted =>
    intro r hr
    obtain ⟨n, hn, hid⟩ := h.minted r (hrows ▸ hr)
    exact ⟨n, Nat.lt_of_lt_of_le hn hmin, hid⟩
  case logged => rw [hrows, hlog]; exact h.logged
  case alone => rw [hlog]; exact h.alone
  case bound => rw [hlog, hcount]; exact h.bound
  case cached => rw [hcache, hcount]; exact h.cached
  case kin => rw [hlog]; exact h.kin
  case begun =>
    intro r hr id hid
    rw [hrec]
    exact h.begun r (hlog ▸ hr) id hid

theorem Granted.beside (h : Granted mint repo d) (hb : Beside d d') : Granted mint repo d' := by
  have hrec : ∀ id, d'.recoveries id = d.recoveries id := by
    intro id
    rw [recoveries, hb.log, recoveries]
  constructor
  case markerIds => rw [hb.processed]; exact h.markerIds
  case markerMinted =>
    intro m hm
    obtain ⟨n, hn, hid⟩ := h.markerMinted m (hb.processed ▸ hm)
    exact ⟨n, Nat.lt_of_lt_of_le hn hb.minted, hid⟩
  case marks =>
    intro m hm id hid
    rw [hrec]
    exact h.marks m (hb.processed ▸ hm) id hid
  case heldAlone => rw [hb.holds]; exact h.heldAlone
  case alone => rw [hb.receipts]; exact h.alone
  case ids => rw [hb.receipts]; exact h.ids
  case idMinted =>
    intro r hr
    obtain ⟨n, hn, hid⟩ := h.idMinted r (hb.receipts ▸ hr)
    exact ⟨n, Nat.lt_of_lt_of_le hn hb.minted, hid⟩
  case holds => rw [hb.receipts]; exact h.holds
  case evidence => rw [hb.receipts, hb.processed]; exact h.evidence
  case known => rw [hb.log, hb.receipts]; exact h.known
  case once =>
    intro r hr hrr
    rw [hrec]
    refine (h.once r (hb.receipts ▸ hr) hrr).imp id fun ⟨h1, hl⟩ => ⟨h1, hl.imp ?_ ?_⟩
    · intro ⟨row, hrow, hid⟩
      exact ⟨row, hb.rows ▸ hrow, hid⟩
    · exact fun hs => hs.congr hb.processed

theorem InHand.beside (h : InHand repo c d) (hb : Beside d d') : InHand repo c d' := by
  constructor
  · intro x hx
    obtain ⟨r, hr, hk⟩ := h.logged x hx
    exact ⟨r, hb.log ▸ hr, hk⟩
  · intro x hx hset hxr r hr hid
    exact (h.settled x hx hset hxr r (hb.receipts ▸ hr) hid).congr hb.processed

section
variable (h : Traced mint repo c d)
include h

theorem Traced.deleteRow {x : Row} (hx : x ∈ d.rows)
    (ho : x.entry.repoName = repo → ∀ r ∈ d.receipts, x.entry.admissionRecovery = some r.id →
      (∃ w ∈ d.rows, w.id ≠ x.id ∧ w.entry.admissionRecovery = some r.id) ∨ r.Settled d) :
    Traced mint repo c (d.deleteRow x.id) := by
  obtain ⟨hl, hg, hh⟩ := h
  have hsub : ∀ r ∈ (d.deleteRow x.id).rows, r ∈ d.rows := fun r hr => (mem_deleteRow.mp hr).1
  refine ⟨⟨?_, ?_, ?_, hl.alone, hl.bound, hl.cached, hl.kin, hl.begun⟩,
    ⟨hg.markerIds, hg.markerMinted, hg.marks, hg.heldAlone, hg.alone, hg.ids,
      hg.idMinted, hg.holds, hg.evidence, hg.known,
      ?_⟩, ⟨hh.logged, fun y hy hset hyr r hr hid => (hh.settled y hy hset hyr r hr hid).congr rfl⟩⟩
  · exact hl.nodup.sublist (filter_sublist.map _)
  · exact fun r hr => hl.minted r (hsub r hr)
  · exact fun r hr => hl.logged r (hsub r hr)
  · intro r hrec hrr
    refine (hg.once r hrec hrr).imp id fun ⟨h1, hlive⟩ => ⟨h1, ?_⟩
    rcases hlive with ⟨row, hrow, hid⟩ | hs
    · by_cases he : row.id = x.id
      · have hrx : row = x := inj_on_of_nodup_map hl.nodup hrow hx he
        subst hrx
        obtain ⟨r', hr', hid', hrepo, -⟩ := hg.known row (hl.logged row hrow) r.id hid
        have hrr' : r' = r := inj_on_of_nodup_map hg.ids hr' hrec hid'
        rcases ho (by rw [hrepo, hrr', hrr]) r hrec hid with ⟨w, hw, hne, hwid⟩ | hs
        · exact .inl ⟨w, mem_deleteRow.mpr ⟨hw, hne⟩, hwid⟩
        · exact .inr (hs.congr rfl)
      · exact .inl ⟨row, mem_deleteRow.mpr ⟨hrow, he⟩, hid⟩
    · exact .inr (hs.congr rfl)

theorem Traced.drop {x w : Row} (hx : x ∈ d.rows) (hw : w ∈ d.rows) (hne : w.id ≠ x.id)
    (hr : w.entry.repoName = x.entry.repoName) (hs : w.seq = x.seq) :
    Traced mint repo c (d.deleteRow x.id) := by
  apply h.deleteRow hx
  intro hxr r _ hid
  have hl := h.lineage
  have hkin := hl.kin w (hl.logged w hw) x (hl.logged x hx) (hr.trans hxr) hxr hs
  exact .inl ⟨w, hw, hne, hkin.trans hid⟩

theorem Traced.addRow (hmint : Injective mint)
    {next : LandingQueueEntry} (halone : Alone repo next.repoName)
    (hbound : next.repoName = repo → next.seq ≤ d.counter repo)
    (hkin : ∀ r ∈ d.log, r.entry.repoName = repo → next.repoName = repo → r.seq = next.seq →
      r.entry.admissionRecovery = next.admissionRecovery)
    (hbegun : ∀ id, next.admissionRecovery = some id → next.rev = 0 ∨ 1 ≤ d.recoveries id)
    (hknown : ∀ id, next.admissionRecovery = some id → ∃ r ∈ d.receipts, r.id = id ∧
      next.repoName = r.entry.repoName ∧ next.key = r.entry.key)
    (hnew : ∀ r ∈ d.receipts, r.entry.repoName = repo → next.admissionRecovery = some r.id →
      next.rev = 0 → d.recoveries r.id = 0) : Traced mint repo c (d.addRow mint next) := by
  obtain ⟨hl, hg, hh⟩ := h
  have hlog : ∀ r ∈ (d.addRow mint next).log, r ∈ d.log ∨ r = ⟨mint d.minted, next⟩ :=
    fun r hr => (mem_append.mp hr).imp id mem_singleton.mp
  have hrows : ∀ r ∈ (d.addRow mint next).rows, r ∈ d.rows ∨ r = ⟨mint d.minted, next⟩ :=
    fun r hr => (mem_append.mp hr).imp id mem_singleton.mp
  have hmore : ∀ id, d.recoveries id ≤ (d.addRow mint next).recoveries id := by
    intro id
    rw [recoveries_addRow]
    exact Nat.le_add_right _ _
  refine ⟨⟨?_, ?_, ?_, ?_, ?_, hl.cached, ?_, ?_⟩, ⟨hg.markerIds, ?_, ?_, hg.heldAlone, hg.alone,
    hg.ids, ?_, hg.holds,
    hg.evidence, ?_, ?_⟩, ⟨?_, ?_⟩⟩
  · exact nodup_concat_key hl.nodup (fresh_of_drawn hmint hl.minted)
  · exact drawn_concat hl.minted rfl
  · intro r hr
    rcases hrows r hr with hr | rfl
    · exact mem_append_left _ (hl.logged r hr)
    · exact mem_concat_self
  · intro r hr
    rcases hlog r hr with hr | rfl
    · exact hl.alone r hr
    · exact halone
  · intro r hr hrr
    rcases hlog r hr with hr | rfl
    · exact hl.bound r hr hrr
    · exact hbound hrr
  · intro a ha b hb har hbr hs
    rcases hlog a ha with ha | rfl
    · rcases hlog b hb with hb | rfl
      · exact hl.kin a ha b hb har hbr hs
      · exact hkin a ha har hbr hs
    · rcases hlog b hb with hb | rfl
      · exact (hkin b hb hbr har hs.symm).symm
      · rfl
  · intro r hr id hid
    rcases hlog r hr with hr | rfl
    · exact (hl.begun r hr id hid).trans (hmore id)
    · rcases hbegun id hid with hrev | hle
      · rw [recoveries_addRow, if_pos ⟨hid, hrev⟩]
        omega
      · exact hle.trans (hmore id)
  · intro m hm
    obtain ⟨n, hn, hid⟩ := hg.markerMinted m hm
    exact ⟨n, Nat.lt_succ_of_lt hn, hid⟩
  · exact fun m hm id hid => (hg.marks m hm id hid).trans (hmore id)
  · intro r hr
    obtain ⟨n, hn, hid⟩ := hg.idMinted r hr
    exact ⟨n, Nat.lt_succ_of_lt hn, hid⟩
  · intro r hr id hid
    rcases hlog r hr with hr | rfl
    · exact hg.known r hr id hid
    · exact hknown id hid
  · intro r hr hrr
    rw [recoveries_addRow]
    by_cases hfor : next.admissionRecovery = some r.id ∧ next.rev = 0
    · rw [if_pos hfor, hnew r hr hrr hfor.1 hfor.2]
      refine .inr ⟨rfl, .inl ⟨⟨mint d.minted, next⟩, ?_, hfor.1⟩⟩
      exact mem_concat_self
    · rw [if_neg hfor, Nat.add_zero]
      refine (hg.once r hr hrr).imp id fun ⟨h1, hlive⟩ => ⟨h1, hlive.imp ?_ fun hs => hs.congr rfl⟩
      exact fun ⟨row, hrow, hid⟩ => ⟨row, mem_append_left _ hrow, hid⟩
  · intro x hx
    obtain ⟨r, hr, hk⟩ := hh.logged x hx
    exact ⟨r, mem_append_left _ hr, hk⟩
  · exact fun x hx hset hxr r hr hid => (hh.settled x hx hset hxr r hr hid).congr rfl

theorem Traced.rewrite (hmint : Injective mint) {next : LandingQueueEntry} (hlog : Logged next d)
    (hrev : 0 < next.rev) : Traced mint repo c (d.addRow mint next) := by
  obtain ⟨r, hr, hk⟩ := hlog
  apply h.addRow hmint
  · rw [hk.repoName]
    exact h.lineage.alone r hr
  · intro hrepo
    rw [hk.seq]
    exact h.lineage.bound r hr (hk.repoName ▸ hrepo)
  · intro a ha har hnr hs
    rw [hk.recovery]
    exact h.lineage.kin a ha r hr har (hk.repoName ▸ hnr) (hs.trans hk.seq)
  · intro id hid
    rw [hk.recovery] at hid
    exact .inr (h.lineage.begun r hr id hid)
  · intro id hid
    rw [hk.recovery] at hid
    obtain ⟨R, hR, hRid, hrepo, hkey⟩ := h.granted.known r hr id hid
    exact ⟨R, hR, hRid, hk.repoName.trans hrepo, hk.key.trans hkey⟩
  · intro R _ _ _ h0
    omega

theorem Traced.addHold {hold : RecordId → AdmissionHold}
    (hlog : Logged (hold (mint d.minted)).entry d) : Traced mint repo c (d.addHold mint hold) := by
  obtain ⟨hl, hg, hh⟩ := h
  refine ⟨hl.congr rfl rfl rfl rfl (Nat.le_succ _), ⟨hg.markerIds, ?_, hg.marks, ?_, hg.alone,
    hg.ids, ?_, hg.holds, hg.evidence, hg.known, hg.once⟩, ⟨hh.logged, hh.settled⟩⟩
  · intro m hm
    obtain ⟨n, hn, hid⟩ := hg.markerMinted m hm
    exact ⟨n, Nat.lt_succ_of_lt hn, hid⟩
  · refine forall_mem_append.mpr ⟨hg.heldAlone, ?_⟩
    intro x hx
    obtain ⟨r, hr, hk⟩ := hlog
    rw [mem_singleton.mp hx, hk.repoName]
    exact hl.alone r hr
  · intro r hr
    obtain ⟨n, hn, hid⟩ := hg.idMinted r hr
    exact ⟨n, Nat.lt_succ_of_lt hn, hid⟩

end

theorem traced_carries (hmint : Injective mint) :
    Carries mint (Traced mint repo c) Logged where
  nodup := fun _ h => h.lineage.nodup
  fresh := by
    intro d h r hr
    obtain ⟨n, hn, hid⟩ := h.lineage.minted r hr
    exact drawn_ne hmint hn hid
  logged := fun _ h r hr => ⟨r, h.lineage.logged r hr, .refl _⟩
  kin := fun _ _ _ h hk => h.kin hk
  drop := fun _ _ _ h hx hw hne hr hs => h.drop hx hw hne hr hs
  write := fun _ _ h hlog hrev => h.rewrite hmint hlog hrev
  note := fun _ _ h hb => ⟨h.lineage.congr hb.rows hb.log hb.seqFile hb.seqCache hb.minted,
    h.granted.beside hb, h.inHand.beside hb⟩
  hold := fun _ _ h hlog => h.addHold hlog

theorem processedMarker_addProcessed (d : Daemon) (m : RecordId → Processed)
    (entry : LandingQueueEntry) :
    (d.addProcessed mint m).processedMarker entry =
      if (m (mint d.minted)).repoName = entry.repoName ∧ (m (mint d.minted)).branch = entry.branch ∧
          (m (mint d.minted)).headSha = entry.headSha ∧ (m (mint d.minted)).target = entry.target
      then some (m (mint d.minted)) else d.processedMarker entry := by
  unfold processedMarker addProcessed
  by_cases hm : (m (mint d.minted)).repoName = entry.repoName ∧
      (m (mint d.minted)).branch = entry.branch ∧ (m (mint d.minted)).headSha = entry.headSha ∧
      (m (mint d.minted)).target = entry.target
  · rw [if_pos hm]
    simp [hm]
  · rw [if_neg hm]
    simp [hm]

theorem Granted.settled_addProcessed (h : Granted mint repo d) (hmint : Injective mint)
    {m : RecordId → Processed} (hm : (m (mint d.minted)).id = mint d.minted)
    (hr : r ∈ d.receipts) (hs : r.Settled d ∨ ((m (mint d.minted)).repoName = r.entry.repoName ∧
      (m (mint d.minted)).branch = r.entry.branch ∧ (m (mint d.minted)).headSha = r.entry.headSha ∧
      (m (mint d.minted)).target = r.entry.target)) :
    r.Settled (d.addProcessed mint m) := by
  obtain ⟨-, m₀, hm₀, hid₀, -⟩ := h.evidence r hr
  obtain ⟨n, hn, hmn⟩ := h.markerMinted m₀ hm₀
  have hnew : (m (mint d.minted)).id ≠ r.processed := by
    rw [hm, ← hid₀]
    exact (drawn_ne hmint hn hmn).symm
  unfold Receipt.Settled
  rw [processedMarker_addProcessed]
  split
  · exact ⟨_, rfl, hnew⟩
  next hno =>
    rcases hs with hs | hs
    · exact hs
    · exact absurd hs hno

theorem Traced.mark (h : Traced mint repo c d) (hmint : Injective mint)
    {e : LandingQueueEntry} (hrec : ∀ id, e.admissionRecovery = some id → 1 ≤ d.recoveries id)
    (word : String) (tip : Option String) :
    Traced mint repo c (d.addProcessed mint (markerOf e word tip)) := by
  obtain ⟨hl, hg, hh⟩ := h
  have hsettled : ∀ r ∈ d.receipts, r.Settled d →
      r.Settled (d.addProcessed mint (markerOf e word tip)) :=
    fun r hr hs => hg.settled_addProcessed hmint rfl hr (.inl hs)
  have hmarks : ∀ m ∈ (d.addProcessed mint (markerOf e word tip)).processed,
      m ∈ d.processed ∨ m = markerOf e word tip (mint d.minted) :=
    fun m hm => (mem_append.mp hm).imp id mem_singleton.mp
  refine ⟨hl.congr rfl rfl rfl rfl (Nat.le_succ _), ⟨?_, ?_, ?_, hg.heldAlone, hg.alone,
    hg.ids, ?_, hg.holds, ?_, hg.known, ?_⟩, ⟨hh.logged, ?_⟩⟩
  · exact nodup_concat_key hg.markerIds (fresh_of_drawn hmint hg.markerMinted)
  · exact drawn_concat hg.markerMinted rfl
  · intro m hm id hid
    rcases hmarks m hm with hm | rfl
    · exact hg.marks m hm id hid
    · exact hrec id hid
  · intro r hr
    obtain ⟨n, hn, hid⟩ := hg.idMinted r hr
    exact ⟨n, Nat.lt_succ_of_lt hn, hid⟩
  · intro r hr
    obtain ⟨hid, m, hm, hrest⟩ := hg.evidence r hr
    exact ⟨hid, m, mem_append_left _ hm, hrest⟩
  · intro r hr hrr
    exact (hg.once r hr hrr).imp id fun ⟨h1, hlive⟩ => ⟨h1, hlive.imp id (hsettled r hr)⟩
  · exact fun x hx hset hxr r hr hid => hsettled r hr (hh.settled x hx hset hxr r hr hid)

theorem Logged.begun (h : Traced mint repo c d) {e : LandingQueueEntry} (hlog : Logged e d)
    (id : RecordId) (hid : e.admissionRecovery = some id) : 1 ≤ d.recoveries id := by
  obtain ⟨r, hr, hk⟩ := hlog
  exact h.lineage.begun r hr id (hk.recovery ▸ hid)

theorem Logged.receipt (h : Traced mint repo c d) {e : LandingQueueEntry} (hlog : Logged e d)
    (hr : r ∈ d.receipts) (hid : e.admissionRecovery = some r.id) :
    e.repoName = r.entry.repoName ∧ e.key = r.entry.key := by
  obtain ⟨row, hrow, hk⟩ := hlog
  obtain ⟨r', hr', hid', hrepo, hkey⟩ := h.granted.known row hrow r.id (hk.recovery ▸ hid)
  have : r' = r := inj_on_of_nodup_map h.granted.ids hr' hr hid'
  rw [← this]
  exact ⟨hk.repoName.trans hrepo, hk.key.trans hkey⟩

theorem accounted_of_none {e : LandingQueueEntry} (he : e.admissionRecovery = none) :
    Accounted repo e d := by
  intro _ r _ hid
  rw [he] at hid
  cases hid

theorem markerOf_matches {e : LandingQueueEntry} (hrepo : e.repoName = r.entry.repoName)
    (hkey : e.key = r.entry.key) (word : String) (tip : Option String) (id : RecordId) :
    (markerOf e word tip id).repoName = r.entry.repoName ∧
      (markerOf e word tip id).branch = r.entry.branch ∧
      (markerOf e word tip id).headSha = r.entry.headSha ∧
      (markerOf e word tip id).target = r.entry.target := by
  simp only [LandingQueueEntry.key, WorkKey.mk.injEq] at hkey
  exact ⟨hrepo, hkey.1, hkey.2.2.1, hkey.2.1⟩

theorem Granted.find_receipt (h : Granted mint repo d) (hr : r ∈ d.receipts) :
    d.receipts.find? (fun x => x.id = r.id) = some r := find?_key h.ids hr rfl

theorem Traced.reconciled (h : Traced mint repo c d) {e : LandingQueueEntry} (hlog : Logged e d)
    {tip : Option String} {m : Processed} (hm : d.admissionMarker e tip = .ok (some m))
    (hr : r ∈ d.receipts) (hid : e.admissionRecovery = some r.id) : r.Settled d := by
  obtain ⟨hrepo, hkey⟩ := hlog.receipt h hr hid
  simp only [LandingQueueEntry.key, WorkKey.mk.injEq] at hkey
  have hsame : d.processedMarker r.entry = d.processedMarker e := by
    unfold processedMarker
    rw [hrepo, hkey.1, hkey.2.1, hkey.2.2.1]
  unfold admissionMarker at hm
  cases hp : d.processedMarker e with
  | none => simp [hp] at hm
  | some m' =>
    refine ⟨m', by rw [hsame, hp], fun he => ?_⟩
    -- the marker the receipt was granted on is the only one with its id
    obtain ⟨-, m₀, hm₀, hid₀, hhold, hout⟩ := h.granted.evidence r hr
    have hmem : m' ∈ d.processed := mem_reverse.mp (mem_of_find?_eq_some hp)
    have hm' : m' = m₀ :=
      inj_on_of_nodup_map h.granted.markerIds hmem hm₀ (he.trans hid₀.symm)
    have hsup : d.recoverySupersedes e m' = .ok true ∨ ∃ x, d.recoverySupersedes e m' = .error x := by
      unfold recoverySupersedes
      rw [hid]
      simp only [h.granted.find_receipt hr]
      by_cases hmatch : receiptMatches e r = true
      · rw [if_pos hmatch]
        left
        simp [hm', hhold, hout, hid₀]
      · rw [if_neg hmatch]
        exact .inr ⟨_, rfl⟩
    rcases hsup with hsup | ⟨x, hsup⟩
    · simp [hp, hsup] at hm
    · simp [hp, hsup] at hm

theorem Traced.setSeq (h : Traced mint repo c d) {other : String} (ha : Alone repo other) :
    Traced mint repo c (d.setSeq other (d.currentSeq other + 1)) ∧
      (other = repo → d.currentSeq other + 1 =
          (d.setSeq other (d.currentSeq other + 1)).counter repo ∧
        ∀ r ∈ d.log, r.entry.repoName = repo → r.seq < d.currentSeq other + 1) := by
  obtain ⟨hl, hg, hh⟩ := h
  have hcur : d.currentSeq repo = d.counter repo := currentSeq_eq_counter hl.cached
  have hcount := counter_le_setSeq hl.cached ha
  have hlineage : Lineage mint repo (d.setSeq other (d.currentSeq other + 1)) :=
    ⟨hl.nodup, hl.minted, hl.logged, hl.alone,
      fun r hr hrr => (hl.bound r hr hrr).trans hcount, cached_setSeq hl.cached ha _, hl.kin, hl.begun⟩
  have hgranted : Granted mint repo (d.setSeq other (d.currentSeq other + 1)) := by
    generalize d.currentSeq other + 1 = n
    exact ⟨hg.markerIds, hg.markerMinted, hg.marks, hg.heldAlone, hg.alone, hg.ids,
      hg.idMinted, hg.holds, hg.evidence, hg.known, hg.once⟩
  refine ⟨⟨hlineage, hgranted, ⟨hh.logged, hh.settled⟩⟩, ?_⟩
  intro ho
  subst ho
  refine ⟨by rw [counter_setSeq], fun r hr hrr => ?_⟩
  have := hl.bound r hr hrr
  omega

def Queueable (repo : String) (e : LandingQueueEntry) (d : Daemon) : Prop :=
  ∀ id, e.admissionRecovery = some id →
    (∃ r ∈ d.receipts, r.id = id ∧ e.repoName = r.entry.repoName ∧ e.key = r.entry.key) ∧
      (e.repoName = repo → d.recoveries id = 0)

theorem queueable_of_none {e : LandingQueueEntry} (he : e.admissionRecovery = none) :
    Queueable repo e d := by
  intro id hid
  rw [he] at hid
  cases hid

/-- The receipts in `rs` have been granted. -/
def Keeping (mint : Nat → RecordId) (repo : String) (c : Client) (rs : List Receipt) (d : Daemon) :
    Prop :=
  Traced mint repo c d ∧ ∀ r ∈ rs, r ∈ d.receipts

theorem enqueue_traced (hmint : Injective mint) (rs : List Receipt)
    {e : LandingQueueEntry} (ha : Alone repo e.repoName) (now : DateTime) :
    Triple (Keeping mint repo c rs) (fun d => Keeping mint repo c rs d ∧ Queueable repo e d)
      (enqueue mint e now) (fun _ d => Keeping mint repo c rs d) := by
  refine .of_start ?_
  rintro d ⟨⟨hd, hrs⟩, hq⟩
  obtain ⟨hset, hnext⟩ := hd.setSeq ha
  have hadd : Traced mint repo c ((d.setSeq e.repoName (d.currentSeq e.repoName + 1)).addRow mint
      (e.queuedAs (d.currentSeq e.repoName + 1) now)) := by
    apply hset.addRow hmint
    · exact ha
    · exact fun hr => Nat.le_of_eq (hnext hr).1
    · intro r hr hrr hnr hs
      have hlt := (hnext hnr).2 r hr hrr
      rw [hs] at hlt
      exact absurd hlt (Nat.lt_irrefl _)
    · exact fun _ _ => .inl rfl
    · exact fun id hid => (hq id hid).1
    · intro r hr hrr hid _
      obtain ⟨⟨r', hr', hid', hrepo, -⟩, hzero⟩ := hq r.id hid
      have : r' = r := inj_on_of_nodup_map hd.granted.ids hr' hr hid'
      exact hzero (by rw [hrepo, this, hrr])
  refine .bind (nextSeq_exact ⟨hset, hrs⟩) fun n => ?_
  · refine .bind (Q := fun _ t => Keeping mint repo c rs t) (.write ?_ ?_)
      fun _ => .pure fun _ h => h
    all_goals
      rintro t ⟨rfl, rfl⟩
      exact ⟨hadd, hrs⟩

theorem enqueue_unrecovered (hmint : Injective mint) {e : LandingQueueEntry}
    (ha : Alone repo e.repoName) (he : e.admissionRecovery = none) (now : DateTime) :
    Triple (Traced mint repo c) (Traced mint repo c) (enqueue mint e now)
      (fun _ d => Traced mint repo c d) := by
  refine ((enqueue_traced hmint [] ha now).mono ?_ fun _ _ h => h.1).crash_mono fun _ h => h.1
  exact fun d hd => ⟨⟨hd, fun r hr => (not_mem_nil hr).elim⟩, queueable_of_none he⟩

theorem Logged.alone (h : Traced mint repo c d) {e : LandingQueueEntry} (hlog : Logged e d) :
    Alone repo e.repoName := by
  obtain ⟨r, hr, hk⟩ := hlog
  rw [hk.repoName]
  exact h.lineage.alone r hr

/-- Whatever an entry in the consumer's hands ends with, but a quarantine, settles the
receipt it is under. -/
theorem traced_accounts (hmint : Injective mint) {h : Held} (hh : h ∈ c.held) :
    Accounts mint (Traced mint repo c) Logged (fun _ => Accounted repo h.entry) h.entry where
  toCarries := traced_carries hmint
  known := fun _ hd => hd.inHand.logged h hh
  mark := by
    intro d e' o word tip hd hk ho
    have hlog' := (hd.inHand.logged h hh).kin hk
    refine ⟨hd.mark hmint (hlog'.begun hd) word tip, fun _ r hr hid => ?_⟩
    obtain ⟨hrepo, hkey⟩ := hlog'.receipt hd hr (hk.recovery.trans hid)
    exact hd.granted.settled_addProcessed hmint rfl hr
      (.inr (markerOf_matches hrepo hkey word tip (mint d.minted)))
  reconcile := fun d tip m hd hm _ r hr hid =>
    hd.reconciled (hd.inHand.logged h hh) hm hr hid
  requeue := by
    intro e' now hk hn
    refine .of_start fun d hd => ?_
    have ha : Alone repo e'.retry.repoName := ((hd.inHand.logged h hh).kin hk).alone hd
    refine (enqueue_unrecovered hmint ha (hk.recovery.trans hn) now).mono ?_ fun n d' hd' =>
      ⟨hd', accounted_of_none hn⟩
    rintro t rfl
    exact hd

theorem remove_traced (hmint : Injective mint) {h : Held} (hh : h ∈ c.held)
    (hset : h.settled = true) :
    Triple (Traced mint repo c) (Traced mint repo c) (remove h.entry)
      (fun _ d => Traced mint repo c d) := by
  refine .bind (find_carries (traced_carries hmint) h.entry) fun o => ?_
  cases o with
  | none => exact .pure fun d hd => hd.1
  | some row =>
    have hdel : ∀ d, (Traced mint repo c d ∧ ∀ x, some row = some x → x ∈ d.rows ∧
        x.entry.repoName = h.entry.repoName ∧ x.seq = h.entry.seq) →
        Traced mint repo c (d.deleteRow row.id) := by
      intro d ⟨hd, hrow⟩
      obtain ⟨hm, hr, hseq⟩ := hrow row rfl
      apply hd.deleteRow hm
      intro hrr r hrec hid
      obtain ⟨a, ha, hk⟩ := hd.inHand.logged h hh
      have hkin := hd.lineage.kin a ha row (hd.lineage.logged row hm)
        (hk.repoName.symm.trans (hr.symm.trans hrr)) hrr (hk.seq.symm.trans hseq.symm)
      apply Or.inr
      apply hd.inHand.settled h hh hset (hr.symm.trans hrr) r hrec
      rw [hk.recovery, hkin, hid]
    exact .write hdel hdel

theorem Traced.queueable (h : Traced mint repo c d) (hr : r ∈ d.receipts)
    (hn : ¬ r.Live d) (hset : ¬ r.Settled d) : Queueable repo r.entry d := by
  intro id hid
  rw [(h.granted.evidence r hr).1] at hid
  cases hid
  refine ⟨⟨r, hr, rfl, rfl, rfl⟩, fun hrr => ?_⟩
  rcases h.granted.once r hr hrr with h0 | ⟨-, hl | hs⟩
  · exact h0
  · exact absurd hl hn
  · exact absurd hs hset

theorem Traced.unsettled (h : Traced mint repo c d) (hr : r ∈ d.receipts) {m : Processed}
    (hm : d.processedMarker r.entry = some m) (hs : d.recoverySupersedes r.entry m = .ok true) :
    ¬ r.Settled d := by
  rintro ⟨m', hm', hne⟩
  rw [hm] at hm'
  cases hm'
  unfold recoverySupersedes at hs
  rw [(h.granted.evidence r hr).1] at hs
  simp only [h.granted.find_receipt hr] at hs
  split at hs
  · simp only [Except.ok.injEq, decide_eq_true_eq] at hs
    exact hne hs.1.symm
  · cases hs

theorem containsWorkKey_traced (hmint : Injective mint) (rs : List Receipt) (hr : r ∈ rs) :
    Triple (Keeping mint repo c rs) (fun d => Keeping mint repo c rs d ∧ ¬ r.Settled d)
      (containsWorkKey r.entry)
      (fun b d => Keeping mint repo c rs d ∧ (b = false → Queueable repo r.entry d)) := by
  have hJ : Carries mint (fun d => Traced mint repo c d ∧ (∀ x ∈ rs, x ∈ d.receipts) ∧
      ¬ r.Settled d) Logged := by
    apply (traced_carries hmint).and
    · exact fun d i h => ⟨h.1, fun hs => h.2 (hs.congr rfl)⟩
    · exact fun d next h => ⟨h.1, fun hs => h.2 (hs.congr rfl)⟩
    · intro d d' h hb
      refine ⟨?_, fun hs => h.2 (hs.congr hb.processed.symm)⟩
      rw [hb.receipts]
      exact h.1
    · exact fun d x h => ⟨h.1, fun hs => h.2 (hs.congr rfl)⟩
  refine .bind (((scanCurrent_carries hJ r.entry.repoName none).crash_mono
    fun _ h => ⟨h.1, h.2.1⟩).mono (fun _ h => ⟨h.1.1, h.1.2, h.2⟩) fun _ _ h => h)
    fun rows => .pure ?_
  intro d ⟨⟨hd, hrs, hset⟩, hrows⟩
  refine ⟨⟨hd, hrs⟩, fun hany => hd.queueable (hrs r hr) ?_ hset⟩
  rintro ⟨row, hrow, hid⟩
  obtain ⟨r', hr', hid', hrepo, hkey⟩ :=
    hd.granted.known row (hd.lineage.logged row hrow) r.id hid
  have hrr : r' = r := inj_on_of_nodup_map hd.granted.ids hr' (hrs r hr) hid'
  rw [hrr] at hrepo hkey
  have hm : row ∈ rows := hrows.all row (mem_pending.mpr ⟨hrow, hrepo, by simp⟩)
  have := any_eq_false.mp hany row hm
  simp [hkey] at this

theorem resumeAdmissionReceipt_traced (hmint : Injective mint) (rs : List Receipt) (hr : r ∈ rs)
    (refs : Except String Unit) (now : DateTime) :
    Triple (Keeping mint repo c rs) (Keeping mint repo c rs)
      (resumeAdmissionReceipt mint r refs now) (fun _ d => Keeping mint repo c rs d) := by
  refine .bind (Q := fun s d => s = d ∧ Keeping mint repo c rs d)
    (.read fun d hd => ⟨rfl, hd⟩) fun s => ?_
  cases hm : s.processedMarker r.entry with
  | none => exact .fail
  | some m =>
    dsimp only
    split
    · exact .pure fun d hd => hd.2
    cases hs : s.recoverySupersedes r.entry m with
    | error x => exact .fail
    | ok b =>
      cases b with
      | false => exact .fail
      | true =>
        refine .bind ((containsWorkKey_traced hmint rs hr).mono ?_ fun _ _ h => h) fun queued => ?_
        · rintro d ⟨rfl, hd⟩
          exact ⟨hd, hd.1.unsettled (hd.2 r hr) hm hs⟩
        cases queued with
        | true => exact .pure fun d hd => hd.1
        | false =>
          cases refs with
          | error x => exact .fail
          | ok _ =>
            refine .of_start fun d hd => ?_
            have ha : Alone repo r.entry.repoName := hd.1.1.granted.alone r (hd.1.2 r hr)
            refine .bind ((enqueue_traced hmint rs ha now).mono ?_ fun _ _ h => h)
              fun _ => .pure fun _ h => h
            rintro t rfl
            exact ⟨hd.1, hd.2 rfl⟩

theorem Granted.unborn (h : Granted mint repo d) (hmint : Injective mint) {row : Row}
    (hrow : row ∈ d.log) : row.entry.admissionRecovery ≠ some (mint d.minted) := by
  intro hid
  obtain ⟨r, hr, hrid, -⟩ := h.known row hrow _ hid
  obtain ⟨n, hn, hrn⟩ := h.idMinted r hr
  exact drawn_ne hmint hn hrn hrid

theorem Traced.addReceipt (h : Traced mint repo c d) (hmint : Injective mint)
    {r : RecordId → Receipt} (hid : (r (mint d.minted)).id = mint d.minted)
    (hrec : (r (mint d.minted)).entry.admissionRecovery = some (mint d.minted))
    (ha : Alone repo (r (mint d.minted)).entry.repoName)
    (hnew : d.admissionReceipt (r (mint d.minted)).hold = none)
    (hev : ∃ m ∈ d.processed, m.id = (r (mint d.minted)).processed ∧
      m.admissionHold = some (r (mint d.minted)).hold ∧ m.outcome = "gate-held") :
    Traced mint repo c (d.addReceipt mint r) := by
  obtain ⟨hl, hg, hh⟩ := h
  have hrs : ∀ x ∈ (d.addReceipt mint r).receipts, x ∈ d.receipts ∨ x = r (mint d.minted) :=
    fun x hx => (mem_append.mp hx).imp id mem_singleton.mp
  refine ⟨hl.congr rfl rfl rfl rfl (Nat.le_succ _), ⟨hg.markerIds, ?_, hg.marks, hg.heldAlone, ?_,
    ?_, ?_, ?_, ?_, ?_, ?_⟩, ⟨hh.logged, ?_⟩⟩
  · intro m hm
    obtain ⟨n, hn, hmn⟩ := hg.markerMinted m hm
    exact ⟨n, Nat.lt_succ_of_lt hn, hmn⟩
  · intro x hx
    rcases hrs x hx with hx | rfl
    · exact hg.alone x hx
    · exact ha
  · refine nodup_concat_key hg.ids fun x hx => ?_
    rw [hid]
    exact fresh_of_drawn hmint hg.idMinted x hx
  · exact drawn_concat hg.idMinted hid
  · refine nodup_concat_key hg.holds fun x hx => ?_
    simpa using find?_eq_none.mp hnew x hx
  · intro x hx
    rcases hrs x hx with hx | rfl
    · exact hg.evidence x hx
    · exact ⟨hrec.trans (congrArg some hid.symm), hev⟩
  · intro row hrow id hid'
    obtain ⟨x, hx, hrest⟩ := hg.known row hrow id hid'
    exact ⟨x, mem_append_left _ hx, hrest⟩
  · intro x hx hxr
    rcases hrs x hx with hx | rfl
    · exact hg.once x hx hxr
    · left
      apply countP_eq_zero.mpr
      intro row hrow hfor
      rw [hid] at hfor
      exact hg.unborn hmint hrow (of_decide_eq_true hfor).1
  · intro y hy hset hyr x hx hyid
    rcases hrs x hx with hx | rfl
    · exact hh.settled y hy hset hyr x hx hyid
    · obtain ⟨row, hrow, hk⟩ := hh.logged y hy
      rw [hid] at hyid
      exact absurd (hk.recovery.symm.trans hyid) (hg.unborn hmint hrow)

theorem retryAdmission_traced (hmint : Injective mint) (hold : RecordId) (reason : String)
    (env : RecoveryEnv) :
    Triple (Traced mint repo c) (Traced mint repo c) (retryAdmission mint hold reason env)
      (fun _ d => Traced mint repo c d) := by
  have hresume : ∀ (r : Receipt), Triple (Traced mint repo c)
      (fun d => Traced mint repo c d ∧ r ∈ d.receipts)
      (resumeAdmissionReceipt mint r env.refsAgain env.now) (fun _ d => Traced mint repo c d) := by
    intro r
    refine ((resumeAdmissionReceipt_traced hmint [r] mem_cons_self env.refsAgain env.now).mono
      ?_ fun _ _ h => h.1).crash_mono fun _ h => h.1
    intro d ⟨hd, hr⟩
    exact ⟨hd, fun x hx => by rw [mem_singleton.mp hx]; exact hr⟩
  unfold retryAdmission
  split
  · exact .fail
  refine .bind (Q := fun s d => s = d ∧ Traced mint repo c d)
    (.read fun d hd => ⟨rfl, hd⟩) fun s => ?_
  cases hf : s.holds.find? (fun h => h.id = hold) with
  | none => exact .fail
  | some h =>
    dsimp only
    split
    · exact .fail
    split
    · exact .fail
    cases hrec : s.admissionReceipt hold with
    | some r =>
      refine (hresume r).mono ?_ fun _ _ h => h
      rintro d ⟨rfl, hd⟩
      exact ⟨hd, mem_of_find?_eq_some hrec⟩
    | none =>
      dsimp only
      split
      · exact .fail
      · exact .fail
      next marker budget hm =>
      split
      · exact .fail
      next hno =>
      split
      · exact .fail
      next b _ =>
      -- the grant: the receipt is written, then its entry is queued
      refine .of_start ?_
      rintro d ⟨rfl, hd⟩
      have hhold : h.id = hold := by simpa using find?_some hf
      have hadd := hd.addReceipt hmint (r := fun id =>
        { id, hold := h.id, processed := marker.id, reason := trim reason
          entry := h.entry.recovered (.new b env.opened) id }) rfl rfl
        (hd.granted.heldAlone h (mem_of_find?_eq_some hf)) (by rw [hhold]; exact hrec)
        ⟨marker, mem_reverse.mp (mem_of_find?_eq_some hm), rfl,
          by rw [hhold]; exact not_not.mp fun hc => hno (.inl hc),
          not_not.mp fun hc => hno (.inr hc)⟩
      refine .bind (Q := fun t t' => t = s ∧ t' = s) (.read ?_) fun t => ?_
      · rintro t rfl
        exact ⟨rfl, rfl⟩
      refine .bind (.write (Q := fun _ t' => Traced mint repo c t' ∧ _ ∈ t'.receipts)
        ?_ ?_) fun _ => hresume _
      · rintro t' ⟨rfl, rfl⟩
        exact hadd
      · rintro t' ⟨rfl, rfl⟩
        exact ⟨hadd, mem_concat_self⟩

theorem resumeEach_traced (hmint : Injective mint) (refs : RecordId → Except String Unit)
    (now : DateTime) (rs : List Receipt) :
    Triple (Traced mint repo c) (Keeping mint repo c rs) (resumeEach mint refs now rs)
      (fun _ d => Traced mint repo c d) := by
  induction rs with
  | nil => exact .pure fun d hd => hd.1
  | cons r rs ih =>
    have hone : Triple (Keeping mint repo c (r :: rs)) (Keeping mint repo c (r :: rs))
        (resumeAdmissionReceipt mint r (refs r.id) now) (fun _ => Keeping mint repo c (r :: rs)) :=
      resumeAdmissionReceipt_traced hmint (r :: rs) mem_cons_self (refs r.id) now
    refine .bind ((hone.attempt fun _ h => h).crash_mono fun _ h => h.1)
      fun o => ih.mono ?_ fun _ _ h => h
    intro d hd
    have hd : Keeping mint repo c (r :: rs) d := by cases o <;> exact hd
    exact ⟨hd.1, fun x hx => hd.2 x (mem_cons_of_mem _ hx)⟩

theorem resumeAdmissionRecoveries_traced (hmint : Injective mint)
    (refs : RecordId → Except String Unit) (now : DateTime) :
    Triple (Traced mint repo c) (Traced mint repo c) (resumeAdmissionRecoveries mint refs now)
      (fun _ d => Traced mint repo c d) := by
  refine .bind (Q := fun s d => s = d ∧ Traced mint repo c d)
    (.read fun d hd => ⟨rfl, hd⟩) fun s => ?_
  refine (resumeEach_traced hmint refs now s.receipts).mono ?_ fun _ _ h => h
  rintro d ⟨rfl, hd⟩
  exact ⟨hd, fun _ h => h⟩

end

end RatKingdom.Landing
