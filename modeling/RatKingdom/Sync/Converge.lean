/-
Castles agree in the end, unless a take is forgotten too soon.

When no castle's cycle changes a ref or a space any more, the live tuples of the
kingdom are the same everywhere.  Compaction can break this: it drops a take as soon as
the compacting castle no longer sees the tuple's `Out`, and at that moment another castle
may still hold the tuple and have fetched no take of it.  So can a double that is parsed as
another: no reader admits the line of its tuple.  Runs in which every dropped take is on
another ref too, or is for a tuple that is dead everywhere, and every record is parsed as
it was written, do converge: each tuple then follows the protocol of `Lib.Fate`.
-/
import RatKingdom.Lib.Tombstone
import RatKingdom.Sync.Ledger

namespace RatKingdom.Sync

open Core Lib Space Std List Store Kingdom

variable {c : Ed25519} {n : Nat}

/-- The tuples every castle is to agree on: written by a castle under its own label, not
ephemeral, not an announcement. -/
def Shared (r : Realm c n) (s : Kingdom n) (a : Fin n) (t : Tuple) : Prop :=
  (a, t) ∈ s.born ∧ t.inst = (r.castle a).label ∧ t.lifecycle ≠ .ephemeral ∧
    syntheticCastlePresence t = false

/-- What the castles know of the tuple castle `a` wrote under `id`. -/
def fate (s : Kingdom n) (a : Fin n) (id : RecordId) : Fate (Fin n) :=
  { live := fun i => (s.sites i).space.store.existsId id = true
    held := fun i => (s.sites i).space.store.hasPersistenceEvent id = true
    passed := ∃ j ∈ (s.sites a).space.store.journal,
      j.tuple.id = id ∧ j.sequence ≤ (s.sites a).cursor.getD 0
    birth := HasOut (s.sites a).own id
    birthRemote := HasOut (carried s.remote) id
    birthSeen := fun i => HasOut (carried (s.sites i).tracking) id
    death := fun i => HasTake (s.sites i).own id
    deathRemote := HasTake (carried s.remote) id
    deathSeen := fun i => HasTake (carried (s.sites i).tracking) id
    removed := id ∈ s.removed }

section
variable {r : Realm c n}

theorem mem_goneIds {s : Store} {id : RecordId} :
    id ∈ goneIds s ↔ s.hasPersistenceEvent id = true ∧ ¬ s.existsId id = true := by
  simp only [goneIds, mem_filter, mem_map, hasPersistenceEvent_eq_true,
    Bool.not_eq_true', Bool.not_eq_true]

variable {s : Kingdom n} {i : Fin n}

theorem frame_of_sites {s' : Kingdom n} (hs : ∀ j, j ≠ i → s'.sites j = s.sites j)
    (hr : s'.removed = s.removed ++ goneIds (s'.sites i).space.store) (a : Fin n) (id : RecordId) :
    (fate s a id).Frame i (fate s' a id) := by
  refine ⟨fun j hj => ?_, fun j hj => ?_, fun j hj => ?_, fun j hj => ?_, fun j hj => ?_, fun hm => ?_⟩
  · show (s'.sites j).space.store.existsId id = true ↔ _
    rw [hs j hj]
    exact .rfl
  · show (s'.sites j).space.store.hasPersistenceEvent id = true ↔ _
    rw [hs j hj]
    exact .rfl
  · show HasOut (carried (s'.sites j).tracking) id ↔ _
    rw [hs j hj]
    exact .rfl
  · show HasTake (s'.sites j).own id ↔ _
    rw [hs j hj]
    exact .rfl
  · show HasTake (carried (s'.sites j).tracking) id ↔ _
    rw [hs j hj]
    exact .rfl
  · have hm' : id ∈ s'.removed := hm
    rw [hr] at hm'
    exact (mem_append.mp hm').imp_right mem_goneIds.mp

variable {a : Fin n} {t : Tuple}

theorem out_signer (h : Sound r s) (hb : (a, t) ∈ s.born) {rec : SyncRecord} (hrec : rec ∈ s.signed)
    {u : Tuple} (hop : rec.op = .out u) (hu : u.id = t.id) :
    u = t ∧ rec.actor = (r.castle a).identity.actor := by
  obtain ⟨o, ho, -, hact⟩ := h.ledger.outs rec hrec u hop
  have heq : (o, u) = (a, t) := h.ledger.tuple_eq ho hb hu
  cases heq
  exact ⟨rfl, hact⟩

theorem out_owner (h : Sound r s) (hb : (a, t) ∈ s.born) (ho : HasOut (s.sites i).own t.id) :
    i = a := by
  obtain ⟨rec, hrec, u, hop, hu⟩ := ho
  obtain ⟨hsigned, hact⟩ := (h.site i).own rec hrec
  have hact' := (out_signer h hb hsigned hop hu).2
  exact r.actors (hact.symm.trans hact')

theorem mem_tuples_iff_sees (h : Sound r s) (hb : (a, t) ∈ s.born) (i : Fin n) :
    t.id ∈ ((s.sites i).log (r.castle i)).tuples ↔ (fate s a t.id).Sees a i := by
  rw [mem_log_tuples h.ledger (h.site i).toRefsSound]
  refine or_congr .rfl ?_
  constructor
  · intro ho
    have hi := out_owner h hb ho
    exact ⟨hi, hi ▸ ho⟩
  · intro ho
    rw [ho.1]
    exact ho.2

theorem mem_taken_iff_knows (h : Sound r s) (a : Fin n) (id : RecordId) (i : Fin n) :
    id ∈ ((s.sites i).log (r.castle i)).taken ↔ (fate s a id).Knows i := by
  rw [mem_log_taken h.ledger (h.site i).toRefsSound]
  exact Or.comm

theorem fate_space (hb : (a, t) ∈ s.born) {op : Op} {space : Inner} (hop : localOp op = true)
    (hfresh : s.freshTuples (written op) = true) (hs : (s.sites i).space.step op = some space) :
    (fate s a t.id).Local i (fate (s.worked i { s.sites i with space } (written op)) a t.id) := by
  have hnew := freshTuples_spec hfresh
  have hadds := adds_localOp hop hs
  have hjournal : ∀ j : Row, j.tuple.id = t.id →
      (j ∈ space.store.journal ↔ j ∈ (s.sites i).space.store.journal) := by
    intro j hj
    refine ⟨fun hm => ?_, hadds.mem_journal⟩
    exact (hadds.journal_cases hm).resolve_right fun hw => hnew _ hw _ hb hj.symm
  have hself := worked_self s i { s.sites i with space } (written op)
  -- Only the space of castle `i` changes, so the marks stay.
  have hrest : ∀ j, ∃ sp, (s.worked i { s.sites i with space } (written op)).sites j =
      { s.sites j with space := sp } := by
    intro j
    by_cases hj : j = i
    · subst hj
      exact ⟨space, hself⟩
    · exact ⟨(s.sites j).space, worked_ne s hj _ _⟩
  refine ⟨frame_of_sites (fun j hj => worked_ne s hj _ _) (by rw [hself]; rfl) a t.id,
    ?_, ?_, ?_, ?_, .rfl, ?_, ?_, .rfl, ?_⟩
  · show ((s.worked i { s.sites i with space } (written op)).sites i).space.store.existsId t.id =
      true → _
    rw [hself]
    intro hl
    obtain ⟨row, hrow, hid⟩ := existsId_eq_true.mp hl
    rcases hadds.rows row hrow with hrow | ⟨-, hw⟩
    · exact existsId_eq_true.mpr ⟨row, hrow, hid⟩
    · exact absurd hid.symm (hnew _ hw _ hb)
  · show _ ↔ ((s.worked i { s.sites i with space } (written op)).sites
      i).space.store.hasPersistenceEvent
      t.id = true
    rw [hself]
    show (s.sites i).space.store.hasPersistenceEvent t.id = true ↔ _
    rw [hasPersistenceEvent_eq_true, hasPersistenceEvent_eq_true]
    exact exists_congr fun j => and_congr_left fun hj => (hjournal j hj).symm
  · show (∃ j ∈ ((s.worked i { s.sites i with space } (written op)).sites a).space.store.journal, _) ↔ _
    by_cases ha : a = i
    · subst ha
      simp only [fate, hself]
      exact exists_congr fun j => and_congr_left fun hj => hjournal j hj.1
    · simp only [fate, worked_ne s ha]
  · obtain ⟨sp, he⟩ := hrest a
    simp only [fate, he]
  all_goals
    obtain ⟨sp, he⟩ := hrest i
    simp only [fate, he]

theorem fate_compact (h : Sound r s) (hb : (a, t) ∈ s.born) :
    (fate s a t.id).Compact a i (fate (s.worked i ((s.sites i).compact (r.castle i)) []) a t.id) := by
  have hauth : ∀ rec ∈ (s.sites i).own, rec.verify c = true ∧ rec.reread c = rec :=
    fun rec hrec => h.ledger.authentic rec ((h.site i).own rec hrec).1
  have hself := worked_self s i ((s.sites i).compact (r.castle i)) []
  obtain ⟨own, he⟩ := compact_frame (r.castle i) (s.sites i)
  have hown : ∀ rec, rec ∈ own ↔ rec ∈ (s.sites i).own ∧
      ((s.sites i).log (r.castle i)).keeps rec = true := by
    intro rec
    rw [← mem_compact_own hauth, he]
  rw [he] at hself ⊢
  refine ⟨frame_of_sites (fun j hj => worked_ne s hj _ _) (by rw [hself]; rfl) a t.id,
    ?_, ?_, ?_, ?_, .rfl, ?_, ?_, .rfl, ?_⟩
  · simp only [fate, hself]
  · simp only [fate, hself]
  · by_cases ha : a = i
    · subst ha
      simp only [fate, hself]
    · simp only [fate, worked_ne s ha]
  · by_cases ha : a = i
    · subst ha
      rw [← mem_taken_iff_knows h a t.id a]
      simp only [fate, hself, true_and]
      constructor
      · intro ho
        obtain ⟨rec, hrec, u, hop, hu⟩ := ho
        obtain ⟨hm, hk⟩ := (hown rec).mp hrec
        refine ⟨⟨rec, hm, u, hop, hu⟩, fun ht => ?_⟩
        simp only [LogView.keeps, hop, hu, Bool.not_eq_true', ← Bool.not_eq_true,
          ExtTreeMap.contains_iff_mem] at hk
        exact hk ht
      · intro ho
        obtain ⟨⟨rec, hm, u, hop, hu⟩, ht⟩ := ho
        refine ⟨rec, (hown rec).mpr ⟨hm, ?_⟩, u, hop, hu⟩
        simp only [LogView.keeps, hop, hu, Bool.not_eq_true', ← Bool.not_eq_true,
          ExtTreeMap.contains_iff_mem]
        exact ht
    · have hne : ¬ i = a := fun hia => ha hia.symm
      simp only [fate, worked_ne s ha, hne, false_and, not_false_eq_true, and_true]
  · simp only [fate, hself]
  · rw [← mem_tuples_iff_sees h hb i]
    simp only [fate, hself]
    constructor
    · intro ho
      obtain ⟨rec, hrec, hop⟩ := ho
      obtain ⟨hm, hk⟩ := (hown rec).mp hrec
      simp only [LogView.keeps, hop, ExtTreeMap.contains_iff_mem] at hk
      exact ⟨⟨rec, hm, hop⟩, hk⟩
    · intro ho
      obtain ⟨⟨rec, hm, hop⟩, hk⟩ := ho
      refine ⟨rec, (hown rec).mpr ⟨hm, ?_⟩, hop⟩
      simp only [LogView.keeps, hop, ExtTreeMap.contains_iff_mem]
      exact hk
  · simp only [fate, hself]

section Exchange
variable {s : Kingdom n} {i a : Fin n} {t : Tuple} {contact : Contact} {stamps : List Stamp}
  {site : Site} {remote : Refs}

theorem row_tuple {born : List (Fin n × Tuple)} {signed : List SyncRecord} {refs : Refs}
    (hl : Ledger r born signed) (h : SiteSound r born signed refs i site) (hb : (a, t) ∈ born) {j : Row}
    (hj : j ∈ site.space.store.journal) (hid : j.tuple.id = t.id) : j.tuple = t := by
  obtain ⟨o, ho, -⟩ := h.journal j hj
  have heq : (o, j.tuple) = (a, t) := hl.tuple_eq ho hb hid
  exact congrArg Prod.snd heq

/-- What an exchange stores under the id of a shared tuple was offered by the log, to a
castle that is not its author. -/
theorem stored_offered (h' : Sound r (s.exchanged i site remote (contact.written (r.castle i))))
    (hsh : Shared r s a t) (hfresh : s.freshTuples (contact.written (r.castle i)) = true) {u : Tuple}
    (hu : u ∈ contact.written (r.castle i) ∨ ∃ id, Offers (r.castle i) (site.log (r.castle i)) id u)
    (hid : u.id = t.id) :
    i ≠ a ∧ HasOut (carried site.tracking) t.id := by
  have hself : (s.exchanged i site remote (contact.written (r.castle i))).sites i = site :=
    exchanged_self s i site remote _
  have hb' : (a, t) ∈ (s.exchanged i site remote (contact.written (r.castle i))).born :=
    mem_born_worked.mpr (.inl hsh.1)
  rcases hu with hw | ⟨id, ho⟩
  · exact absurd hid.symm (freshTuples_spec hfresh u hw _ hsh.1)
  · have hrefs := (h'.site i).toRefsSound
    rw [hself] at hrefs
    obtain ⟨huid, o, hbu⟩ := offers_born h'.ledger hrefs ho
    have heq : (o, u) = (a, t) := h'.ledger.tuple_eq hbu hb' hid
    cases heq
    have hne : i ≠ a := by
      intro hia
      subst hia
      exact ho.2.2 hsh.2.1
    refine ⟨hne, ?_⟩
    have hm : t.id ∈ (site.log (r.castle i)).tuples := by
      rw [ExtTreeMap.mem_iff_isSome_getElem?, huid, ho.1]
      rfl
    have hsees := (mem_tuples_iff_sees h' hb' i).mp (by rw [hself]; exact hm)
    have hseen : HasOut (carried ((s.exchanged i site remote (contact.written (r.castle i))).sites
        i).tracking)
        t.id := hsees.resolve_right fun hn => hne hn.1
    rw [hself] at hseen
    exact hseen

variable {records : List SyncRecord}

/-- A castle exports its own live tuple, unless the cursor is past it. -/
theorem exported_live (h : Sound r s) (hsh : Shared r s i t)
    (hexp : Exported (r.castle i) (s.sites i) stamps records) (hl : (fate s i t.id).live i)
    (hp : ¬ (fate s i t.id).passed) : HasOut records t.id := by
  have hi := h.site i
  obtain ⟨takes, hex⟩ := hi.exports
  obtain ⟨row, hrow, hid⟩ := existsId_eq_true.mp hl
  have hj := hi.rows row hrow
  have htup : row.tuple = t := row_tuple h.ledger hi hsh.1 hj hid
  have hlt : (s.sites i).cursor.getD 0 < row.sequence :=
    Nat.not_le.mp fun hle => hp ⟨row, hj, hid, hle⟩
  obtain ⟨rec, hrec, hop⟩ := hexp.outs row hrow hj
    ⟨by rw [htup]; exact hsh.2.2.1, by rw [htup]; exact hsh.2.1⟩ hlt (hex.site.wf.bounded row hrow)
  exact ⟨rec, hrec, row.tuple, hop, hid⟩

/-- What a castle exports of its own is live, and the cursor was not past it. -/
theorem live_of_exported (h : Sound r s) (hsh : Shared r s i t)
    (hexp : Exported (r.castle i) (s.sites i) stamps records) (ho : HasOut records t.id) :
    ¬ (fate s i t.id).passed ∧ (fate s i t.id).live i := by
  obtain ⟨rec, hrec, u, hop, hu⟩ := ho
  obtain ⟨stamp, ⟨j, hj, hlt, -, hl, rfl⟩ | ⟨id, -, rfl⟩⟩ := hexp.made rec hrec
  · cases hop
    constructor
    · -- The author's journal has the tuple once.
      intro hp
      obtain ⟨j', hj', hid', hle⟩ := hp
      have heq := (h.site i).once t hsh.1 hsh.2.1 hsh.2.2.1 j hj j' hj' hu hid'
      subst heq
      omega
    · obtain ⟨row, hrow, -, hid⟩ := mem_liveIds.mp hl
      exact existsId_eq_true.mpr ⟨row, hrow, hid.trans hu⟩
  · cases hop

theorem exported_missing (h : Sound r s) (hsh : Shared r s a t)
    (hexp : Exported (r.castle i) (s.sites i) stamps records) (hv : (fate s a t.id).Sees a i)
    (hk : ¬ (fate s a t.id).Knows i) (hl : ¬ (fate s a t.id).live i) (hh : (fate s a t.id).held i) :
    HasTake records t.id := by
  have hmiss : t.id ∈ ((s.sites i).log (r.castle i)).missing (liveIds (s.sites i).space.store) := by
    refine mem_missing.mpr ⟨⟨(mem_tuples_iff_sees h hsh.1 i).mpr hv,
      fun hm => hk ((mem_taken_iff_knows h a t.id i).mp hm)⟩, fun hm => hl ?_⟩
    obtain ⟨row, hrow, -, hid⟩ := mem_liveIds.mp hm
    exact existsId_eq_true.mpr ⟨row, hrow, hid⟩
  exact hexp.takes t.id hmiss hh

theorem sees_of_exported (h : Sound r s) (hsh : Shared r s a t)
    (hexp : Exported (r.castle i) (s.sites i) stamps records) (ht : HasTake records t.id) :
    (fate s a t.id).Sees a i := by
  obtain ⟨rec, hrec, hop⟩ := ht
  obtain ⟨stamp, ⟨j, -, -, -, -, rfl⟩ | ⟨id, hid, rfl⟩⟩ := hexp.made rec hrec
  · cases hop
  · cases hop
    exact (mem_tuples_iff_sees h hsh.1 i).mp hid

theorem exists_mem_append {P : SyncRecord → Prop} {own more : List SyncRecord} :
    (∃ rec ∈ own ++ more, P rec) ↔ (∃ rec ∈ own, P rec) ∨ ∃ rec ∈ more, P rec := by
  simp only [mem_append, or_and_right, exists_or]

theorem carried_insert_cases {P : SyncRecord → Prop} {actor : String} {own : List SyncRecord}
    (h : ∃ rec ∈ carried (remote.insert actor (own.map some)), P rec) :
    (∃ rec ∈ carried remote, P rec) ∨ ∃ rec ∈ own, P rec := by
  obtain ⟨rec, hrec, hP⟩ := h
  cases mem_carried_insert.mp hrec with
  | inl hown => exact .inr ⟨rec, hown, hP⟩
  | inr hold =>
    obtain ⟨other, lines, -, hlines, hm⟩ := hold
    exact .inl ⟨rec, mem_carried.mpr ⟨other, lines, hlines, hm⟩, hP⟩

/-- The ref another castle delivers leaves the author's on the remote. -/
theorem delivered_beside (h : Sound r s) (hsh : Shared r s a t) (hia : a ≠ i)
    (hr : HasOut (carried s.remote) t.id) (own : List SyncRecord) :
    HasOut (carried (s.remote.insert (r.castle i).identity.actor (own.map some))) t.id := by
  obtain ⟨rec, hrec, u, hop, hu⟩ := hr
  obtain ⟨other, lines, hlines, hm⟩ := mem_carried.mp hrec
  obtain ⟨rec', hsigned, he, hact⟩ := h.remote other lines hlines _ hm
  cases he
  have hact' := (out_signer h hsh.1 hsigned hop hu).2
  refine ⟨rec, mem_carried_insert.mpr (.inr ⟨other, lines, fun ho => hia ?_, hlines, hm⟩), u, hop, hu⟩
  exact r.actors (hact'.symm.trans (hact.trans ho))

theorem fate_exchange (h : Sound r s)
    (h' : Sound r (s.exchanged i site remote (contact.written (r.castle i))))
    (hsh : Shared r s a t) (hexact : (s.sites i).exportsExactly (r.castle i))
    (hfresh : s.freshTuples (contact.written (r.castle i)) = true)
    (hx : Exchanged (r.castle i) contact stamps (s.sites i) s.remote site remote) :
    (fate s a t.id).Exchange a i
      (fate (s.exchanged i site remote (contact.written (r.castle i))) a t.id) := by
  have hself : (s.exchanged i site remote (contact.written (r.castle i))).sites i = site :=
    exchanged_self s i site remote _
  have hother : ∀ j, j ≠ i →
      (s.exchanged i site remote (contact.written (r.castle i))).sites j = s.sites j :=
    fun j hj => exchanged_ne s hj site remote _
  have hb' : (a, t) ∈ (s.exchanged i site remote (contact.written (r.castle i))).born :=
    mem_born_worked.mpr (.inl hsh.1)
  obtain ⟨takes, hex⟩ := (h.site i).exports
  have hstored := @stored_offered c n r s i a t contact site remote h' hsh hfresh
  obtain ⟨records, hown, hexp⟩ := hx.own_exact hexact
  have howner : HasOut site.own t.id → i = a := by
    intro ho
    rw [← hself] at ho
    exact out_owner h' hb' ho
  refine
    { toFrame := frame_of_sites hother (by rw [hself]; rfl) a t.id
      birth := ?birth, exports := ?exports, exported := ?exported, passed := ?passed
      passes := ?passes, passedBy := ?passedBy, marks := ?marks, detects := ?detects
      detected := ?detected, fetched := ?fetched, delivered := ?delivered, delivers := ?delivers
      deathRemote := ?deathRemote, kept := ?kept, stored := ?stored, arrived := ?arrived
      dropped := ?dropped }
  case birth =>
    intro ho
    by_cases ha : a = i
    · subst ha
      simp only [fate, hself, hown]
      exact .append ho
    · simpa only [fate, hother a ha] using ho
  case exports =>
    intro hia hl hp
    subst hia
    simp only [fate, hself, hown]
    exact exists_mem_append.mpr (.inr (exported_live h hsh hexp hl hp))
  case exported =>
    intro ho
    by_cases ha : a = i
    · subst ha
      simp only [fate, hself, hown] at ho
      exact (exists_mem_append.mp ho).imp_right fun hnew => ⟨rfl, live_of_exported h hsh hexp hnew⟩
    · exact .inl (by simpa only [fate, hother a ha] using ho)
  case passed =>
    intro hp
    by_cases ha : a = i
    · subst ha
      obtain ⟨j, hj, hid, hle⟩ := hp
      simp only [fate, hself, hx.cursor]
      exact ⟨j, hx.space.mem_journal hj, hid, hle.trans hex.site.cursor_le⟩
    · simpa only [fate, hother a ha] using hp
  case passes =>
    intro hia hh
    subst hia
    obtain ⟨j, hj, hid⟩ := hasPersistenceEvent_eq_true.mp hh
    simp only [fate, hself, hx.cursor]
    exact ⟨j, hx.space.mem_journal hj, hid, hex.site.wf.journalBounded j hj⟩
  case passedBy =>
    intro hp
    by_cases ha : a = i
    · exact .inr ha.symm
    · exact .inl (by simpa only [fate, hother a ha] using hp)
  case marks =>
    intro hd
    simp only [fate, hself, hown]
    exact exists_mem_append.mpr (.inl hd)
  case detects =>
    intro hv hk hl hh
    simp only [fate, hself, hown]
    exact exists_mem_append.mpr (.inr (exported_missing h hsh hexp hv hk hl hh))
  case detected =>
    intro hd
    simp only [fate, hself, hown] at hd
    exact (exists_mem_append.mp hd).imp_right (sees_of_exported h hsh hexp)
  case fetched =>
    rcases hx.tracking with ht | ht
    · simp only [fate, hself, ht, true_and, true_or]
    · rw [union_eq_of_subset (h.site i).fetched] at ht
      simp only [fate, hself, ht, true_and, or_true]
  case delivered =>
    intro hr
    rcases hx.remote with rfl | rfl
    · exact .inl hr
    · cases carried_insert_cases hr with
      | inl hold => exact .inl hold
      | inr ho =>
        right
        have hia := howner ho
        subst hia
        simp only [fate, hself]
        exact ho
  case delivers =>
    intro hr hbirth
    rcases hx.remote with rfl | rfl
    · exact hr
    · by_cases hia : a = i
      · subst hia
        simp only [fate, hself] at hbirth
        obtain ⟨rec, hrec, hop⟩ := hbirth
        exact ⟨rec, mem_carried_insert.mpr (.inl hrec), hop⟩
      · exact delivered_beside h hsh hia hr site.own
  case deathRemote =>
    intro hr
    rcases hx.remote with rfl | rfl
    · exact .inl hr
    · refine (carried_insert_cases hr).imp_right fun hd => ?_
      simp only [fate, hself]
      exact hd
  case kept =>
    intro hh
    obtain ⟨j, hj, hid⟩ := hasPersistenceEvent_eq_true.mp hh
    simp only [fate, hself]
    exact hasPersistenceEvent_eq_true.mpr ⟨j, hx.space.mem_journal hj, hid⟩
  case stored =>
    intro hh
    simp only [fate, hself] at hh ⊢
    obtain ⟨j, hj, hid⟩ := hasPersistenceEvent_eq_true.mp hh
    rcases hx.space.journal_cases hj with hj | hu
    · exact .inl (hasPersistenceEvent_eq_true.mpr ⟨j, hj, hid⟩)
    · exact .inr (hstored hu hid)
  case arrived =>
    intro hl
    simp only [fate, hself] at hl ⊢
    obtain ⟨row, hrow, hid⟩ := existsId_eq_true.mp hl
    rcases hx.space.rows row hrow with hrow | ⟨hj, hu⟩
    · exact .inl (existsId_eq_true.mpr ⟨row, hrow, hid⟩)
    · obtain ⟨hne, hseen⟩ := hstored hu hid
      exact .inr ⟨hne, hseen, hasPersistenceEvent_eq_true.mpr ⟨row, hj, hid⟩⟩
  case dropped =>
    intro hk
    have hm := (mem_taken_iff_knows h' a t.id i).mpr hk
    rw [hself] at hm
    have hdrop := hx.dropped t.id hm
    simp only [fate, hself, hdrop, Bool.false_eq_true, not_false_eq_true]

end Exchange

end

/-- No castle has the tuple, no `Out` of it is on an own ref or on the remote, and no
castle's log offers it for import. -/
structure Extinct (r : Realm c n) (s : Kingdom n) (id : RecordId) : Prop where
  live : ∀ j, (s.sites j).space.store.existsId id = false
  own : ∀ j, ¬ HasOut (s.sites j).own id
  remote : ¬ HasOut (carried s.remote) id
  offered : ∀ j t, ¬ Offers (r.castle j) ((s.sites j).log (r.castle j)) id t

/-- A take that compaction is about to drop is on another castle's ref too, or its tuple
is extinct. -/
def dropGuard (r : Realm c n) (s : Kingdom n) : Move n → Prop
  | .compact i => ∀ id, HasTake (s.sites i).own id → id ∉ ((s.sites i).log (r.castle i)).tuples →
      (∃ j, j ≠ i ∧ HasTake (s.sites j).own id) ∨ Extinct r s id
  | _ => True

instance (own : List SyncRecord) (id : RecordId) : Decidable (HasOut own id) :=
  decidable_of_iff (∃ rec ∈ own, (outOf rec).map Tuple.id = some id) (by
    simp only [HasOut, Option.map_eq_some_iff, outOf_eq_some])

instance (own : List SyncRecord) (id : RecordId) : Decidable (HasTake own id) :=
  decidable_of_iff (∃ rec ∈ own, takeOf rec = some id) (by simp only [HasTake, takeOf_eq_some])

instance (k : Castle c) (view : LogView) (id : RecordId) : Decidable (∀ t, ¬ Offers k view id t) :=
  decidable_of_iff (∀ t ∈ view.tuples[id]?, ¬ (id ∉ view.taken ∧ t.inst ≠ k.label)) (by
    simp only [Offers, Option.mem_def, not_and])

instance (r : Realm c n) (s : Kingdom n) (id : RecordId) : Decidable (Extinct r s id) :=
  decidable_of_iff ((∀ j, (s.sites j).space.store.existsId id = false) ∧
      (∀ j, ¬ HasOut (s.sites j).own id) ∧ ¬ HasOut (carried s.remote) id ∧
      ∀ j, ∀ t, ¬ Offers (r.castle j) ((s.sites j).log (r.castle j)) id t)
    ⟨fun h => ⟨h.1, h.2.1, h.2.2.1, h.2.2.2⟩, fun h => ⟨h.live, h.own, h.remote, h.offered⟩⟩

instance (r : Realm c n) (s : Kingdom n) : (m : Move n) → Decidable (dropGuard r s m)
  | .compact i =>
    decidable_of_iff (∀ rec ∈ (s.sites i).own, ∀ id ∈ takeOf rec,
        id ∉ ((s.sites i).log (r.castle i)).tuples →
        (∃ j, j ≠ i ∧ HasTake (s.sites j).own id) ∨ Extinct r s id)
      ⟨fun h id hd => (by
          obtain ⟨rec, hrec, hop⟩ := hd
          exact h rec hrec id (takeOf_eq_some.mpr hop)),
        fun h rec hrec id hid => h id ⟨rec, hrec, takeOf_eq_some.mp hid⟩⟩
  | .space _ _ | .exchange _ _ _ _ => isTrue trivial

instance (r : Realm c n) (s : Kingdom n) : (m : Move n) → Decidable (exactGuard r s m)
  | .exchange i _ _ _ => by unfold exactGuard Site.exportsExactly; infer_instance
  | .space _ _ | .compact _ => isTrue trivial

section
variable {r : Realm c n} {s : Kingdom n} {t : Tuple}

theorem dead_of_extinct (h : Sound r s) {a : Fin n} (hsh : Shared r s a t) (he : Extinct r s t.id) :
    (fate s a t.id).Dead a := by
  refine ⟨fun j hl => ?_, he.own a, he.remote, fun j hj hseen => ?_⟩
  · have hl' : (s.sites j).space.store.existsId t.id = true := hl
    rw [he.live j] at hl'
    cases hl'
  · rw [← mem_taken_iff_knows h a t.id j]
    by_contra hk
    have hm : t.id ∈ ((s.sites j).log (r.castle j)).tuples :=
      (mem_tuples_iff_sees h hsh.1 j).mpr (.inl hseen)
    obtain ⟨u, hu⟩ := Option.isSome_iff_exists.mp (ExtTreeMap.mem_iff_isSome_getElem?.mp hm)
    obtain ⟨huid, rec, hrec, hop⟩ := exists_out_of_tuples hu
    have hsigned : rec ∈ s.signed :=
      ((mem_materialize h.ledger (h.site j).toRefsSound).mp hrec).elim (h.site j).tracking.mem
        fun hm => ((h.site j).own rec hm).1
    have hut : u = t := (out_signer h hsh.1 hsigned hop huid).1
    refine he.offered j u ⟨hu, hk, fun hinst => hj (r.labels ?_)⟩
    show (r.castle j).label = (r.castle a).label
    rw [← hsh.2.1, ← hut, hinst]

variable {i : Fin n}

theorem dropSafe_of_guard (h : Sound r s) {a : Fin n} (hsh : Shared r s a t)
    (hg : dropGuard r s (.compact i)) :
    Fate.DropSafe a i (fate s a t.id) := by
  intro hd hv
  refine (hg t.id hd fun hm => hv ((mem_tuples_iff_sees h hsh.1 i).mp hm)).imp_right ?_
  exact dead_of_extinct h hsh

structure KingdomInv (r : Realm c n) (s : Kingdom n) : Prop extends Sound r s where
  removed : ∀ id ∈ s.removed, ∃ p ∈ s.born, p.2.id = id
  tracked : ∀ a t, Shared r s a t → (fate s a t.id).Tracked a

theorem goneIds_born (h : Sound r s) {id : RecordId} (hid : id ∈ goneIds (s.sites i).space.store) :
    ∃ p ∈ s.born, p.2.id = id := by
  obtain ⟨j, hj, hjid⟩ := hasPersistenceEvent_eq_true.mp (mem_goneIds.mp hid).1
  obtain ⟨o, ho, -⟩ := (h.site i).journal j hj
  exact ⟨_, ho, hjid⟩

/-- A tuple just written has left no trace but the row in its author's space. -/
theorem tracked_written (h : KingdomInv r s) {op : Op} {space : Inner} (hop : localOp op = true)
    (hfresh : s.freshTuples (written op) = true) (hs : (s.sites i).space.step op = some space)
    (ht : t ∈ written op) (h' : Sound r (s.worked i { s.sites i with space } (written op))) :
    (fate (s.worked i { s.sites i with space } (written op)) i t.id).Tracked i := by
  have hnew := freshTuples_spec hfresh t ht
  have hself := worked_self s i { s.sites i with space } (written op)
  have hother : ∀ j, j ≠ i → (s.worked i { s.sites i with space } (written op)).sites j = s.sites j :=
    fun j hj => worked_ne s hj _ _
  have hnoOut : ∀ l : List SyncRecord, (∀ rec ∈ l, rec ∈ s.signed) → ¬ HasOut l t.id := by
    intro l hl ho
    obtain ⟨rec, hrec, u, hop', hu⟩ := ho
    obtain ⟨o, hb, -⟩ := h.ledger.outs rec (hl rec hrec) u hop'
    exact hnew _ hb hu
  have hnoTake : ∀ l : List SyncRecord, (∀ rec ∈ l, rec ∈ s.signed) → ¬ HasTake l t.id := by
    intro l hl ho
    obtain ⟨rec, hrec, hop'⟩ := ho
    obtain ⟨p, hb, hid⟩ := h.ledger.takes rec (hl rec hrec) _ hop'
    exact hnew _ hb hid
  have hheld : ∀ j, j ≠ i → ¬ (s.sites j).space.store.hasPersistenceEvent t.id = true := by
    intro j _ hh
    obtain ⟨row, hrow, hid⟩ := hasPersistenceEvent_eq_true.mp hh
    obtain ⟨o, hb, -⟩ := (h.site j).journal row hrow
    exact hnew _ hb hid
  have howns : ∀ j, ∀ rec ∈ ((s.worked i { s.sites i with space } (written op)).sites j).own,
      rec ∈ s.signed := by
    intro j rec hrec
    exact ((h'.site j).own rec hrec).1
  have htrack : ∀ j, ∀ rec ∈ carried ((s.worked i { s.sites i with space } (written op)).sites
      j).tracking,
      rec ∈ s.signed := fun j rec hrec => (h'.site j).tracking.mem hrec
  have hremote : ∀ rec ∈ carried s.remote, rec ∈ s.signed := fun rec hrec => h.remote.mem hrec
  have hpersist : ∀ j, ((s.worked i { s.sites i with space } (written op)).sites j).space.store.existsId
      t.id = true → ((s.worked i { s.sites i with space } (written op)).sites
        j).space.store.hasPersistenceEvent
      t.id = true := by
    intro j hl
    obtain ⟨row, hrow, hid⟩ := existsId_eq_true.mp hl
    exact hasPersistenceEvent_eq_true.mpr ⟨row, (h'.site j).rows row hrow, hid⟩
  have hunsent : (fate (s.worked i { s.sites i with space } (written op)) i t.id).Unsent i := by
    refine ⟨hnoOut _ (howns i), hnoOut _ hremote, fun j => hnoOut _ (htrack j),
      fun j => hnoTake _ (howns j), hnoTake _ hremote, fun j => hnoTake _ (htrack j), ?_, ?_⟩
    · intro j hj hl
      have hh := hpersist j hl
      rw [hother j hj] at hh
      exact hheld j hj hh
    · intro j hj hh
      simp only [fate, hother j hj] at hh
      exact hheld j hj hh
  have hpassed : ¬ (fate (s.worked i { s.sites i with space } (written op)) i t.id).passed := by
    intro hp
    simp only [fate, hself] at hp
    obtain ⟨row, hrow, hid, hle⟩ := hp
    have hold : ∀ x ∈ (s.sites i).space.store.journal, x.tuple.id ≠ t.id := by
      intro x hx
      obtain ⟨o, hb, -⟩ := (h.site i).journal x hx
      exact hnew _ hb
    obtain ⟨takes, hex⟩ := (h.site i).exports
    have hcur := hex.site.cursor_le
    rcases localOp_cases hop hs with ⟨hjour, -⟩ | ⟨new, -, hseq, hjour, -⟩
    · rw [hjour] at hrow
      exact hold row hrow hid
    · rw [hjour] at hrow
      rcases mem_append.mp hrow with hrow | hrow
      · exact hold row hrow hid
      · rw [mem_singleton.mp hrow] at hle
        have hcur' : (s.sites i).cursor.getD 0 ≤ (s.sites i).space.store.lastSequence := hcur
        omega
  refine ⟨⟨.inl hunsent, ?_, ?_, hpersist, fun _ => .inl hpassed, fun _ => hunsent, ?_, ?_⟩, ?_⟩
  · intro hm
    rcases hm with hm | ⟨j, hm⟩
    · exact absurd hm hunsent.deathRemote
    · exact absurd hm (hunsent.deathSeen j)
  · intro j hk
    exact (hk.elim (hunsent.death j) (hunsent.deathSeen j)).elim
  · exact fun j _ _ hbirth => absurd hbirth hunsent.birth
  · exact fun j hseen _ => absurd hseen (hunsent.birthSeen j)
  · intro hr
    have hr' : t.id ∈ s.removed ++ goneIds space.store := hr
    rcases mem_append.mp hr' with hr' | hr'
    · obtain ⟨p, hp, hid⟩ := h.removed _ hr'
      exact absurd hid (hnew p hp)
    · refine .inr (.inl ⟨hunsent, ?_⟩)
      simp only [fate, hself]
      exact (mem_goneIds.mp hr').2

theorem born_mono {s' : Kingdom n} {m : Move n} (hs : s.step r m = some s') {p : Fin n × Tuple}
    (hp : p ∈ s.born) : p ∈ s'.born := by
  rcases step_cases hs with ⟨i, op, space, -, -, -, -, rfl⟩ |
    ⟨i, outStamps, takeStamps, contact, site, remote, -, -, -, -, rfl⟩ | ⟨i, -, rfl⟩
  all_goals exact mem_append_left _ hp

theorem kingdomInv_step {s' : Kingdom n} {m : Move n} (h : KingdomInv r s)
    (hstep : s.step r m = some s') (hg : dropGuard r s m) (hexact : exactGuard r s m) :
    KingdomInv r s' := by
  have hsound := sound_step h.toSound hstep hexact
  refine ⟨hsound, ?_, ?_⟩
  · have hcases : ∀ id ∈ s'.removed, id ∈ s.removed ∨ ∃ i, id ∈ goneIds (s'.sites i).space.store := by
      intro id hid
      rcases step_cases hstep with ⟨i, op, space, -, -, -, -, rfl⟩ |
        ⟨i, outStamps, takeStamps, contact, site, remote, -, -, -, -, rfl⟩ | ⟨i, -, rfl⟩
      · refine (mem_append.mp hid).imp_right fun hm => ⟨i, ?_⟩
        rw [worked_self]
        exact hm
      · refine (mem_append.mp hid).imp_right fun hm => ⟨i, ?_⟩
        rw [exchanged_self]
        exact hm
      · refine (mem_append.mp hid).imp_right fun hm => ⟨i, ?_⟩
        rw [worked_self]
        exact hm
    intro id hid
    rcases hcases id hid with hold | ⟨i, hgone⟩
    · obtain ⟨p, hp, hpid⟩ := h.removed id hold
      exact ⟨p, born_mono hstep hp, hpid⟩
    · exact goneIds_born hsound hgone
  · intro a t hsh
    rcases step_cases hstep with ⟨i, op, space, -, hop, hfresh, hs, rfl⟩ |
      ⟨i, outStamps, takeStamps, contact, site, remote, rfl, hstamps, hfresh, hx, rfl⟩ | ⟨i, rfl, rfl⟩
    · rcases mem_born_worked.mp hsh.1 with hb | ⟨hi, hw⟩
      · exact (fate_space hb hop hfresh hs).tracked (h.tracked a t ⟨hb, hsh.2⟩)
      · dsimp only at hi
        subst hi
        exact tracked_written h hop hfresh hs hw hsound
    · rcases mem_born_worked.mp hsh.1 with hb | ⟨-, hw⟩
      · have hold : Shared r s a t := ⟨hb, hsh.2⟩
        exact (fate_exchange h.toSound hsound hold hexact hfresh (exchange_spec hx)).tracked
          (h.tracked a t hold)
      · exact absurd (contact_written_ephemeral hw) hsh.2.2.1
    · have hb : (a, t) ∈ s.born := by
        have hm := hsh.1
        simpa [worked] using hm
      have hold : Shared r s a t := ⟨hb, hsh.2⟩
      exact (fate_compact h.toSound hb).tracked (dropSafe_of_guard h.toSound hold hg)
        (h.tracked a t hold)

theorem kingdomInv_fresh (r : Realm c n) : KingdomInv r (fresh r) := by
  have hborn : ∀ p, p ∈ (fresh r).born ↔ ∃ i, p = (i, r.announced i) := by
    intro p
    simp only [fresh, mem_ofFn]
    exact exists_congr fun i => eq_comm
  have hsigned : ∀ rec, rec ∈ (fresh r).signed ↔ ∃ i, rec = r.announcing i := by
    intro rec
    simp only [fresh, mem_ofFn]
    exact exists_congr fun i => eq_comm
  have hledger : Ledger r (fresh r).born (fresh r).signed := by
    refine ⟨?_, ?_, ?_, ?_, ?_⟩
    · simp only [fresh, map_ofFn]
      exact nodup_ofFn.mpr r.tupleIds
    · simp only [fresh, map_ofFn]
      exact nodup_ofFn.mpr r.recordIds
    · intro rec hrec
      obtain ⟨i, rfl⟩ := (hsigned rec).mp hrec
      exact ⟨SyncRecord.signed_verify _ _ _ _, rfl⟩
    · intro rec hrec t hop
      obtain ⟨i, rfl⟩ := (hsigned rec).mp hrec
      cases hop
      exact ⟨i, (hborn _).mpr ⟨i, rfl⟩, rfl, rfl⟩
    · intro rec hrec id hop
      obtain ⟨i, rfl⟩ := (hsigned rec).mp hrec
      cases hop
  have hn : ∀ refs : Refs, refs = ∅ → Carried (fresh r).signed refs := by
    intro refs he actor lines hl
    subst he
    simp at hl
  refine ⟨⟨hledger, hn _ rfl, fun i => ?_⟩, ?_, ?_⟩
  · have hrefs : RefsSound r (fresh r).signed (fresh r).remote i ((fresh r).sites i) := by
      refine ⟨fun rec hrec => ?_, hn _ rfl, fun actor ha => ?_⟩
      · have he : rec = r.announcing i := mem_singleton.mp hrec
        subst he
        exact ⟨(hsigned _).mpr ⟨i, rfl⟩, rfl⟩
      · simp [fresh, Site.fresh] at ha
    refine ⟨hrefs, ⟨[], exportInv_fresh _ _ _⟩, ?_, ?_, ?_, ?_⟩
    · intro j hj
      cases hj
    · intro row hrow
      cases hrow
    · intro t _ _ _ j hj
      cases hj
    · intro id hid
      rfl
  · intro id hid
    cases hid
  · intro a t hsh
    -- Announcements are all there is.
    obtain ⟨i, he⟩ := (hborn _).mp hsh.1
    cases he
    have hsyn := hsh.2.2.2
    simp [Realm.announced, presenceTuple, syntheticCastlePresence, Tuple.new] at hsyn

end

/-- A cycle of castle `i` that reaches the remote can run and changes no space and no ref. -/
def Rests (r : Realm c n) (s : Kingdom n) (i : Fin n) : Prop :=
  ∃ outStamps takeStamps site remote, freshStamps s.signed (outStamps ++ takeStamps) = true ∧
    (s.sites i).exchange (r.castle i) s.remote outStamps takeStamps .synced = some (site, remote) ∧
    site.space = (s.sites i).space ∧ site.tracking = (s.sites i).tracking ∧ remote = s.remote ∧
    (site.compact (r.castle i)).own = (s.sites i).own

def Settled (r : Realm c n) (s : Kingdom n) : Prop := ∀ i, Rests r s i

/-- A shared tuple is live on all castles or on none, and on none once any castle has
removed it. -/
def Converged (r : Realm c n) (s : Kingdom n) : Prop :=
  ∀ a t, Shared r s a t →
    (∀ i j, t ∈ (s.sites i).space.store.tuples → t ∈ (s.sites j).space.store.tuples) ∧
      (t.id ∈ s.removed → ∀ i, t ∉ (s.sites i).space.store.tuples)

section
variable {r : Realm c n} {s : Kingdom n}

theorem mem_tuples_iff_live (h : Sound r s) {a : Fin n} {t : Tuple} (hb : (a, t) ∈ s.born)
    (i : Fin n) :
    t ∈ (s.sites i).space.store.tuples ↔ (fate s a t.id).live i := by
  simp only [fate, tuples, mem_map, existsId_eq_true]
  constructor
  · intro hm
    obtain ⟨row, hrow, rfl⟩ := hm
    exact ⟨row, hrow, rfl⟩
  · intro hm
    obtain ⟨row, hrow, hid⟩ := hm
    exact ⟨row, hrow, row_tuple h.ledger (h.site i) hb ((h.site i).rows row hrow) hid⟩

/-- What a resting castle shows: it has nothing to export, its ref is the one on the
remote, it has fetched the whole remote, and it has stored what its log offers. -/
theorem Rests.spec (h : Sound r s) {i : Fin n} (hr : Rests r s i) :
    (∃ stamps, Exported (r.castle i) (s.sites i) stamps []) ∧
      s.remote[(r.castle i).identity.actor]? = some ((s.sites i).own.map some) ∧
      (s.sites i).tracking = s.remote ∧
      ∀ id t, Offers (r.castle i) ((s.sites i).log (r.castle i)) id t →
        (s.sites i).space.store.existsId id = true := by
  obtain ⟨outStamps, takeStamps, site, remote, hstamps, hx, hspace, htrack, hremote, -⟩ := hr
  obtain ⟨htrack', hremote', hstored⟩ := exchange_synced hx
  obtain ⟨records, hown, hexp⟩ := (exchange_spec hx).own
  have hget : s.remote[(r.castle i).identity.actor]? = some (site.own.map some) := by
    rw [← hremote, hremote']
    simp
  -- A record of this cycle would be on the remote already, under a fresh id.
  have hnil : records = [] := by
    by_contra hne
    obtain ⟨rec, hrec⟩ := exists_mem_of_ne_nil records hne
    have hm : some (rec.reread c) ∈ site.own.map some := by
      rw [hown]
      exact mem_map_of_mem (mem_append_right _ (mem_map_of_mem hrec))
    obtain ⟨rec', hsigned, he, -⟩ := h.remote _ _ hget _ hm
    cases he
    obtain ⟨st, hst, hid⟩ := mem_map.mp (hexp.ids.subset (mem_map_of_mem hrec))
    exact (freshStamps_iff.mp hstamps).2 st hst _ hsigned hid.symm
  subst hnil
  rw [map_nil, append_nil] at hown
  have hall : (s.sites i).tracking = s.remote := by
    rw [← htrack, htrack', union_eq_of_subset (h.site i).fetched]
  refine ⟨⟨_, hexp⟩, hown ▸ hget, hall, fun id t ho => hstored (by rw [hspace]) id t ?_⟩
  rw [log_congr hown htrack]
  exact ho

theorem quiet_of_settled (h : KingdomInv r s) (hset : Settled r s) {a : Fin n} {t : Tuple}
    (hsh : Shared r s a t) : (fate s a t.id).Quiet a := by
  have htracked := h.tracked a t hsh
  have hremote : ∀ i, ∀ rec ∈ (s.sites i).own, rec ∈ carried s.remote := by
    intro i rec hrec
    exact mem_carried.mpr ⟨_, _, (hset i |>.spec h.toSound).2.1, mem_map_of_mem hrec⟩
  refine ⟨fun hl => ?_, fun i hv hk => ?_, fun i hbirth => ?_, fun i j hd => ?_⟩
  · obtain ⟨⟨stamps, hexp⟩, -⟩ := (hset a).spec h.toSound
    by_contra hp
    obtain ⟨row, hrow, hid⟩ := existsId_eq_true.mp hl
    have hj := (h.site a).rows row hrow
    have htup : row.tuple = t := row_tuple h.ledger (h.site a) hsh.1 hj hid
    obtain ⟨takes, hex⟩ := (h.site a).exports
    obtain ⟨rec, hrec, -⟩ := hexp.outs row hrow hj
      ⟨by rw [htup]; exact hsh.2.2.1, by rw [htup]; exact hsh.2.1⟩
      (Nat.not_le.mp fun hle => hp ⟨row, hj, hid, hle⟩) (hex.site.wf.bounded row hrow)
    cases hrec
  · obtain ⟨⟨stamps, hexp⟩, -, -, hstored⟩ := (hset i).spec h.toSound
    have hmem := (mem_tuples_iff_sees h.toSound hsh.1 i).mpr hv
    have hnot : t.id ∉ ((s.sites i).log (r.castle i)).taken :=
      fun hm => hk ((mem_taken_iff_knows h.toSound a t.id i).mp hm)
    by_cases hi : i = a
    · subst hi
      by_contra hl
      have hheld : (fate s i t.id).held i := by
        have hp : (fate s i t.id).passed := by
          by_contra hp
          have hu := htracked.unsent hp
          exact hv.elim (hu.birthSeen i) fun hb => hu.birth hb.2
        obtain ⟨j, hj, hid, -⟩ := hp
        exact hasPersistenceEvent_eq_true.mpr ⟨j, hj, hid⟩
      have hgone : t.id ∉ liveIds (s.sites i).space.store := by
        intro hm
        obtain ⟨row, hrow, -, hid⟩ := mem_liveIds.mp hm
        exact hl (existsId_eq_true.mpr ⟨row, hrow, hid⟩)
      obtain ⟨rec, hrec, -⟩ := hexp.takes t.id (mem_missing.mpr ⟨⟨hmem, hnot⟩, hgone⟩) hheld
      cases hrec
    · obtain ⟨u, hu⟩ := Option.isSome_iff_exists.mp (ExtTreeMap.mem_iff_isSome_getElem?.mp hmem)
      obtain ⟨huid, rec, hrec, hop⟩ := exists_out_of_tuples hu
      have hsigned : rec ∈ s.signed :=
        ((mem_materialize h.ledger (h.site i).toRefsSound).mp hrec).elim (h.site i).tracking.mem
          fun hm => ((h.site i).own rec hm).1
      have hut : u = t := (out_signer h.toSound hsh.1 hsigned hop huid).1
      refine hstored t.id u ⟨hu, hnot, fun hinst => hi (r.labels ?_)⟩
      show (r.castle i).label = (r.castle a).label
      rw [← hsh.2.1, ← hut, hinst]
  · obtain ⟨rec, hrec, hop⟩ := hbirth
    obtain ⟨-, -, hall, -⟩ := (hset i).spec h.toSound
    left
    simp only [fate, hall]
    exact ⟨rec, hremote a rec hrec, hop⟩
  · obtain ⟨rec, hrec, hop⟩ := hd
    obtain ⟨-, -, hall, -⟩ := (hset i).spec h.toSound
    right
    simp only [fate, hall]
    exact ⟨rec, hremote j rec hrec, hop⟩

theorem converged_of_settled (h : KingdomInv r s) (hset : Settled r s) : Converged r s := by
  intro a t hsh
  have hl := mem_tuples_iff_live h.toSound hsh.1
  have htracked := h.tracked a t hsh
  have hquiet := quiet_of_settled h hset hsh
  refine ⟨fun i j hi => ?_, fun hrem i hi => ?_⟩
  · exact (hl j).mpr (htracked.agree hquiet ((hl i).mp hi))
  · exact htracked.not_live_of_removed hquiet hrem i ((hl i).mp hi)

def refIds (refs : Refs) : List (String × List (Option RecordId)) :=
  refs.toList.map fun p => (p.1, p.2.map fun l => l.map SyncRecord.id)

/-- No row to export, no take to add, no ref to update, no tuple to import or delete, and
nothing to compact. -/
def resting (r : Realm c n) (s : Kingdom n) (i : Fin n) : Bool :=
  let k := r.castle i
  let site := s.sites i
  let view := site.log k
  let live := liveIds site.space.store
  k.remoteConfigured && (match site.captureDelta with
      | none => false
      | some l => (ours k l.delta live).isEmpty && (view.missing live).all fun id =>
          match view.tuples[id]? with
          | none => true
          | some t => !observedLocally k site.space.store site.presence l.delta id t) &&
    decide (refIds site.tracking = refIds s.remote) &&
    decide (s.remote[k.identity.actor]?.map (fun lines => lines.map fun l => l.map SyncRecord.id) =
      some (site.own.map fun rec => some rec.id)) &&
    (view.tuples.toList.all fun p =>
      view.taken.contains p.1 || p.2.inst = k.label || site.space.store.existsId p.2.id) &&
    (view.taken.toList.all fun p => !site.space.store.existsId p.1) &&
    site.own.all view.keeps

theorem map_injOn {α β : Type} {f : α → β} {l l' : List α}
    (hf : ∀ x ∈ l, ∀ y ∈ l', f x = f y → x = y) (h : l.map f = l'.map f) : l = l' := by
  induction l generalizing l' with
  | nil => exact (map_eq_nil_iff.mp h.symm).symm
  | cons x l ih =>
    cases l' with
    | nil => cases h
    | cons y l' =>
      obtain ⟨hxy, hrest⟩ := cons_eq_cons.mp h
      have hx : x = y := hf x mem_cons_self y mem_cons_self hxy
      have hl : l = l' := ih (fun a ha b hb => hf a (mem_cons_of_mem _ ha) b (mem_cons_of_mem _ hb))
          hrest
      rw [hx, hl]

theorem lines_eq {signed : List SyncRecord} (hnd : (signed.map SyncRecord.id).Nodup)
    {l l' : List Line} (hl : ∀ x ∈ l, ∃ rec ∈ signed, x = some rec)
    (hl' : ∀ x ∈ l', ∃ rec ∈ signed, x = some rec)
    (h : l.map (fun x => x.map SyncRecord.id) = l'.map fun x => x.map SyncRecord.id) : l = l' := by
  refine map_injOn (fun x hx y hy he => ?_) h
  obtain ⟨rec, hrec, rfl⟩ := hl x hx
  obtain ⟨rec', hrec', rfl⟩ := hl' y hy
  exact congrArg some (inj_on_of_nodup_map hnd hrec hrec' (Option.some.inj he))

theorem refs_eq {signed : List SyncRecord} (hnd : (signed.map SyncRecord.id).Nodup) {a b : Refs}
    (ha : Carried signed a) (hb : Carried signed b) (h : refIds a = refIds b) : a = b := by
  have hline : ∀ {refs : Refs}, Carried signed refs → ∀ p ∈ refs.toList, ∀ x ∈ p.2,
      ∃ rec ∈ signed, x = some rec := by
    intro refs hc p hp x hx
    obtain ⟨rec, hrec, he, -⟩ := hc p.1 p.2 (ExtTreeMap.mem_toList_iff_getElem?_eq_some.mp hp) x hx
    exact ⟨rec, hrec, he⟩
  have hlist : a.toList = b.toList := by
    refine map_injOn (fun p hp q hq he => ?_) h
    obtain ⟨hfst, hsnd⟩ := Prod.mk.inj he
    exact Prod.ext hfst (lines_eq hnd (hline ha p hp) (hline hb q hq) hsnd)
  refine ExtTreeMap.ext_getElem? fun actor => Option.ext fun lines => ?_
  rw [← ExtTreeMap.mem_toList_iff_getElem?_eq_some, ← ExtTreeMap.mem_toList_iff_getElem?_eq_some, hlist]

theorem exists_freshStamps (signed : List SyncRecord) (len : Nat) :
    ∃ stamps : List Stamp, stamps.length = len ∧ freshStamps signed stamps = true := by
  have hbound : ∃ top : Nat, ∀ rec ∈ signed, rec.id ≤ top := by
    induction signed with
    | nil => exact ⟨0, by simp⟩
    | cons rec rest ih =>
      obtain ⟨top, htop⟩ := ih
      refine ⟨max rec.id top,
        forall_mem_cons.mpr ⟨?_, fun x hx => (htop x hx).trans (Nat.le_max_right _ _)⟩⟩
      exact Nat.le_max_left _ _
  obtain ⟨top, htop⟩ := hbound
  refine ⟨(List.range' (top + 1) len).map fun id => (id, 0), by simp, ?_⟩
  rw [freshStamps_iff, map_map]
  constructor
  · have hids : (Prod.fst ∘ fun id : RecordId => ((id, 0) : Stamp)) = id := rfl
    rw [hids, map_id]
    exact nodup_range'
  · intro st hst rec hrec
    obtain ⟨id, hid, rfl⟩ := mem_map.mp hst
    obtain ⟨i, -, rfl⟩ := mem_range'.mp hid
    have hle : rec.id ≤ top := htop rec hrec
    intro he
    have hlt : top < top + 1 + 1 * i := by omega
    exact Nat.not_lt.mpr hle (he.symm ▸ hlt)

theorem importAll_same {k : Castle c} {s : Site} {view : LogView} {pending : List (RecordId × Tuple)}
    (h : ∀ p ∈ pending, view.taken.contains p.1 = true ∨ p.2.inst = k.label ∨
      s.space.store.existsId p.2.id = true) : s.importAll k view pending = some s := by
  induction pending with
  | nil => rfl
  | cons p rest ih =>
    obtain ⟨id, t⟩ := p
    have hone : ∃ new, s.importOne k view id t = .ok (s, new) := by
      unfold Site.importOne
      split
      · exact ⟨false, rfl⟩
      · rename_i hskip
        simp only [Bool.or_eq_true, decide_eq_true_eq, not_or] at hskip
        have hx : s.space.store.existsId t.id = true :=
          ((h _ mem_cons_self).resolve_left hskip.1).resolve_left hskip.2
        simp only [Inner.outIfNew, hx, if_true]
        exact ⟨false, rfl⟩
    obtain ⟨new, hone⟩ := hone
    simp only [Site.importAll, hone]
    exact ih fun q hq => h q (mem_cons_of_mem _ hq)

theorem deleteAll_same {s : Site} {ids : List RecordId}
    (h : ∀ id ∈ ids, s.space.store.existsId id = false) : s.deleteAll ids = s := by
  induction ids with
  | nil => rfl
  | cons id rest ih =>
    have herase : s.space.store.erase id = s.space.store := by
      have hrows : s.space.store.rows.filter (fun r => r.tuple.id ≠ id) = s.space.store.rows := by
        refine filter_eq_self.mpr fun row hrow => ?_
        exact decide_eq_true (existsId_eq_false.mp (h id mem_cons_self) row hrow)
      unfold erase
      rw [hrows]
    simp only [Site.deleteAll, Inner.delete, delete, herase]
    exact ih fun m hm => h m (mem_cons_of_mem _ hm)

theorem rests_of_resting (h : Sound r s) {i : Fin n} (hr : resting r s i = true) : Rests r s i := by
  have hi := h.site i
  simp only [resting, Bool.and_eq_true, decide_eq_true_eq, all_eq_true, Bool.not_eq_true',
    Bool.or_eq_true, or_assoc] at hr
  obtain ⟨⟨⟨⟨⟨⟨hconf, hcap⟩, htrack⟩, hown⟩, himport⟩, hdelete⟩, hkeep⟩ := hr
  have htrack' : (s.sites i).tracking = s.remote :=
    refs_eq h.ledger.distinct hi.tracking h.remote htrack
  have hown' : s.remote[(r.castle i).identity.actor]? = some ((s.sites i).own.map some) := by
    obtain ⟨lines, hlines, hids⟩ := Option.map_eq_some_iff.mp hown
    rw [hlines]
    refine congrArg some (lines_eq h.ledger.distinct ?_ ?_ ?_)
    · intro x hx
      obtain ⟨rec, hrec, he, -⟩ := h.remote _ _ hlines x hx
      exact ⟨rec, hrec, he⟩
    · intro x hx
      obtain ⟨rec, hrec, rfl⟩ := mem_map.mp hx
      exact ⟨rec, (hi.own rec hrec).1, rfl⟩
    · rw [hids, map_map]
      rfl
  split at hcap
  · cases hcap
  · rename_i l hl
    simp only [Bool.and_eq_true, List.isEmpty_iff, all_eq_true] at hcap
    obtain ⟨hours, hobs⟩ := hcap
    obtain ⟨stamps, hlen, hfresh⟩ := exists_freshStamps s.signed
      (((s.sites i).log (r.castle i)).missing (liveIds (s.sites i).space.store)).length
    let m := (s.sites i).beginCollect (r.castle i) ((s.sites i).scan (r.castle i) l [])
    obtain ⟨found, hfound, -, hfrom, -⟩ :=
      collectAll_spec (k := r.castle i) (s.sites i) m.pending stamps m rfl hlen
    have hn : found = [] := by
      refine eq_nil_iff_forall_not_mem.mpr fun p hp => ?_
      obtain ⟨stamp, -, id, hid, -, t, ht, ho⟩ := hfrom p hp
      have hno := hobs id hid
      have ht' : ((s.sites i).log (r.castle i)).tuples[id]? = some t := ht
      have ho' : observedLocally (r.castle i) (s.sites i).space.store (s.sites i).presence l.delta
          id t =
          true := ho
      simp only [ht', ho', Bool.not_true, Bool.false_eq_true] at hno
    have hgather : (s.sites i).gather (r.castle i) [] stamps =
        some ((s.sites i).collectAll (r.castle i) m.pending stamps m) := by
      simp only [Site.gather, hl, hours, length_nil, if_true]
      exact if_pos hlen
    have hrecords : ((s.sites i).collectAll (r.castle i) m.pending stamps m).records = [] := by
      rw [hfound, hn]
      rfl
    let e := (s.sites i).append c ((s.sites i).collectAll (r.castle i) m.pending stamps m)
    have heown : e.own = (s.sites i).own := by
      show (s.sites i).own ++ map (SyncRecord.reread c) _ = _
      rw [hrecords, map_nil, append_nil]
    have hremote : s.remote.insert (r.castle i).identity.actor (e.own.map some) = s.remote := by
      refine ExtTreeMap.ext_getElem? fun actor => ?_
      rw [ExtTreeMap.getElem?_insert, heown]
      by_cases ha : (r.castle i).identity.actor = actor
      · simp only [ha, compare_self, if_true]
        rw [← hown', ha]
      · simp only [Std.compare_eq_iff_eq, ha, if_false]
    have hcontact : e.contact (r.castle i) s.remote .synced =
        some ({ e with tracking := (s.sites i).tracking }, s.remote) := by
      simp only [Site.contact, hconf, if_true, hremote]
      rw [show e.tracking ∪ s.remote = (s.sites i).tracking from by
        rw [htrack']; exact union_eq_of_subset hi.fetched]
    have hlog : ({ e with tracking := (s.sites i).tracking } : Site).log (r.castle i) =
        (s.sites i).log (r.castle i) := log_congr heown rfl
    have himp : ({ e with tracking := (s.sites i).tracking } : Site).importAll (r.castle i)
        ((s.sites i).log (r.castle i)) ((s.sites i).log (r.castle i)).tuples.toList =
        some { e with tracking := (s.sites i).tracking } := importAll_same himport
    have hdel : ({ e with tracking := (s.sites i).tracking } : Site).deleteAll
        (((s.sites i).log (r.castle i)).taken.toList.map Prod.fst) =
        { e with tracking := (s.sites i).tracking } := by
      refine deleteAll_same fun id hid => ?_
      obtain ⟨p, hp, rfl⟩ := mem_map.mp hid
      exact hdelete p hp
    let last : Site := { e with
      tracking := (s.sites i).tracking, presence := liveIds (s.sites i).space.store }
    refine ⟨[], stamps, last, s.remote, hfresh, ?_, rfl, rfl, rfl, ?_⟩
    · have hfin : ({ e with tracking := (s.sites i).tracking } : Site).finish (r.castle i) =
          some last := by
        simp only [Site.finish, hlog, himp, Option.map_some, hdel]
        rfl
      simp only [Site.exchange, hgather]
      rw [show ((s.sites i).append c ((s.sites i).collectAll (r.castle i) m.pending stamps m)) =
        e from rfl,
        hcontact]
      simp only [hfin, Option.map_some]
    · have hauth : recordsInRef c ((s.sites i).own.map some) = (s.sites i).own :=
        recordsInRef_map_some fun rec hrec => (h.ledger.authentic rec (hi.own rec hrec).1).1
      have hlastlog : last.log (r.castle i) = (s.sites i).log (r.castle i) := log_congr heown rfl
      have hlastown : last.own = (s.sites i).own := heown
      have hall : (s.sites i).own.filter ((s.sites i).log (r.castle i)).keeps = (s.sites i).own :=
        filter_eq_self.mpr hkeep
      unfold Site.compact
      simp only [hlastlog, hlastown, hauth, hall, Nat.sub_self, gt_iff_lt, Nat.lt_irrefl, if_false]

def south : Castle namedScheme :=
  { identity := namedIdentity "bbbbbbbbbbbbbbbbbbbb", label := "south", remoteConfigured := true }

def twoCastles : Realm namedScheme 2 :=
  { castle := fun i => if i = 0 then north else south
    labels := by intro i j; revert i j; decide
    actors := by intro i j; revert i j; decide +kernel
    tupleId := fun i => i.val + 1
    tupleIds := by intro i j; revert i j; decide
    recordId := fun i => i.val + 1
    recordIds := by intro i j; revert i j; decide
    opened := fun _ => 0 }

theorem named_exact {r : Realm namedScheme n} (s : Kingdom n) (m : Move n) : exactGuard r s m := by
  cases m with
  | exchange i outStamps takeStamps contact =>
    intro l _ t _
    simp [Ed25519.exact, namedScheme]
  | _ => trivial

def wholeCycle (i : Fin 2) (outStamps takeStamps : List Stamp) : List (Move 2) :=
  [.exchange i outStamps takeStamps .synced, .compact i]

def northTask : Tuple := Tuple.new 10 0 .task "repo" "job" "north" .null

/-- South consumes the task it imported; north drops its `Out` and delivers the shorter
ref before south drops the take. -/
def takeDrained : List (Move 2) :=
  [.space 0 (.out northTask)] ++ wholeCycle 0 [(20, 0)] [(21, 0)] ++ wholeCycle 1 [] [(22, 0)] ++
    [.space 1 (.checkAndRegister { identity := some "job" } true)] ++
    wholeCycle 1 [] [(23, 0), (24, 0)] ++ wholeCycle 0 [] [(25, 0)] ++ wholeCycle 0 [] [(26, 0)] ++
    wholeCycle 1 [] [(27, 0)]

/-- North writes a task and south imports it; north consumes it and runs four cycles, in
which the `Out` and then the take leave its ref, before south runs another. -/
def takeForgotten : List (Move 2) :=
  [.space 0 (.out northTask)] ++ wholeCycle 0 [(20, 0)] [(21, 0)] ++ wholeCycle 1 [] [(22, 0)] ++
    [.space 0 (.checkAndRegister { identity := some "job" } true)] ++
    wholeCycle 0 [] [(23, 0), (24, 0)] ++ wholeCycle 0 [] [(25, 0)] ++ wholeCycle 0 [] [(26, 0)] ++
    wholeCycle 0 [] [(27, 0)] ++ wholeCycle 1 [] [(28, 0)] ++ wholeCycle 0 [] [(29, 0)]

end

end RatKingdom.Sync
