/-
The export loses nothing.

The cursor file is written after the records of its delta are on the castle's own ref,
and compaction drops an `Out` only after the tuple has been deleted here.  So at every
point, a crash included, a live durable tuple of this castle that the cursor has passed
has its `Out` on the own ref, as long as every tuple is exported with doubles that are
parsed as themselves.  A line with another double fails the check of its signature, on
this castle too, and the cursor passes the tuple all the same.
-/
import RatKingdom.Sync.Cycle

namespace RatKingdom.Sync

open Core Lib Space Std List State

def face (r : Row) : Nat × RecordId × String × Lifecycle :=
  (r.sequence, r.tuple.id, r.tuple.inst, r.tuple.lifecycle)

def plainOp : Op → Bool
  | .reinforce _ => false
  | .acceptSdlcSignal _ _ _ => false
  | _ => true

theorem step_face {s s' : Inner} {op : Op} (hop : plainOp op = true) (h : s.step op = some s') :
    s.store.Evolves face s'.store := by
  cases op with
  | out t =>
    rcases step_out h with ⟨u, -, hw⟩ | ⟨-, rfl⟩
    · exact evolves_wrote _ hw
    · exact .refl _
  | outIfNew t =>
    rcases step_outIfNew h with ⟨u, -, hw⟩ | ⟨-, rfl⟩
    · exact evolves_wrote _ hw
    · exact .refl _
  | outCoordinator t =>
    rcases step_outCoordinator h with ⟨u, -, hw⟩ | ⟨-, rfl⟩
    · exact evolves_wrote _ hw
    · exact .refl _
  | replace expected t =>
    rcases step_replace h with ⟨u, -, hw⟩ | ⟨-, rfl⟩
    · exact evolves_wrote _ hw
    · exact .refl _
  | reinforce t | acceptSdlcSignal g acceptedAt rollback => cases hop
  | delete id => cases h; exact Store.evolves_erase _ _ _
  | gcExpired decayStep now =>
    cases h
    have hdecay : s.store.Evolves face (s.store.decayAndCollect decayStep).1 :=
      Store.evolves_rows face
        ((Store.rewrites_map (f := fun r => { r with tuple := Store.decayed decayStep r.tuple })
          (fun _ => rfl) s.store.rows).trans (Store.rewrites_filter _ _ _))
    exact hdecay.trans (Store.evolves_deleteExpired _ _ _)
  | checkAndRegister p destructive => cases h; exact evolves_checkAndRegister _ s p destructive
  | receive i => obtain ⟨r, row, -, -, -, rfl⟩ := receive_some h; exact .refl _
  | decideTimeout i => obtain ⟨r, -, -, -, rfl⟩ := decideTimeout_some h; exact .refl _
  | dropReceiver i => obtain ⟨r, -, -, rfl⟩ := dropReceiver_some h; exact .refl _
  | observeClosed i => obtain ⟨r, -, -, -, -, rfl⟩ := observeClosed_some h; exact .refl _
  | removeWaiter i => obtain ⟨r, -, -, rfl⟩ := removeWaiter_some h; exact .refl _

section
variable {c : Ed25519} (k : Castle c)

def Durable (r : Row) : Prop := r.tuple.lifecycle ≠ .ephemeral ∧ r.tuple.inst = k.label

def HasOut (own : List SyncRecord) (id : RecordId) : Prop :=
  ∃ rec ∈ own, ∃ t, rec.op = .out t ∧ t.id = id

/-- No live row of the castle up to `cursor` has an id in the set. -/
def Past (store : Store) (cursor : Nat) (id : RecordId) : Prop :=
  ∀ r ∈ store.rows, r.tuple.id = id → cursor < r.sequence

/-- What is known of the site between any two steps. -/
structure SiteInv (s : Site) : Prop where
  wf : s.space.store.Wf
  journaled : ∀ r ∈ s.space.store.rows, ∃ j ∈ s.space.store.journal, face j = face r
  authentic : ∀ rec ∈ s.own, rec.verify c = true ∧ rec.reread c = rec
  cursor_le : s.cursor.getD 0 ≤ s.space.store.lastSequence
  exported : ∀ r ∈ s.space.store.rows, Durable k r → r.sequence ≤ s.cursor.getD 0 →
    HasOut s.own r.tuple.id
  presence : ∀ id ∈ s.presence, s.space.store.hasPersistenceEvent id = true

structure CaptureInv (s : Site) (l : Capture) : Prop where
  cursor : l.cursor = s.cursor.getD 0
  boundary : l.delta.boundary ≤ s.space.store.lastSequence
  complete : ∀ j ∈ s.space.store.journal, l.cursor < j.sequence → j.sequence ≤ l.delta.boundary →
    j.tuple ∈ l.delta.tuples
  persisted : ∀ t ∈ l.delta.tuples, s.space.store.hasPersistenceEvent t.id = true

/-- The scan saw every durable row of the delta that is still live, and its `Out` is
among the records. -/
structure ScanInv (s : Site) (l : Scan) : Prop extends CaptureInv s l.toCapture where
  seen : ∀ r ∈ s.space.store.rows, r.sequence ≤ l.delta.boundary → r.tuple.lifecycle ≠ .ephemeral →
    r.tuple.id ∈ l.live
  outs : ∀ t ∈ ours k l.delta l.live, ∃ rec ∈ l.outs, rec.op = .out t
  outsOnly : ∀ rec ∈ l.outs, rec.verify c = true ∧ rec.reread c = rec ∧ ∃ t, rec.op = .out t

structure CollectInv (s : Site) (l : Collect) : Prop extends ScanInv k s l.toScan where
  keyed : ∀ (id : RecordId) (t : Tuple), l.view.tuples[id]? = some t → t.id = id
  known : ∀ id ∈ l.prevKnown, s.space.store.hasPersistenceEvent id = true
  taking : ∀ p ∈ l.takes, p.1.verify c = true ∧ p.1.op = .take p.2.id ∧
    (s.space.store.hasPersistenceEvent p.2.id = true ∨ p.2.inst = k.label)

/-- What the next steps of the cycle rely on. -/
def PhaseInv (s : Site) : Phase → Prop
  | .idle => True
  | .captured l => CaptureInv s l
  | .scanned l => ScanInv k s l
  | .collecting l => CollectInv k s l
  | .appended l => l.cursor = s.cursor.getD 0 ∧ l.delta.boundary ≤ s.space.store.lastSequence ∧
      ∀ r ∈ s.space.store.rows, Durable k r → r.sequence ≤ l.delta.boundary → HasOut s.own r.tuple.id
  | .syncing _ => True
  | .pushing _ => True
  | .failing _ => True
  | .viewing _ => True
  | .importing view _ => view = s.log k
  | .deleting pending =>
    ∀ id ∈ (s.log k).taken, id ∈ pending ∨ Past s.space.store (s.cursor.getD 0) id
  | .ending => ∀ id ∈ (s.log k).taken, Past s.space.store (s.cursor.getD 0) id
  | .ended live => (∀ id ∈ live, s.space.store.hasPersistenceEvent id = true) ∧
      ∀ id ∈ (s.log k).taken, Past s.space.store (s.cursor.getD 0) id
  | .compacting => ∀ id ∈ (s.log k).taken, Past s.space.store (s.cursor.getD 0) id

structure ExportInv (s : State) : Prop where
  site : SiteInv k s.site
  phase : PhaseInv k s.site s.phase
  ownTakes : ∀ rec ∈ s.site.own, ∀ id, rec.op = .take id → ∃ t, (id, t) ∈ s.takes
  takes : ∀ p ∈ s.takes,
    s.site.space.store.hasPersistenceEvent p.1 = true ∨ (p.2.id = p.1 ∧ p.2.inst = k.label)

end

section
variable {c : Ed25519} {k : Castle c} {r r' : Row}

theorem face_sequence (h : face r = face r') : r.sequence = r'.sequence := congrArg Prod.fst h

theorem face_id (h : face r = face r') : r.tuple.id = r'.tuple.id := congrArg (fun q => q.2.1) h

theorem face_inst (h : face r = face r') : r.tuple.inst = r'.tuple.inst :=
  congrArg (fun q => q.2.2.1) h

theorem face_lifecycle (h : face r = face r') : r.tuple.lifecycle = r'.tuple.lifecycle :=
  congrArg (fun q => q.2.2.2) h

theorem durable_of_face (h : face r = face r') (hd : Durable k r') : Durable k r :=
  ⟨by rw [face_lifecycle h]; exact hd.1, by rw [face_inst h]; exact hd.2⟩

section Evolve
variable {s : Site} {space : Inner} (hev : s.space.store.Evolves face space.store)

include hev

theorem old_row {n : Nat} (hn : n ≤ s.space.store.lastSequence) {r : Row}
    (hr : r ∈ space.store.rows) (hle : r.sequence ≤ n) :
    ∃ r₀ ∈ s.space.store.rows, face r₀ = face r := by
  rcases hev.row_origin (fun _ _ h => face_sequence h) hr with h | hlt
  · exact h
  · omega

theorem siteInv_evolve (h : SiteInv k s) : SiteInv k { s with space } := by
  have hstamp : s.space.store.Evolves Row.stamp space.store :=
    hev.coarsen (g := fun q => (q.1, q.2.1, q.2.2.1)) fun _ => rfl
  refine ⟨hstamp.wf h.wf, hev.journaled h.journaled, h.authentic,
    h.cursor_le.trans hev.lastSequence_le, ?_, ?_⟩
  · intro r hr hd hle
    obtain ⟨r₀, hr₀, he⟩ := old_row hev h.cursor_le hr hle
    rw [← face_id he]
    exact h.exported r₀ hr₀ (durable_of_face he hd) (face_sequence he ▸ hle)
  · intro id hid
    exact hev.hasPersistenceEvent_mono (h.presence id hid)

theorem captureInv_evolve {l : Capture} (h : CaptureInv s l) : CaptureInv { s with space } l := by
  refine ⟨h.cursor, h.boundary.trans hev.lastSequence_le, ?_, ?_⟩
  · intro j hj hlt hle
    obtain ⟨later, heq, hafter⟩ := hev.journal_append
    rw [heq] at hj
    rcases mem_append.mp hj with hj | hj
    · exact h.complete j hj hlt hle
    · have := hafter j hj
      have := h.boundary
      omega
  · intro t ht
    exact hev.hasPersistenceEvent_mono (h.persisted t ht)

theorem scanInv_evolve {l : Scan} (h : ScanInv k s l) : ScanInv k { s with space } l := by
  refine ⟨captureInv_evolve hev h.toCaptureInv, ?_, h.outs, h.outsOnly⟩
  intro r hr hle hl
  obtain ⟨r₀, hr₀, he⟩ := old_row hev h.boundary hr hle
  rw [← face_id he]
  exact h.seen r₀ hr₀ (face_sequence he ▸ hle) (face_lifecycle he ▸ hl)

theorem collectInv_evolve {l : Collect} (h : CollectInv k s l) : CollectInv k { s with space } l := by
  refine ⟨scanInv_evolve hev h.toScanInv, h.keyed, ?_, ?_⟩
  · intro id hid
    exact hev.hasPersistenceEvent_mono (h.known id hid)
  · intro p hp
    obtain ⟨hv, hop, ho⟩ := h.taking p hp
    exact ⟨hv, hop, ho.imp_left hev.hasPersistenceEvent_mono⟩

theorem past_evolve (h : s.cursor.getD 0 ≤ s.space.store.lastSequence) {id : RecordId}
    (hp : Past s.space.store (s.cursor.getD 0) id) :
    Past space.store (s.cursor.getD 0) id := by
  intro r hr hid
  rcases hev.row_origin (fun _ _ h => face_sequence h) hr with ⟨r₀, hr₀, he⟩ | hlt
  · rw [← face_sequence he]
    exact hp r₀ hr₀ ((face_id he).trans hid)
  · omega

theorem phaseInv_evolve (hs : SiteInv k s) {phase : Phase} (h : PhaseInv k s phase) :
    PhaseInv k { s with space } phase := by
  cases phase with
  | idle | syncing l | pushing l | failing l | viewing l => trivial
  | captured l => exact captureInv_evolve hev h
  | scanned l => exact scanInv_evolve hev h
  | collecting l => exact collectInv_evolve hev h
  | appended l =>
    obtain ⟨hcur, hb, hout⟩ := h
    refine ⟨hcur, hb.trans hev.lastSequence_le, fun r hr hd hle => ?_⟩
    obtain ⟨r₀, hr₀, he⟩ := old_row hev hb hr hle
    rw [← face_id he]
    exact hout r₀ hr₀ (durable_of_face he hd) (face_sequence he ▸ hle)
  | importing view pending => exact h
  | deleting pending =>
    intro id hid
    exact (h id hid).imp_right fun hp => past_evolve hev hs.cursor_le hp
  | ending | compacting => exact fun id hid => past_evolve hev hs.cursor_le (h id hid)
  | ended live =>
    exact ⟨fun id hid => hev.hasPersistenceEvent_mono (h.1 id hid),
      fun id hid => past_evolve hev hs.cursor_le (h.2 id hid)⟩

end Evolve

variable {s : State}

theorem exportInv_evolve {space : Inner} (h : ExportInv k s)
    (hev : s.site.space.store.Evolves face space.store) :
    ExportInv k { s with site := { s.site with space } } := by
  refine ⟨siteInv_evolve hev h.site, phaseInv_evolve hev h.site h.phase, h.ownTakes, ?_⟩
  intro p hp
  exact (h.takes p hp).imp_left hev.hasPersistenceEvent_mono

theorem exportInv_phase {phase : Phase} (h : ExportInv k s) (hp : PhaseInv k s.site phase) :
    ExportInv k { s with phase } :=
  ⟨h.site, hp, h.ownTakes, h.takes⟩

theorem captureInv_captureDelta {s : Site} {l : Capture} (h : s.captureDelta = some l) :
    CaptureInv s l := by
  unfold Site.captureDelta at h
  split at h
  · cases h
  · rename_i delta hd
    cases h
    unfold Store.persistenceDelta at hd
    dsimp only at hd
    split at hd
    · cases hd
    · cases hd
      refine ⟨rfl, Nat.le_refl _, ?_, ?_⟩
      · intro j hj hlt hle
        refine mem_map.mpr ⟨j, mem_filter.mpr ⟨hj, ?_⟩, rfl⟩
        simp only [Option.getD_some, Bool.and_eq_true, decide_eq_true_eq]
        exact ⟨hlt, hle⟩
      · intro t ht
        obtain ⟨j, hj, rfl⟩ := mem_map.mp ht
        exact Store.hasPersistenceEvent_eq_true.mpr ⟨j, (mem_filter.mp hj).1, rfl⟩

variable {id : RecordId}

theorem mem_liveIds {s : Store} :
    id ∈ liveIds s ↔ ∃ r ∈ s.rows, r.tuple.lifecycle ≠ .ephemeral ∧ r.tuple.id = id := by
  have hall : ∀ r, r ∈ s.query .any false none ↔ r ∈ s.rows := by
    intro r
    simp only [Store.query, mem_insertionSort, mem_filter, patternFilters_eq,
      Pattern.any_matches, Bool.not_false, Bool.true_or, Bool.and_self, and_true]
  simp only [liveIds, mem_map, mem_filter, decide_eq_true_eq, hall, and_assoc]

theorem persisted_of_live {s : Store} (h : s.Wf) (hid : id ∈ liveIds s) :
    s.hasPersistenceEvent id = true := by
  obtain ⟨r, hr, -, rfl⟩ := mem_liveIds.mp hid
  exact h.persisted hr

variable {t : Tuple}

theorem exists_outRecord {stamps : List Stamp} {tuples : List Tuple}
    (hlen : stamps.length = tuples.length) (ht : t ∈ tuples) :
    ∃ rec ∈ (stamps.zip tuples).map (fun p => outRecord k p.1 p.2), rec.op = .out t := by
  obtain ⟨i, hi, rfl⟩ := getElem_of_mem ht
  have hi' : i < stamps.length := hlen ▸ hi
  refine ⟨outRecord k stamps[i] tuples[i], mem_map.mpr ⟨(stamps[i], tuples[i]), ?_, rfl⟩, rfl⟩
  have hz : i < (stamps.zip tuples).length := by simp [hi, hi']
  have hget : (stamps.zip tuples)[i] = (stamps[i], tuples[i]) := getElem_zip
  exact hget ▸ getElem_mem hz

/-- What a scan exports is parsed as it was written. -/
def exportGuard (k : Castle c) (s : State) : Label → Prop
  | .scan _ =>
    match s.phase with
    | .captured l => ∀ t ∈ ours k l.delta (liveIds s.site.space.store), c.exact t = true
    | _ => True
  | _ => True

theorem scanInv_scan {s : Site} {l : Capture} (h : CaptureInv s l) {stamps : List Stamp}
    (hlen : stamps.length = (ours k l.delta (liveIds s.space.store)).length)
    (hexact : ∀ t ∈ ours k l.delta (liveIds s.space.store), c.exact t = true) :
    ScanInv k s (s.scan k l stamps) := by
  refine ⟨h, ?_, ?_, ?_⟩
  · intro r hr _ hl
    exact mem_liveIds.mpr ⟨r, hr, hl, rfl⟩
  · intro t ht
    exact exists_outRecord hlen ht
  · intro rec hrec
    obtain ⟨p, hp, rfl⟩ := mem_map.mp hrec
    exact ⟨SyncRecord.signed_verify _ _ _ _,
      SyncRecord.reread_of_out rfl (hexact _ (of_mem_zip hp).2), p.2, rfl⟩

theorem collectInv_begin {s : Site} {l : Scan} (hs : SiteInv k s) (h : ScanInv k s l) :
    CollectInv k s (s.beginCollect k l) := by
  refine ⟨h, ?_, hs.presence, ?_⟩
  · intro id t ht
    exact (exists_out_of_tuples ht).1
  · intro p hp
    cases hp

variable {l : Collect}

theorem observed_cases {s : Site} (h : CollectInv k s l)
    (ho : observedLocally k s.space.store l.prevKnown l.delta id t = true) :
    s.space.store.hasPersistenceEvent id = true ∨ t.inst = k.label := by
  simp only [observedLocally, Bool.or_eq_true, Bool.and_eq_true, decide_eq_true_eq,
    any_eq_true, contains_iff_mem] at ho
  rcases ho with ((hk | ⟨u, hu, rfl⟩) | hp) | ⟨hi, -⟩
  · exact .inl (h.known id hk)
  · exact .inl (h.persisted u hu)
  · exact .inl hp
  · exact .inr hi

theorem collectInv_collectOne {s : Site} (h : CollectInv k s l) (id : RecordId)
    (rest : List RecordId) (stamp : Stamp) : CollectInv k s (s.collectOne k l id rest stamp) := by
  unfold Site.collectOne
  split
  · exact ⟨h.toScanInv, h.keyed, h.known, h.taking⟩
  · rename_i t ht
    split
    · rename_i ho
      refine ⟨h.toScanInv, h.keyed, h.known, ?_⟩
      refine forall_mem_concat.mpr ⟨h.taking, ?_⟩
      have hid : t.id = id := h.keyed id t ht
      refine ⟨SyncRecord.signed_verify _ _ _ _, by rw [hid]; rfl, ?_⟩
      rw [hid]
      exact observed_cases h ho
    · exact ⟨h.toScanInv, h.keyed, h.known, h.taking⟩

theorem HasOut.append {own more : List SyncRecord} (h : HasOut own id) :
    HasOut (own ++ more) id := by
  obtain ⟨rec, hrec, ht⟩ := h
  exact ⟨rec, mem_append_left _ hrec, ht⟩

theorem hasOut_appended {s : Site} (hs : SiteInv k s) (h : CollectInv k s l)
    (hr : r ∈ s.space.store.rows) (hd : Durable k r) (hle : r.sequence ≤ l.delta.boundary) :
    HasOut (s.own ++ l.records) r.tuple.id := by
  by_cases hcur : r.sequence ≤ s.cursor.getD 0
  · exact (hs.exported r hr hd hcur).append
  · obtain ⟨j, hj, he⟩ := hs.journaled r hr
    have hdelta : j.tuple ∈ l.delta.tuples := by
      refine h.complete j hj ?_ ?_
      · rw [face_sequence he, h.cursor]
        omega
      · rw [face_sequence he]
        exact hle
    have hours : j.tuple ∈ ours k l.delta l.live := by
      refine mem_filter.mpr ⟨hdelta, ?_⟩
      have hl : r.tuple.id ∈ l.live := h.seen r hr hle hd.1
      simp only [face_lifecycle he, face_inst he, face_id he, Bool.and_eq_true, decide_eq_true_eq,
        contains_iff_mem]
      exact ⟨⟨hd.1, hd.2⟩, hl⟩
    obtain ⟨rec, hrec, hop⟩ := h.outs j.tuple hours
    exact ⟨rec, mem_append_right _ (mem_append_left _ hrec), j.tuple, hop, face_id he⟩

theorem CollectInv.records {s : Site} (h : CollectInv k s l) {rec : SyncRecord}
    (hrec : rec ∈ l.records) :
    rec.verify c = true ∧ rec.reread c = rec := by
  rcases mem_append.mp hrec with hrec | hrec
  · obtain ⟨hv, hr, -⟩ := h.outsOnly rec hrec
    exact ⟨hv, hr⟩
  · obtain ⟨p, hp, rfl⟩ := mem_map.mp hrec
    obtain ⟨hv, hop, -⟩ := h.taking p hp
    exact ⟨hv, SyncRecord.reread_of_take hop⟩

theorem map_reread {own : List SyncRecord} (h : ∀ rec ∈ own, rec.reread c = rec) :
    own.map (SyncRecord.reread c) = own := by
  rw [map_congr_left h, map_id'']
  exact fun _ => rfl

theorem exportInv_append (h : ExportInv k s) (hc : CollectInv k s.site l) :
    ExportInv k { s with
      site := { s.site with own := s.site.own ++ l.records.map (.reread c) }
      takes := s.takes ++ l.takes.map fun p => (p.2.id, p.2)
      phase := .appended l } := by
  rw [map_reread fun rec hrec => (hc.records hrec).2]
  have hs := h.site
  refine ⟨⟨hs.wf, hs.journaled, ?_, hs.cursor_le, ?_, hs.presence⟩, ⟨hc.cursor, hc.boundary, ?_⟩,
    ?_, ?_⟩
  · exact forall_mem_append.mpr ⟨hs.authentic, fun _ hrec => hc.records hrec⟩
  · intro r hr hd hle
    exact (hs.exported r hr hd hle).append
  · intro r hr hd hle
    exact hasOut_appended hs hc hr hd hle
  · intro rec hrec id hop
    rcases mem_append.mp hrec with hrec | hrec
    · obtain ⟨t, ht⟩ := h.ownTakes rec hrec id hop
      exact ⟨t, mem_append_left _ ht⟩
    · rcases mem_append.mp hrec with hrec | hrec
      · obtain ⟨-, -, t, ht⟩ := hc.outsOnly rec hrec
        rw [ht] at hop
        cases hop
      · obtain ⟨p, hp, rfl⟩ := mem_map.mp hrec
        rw [(hc.taking p hp).2.1] at hop
        cases hop
        exact ⟨p.2, mem_append_right _ (mem_map.mpr ⟨p, hp, rfl⟩)⟩
  · refine forall_mem_append.mpr ⟨h.takes, ?_⟩
    intro q hq
    obtain ⟨p, hp, rfl⟩ := mem_map.mp hq
    exact (hc.taking p hp).2.2.imp_right fun hi => ⟨rfl, hi⟩

theorem exportInv_saveCursor (h : ExportInv k s) (hp : PhaseInv k s.site (.appended l)) :
    ExportInv k { s with
      site := if l.delta.boundary > l.cursor then
        { s.site with cursor := some l.delta.boundary } else s.site
      phase := .syncing l } := by
  have hs := h.site
  obtain ⟨hcur, hb, hout⟩ := hp
  split
  · exact ⟨⟨hs.wf, hs.journaled, hs.authentic, hb, hout, hs.presence⟩, trivial, h.ownTakes, h.takes⟩
  · exact exportInv_phase h trivial

/-- Compaction keeps the `Out` of every live tuple the cursor has passed: a taken id is
past the cursor or gone. -/
theorem exportInv_compact (h : ExportInv k s)
    (hp : ∀ id ∈ (s.site.log k).taken, Past s.site.space.store (s.site.cursor.getD 0) id) :
    ExportInv k { s with site := s.site.compact k, phase := .idle } := by
  have hs := h.site
  have hown : recordsInRef c (s.site.own.map some) = s.site.own :=
    recordsInRef_map_some fun rec hrec => (hs.authentic rec hrec).1
  unfold Site.compact
  dsimp only
  rw [hown, map_reread fun rec hrec => (hs.authentic rec (mem_filter.mp hrec).1).2]
  split
  · have hm : ∀ {rec}, rec ∈ s.site.own.filter (s.site.log k).keeps → rec ∈ s.site.own :=
      fun hrec => (mem_filter.mp hrec).1
    refine ⟨⟨hs.wf, hs.journaled, fun rec hrec => hs.authentic rec (hm hrec), hs.cursor_le, ?_,
      hs.presence⟩, trivial, fun rec hrec => h.ownTakes rec (hm hrec), h.takes⟩
    intro r hr hd hle
    obtain ⟨rec, hrec, t, hop, hid⟩ := hs.exported r hr hd hle
    refine ⟨rec, mem_filter.mpr ⟨hrec, ?_⟩, t, hop, hid⟩
    simp only [LogView.keeps, hop, Bool.not_eq_true']
    rw [← Bool.not_eq_true, ExtTreeMap.contains_iff_mem]
    intro htaken
    exact absurd hle (Nat.not_le.mpr (hp t.id htaken r hr hid.symm))
  · exact exportInv_phase h trivial

theorem importOne_evolves {s site : Site} {view : LogView} {new : Bool}
    (hi : s.importOne k view id t = .ok (site, new)) :
    ∃ space, site = { s with space } ∧ s.space.store.Evolves face space.store := by
  unfold Site.importOne at hi
  split at hi
  · cases hi
    exact ⟨s.space, rfl, .refl _⟩
  · split at hi
    · cases hi
    · rename_i space new' ho
      cases hi
      have hs : s.space.step (.outIfNew t) = some space := by
        simp only [Inner.step, ho, settle]
      exact ⟨space, rfl, step_face rfl hs⟩

theorem exportInv_next {s' : State} (h : ExportInv k s) (hn : s.next k = some s') :
    ExportInv k s' := by
  have hphase := h.phase
  unfold State.next at hn
  cases hph : s.phase with
  | idle =>
    simp only [hph] at hn
    split at hn
    · cases hn
      exact exportInv_phase h trivial
    · rename_i l hl
      cases hn
      exact exportInv_phase h (captureInv_captureDelta hl)
  | captured l | pushing l | failing l => simp only [hph] at hn; cases hn
  | scanned l =>
    rw [hph] at hphase
    simp only [hph, Option.some.injEq] at hn
    subst hn
    exact exportInv_phase h (collectInv_begin h.site hphase)
  | collecting l =>
    rw [hph] at hphase
    simp only [hph] at hn
    split at hn
    · cases hn
    · cases hn
      exact exportInv_append h hphase
  | appended l =>
    rw [hph] at hphase
    simp only [hph, Option.some.injEq] at hn
    subst hn
    exact exportInv_saveCursor h hphase
  | syncing l =>
    simp only [hph] at hn
    split at hn
    · cases hn
    · cases hn
      exact exportInv_phase h trivial
  | viewing l =>
    simp only [hph, Option.some.injEq] at hn
    subst hn
    exact exportInv_phase h rfl
  | importing view pending =>
    rw [hph] at hphase
    cases pending with
    | nil =>
      simp only [hph, Option.some.injEq] at hn
      subst hn
      refine exportInv_phase h fun id hid => .inl ?_
      have hview : view = s.site.log k := hphase
      rw [hview]
      obtain ⟨u, hu⟩ := Option.isSome_iff_exists.mp (ExtTreeMap.mem_iff_isSome_getElem?.mp hid)
      exact mem_map.mpr ⟨(id, u), ExtTreeMap.mem_toList_iff_getElem?_eq_some.mpr hu, rfl⟩
    | cons p rest =>
      simp only [hph] at hn
      split at hn
      · cases hn
        exact exportInv_phase h trivial
      · rename_i site new hi
        cases hn
        obtain ⟨space, rfl, hev⟩ := importOne_evolves hi
        have hmoved := exportInv_evolve h hev
        exact ⟨hmoved.site, hphase, hmoved.ownTakes, hmoved.takes⟩
  | deleting pending =>
    rw [hph] at hphase
    cases pending with
    | nil =>
      simp only [hph, Option.some.injEq] at hn
      subst hn
      refine exportInv_phase h fun id hid => ?_
      rcases hphase id hid with hnil | hpast
      · cases hnil
      · exact hpast
    | cons id rest =>
      simp only [hph, Option.some.injEq] at hn
      subst hn
      have hev : s.site.space.store.Evolves face (s.site.space.delete id).1.store :=
        Store.evolves_erase _ _ _
      have hmoved := exportInv_evolve h hev
      refine ⟨hmoved.site, fun id' hid' => ?_, hmoved.ownTakes, hmoved.takes⟩
      by_cases hsame : id' = id
      · -- The id just deleted has no row left.
        subst hsame
        exact .inr fun r hr he => absurd he (Store.mem_erase_rows.mp hr).2
      · rcases hphase id' hid' with hm | hpast
        · exact .inl ((mem_cons.mp hm).resolve_left hsame)
        · exact .inr (past_evolve hev h.site.cursor_le hpast)
  | ending =>
    rw [hph] at hphase
    simp only [hph, Option.some.injEq] at hn
    subst hn
    exact exportInv_phase h ⟨fun id hid => persisted_of_live h.site.wf hid, hphase⟩
  | ended live =>
    rw [hph] at hphase
    simp only [hph, Option.some.injEq] at hn
    subst hn
    have hs := h.site
    exact ⟨⟨hs.wf, hs.journaled, hs.authentic, hs.cursor_le, hs.exported, hphase.1⟩, hphase.2,
      h.ownTakes, h.takes⟩
  | compacting =>
    rw [hph] at hphase
    simp only [hph, Option.some.injEq] at hn
    subst hn
    exact exportInv_compact h hphase

def Label.plain : Label → Bool
  | .space op => plainOp op
  | _ => true

theorem exportInv_step {s' : State} {a : Label} (ha : a.plain = true) (hg : exportGuard k s a)
    (h : ExportInv k s) (hstep : s.step k a = some s') : ExportInv k s' := by
  have hphase := h.phase
  cases a with
  | space op =>
    simp only [step, Option.map_eq_some_iff] at hstep
    obtain ⟨space, hop, rfl⟩ := hstep
    exact exportInv_evolve h (step_face ha hop)
  | next => exact exportInv_next h hstep
  | scan stamps =>
    simp only [step] at hstep
    split at hstep
    · rename_i l hph
      obtain ⟨hok, hstep⟩ := Option.ite_none_right_eq_some.mp hstep
      cases hstep
      simp only [Bool.and_eq_true, decide_eq_true_eq] at hok
      simp only [exportGuard, hph] at hg
      rw [hph] at hphase
      exact exportInv_phase h (scanInv_scan hphase hok.1 hg)
    · cases hstep
  | collect stamp =>
    simp only [step] at hstep
    split at hstep
    · rename_i l hph
      split at hstep
      · cases hstep
      · split at hstep
        · cases hstep
          rw [hph] at hphase
          exact exportInv_phase h (collectInv_collectOne hphase _ _ _)
        · cases hstep
    · cases hstep
  | fetch refs =>
    simp only [step] at hstep
    split at hstep
    · split at hstep
      · cases hstep
        have hs := h.site
        exact ⟨⟨hs.wf, hs.journaled, hs.authentic, hs.cursor_le, hs.exported, hs.presence⟩, trivial,
          h.ownTakes, h.takes⟩
      · cases hstep
    · cases hstep
  | unreachable =>
    simp only [step] at hstep
    split at hstep
    · split at hstep
      · cases hstep
        exact exportInv_phase h trivial
      · cases hstep
    · cases hstep
  | push | pushFailed =>
    simp only [step] at hstep
    split at hstep
    · cases hstep
      exact exportInv_phase h trivial
    · cases hstep
  | obstacle id now error =>
    simp only [step] at hstep
    split at hstep
    · split at hstep
      · cases hstep
        exact exportInv_phase h trivial
      · rename_i l _ space ho
        cases hstep
        have hout : s.site.space.step (.out (syncFailure k id now error)) = some space := by
          simp only [Inner.step, ho, settle, id_eq]
        have hev : s.site.space.store.Evolves face space.store := step_face rfl hout
        have hmoved := exportInv_evolve h hev
        exact ⟨hmoved.site, trivial, hmoved.ownTakes, hmoved.takes⟩
    · cases hstep
  | stop =>
    cases hstep
    exact exportInv_phase h trivial
  | crash =>
    cases hstep
    have hev : s.site.space.store.Evolves face
        ({ s.site.space with waiters := [], readers := [] } : Inner).store := .refl _
    have hmoved := exportInv_evolve h hev
    exact ⟨hmoved.site, trivial, hmoved.ownTakes, hmoved.takes⟩

theorem exportInv_fresh (tupleId recordId : RecordId) (now : DateTime) :
    ExportInv k (fresh k tupleId recordId now) := by
  refine ⟨⟨Store.wf_empty, ?_, ?_, Nat.zero_le _, ?_, ?_⟩, trivial, ?_, ?_⟩
  · intro r hr; cases hr
  · intro rec hrec
    rw [mem_singleton.mp hrec]
    exact ⟨SyncRecord.signed_verify _ _ _ _, rfl⟩
  · intro r hr; cases hr
  · intro id hid; cases hid
  · intro rec hrec id hop
    rw [mem_singleton.mp hrec] at hop
    cases hop
  · intro p hp; cases hp

/-- Every live durable tuple of the castle the saved cursor has passed has its `Out` on
the own ref or is taken in the union log, and every take exported so far was for an id
stored here once or authored under this castle's label. -/
structure ExportSafe (k : Castle c) (s : State) : Prop where
  exported : ∀ r ∈ s.site.space.store.rows, r.tuple.lifecycle ≠ .ephemeral →
    r.tuple.inst = k.label → ∀ cursor, s.site.cursor = some cursor → r.sequence ≤ cursor →
      (∃ rec ∈ s.site.own, rec.verify c = true ∧ ∃ t, rec.op = .out t ∧ t.id = r.tuple.id) ∨
        r.tuple.id ∈ (s.site.log k).taken
  ownTakes : ∀ rec ∈ s.site.own, ∀ id, rec.op = .take id → ∃ t, (id, t) ∈ s.takes
  takes : ∀ p ∈ s.takes,
    s.site.space.store.hasPersistenceEvent p.1 = true ∨ (p.2.id = p.1 ∧ p.2.inst = k.label)

theorem ExportInv.safe (h : ExportInv k s) : ExportSafe k s := by
  refine ⟨?_, h.ownTakes, h.takes⟩
  intro r hr hl hi cursor hcur hle
  have hle' : r.sequence ≤ s.site.cursor.getD 0 := by rw [hcur]; exact hle
  obtain ⟨rec, hrec, ht⟩ := h.site.exported r hr ⟨hl, hi⟩ hle'
  exact .inl ⟨rec, hrec, (h.site.authentic rec hrec).1, ht⟩

instance (k : Castle c) (s : State) : (a : Label) → Decidable (exportGuard k s a)
  | .scan _ => by unfold exportGuard; cases s.phase <;> infer_instance
  | .space _ | .next | .collect _ | .fetch _ | .unreachable | .push | .pushFailed | .obstacle _ _ _
  | .stop | .crash => isTrue trivial

def north : Castle namedScheme :=
  { identity := namedIdentity "aaaaaaaaaaaaaaaaaaaa", label := "north", remoteConfigured := true }

def exportThenCrash : List Label :=
  [.space (.out (Tuple.new 5 0 .fact "repo" "built" "north" .null)), .next, .scan [(10, 0)], .next,
    .collect (11, 0), .next, .next, .crash]

def opText : SyncOp → String
  | .out t => t.payload.toText
  | .take id => toString id

/-- A signature covers the payload, and one double is parsed as its neighbour. -/
def payloadScheme : Ed25519 where
  verifyingKey := some
  verify key sig msg := sig = key ++ "/" ++ opText msg.2.2
  reads text := if text = "7.834882571872983e-16" then "7.834882571872984e-16" else text

def measuring : Castle payloadScheme where
  identity :=
    { key := "aaaaaaaaaaaaaaaaaaaa"
      publicKeyHex := "aaaaaaaaaaaaaaaaaaaa"
      sign := fun msg => "aaaaaaaaaaaaaaaaaaaa" ++ "/" ++ opText msg.2.2
      decodes := rfl
      signs := fun _ => decide_eq_true rfl }
  label := "north"
  remoteConfigured := true

def measured : Tuple :=
  Tuple.new 5 0 .fact "repo" "built" "north"
    (.object [("p", .number (.float "7.834882571872983e-16"))])

def exportMeasured : List Label :=
  [.space (.out measured), .next, .scan [(10, 0)], .next, .collect (11, 0), .next, .next]

end

end RatKingdom.Sync
