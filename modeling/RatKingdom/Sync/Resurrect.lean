/-
Imports and removed tuples.

The cycle decides from its scan which tuples were consumed here, and imports at its end
whatever foreign tuple the log then offers.  A consumed tuple comes back when it is
removed between the two, or when the refs fetched in between offer an id again that was
already gone at the scan.  Without these two, no import ever stores a removed id.
-/
import RatKingdom.Sync.Export

namespace RatKingdom.Sync

open Core Lib Space Std List State

variable {c : Ed25519}

/-- The log offers `t` for import: written, not taken, not this castle's own. -/
def Offers (k : Castle c) (view : LogView) (id : RecordId) (t : Tuple) : Prop :=
  view.tuples[id]? = some t ∧ id ∉ view.taken ∧ t.inst ≠ k.label

/-- What the store says of an id it has held and lost. -/
def Gone (s : Store) (id : RecordId) : Prop :=
  s.hasPersistenceEvent id = true ∧ s.existsId id = false

/-- No id the log offers at the import has been removed since the scan, none that was
already gone at the scan is offered anew, and while the import runs no call removes an
id it has still to reach. -/
def importGuard (k : Castle c) (s : State) : Label → Prop
  | .next =>
    match s.phase with
    | .viewing l => ∀ id t, Offers k (s.site.log k) id t →
        (¬ Gone l.scanned id → ¬ Gone s.site.space.store id) ∧
          (Gone l.scanned id → id ∈ l.view.aliveInLog)
    | _ => True
  | .space op =>
    match s.phase with
    | .importing view pending => ∀ p ∈ pending, Offers k view p.1 p.2 →
        ∀ space, s.site.space.step op = some space → ¬ Gone space.store p.1
    | _ => True
  | _ => True

section
variable (k : Castle c)

structure OwnInv (own : List SyncRecord) : Prop where
  authentic : ∀ rec ∈ own, ∀ id, rec.op = .take id → rec.verify c = true
  distinct : (own.map SyncRecord.id).Nodup

structure ScanR (s : Site) (l : Scan) : Prop where
  live : l.live = liveIds l.scanned
  mono : ∀ id, l.scanned.hasPersistenceEvent id = true → s.space.store.hasPersistenceEvent id = true

/-- Every id the log read before the fetch misses here, and that was stored by the scan,
has its take among the records or is still to be looked at. -/
structure CollectR (s : Site) (l : Collect) : Prop extends ScanR s l.toScan where
  keyed : ∀ id ∈ l.pending, ∃ t, l.view.tuples[id]? = some t
  taking : ∀ id ∈ l.view.missing l.live, l.scanned.hasPersistenceEvent id = true →
    id ∈ l.pending ∨ ∃ p ∈ l.takes, p.1.op = .take id
  records : OwnInv (c := c) (s.own ++ l.records)

structure ExportedR (s : Site) (l : Collect) : Prop where
  live : l.live = liveIds l.scanned
  taken : ∀ id ∈ l.view.missing l.live, l.scanned.hasPersistenceEvent id = true →
    ∃ rec ∈ s.own, rec.op = .take id

structure ImportR (s : Site) (view : LogView) (pending : List (RecordId × Tuple)) : Prop where
  keyed : ∀ p ∈ pending, p.2.id = p.1
  offered : ∀ p ∈ pending, view.tuples[p.1]? = some p.2
  distinct : (pending.map Prod.fst).Nodup
  present : ∀ p ∈ pending, Offers k view p.1 p.2 → ¬ Gone s.space.store p.1

def PhaseR (s : Site) : Phase → Prop
  | .scanned l => ScanR s l ∧ OwnInv (c := c) (s.own ++ l.outs)
  | .collecting l => CollectR (c := c) s l
  | .appended l => ExportedR s l
  | .syncing l => ExportedR s l
  | .pushing l => ExportedR s l
  | .failing l => ExportedR s l
  | .viewing l => ExportedR s l
  | .importing view pending => ImportR k s view pending
  | _ => True

structure ResurrectInv (s : State) : Prop where
  own : OwnInv (c := c) s.site.own
  phase : PhaseR k s.site s.phase
  none : s.resurrected = []

end

section
variable {k : Castle c} {s : Site} (h : OwnInv (c := c) s.own) {rec : SyncRecord} {id : RecordId}
  (hrec : rec ∈ s.own) (hop : rec.op = .take id)
include h hrec hop

theorem own_take_mem_materialize : rec ∈ materialize c (s.repo k) := by
  have hrefs : (s.repo k).allRefs =
      s.tracking.toList.map (fun p => (refName notesRemotePrefix p.1, p.2)) ++
        [(refName notesLocalPrefix k.identity.actor, s.own.map some)] := rfl
  refine mem_collected.mpr ⟨rec.id, ?_⟩
  rw [Repo.records, hrefs, flatMap_append, flatMap_singleton, recordsInRef_own,
    getElem?_collect_append]
  have hown : (collect SyncRecord.id (fun x => x) (s.own.filter fun r => r.verify c))[rec.id]? =
      some rec :=
    getElem?_collect_of_agree (mem_filter.mpr ⟨hrec, h.authentic rec hrec id hop⟩)
      fun y hy he => inj_on_of_nodup_map h.distinct (mem_filter.mp hy).1 hrec he
  rw [hown]
  rfl

theorem own_take_mem_taken : id ∈ (s.log k).taken :=
  mem_taken.mpr ⟨rec, own_take_mem_materialize h hrec hop, hop⟩

end

variable {own : List SyncRecord}

theorem freshStamps_iff {stamps : List Stamp} : freshStamps own stamps = true ↔
    (stamps.map Prod.fst).Nodup ∧ ∀ st ∈ stamps, ∀ r ∈ own, r.id ≠ st.1 := by
  simp [freshStamps]

theorem OwnInv.append {more : List SyncRecord} (h : OwnInv (c := c) own)
    (hauth : ∀ rec ∈ more, ∀ id, rec.op = .take id → rec.verify c = true)
    (hnd : (more.map SyncRecord.id).Nodup)
    (hfresh : ∀ rec ∈ more, ∀ r ∈ own, r.id ≠ rec.id) : OwnInv (c := c) (own ++ more) := by
  refine ⟨?_, ?_⟩
  · exact forall_mem_append.mpr ⟨h.authentic, hauth⟩
  · rw [map_append]
    refine List.Nodup.append h.distinct hnd ?_
    intro id hid hid'
    obtain ⟨r, hr, rfl⟩ := mem_map.mp hid
    obtain ⟨rec, hrec, he⟩ := mem_map.mp hid'
    exact hfresh rec hrec r hr he.symm

theorem OwnInv.filter (h : OwnInv (c := c) own) (p : SyncRecord → Bool) :
    OwnInv (c := c) (own.filter p) :=
  ⟨fun rec hrec => h.authentic rec (mem_filter.mp hrec).1,
    (filter_sublist.map SyncRecord.id).nodup h.distinct⟩

/-- Takes are parsed as they were written, and ids whatever the op. -/
theorem OwnInv.append_reread {more : List SyncRecord} (h : OwnInv (c := c) (own ++ more)) :
    OwnInv (c := c) (own ++ more.map (SyncRecord.reread c)) := by
  refine ⟨fun rec hrec id hop => ?_, ?_⟩
  · rcases mem_append.mp hrec with hrec | hrec
    · exact h.authentic rec (mem_append_left _ hrec) id hop
    · obtain ⟨r, hr, rfl⟩ := mem_map.mp hrec
      have htake := SyncRecord.reread_op_take.mp hop
      rw [SyncRecord.reread_of_take htake]
      exact h.authentic r (mem_append_right _ hr) id htake
  · have hids : (own ++ more.map (SyncRecord.reread c)).map SyncRecord.id = (own ++ more).map
        SyncRecord.id := by
      simp only [map_append, map_map]
      rfl
    rw [hids]
    exact h.distinct

section
variable {k : Castle c} {s : State}

theorem resurrectInv_phase {phase : Phase} (h : ResurrectInv k s) (hp : PhaseR k s.site phase) :
    ResurrectInv k { s with phase } :=
  ⟨h.own, hp, h.none⟩

theorem map_id_outRecords (stamps : List Stamp) (tuples : List Tuple)
    (hlen : stamps.length = tuples.length) :
    ((stamps.zip tuples).map fun p => outRecord k p.1 p.2).map SyncRecord.id = stamps.map Prod.fst := by
  rw [map_map]
  have hfst : (stamps.zip tuples).map Prod.fst = stamps := map_fst_zip (Nat.le_of_eq hlen)
  conv_rhs => rw [← hfst]
  rw [map_map]
  rfl

theorem phaseR_scan {s : Site} (hown : OwnInv (c := c) s.own) {l : Capture} {stamps : List Stamp}
    (hlen : stamps.length = (ours k l.delta (liveIds s.space.store)).length)
    (hfresh : freshStamps s.own stamps = true) : PhaseR k s (.scanned (s.scan k l stamps)) := by
  obtain ⟨hnd, hne⟩ := freshStamps_iff.mp hfresh
  have hids := map_id_outRecords (k := k) stamps _ hlen
  refine ⟨⟨rfl, fun _ h => h⟩, hown.append ?_ ?_ ?_⟩
  · intro rec hrec
    obtain ⟨p, -, rfl⟩ := mem_map.mp hrec
    exact fun _ _ => SyncRecord.signed_verify _ _ _ _
  · exact hids ▸ hnd
  · intro rec hrec r hr
    have hm : rec.id ∈ stamps.map Prod.fst := hids ▸ mem_map_of_mem hrec
    obtain ⟨st, hst, he⟩ := mem_map.mp hm
    exact he ▸ hne st hst r hr

variable {id : RecordId}

theorem mem_aliveInLog {v : LogView} : id ∈ v.aliveInLog ↔ id ∈ v.tuples ∧ id ∉ v.taken := by
  simp only [LogView.aliveInLog, mem_map, mem_filter, Prod.exists, exists_and_right,
    exists_eq_right, ExtTreeMap.mem_toList_iff_getElem?_eq_some, Bool.not_eq_true',
    ← Bool.not_eq_true, ExtTreeMap.contains_iff_mem, ExtTreeMap.mem_iff_isSome_getElem?,
    Option.isSome_iff_exists]

theorem mem_missing {v : LogView} {live : List RecordId} :
    id ∈ v.missing live ↔ (id ∈ v.tuples ∧ id ∉ v.taken) ∧ id ∉ live := by
  simp only [LogView.missing, mem_filter, mem_aliveInLog, Bool.not_eq_true',
    ← Bool.not_eq_true, contains_iff_mem]

theorem collectR_begin {s : Site} {l : Scan} (h : ScanR s l)
    (hown : OwnInv (c := c) (s.own ++ l.outs)) : CollectR (c := c) s (s.beginCollect k l) := by
  refine ⟨⟨h.live, h.mono⟩, ?_, fun id hid _ => .inl hid, ?_⟩
  · intro id hid
    have hm := (mem_missing.mp hid).1.1
    exact Option.isSome_iff_exists.mp (ExtTreeMap.mem_iff_isSome_getElem?.mp hm)
  · simpa [Collect.records, Site.beginCollect] using hown

theorem collectR_collectOne {s : Site} {l : Collect} (h : CollectR (c := c) s l)
    {rest : List RecordId} {stamp : Stamp} (hp : l.pending = id :: rest)
    (hfresh : freshStamps (s.own ++ l.records) [stamp] = true) :
    CollectR (c := c) s (s.collectOne k l id rest stamp) := by
  obtain ⟨t, ht⟩ := h.keyed id (hp ▸ mem_cons_self)
  have hkeyed : ∀ id' ∈ rest, ∃ t, l.view.tuples[id']? = some t :=
    fun id' hid' => h.keyed id' (hp ▸ mem_cons_of_mem _ hid')
  unfold Site.collectOne
  rw [ht]
  dsimp only
  split
  · refine ⟨⟨h.live, h.mono⟩, hkeyed, ?_, ?_⟩
    · intro id' hid' hpe
      rcases h.taking id' hid' hpe with hm | ⟨p, hm, hop⟩
      · rw [hp] at hm
        rcases mem_cons.mp hm with rfl | hm
        · exact .inr ⟨_, mem_append_right _ mem_cons_self, rfl⟩
        · exact .inl hm
      · exact .inr ⟨p, mem_append_left _ hm, hop⟩
    · obtain ⟨-, hne⟩ := freshStamps_iff.mp hfresh
      have hrec : s.own ++ (l.outs ++ (l.takes ++ [(takeRecord k stamp id, t)]).map Prod.fst) =
          (s.own ++ l.records) ++ [takeRecord k stamp id] := by
        simp [Collect.records]
      show OwnInv (c := c) (s.own ++ (l.outs ++ (l.takes ++ [(takeRecord k stamp id, t)]).map Prod.fst))
      rw [hrec]
      refine h.records.append ?_ (nodup_singleton _) ?_
      · intro rec hm
        rw [mem_singleton.mp hm]
        exact fun _ _ => SyncRecord.signed_verify _ _ _ _
      · intro rec hm r hr
        rw [mem_singleton.mp hm]
        exact hne stamp mem_cons_self r hr
  · rename_i ho
    refine ⟨⟨h.live, h.mono⟩, hkeyed, ?_, h.records⟩
    intro id' hid' hpe
    rcases h.taking id' hid' hpe with hm | hdone
    · rw [hp] at hm
      rcases mem_cons.mp hm with rfl | hm
      · -- An id stored by the scan counts as observed.
        refine absurd ?_ ho
        simp [observedLocally, h.mono _ hpe]
      · exact .inl hm
    · exact .inr hdone

theorem importR_view {s : State} {l : Collect} (h : ResurrectInv k s) (hl : ExportedR s.site l)
    (hg : ∀ id t, Offers k (s.site.log k) id t →
      (¬ Gone l.scanned id → ¬ Gone s.site.space.store id) ∧
        (Gone l.scanned id → id ∈ l.view.aliveInLog)) :
    ImportR k s.site (s.site.log k) (s.site.log k).tuples.toList := by
  have hget : ∀ p ∈ (s.site.log k).tuples.toList, (s.site.log k).tuples[p.1]? = some p.2 :=
    fun p hp => ExtTreeMap.mem_toList_iff_getElem?_eq_some.mp hp
  refine ⟨fun p hp => (exists_out_of_tuples (hget p hp)).1, hget, ?_, ?_⟩
  · rw [ExtTreeMap.map_fst_toList_eq_keys]
    exact ExtTreeMap.nodup_keys
  · intro p hp hoff
    obtain ⟨hkept, hnew⟩ := hg p.1 p.2 hoff
    by_cases hgone : Gone l.scanned p.1
    · have hmiss : p.1 ∈ l.view.missing l.live := by
        refine mem_missing.mpr ⟨mem_aliveInLog.mp (hnew hgone), ?_⟩
        rw [hl.live]
        intro hlive
        obtain ⟨r, hr, -, hid⟩ := mem_liveIds.mp hlive
        exact Store.existsId_eq_false.mp hgone.2 r hr hid
      obtain ⟨rec, hrec, hop⟩ := hl.taken p.1 hmiss hgone.1
      exact absurd (own_take_mem_taken h.own hrec hop) hoff.2.1
    · exact hkept hgone

theorem offer_store (s : Inner) (row : Row) :
    (s.offer row).store = s.store ∨ (s.offer row).store = s.store.erase row.tuple.id := by
  unfold Inner.offer
  dsimp only
  split
  · exact .inr rfl
  · exact .inl rfl

theorem outIfNew_spec {s s' : Inner} {t : Tuple} {new : Bool} (h : s.outIfNew t = .ok (s', new)) :
    (new = true → s.store.existsId t.id = false) ∧
      ∀ id, id ≠ t.id → (Gone s'.store id ↔ Gone s.store id) := by
  unfold Inner.outIfNew at h
  split at h
  · cases h
    exact ⟨fun hn => Bool.noConfusion hn, fun _ _ => .rfl⟩
  · rename_i hx
    unfold Inner.insertAndOffer at h
    cases hins : s.store.insert t with
    | error e => simp only [hins] at h; cases h
    | ok store =>
      simp only [hins] at h
      cases h
      refine ⟨fun _ => by simpa using hx, fun id hne => ?_⟩
      obtain ⟨-, rfl⟩ := Store.insert_ok hins
      have hpush : Gone (s.store.push t) id ↔ Gone s.store id := by
        simp [Gone, Store.hasPersistenceEvent, Store.existsId, Store.push, Ne.symm hne]
      rcases offer_store { s with store := s.store.push t } ⟨(s.store.push t).lastSequence, t⟩ with
        he | he
      · rw [he]
        exact hpush
      · rw [he, ← hpush]
        have hex : ((s.store.push t).erase t.id).existsId id = (s.store.push t).existsId id := by
          rw [Bool.eq_iff_iff, Store.existsId_eq_true, Store.existsId_eq_true]
          constructor
          · intro hr
            obtain ⟨r, hr, hid⟩ := hr
            exact ⟨r, (Store.mem_erase_rows.mp hr).1, hid⟩
          · intro hr
            obtain ⟨r, hr, hid⟩ := hr
            exact ⟨r, Store.mem_erase_rows.mpr ⟨hr, hid.trans_ne hne⟩, hid⟩
        exact and_congr .rfl (by rw [hex])

theorem resurrectInv_import {view : LogView} {t : Tuple} {rest : List (RecordId × Tuple)}
    {site : Site} {new : Bool} (h : ResurrectInv k s) (hi : ImportR k s.site view ((id, t) :: rest))
    (ho : s.site.importOne k view id t = .ok (site, new)) :
    ResurrectInv k { s with
      site
      resurrected := if new && s.site.space.store.hasPersistenceEvent id then s.resurrected ++ [id]
        else s.resurrected
      phase := .importing view rest } := by
  have hid : t.id = id := hi.keyed _ mem_cons_self
  obtain ⟨hnotin, hnd⟩ := nodup_cons.mp hi.distinct
  have hrest : ∀ {space : Inner}, (∀ id', id' ≠ t.id → (Gone space.store id' ↔
      Gone s.site.space.store id')) → ImportR k { s.site with space } view rest := by
    intro space hother
    refine ⟨fun p hp => hi.keyed p (mem_cons_of_mem _ hp),
      fun p hp => hi.offered p (mem_cons_of_mem _ hp), hnd, ?_⟩
    intro p hp hoff
    have hne : p.1 ≠ t.id := by
      rw [hid]
      intro he
      exact hnotin (mem_map.mpr ⟨p, hp, he⟩)
    rw [hother p.1 hne]
    exact hi.present p (mem_cons_of_mem _ hp) hoff
  unfold Site.importOne at ho
  split at ho
  · cases ho
    exact ⟨h.own, hrest fun _ _ => .rfl, h.none⟩
  · rename_i hskip
    split at ho
    · cases ho
    · rename_i space new' hout
      cases ho
      obtain ⟨hnew, hother⟩ := outIfNew_spec hout
      refine ⟨h.own, hrest hother, ?_⟩
      -- A new row for an id the log offers: the id was never stored here.
      have hfalse : (new && s.site.space.store.hasPersistenceEvent id) = false := by
        cases new with
        | false => rfl
        | true =>
          have hoff : Offers k view id t := by
            simp only [Bool.or_eq_true, decide_eq_true_eq, not_or, ExtTreeMap.contains_iff_mem] at hskip
            exact ⟨hi.offered _ mem_cons_self, hskip.1, hskip.2⟩
          have hno := hi.present _ mem_cons_self hoff
          have habsent := hnew rfl
          rw [hid] at habsent
          cases hpe : s.site.space.store.hasPersistenceEvent id with
          | false => rfl
          | true => exact absurd ⟨hpe, habsent⟩ hno
      simp only [hfalse, Bool.false_eq_true, if_false]
      exact h.none

theorem resurrectInv_next {s' : State} (h : ResurrectInv k s) (hn : s.next k = some s')
    (hg : importGuard k s .next) : ResurrectInv k s' := by
  have hphase := h.phase
  unfold State.next at hn
  unfold importGuard at hg
  cases hph : s.phase with
  | idle =>
    simp only [hph] at hn
    split at hn
    all_goals
      cases hn
      exact resurrectInv_phase h trivial
  | captured l | pushing l | failing l => simp only [hph] at hn; cases hn
  | scanned l =>
    rw [hph] at hphase
    simp only [hph, Option.some.injEq] at hn
    subst hn
    exact resurrectInv_phase h (collectR_begin hphase.1 hphase.2)
  | collecting l =>
    rw [hph] at hphase
    have hc : CollectR s.site l := hphase
    simp only [hph] at hn
    split at hn
    · cases hn
    · rename_i hnil
      cases hn
      refine ⟨hc.records.append_reread, ⟨hc.live, fun id hid hpe => ?_⟩, h.none⟩
      rcases hc.taking id hid hpe with hm | ⟨p, hp, hop⟩
      · rw [hnil] at hm
        cases hm
      · have hm : p.1 ∈ l.records := mem_append_right _ (mem_map_of_mem hp)
        exact ⟨_, mem_append_right _ (mem_map_of_mem hm), SyncRecord.reread_op_take.mpr hop⟩
  | appended l =>
    rw [hph] at hphase
    have hl : ExportedR s.site l := hphase
    simp only [hph, Option.some.injEq] at hn
    subst hn
    split
    · exact ⟨h.own, ⟨hl.live, hl.taken⟩, h.none⟩
    · exact ⟨h.own, hl, h.none⟩
  | syncing l =>
    rw [hph] at hphase
    simp only [hph] at hn
    split at hn
    · cases hn
    · cases hn
      exact resurrectInv_phase h hphase
  | viewing l =>
    rw [hph] at hphase
    simp only [hph] at hg
    simp only [hph, Option.some.injEq] at hn
    subst hn
    exact resurrectInv_phase h (importR_view h hphase hg)
  | importing view pending =>
    rw [hph] at hphase
    cases pending with
    | nil =>
      simp only [hph, Option.some.injEq] at hn
      subst hn
      exact resurrectInv_phase h trivial
    | cons p rest =>
      obtain ⟨id, t⟩ := p
      simp only [hph] at hn
      split at hn
      · cases hn
        exact resurrectInv_phase h trivial
      · rename_i site new hi
        cases hn
        exact resurrectInv_import h hphase hi
  | deleting pending =>
    cases pending with
    | nil =>
      simp only [hph, Option.some.injEq] at hn
      subst hn
      exact resurrectInv_phase h trivial
    | cons id rest =>
      simp only [hph, Option.some.injEq] at hn
      subst hn
      exact ⟨h.own, trivial, h.none⟩
  | ending =>
    simp only [hph, Option.some.injEq] at hn
    subst hn
    exact resurrectInv_phase h trivial
  | ended live =>
    simp only [hph, Option.some.injEq] at hn
    subst hn
    exact ⟨h.own, trivial, h.none⟩
  | compacting =>
    simp only [hph, Option.some.injEq] at hn
    subst hn
    refine ⟨?_, trivial, h.none⟩
    unfold Site.compact
    dsimp only
    rw [recordsInRef_own]
    split
    · show OwnInv (c := c) ([] ++ _)
      exact OwnInv.append_reread ((h.own.filter _).filter _)
    · exact h.own

/-- A call on the space: what was stored stays in the journal, and by the guard no id
still to be imported is lost. -/
theorem resurrectInv_space {op : Op} {space : Inner} (h : ResurrectInv k s)
    (hop : s.site.space.step op = some space) (hg : importGuard k s (.space op)) :
    ResurrectInv k { s with site := { s.site with space } } := by
  have hphase := h.phase
  have hmono : ∀ {id}, s.site.space.store.hasPersistenceEvent id = true →
      space.store.hasPersistenceEvent id = true :=
    fun hpe => (step_evolves hop).hasPersistenceEvent_mono hpe
  unfold importGuard at hg
  refine ⟨h.own, ?_, h.none⟩
  cases hph : s.phase with
  | scanned l =>
    rw [hph] at hphase
    exact ⟨⟨hphase.1.live, fun id hpe => hmono (hphase.1.mono id hpe)⟩, hphase.2⟩
  | collecting l =>
    rw [hph] at hphase
    have hc : CollectR s.site l := hphase
    exact ⟨⟨hc.live, fun id hpe => hmono (hc.mono id hpe)⟩, hc.keyed, hc.taking, hc.records⟩
  | appended l | syncing l | pushing l | failing l | viewing l =>
    rw [hph] at hphase; exact ⟨hphase.live, hphase.taken⟩
  | importing view pending =>
    rw [hph] at hphase
    simp only [hph] at hg
    have hi : ImportR k s.site view pending := hphase
    exact ⟨hi.keyed, hi.offered, hi.distinct, fun p hp hoff => hg p hp hoff space hop⟩
  | _ => trivial

theorem resurrectInv_step {s' : State} {a : Label} (h : ResurrectInv k s)
    (hs : s.step k a = some s') (hg : importGuard k s a) : ResurrectInv k s' := by
  have hphase := h.phase
  cases a with
  | space op =>
    simp only [step, Option.map_eq_some_iff] at hs
    obtain ⟨space, hop, rfl⟩ := hs
    exact resurrectInv_space h hop hg
  | next => exact resurrectInv_next h hs hg
  | scan stamps =>
    simp only [step] at hs
    split at hs
    · split at hs
      · rename_i hok
        cases hs
        simp only [Bool.and_eq_true, decide_eq_true_eq] at hok
        exact resurrectInv_phase h (phaseR_scan h.own hok.1 hok.2)
      · cases hs
    · cases hs
  | collect stamp =>
    simp only [step] at hs
    split at hs
    · rename_i l hph
      split at hs
      · cases hs
      · rename_i id rest hp
        obtain ⟨hfresh, hs⟩ := Option.ite_none_right_eq_some.mp hs
        cases hs
        rw [hph] at hphase
        exact resurrectInv_phase h (collectR_collectOne hphase hp hfresh)
    · cases hs
  | fetch refs =>
    simp only [step] at hs
    split at hs
    · rename_i l hph
      split at hs
      · cases hs
        rw [hph] at hphase
        exact ⟨h.own, ⟨hphase.live, hphase.taken⟩, h.none⟩
      · cases hs
    · cases hs
  | unreachable =>
    simp only [step] at hs
    split at hs
    · rename_i l hph
      split at hs
      · cases hs
        rw [hph] at hphase
        exact resurrectInv_phase h hphase
      · cases hs
    · cases hs
  | push | pushFailed =>
    simp only [step] at hs
    split at hs
    · rename_i l hph
      cases hs
      rw [hph] at hphase
      exact resurrectInv_phase h hphase
    · cases hs
  | obstacle id now error =>
    simp only [step] at hs
    split at hs
    · rename_i l hph
      rw [hph] at hphase
      split at hs
      · cases hs
        exact resurrectInv_phase h trivial
      · cases hs
        exact ⟨h.own, ⟨hphase.live, hphase.taken⟩, h.none⟩
    · cases hs
  | stop =>
    cases hs
    exact resurrectInv_phase h trivial
  | crash =>
    cases hs
    exact ⟨h.own, trivial, h.none⟩

/-- No import has stored an id that had been removed. -/
def NeverBack (s : State) : Prop := s.resurrected = []
deriving Decidable

/-- In every run that meets the guard, over any number of cycles, any fetched refs and
any calls on the space, no import ever brings a removed tuple back. -/
theorem removed_never_imported (k : Castle c) (tupleId recordId : RecordId) (now : DateTime)
    (labels : List Label)
    (h : Meets (step k) (importGuard k) (fresh k tupleId recordId now) labels) :
    Keeps (step k) NeverBack (fresh k tupleId recordId now) labels := by
  have hfresh : ResurrectInv k (.fresh k tupleId recordId now) := by
    refine ⟨⟨?_, nodup_singleton _⟩, trivial, rfl⟩
    intro rec hrec
    rw [mem_singleton.mp hrec]
    exact fun _ _ => SyncRecord.signed_verify _ _ _ _
  refine (keeps_of_meets (P := ResurrectInv k) ?_ hfresh h).mono fun s hs => hs.none
  intro s a s' hs hstep hg
  exact resurrectInv_step hs hstep hg

/-- A tuple the castle `south` exported. -/
def foreignTuple : Tuple := Tuple.new 7 0 .task "repo" "job" "south" .null

def southRefs : Refs :=
  (∅ : Refs).insert "castle-bbbbbbbbbbbbbbbb"
    [some (.signed (namedIdentity "bbbbbbbbbbbbbbbbbbbb") 70 0 (.out foreignTuple))]

def restOfCycle (imports deletes : Nat) : List Label :=
  [.next, .collect (11, 0), .next, .next, .fetch southRefs, .push, .next] ++
    List.replicate (imports + 1) .next ++ List.replicate (deletes + 1) .next ++ [.next, .next, .next]

def quietCycle : List Label := [.next, .scan []] ++ restOfCycle 2 0

theorem quietCycle_meets :
    Meets (step north) (importGuard north) (fresh north 1 2 0) quietCycle := by
  iterate 8 refine meets_cons rfl trivial ?_
  refine meets_cons rfl (fun id t _ => ?_) ?_
  · exact ⟨fun _ hg => Bool.noConfusion hg.1, fun hg => Bool.noConfusion hg.1⟩
  iterate 7 refine meets_cons rfl trivial ?_
  trivial

theorem removed_never_imported_quiet :
    ((run (step north) (fresh north 1 2 0) quietCycle).map
      fun s => s.site.space.store.existsId foreignTuple.id) = some true ∧
    Keeps (step north) NeverBack (fresh north 1 2 0) quietCycle :=
  ⟨by decide +kernel, removed_never_imported north 1 2 0 quietCycle quietCycle_meets⟩

def consumedAfterScan : List Label :=
  quietCycle ++ [.next, .scan [], .space (.checkAndRegister { identity := some "job" } true)] ++
    restOfCycle 2 0

theorem consumed_after_scan_comes_back :
    ¬ Keeps (step north) NeverBack (fresh north 1 2 0) consumedAfterScan :=
  not_keeps_of_run (by decide +kernel)

end

end RatKingdom.Sync
