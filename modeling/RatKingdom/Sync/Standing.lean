/-
A tuple its castle keeps reaches every castle.

No condition on compaction is needed for this: the takes that compaction may forget are
takes of other tuples.  What is needed is that nobody waits on a space, since a blocked
`take` would consume a tuple as it arrives.
-/
import RatKingdom.Sync.Converge

namespace RatKingdom.Sync

open Core Lib Space Std List

variable {c : Ed25519} {n : Nat}

section
variable {k : Castle c} {t : Tuple}

theorem insertAndOffer_unattended {s s' : Inner} (hw : s.waiters = [])
    (h : s.insertAndOffer t = .ok s') :
    accepts s.store t = true ∧ s' = { s with store := s.store.push t } := by
  rcases insertAndOffer_spec s t with ⟨ha, -⟩ | ⟨-, e, he⟩
  · refine ⟨ha, ?_⟩
    unfold Inner.insertAndOffer at h
    rw [insert_of_accepts ha] at h
    cases h
    cases s
    cases hw
    rfl
  · rw [he] at h
    cases h

theorem mem_rows_push {s : Store} {row : Row} :
    row ∈ (s.push t).rows ↔ row ∈ s.rows ∨ row = ⟨s.lastSequence + 1, t⟩ := by
  show row ∈ s.rows ++ [⟨s.lastSequence + 1, t⟩] ↔ _
  rw [mem_append, mem_singleton]

variable {id : RecordId}

theorem existsId_of_subset {s s' : Store} (h : ∀ row ∈ s.rows, row ∈ s'.rows)
    (hx : s.existsId id = true) : s'.existsId id = true := by
  obtain ⟨row, hrow, hid⟩ := Store.existsId_eq_true.mp hx
  exact Store.existsId_eq_true.mpr ⟨row, h row hrow, hid⟩

variable {s s' : Site}

theorem importOne_unattended {view : LogView} {new : Bool} (hw : s.space.waiters = [])
    (h : s.importOne k view id t = .ok (s', new)) :
    s'.space.waiters = [] ∧ (∀ row ∈ s.space.store.rows, row ∈ s'.space.store.rows) ∧
      (id ∉ view.taken → t.inst ≠ k.label → s'.space.store.existsId t.id = true) := by
  unfold Site.importOne at h
  split at h
  · rename_i hskip
    cases h
    refine ⟨hw, fun _ hr => hr, fun hk hi => ?_⟩
    simp only [Bool.or_eq_true, decide_eq_true_eq, ExtTreeMap.contains_iff_mem] at hskip
    exact (hskip.elim hk hi).elim
  · split at h
    · cases h
    · rename_i space new' ho
      cases h
      unfold Inner.outIfNew at ho
      split at ho
      · rename_i hx
        cases ho
        exact ⟨hw, fun _ hr => hr, fun _ _ => hx⟩
      · split at ho
        · cases ho
        · rename_i m hm
          cases ho
          obtain ⟨-, rfl⟩ := insertAndOffer_unattended hw hm
          refine ⟨hw, fun row hr => mem_rows_push.mpr (.inl hr), fun _ _ => ?_⟩
          exact Store.existsId_eq_true.mpr ⟨_, mem_rows_push.mpr (.inr rfl), rfl⟩

theorem importAll_unattended {view : LogView} {pending : List (RecordId × Tuple)}
    (hw : s.space.waiters = []) (h : s.importAll k view pending = some s') :
    s'.space.waiters = [] ∧ (∀ row ∈ s.space.store.rows, row ∈ s'.space.store.rows) ∧
      ∀ p ∈ pending, p.1 ∉ view.taken → p.2.inst ≠ k.label →
        s'.space.store.existsId p.2.id = true := by
  induction pending generalizing s with
  | nil =>
    cases h
    exact ⟨hw, fun _ hr => hr, by simp⟩
  | cons p rest ih =>
    obtain ⟨id, t⟩ := p
    simp only [Site.importAll] at h
    split at h
    · cases h
    · rename_i m new hm
      obtain ⟨hw', hsub, hone⟩ := importOne_unattended hw hm
      obtain ⟨hw'', hsub', hall⟩ := ih hw' h
      refine ⟨hw'', fun row hr => hsub' row (hsub row hr), forall_mem_cons.mpr ⟨?_, hall⟩⟩
      exact fun hk hi => existsId_of_subset hsub' (hone hk hi)

theorem deleteAll_waiters (ids : List RecordId) (s : Site) :
    (s.deleteAll ids).space.waiters = s.space.waiters := by
  induction ids generalizing s with
  | nil => rfl
  | cons id rest ih =>
    rw [Site.deleteAll, ih]
    rfl

theorem finish_unattended (hw : s.space.waiters = []) (h : s.finish k = some s') :
    s'.space.waiters = [] ∧
      (∀ row ∈ s.space.store.rows, row.tuple.id ∉ (s.log k).taken → row ∈ s'.space.store.rows) ∧
      ∀ id t, Offers k (s.log k) id t → s'.space.store.existsId id = true := by
  obtain ⟨m, hm, rfl⟩ := Option.map_eq_some_iff.mp h
  obtain ⟨hw', hsub, hall⟩ := importAll_unattended hw hm
  obtain ⟨space, he, -, -, hrows⟩ := deleteAll_spec ((s.log k).taken.toList.map Prod.fst) m
  have hwait := deleteAll_waiters ((s.log k).taken.toList.map Prod.fst) m
  have hkept : ∀ row ∈ m.space.store.rows, row.tuple.id ∉ (s.log k).taken → row ∈ space.store.rows := by
    intro row hrow hk
    refine (hrows row).mpr ⟨hrow, fun hid => hk ?_⟩
    obtain ⟨p, hp, hpid⟩ := mem_map.mp hid
    have hget := ExtTreeMap.mem_toList_iff_getElem?_eq_some.mp hp
    rw [ExtTreeMap.mem_iff_isSome_getElem?, ← hpid, hget]
    rfl
  rw [he] at hwait ⊢
  refine ⟨hwait.trans hw', fun row hrow hk => hkept row (hsub row hrow) hk, fun id t ho => ?_⟩
  obtain ⟨ht, hk, hi⟩ := ho
  have hid : t.id = id := (exists_out_of_tuples ht).1
  have hx := hall (id, t) (ExtTreeMap.mem_toList_iff_getElem?_eq_some.mpr ht) hk hi
  obtain ⟨row, hrow, hrid⟩ := Store.existsId_eq_true.mp hx
  have hrid' : row.tuple.id = id := hrid.trans hid
  exact Store.existsId_eq_true.mpr ⟨row, hkept row hrow (hrid'.symm ▸ hk), hrid'⟩

theorem report_unattended {now : DateTime} {error : String} (hw : s.space.waiters = [])
    (h : s.report k id now error = some s') :
    s'.space.waiters = [] ∧ ∀ row ∈ s.space.store.rows, row ∈ s'.space.store.rows := by
  unfold Site.report at h
  split at h
  · cases h
  · rename_i space ho
    cases h
    obtain ⟨-, rfl⟩ := insertAndOffer_unattended hw ho
    exact ⟨hw, fun row hr => mem_rows_push.mpr (.inl hr)⟩

variable {contact : Contact}

theorem contact_unattended {remote remote' : Refs} (hw : s.space.waiters = [])
    (h : s.contact k remote contact = some (s', remote')) :
    s'.space.waiters = [] ∧ ∀ row ∈ s.space.store.rows, row ∈ s'.space.store.rows := by
  cases contact with
  | skipped =>
    simp only [Site.contact] at h
    split at h
    · cases h
    · cases h
      exact ⟨hw, fun _ hr => hr⟩
  | unreachable id now error =>
    simp only [Site.contact] at h
    split at h
    · obtain ⟨m, hrep, he⟩ := Option.map_eq_some_iff.mp h
      cases he
      exact report_unattended hw hrep
    · cases h
  | pushFailed id now error =>
    simp only [Site.contact] at h
    split at h
    · obtain ⟨m, hrep, he⟩ := Option.map_eq_some_iff.mp h
      cases he
      exact report_unattended (s := { s with tracking := s.tracking ∪ remote }) hw hrep
    · cases h
  | synced =>
    simp only [Site.contact] at h
    split at h
    · cases h
      exact ⟨hw, fun _ hr => hr⟩
    · cases h

variable {outStamps takeStamps : List Stamp}

theorem gather_takes {l : Collect} (h : s.gather k outStamps takeStamps = some l) {rec : SyncRecord}
    (hrec : rec ∈ l.records) (hop : rec.op = .take id) : id ∉ liveIds s.space.store := by
  obtain ⟨cap, m, hcap, ho, hm, ht, rfl⟩ := gather_some h
  obtain ⟨found, he, -, hfrom, -⟩ := collectAll_spec (k := k) s m.pending takeStamps m rfl ht
  have hpend : m.pending = (s.log k).missing (liveIds s.space.store) := by rw [hm]; rfl
  have hn : m.takes = [] := by rw [hm]; rfl
  have houts : m.outs = (outStamps.zip (ours k cap.delta (liveIds s.space.store))).map
      fun p => outRecord k p.1 p.2 := by rw [hm]; rfl
  rw [he] at hrec
  have hrec' : rec ∈ m.outs ++ (m.takes ++ found).map Prod.fst := hrec
  rw [hn, nil_append, houts] at hrec'
  rcases mem_append.mp hrec' with hout | htake
  · obtain ⟨p, -, rfl⟩ := mem_map.mp hout
    cases hop
  · obtain ⟨p, hp, rfl⟩ := mem_map.mp htake
    obtain ⟨stamp, -, id', hid, hrec', -⟩ := hfrom p hp
    rw [hrec'] at hop
    cases hop
    rw [hpend] at hid
    exact (mem_missing.mp hid).2

/-- What a cycle does to a space nobody waits on. -/
structure Unhindered (k : Castle c) (s s' : Site) : Prop where
  waiters : s'.space.waiters = []
  takes : ∀ id, HasTake s'.own id → HasTake s.own id ∨ id ∉ liveIds s.space.store
  keeps : ∀ row ∈ s.space.store.rows, row.tuple.id ∉ (s'.log k).taken → row ∈ s'.space.store.rows
  stores : ∀ id t, Offers k (s'.log k) id t → s'.space.store.existsId id = true

theorem exchange_unattended {remote remote' : Refs} (hw : s.space.waiters = [])
    (h : s.exchange k remote outStamps takeStamps contact = some (s', remote')) :
    Unhindered k s s' := by
  obtain ⟨l, m, hl, hc, hfin⟩ := exchange_some h
  obtain ⟨hw', hsub⟩ := contact_unattended (s := s.append c l) hw hc
  obtain ⟨hw'', hkeep, hstore⟩ := finish_unattended hw' hfin
  obtain ⟨ho, -, -, hlog, -⟩ := finish_spec hfin
  have hown : s'.own = s.own ++ l.records.map (.reread c) := ho.trans (contact_spec hc).own
  refine ⟨hw'', fun id ht => ?_, fun row hrow hk => ?_, fun id t hoff => ?_⟩
  · obtain ⟨rec, hrec, hop⟩ := ht
    rw [hown] at hrec
    rcases mem_append.mp hrec with hrec | hrec
    · exact .inl ⟨rec, hrec, hop⟩
    · obtain ⟨r, hr, rfl⟩ := mem_map.mp hrec
      exact .inr (gather_takes hl hr (SyncRecord.reread_op_take.mp hop))
  · exact hkeep row (hsub row hrow) (hlog ▸ hk)
  · exact hstore id t (hlog ▸ hoff)

end

section
variable {r : Realm c n}

/-- No castle has a blocked reader. -/
def Unattended (s : Kingdom n) : Prop := ∀ i, (s.sites i).space.waiters = []

variable {s : Kingdom n} {i : Fin n} {site : Site}

theorem unattended_worked (h : Unattended s) (hw : site.space.waiters = []) (tuples : List Tuple) :
    Unattended (s.worked i site tuples) := by
  intro j
  by_cases hj : j = i
  · subst hj
    rw [worked_self]
    exact hw
  · rw [worked_ne s hj]
    exact h j

theorem unattended_exchanged (h : Unattended s) (hw : site.space.waiters = []) (remote : Refs)
    (tuples : List Tuple) :
    Unattended (s.exchanged i site remote tuples) :=
  fun j => unattended_worked h hw tuples j

variable {a : Fin n} {t : Tuple}

theorem mem_liveIds_of_shared (h : Sound r s) (hsh : Shared r s a t) (hl : (fate s a t.id).live i) :
    t.id ∈ liveIds (s.sites i).space.store := by
  obtain ⟨row, hrow, hid⟩ := Store.existsId_eq_true.mp hl
  have htup := row_tuple h.ledger (h.site i) hsh.1 ((h.site i).rows row hrow) hid
  exact mem_liveIds.mpr ⟨row, hrow, by rw [htup]; exact hsh.2.2.1, hid⟩

theorem standing_space (hst : (fate s a t.id).Standing a) (hsh : Shared r s a t) {op : Op}
    {space : Inner} (hop : localOp op = true) (hfresh : s.freshTuples (written op) = true)
    (hs : (s.sites i).space.step op = some space)
    (hkeep : (s.sites i).space.store.existsId t.id = true → space.store.existsId t.id = true) :
    (fate (s.worked i { s.sites i with space } (written op)) a t.id).Standing a := by
  refine hst.work (fate_space hsh.1 hop hfresh hs) fun hl => ?_
  simp only [fate, worked_self]
  exact hkeep hl

theorem standing_exchange {s : Kingdom n} {a i : Fin n} {t : Tuple} (h : Sound r s)
    (hst : (fate s a t.id).Standing a) (hsh : Shared r s a t) (hw : Unattended s) {site : Site}
    {remote : Refs}
    (hexact : (s.sites i).exportsExactly (r.castle i))
    (hstamps : freshStamps s.signed (outStamps ++ takeStamps) = true)
    (hfresh : s.freshTuples (contact.written (r.castle i)) = true)
    (hx : (s.sites i).exchange (r.castle i) s.remote outStamps takeStamps contact =
      some (site, remote)) :
    (fate (s.exchanged i site remote (contact.written (r.castle i))) a t.id).Standing a := by
  have h' := sound_exchange h hexact hstamps hfresh hx
  have hun := exchange_unattended (hw i) hx
  have hself := exchanged_self s i site remote (contact.written (r.castle i))
  have hb' : (a, t) ∈ (s.exchanged i site remote (contact.written (r.castle i))).born :=
    mem_born_worked.mpr (.inl hsh.1)
  have hknows : ∀ {id : RecordId}, ¬ (fate (s.exchanged i site remote
      (contact.written (r.castle i))) a id).Knows i → id ∉ (site.log (r.castle i)).taken := by
    intro id hk hm
    refine hk ((mem_taken_iff_knows h' a id i).mp ?_)
    rw [hself]
    exact hm
  refine hst.exchange (fate_exchange h h' hsh hexact hfresh (exchange_spec hx))
    ⟨fun hd => ?_, fun hl hk => ?_,
    fun hi hv hk => ?_⟩
  · simp only [fate, hself] at hd
    exact (hun.takes t.id hd).imp_right fun hnot hl => hnot (mem_liveIds_of_shared h hsh hl)
  · obtain ⟨row, hrow, hid⟩ := Store.existsId_eq_true.mp hl
    simp only [fate, hself]
    exact Store.existsId_eq_true.mpr ⟨row, hun.keeps row hrow (by rw [hid]; exact hknows hk), hid⟩
  · have hmem := (mem_tuples_iff_sees h' hb' i).mpr (.inl hv)
    obtain ⟨u, hu⟩ := Option.isSome_iff_exists.mp (ExtTreeMap.mem_iff_isSome_getElem?.mp hmem)
    obtain ⟨huid, rec, hrec, hop⟩ := exists_out_of_tuples hu
    have hsigned := ((mem_materialize h'.ledger (h'.site i).toRefsSound).mp hrec).elim
      (h'.site i).tracking.mem fun hm => ((h'.site i).own rec hm).1
    have hut : u = t := (out_signer h' hb' hsigned hop huid).1
    simp only [fate, hself] at hu ⊢
    refine hun.stores t.id u ⟨hu, hknows hk, fun hinst => hi (r.labels ?_)⟩
    show (r.castle i).label = (r.castle a).label
    rw [← hsh.2.1, ← hut, hinst]

theorem standing_compact (h : Sound r s) (hst : (fate s a t.id).Standing a) (hsh : Shared r s a t) :
    (fate (s.worked i ((s.sites i).compact (r.castle i)) []) a t.id).Standing a :=
  hst.compact (fate_compact h hsh.1)

theorem standing_written (h : Sound r s) (hw : Unattended s) (hfresh : s.freshTuples [t] = true)
    {space : Inner} (hout : (s.sites i).space.out t = .ok space) :
    (fate (s.worked i { s.sites i with space } [t]) i t.id).Standing i := by
  obtain ⟨-, rfl⟩ := insertAndOffer_unattended (hw i) hout
  have hnew := freshTuples_spec hfresh t mem_cons_self
  have hs : (s.sites i).space.step (.out t) =
      some { (s.sites i).space with store := (s.sites i).space.store.push t } := by
    simp only [Inner.step, hout, settle, id]
  have h' := sound_space h (show localOp (.out t) = true from rfl) hfresh hs
  have hself := worked_self s i
    { s.sites i with space := { (s.sites i).space with store := (s.sites i).space.store.push t } } [t]
  have hnoTake : ∀ l : List SyncRecord, (∀ rec ∈ l, rec ∈ s.signed) → ¬ HasTake l t.id := by
    intro l hl ht
    obtain ⟨rec, hrec, hop⟩ := ht
    obtain ⟨p, hb, hid⟩ := h.ledger.takes rec (hl rec hrec) _ hop
    exact hnew _ hb hid
  refine ⟨?_, fun j => hnoTake _ fun rec hrec => ((h'.site j).own rec hrec).1,
    hnoTake _ fun rec hrec => h.remote.mem hrec,
    fun j => hnoTake _ fun rec hrec => (h'.site j).tracking.mem hrec, fun j hj hseen => ?_⟩
  · simp only [fate, hself]
    exact Store.existsId_eq_true.mpr ⟨_, mem_rows_push.mpr (.inr rfl), rfl⟩
  · -- No `Out` of it can have been fetched.
    obtain ⟨rec, hrec, u, hop, hu⟩ := hseen
    have hsigned : rec ∈ s.signed := (h'.site j).tracking.mem hrec
    obtain ⟨o, hb, -⟩ := h.ledger.outs rec hsigned u hop
    exact absurd hu (hnew _ hb)

theorem gone_step {s' : Kingdom n} {m : Move n} (h : Sound r s) (hsh : Shared r s a t)
    (hstep : s.step r m = some s') (hexact : exactGuard r s m) (hg : ¬ (fate s a t.id).live a) :
    ¬ (fate s' a t.id).live a := by
  have h' := sound_step h hstep hexact
  intro hl
  rcases step_cases hstep with ⟨i, op, space, -, hop, hfresh, hs, rfl⟩ |
    ⟨i, outStamps, takeStamps, contact, site, remote, rfl, hstamps, hfresh, hx, rfl⟩ | ⟨i, -, rfl⟩
  · exact hg ((fate_space hsh.1 hop hfresh hs).fewer.live a hl)
  · exact hg ((fate_exchange h h' hsh hexact hfresh (exchange_spec hx)).live_author hl)
  · exact hg (((fate_compact h hsh.1).live_iff a).mp hl)

theorem standing_everywhere (h : Sound r s) (hset : Settled r s) (hsh : Shared r s a t)
    (hst : (fate s a t.id).Standing a) (i : Fin n) :
    t ∈ (s.sites i).space.store.tuples := by
  refine (mem_tuples_iff_live h hsh.1 i).mpr ?_
  by_cases hi : i = a
  · exact hi ▸ hst.live
  obtain ⟨row, hrow, hid⟩ := Store.existsId_eq_true.mp hst.live
  have htup := row_tuple h.ledger (h.site a) hsh.1 ((h.site a).rows row hrow) hid
  obtain ⟨takes, hex⟩ := (h.site a).exports
  obtain ⟨⟨stamps, hexp⟩, hremote, -, -⟩ := (hset a).spec h
  have hdur : Durable (r.castle a) row :=
    ⟨by rw [htup]; exact hsh.2.2.1, by rw [htup]; exact hsh.2.1⟩
  -- The author has nothing left to export, so its `Out` is on its ref.
  have hle : row.sequence ≤ (s.sites a).cursor.getD 0 := by
    by_contra hlt
    obtain ⟨rec, hrec, -⟩ := hexp.outs row hrow ((h.site a).rows row hrow) hdur
      (Nat.not_le.mp hlt) (hex.site.wf.bounded row hrow)
    cases hrec
  obtain ⟨rec, hrec, u, hop, hu⟩ := hex.site.exported row hrow hdur hle
  obtain ⟨-, -, htrack, hstored⟩ := (hset i).spec h
  have hseen : HasOut (carried (s.sites i).tracking) t.id := by
    rw [htrack]
    exact ⟨rec, mem_carried.mpr ⟨_, _, hremote, mem_map_of_mem hrec⟩, u, hop, hu.trans hid⟩
  exact hst.stored i hi hseen

end

end RatKingdom.Sync
