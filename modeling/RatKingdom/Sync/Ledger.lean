/-
What holds of a kingdom in every run.

Every record on any ref was signed by the castle the ref is named for, no two records
share an id, an `Out` is for a tuple its signer wrote under its own label, and a take is
for a tuple somebody wrote.  So the log a castle reads holds exactly the records on its
own ref and on the refs it fetched.  This takes that every record is parsed as it was
written.
-/
import Mathlib.Data.List.FinRange
import RatKingdom.Sync.Kingdom

namespace RatKingdom.Sync

open Core Lib Space Std List

variable {c : Ed25519} {n : Nat}

def HasTake (own : List SyncRecord) (id : RecordId) : Prop := ∃ rec ∈ own, rec.op = .take id

def carried (refs : Refs) : List SyncRecord := refs.toList.flatMap fun p => p.2.filterMap fun l => l

theorem mem_carried {refs : Refs} {rec : SyncRecord} :
    rec ∈ carried refs ↔ ∃ (actor : String) (lines : List Line),
      refs[actor]? = some lines ∧ some rec ∈ lines := by
  simp only [carried, mem_flatMap, mem_filterMap, Prod.exists,
    ExtTreeMap.mem_toList_iff_getElem?_eq_some]
  constructor
  · intro h
    obtain ⟨actor, lines, hl, l, hm, rfl⟩ := h
    exact ⟨actor, lines, hl, hm⟩
  · intro h
    obtain ⟨actor, lines, hl, hm⟩ := h
    exact ⟨actor, lines, hl, some rec, hm, rfl⟩

theorem mem_carried_insert {refs : Refs} {actor : String} {own : List SyncRecord} {rec : SyncRecord} :
    rec ∈ carried (refs.insert actor (own.map some)) ↔ rec ∈ own ∨
      ∃ (other : String) (lines : List Line), other ≠ actor ∧ refs[other]? = some lines ∧
        some rec ∈ lines := by
  simp only [mem_carried, ExtTreeMap.getElem?_insert, Std.compare_eq_iff_eq]
  constructor
  · intro h
    obtain ⟨other, lines, hl, hm⟩ := h
    by_cases ho : actor = other
    · rw [if_pos ho] at hl
      cases hl
      exact .inl (by simpa using hm)
    · rw [if_neg ho] at hl
      exact .inr ⟨other, lines, fun he => ho he.symm, hl, hm⟩
  · intro h
    rcases h with h | ⟨other, lines, ho, hl, hm⟩
    · exact ⟨actor, own.map some, if_pos rfl, mem_map_of_mem h⟩
    · exact ⟨other, lines, by rw [if_neg fun he => ho he.symm]; exact hl, hm⟩

theorem union_eq_of_subset {a b : Refs} (h : ∀ actor ∈ a, actor ∈ b) : a ∪ b = b := by
  refine ExtTreeMap.ext_getElem? fun actor => ?_
  rw [ExtTreeMap.getElem?_union]
  cases hb : b[actor]? with
  | some lines => rfl
  | none =>
    have ha : actor ∉ a := fun hm => by
      have hmem := h actor hm
      rw [ExtTreeMap.mem_iff_isSome_getElem?, hb] at hmem
      cases hmem
    rw [ExtTreeMap.getElem?_eq_none ha]
    rfl

section
variable (r : Realm c n)

/-- Every record was signed by its castle: an `Out` for a tuple the castle wrote under its
label, a take for a tuple somebody wrote. -/
structure Ledger (born : List (Fin n × Tuple)) (signed : List SyncRecord) : Prop where
  unique : (born.map fun p => p.2.id).Nodup
  distinct : (signed.map SyncRecord.id).Nodup
  authentic : ∀ rec ∈ signed, rec.verify c = true ∧ rec.reread c = rec
  outs : ∀ rec ∈ signed, ∀ t, rec.op = .out t → ∃ i, (i, t) ∈ born ∧
    t.inst = (r.castle i).label ∧ rec.actor = (r.castle i).identity.actor
  takes : ∀ rec ∈ signed, ∀ id, rec.op = .take id → ∃ p ∈ born, p.2.id = id

def Carried (signed : List SyncRecord) (refs : Refs) : Prop :=
  ∀ (actor : String) (lines : List Line), refs[actor]? = some lines →
    ∀ l ∈ lines, ∃ rec ∈ signed, l = some rec ∧ rec.actor = actor

structure RefsSound (signed : List SyncRecord) (remote : Refs) (i : Fin n) (s : Site) : Prop where
  own : ∀ rec ∈ s.own, rec ∈ signed ∧ rec.actor = (r.castle i).identity.actor
  tracking : Carried signed s.tracking
  fetched : ∀ actor ∈ s.tracking, actor ∈ remote

/-- What holds of castle `i`.  A tuple under its own label is in its journal once, since
the castle never imports it. -/
structure SiteSound (born : List (Fin n × Tuple)) (signed : List SyncRecord) (remote : Refs)
    (i : Fin n) (s : Site) : Prop extends RefsSound r signed remote i s where
  exports : ∃ takes, ExportInv (r.castle i) { site := s, phase := .idle, takes, resurrected := [] }
  journal : ∀ j ∈ s.space.store.journal, ∃ o, (o, j.tuple) ∈ born ∧
    (j.tuple.inst = (r.castle i).label → o = i)
  rows : ∀ row ∈ s.space.store.rows, row ∈ s.space.store.journal
  once : ∀ t, (i, t) ∈ born → t.inst = (r.castle i).label → t.lifecycle ≠ .ephemeral →
    ∀ j ∈ s.space.store.journal, ∀ j' ∈ s.space.store.journal,
      j.tuple.id = t.id → j'.tuple.id = t.id → j = j'
  dropped : ∀ id ∈ (s.log (r.castle i)).taken, s.space.store.existsId id = false

structure Sound (s : Kingdom n) : Prop where
  ledger : Ledger r s.born s.signed
  remote : Carried s.signed s.remote
  site : ∀ i, SiteSound r s.born s.signed s.remote i (s.sites i)

end

section
variable {r : Realm c n} {born : List (Fin n × Tuple)} {signed : List SyncRecord}

theorem Ledger.tuple_eq (h : Ledger r born signed) {p q : Fin n × Tuple} (hp : p ∈ born)
    (hq : q ∈ born) (he : p.2.id = q.2.id) : p = q :=
  inj_on_of_nodup_map h.unique hp hq he

variable {refs : Refs} {rec : SyncRecord}

theorem Carried.mem (h : Carried signed refs) (hrec : rec ∈ carried refs) : rec ∈ signed := by
  obtain ⟨actor, lines, hl, hm⟩ := mem_carried.mp hrec
  obtain ⟨rec', hs, he, -⟩ := h actor lines hl _ hm
  cases he
  exact hs

theorem Carried.mono {signed' : List SyncRecord} (h : Carried signed refs)
    (hsub : ∀ rec ∈ signed, rec ∈ signed') : Carried signed' refs := by
  intro actor lines hl l hm
  obtain ⟨rec, hs, he⟩ := h actor lines hl l hm
  exact ⟨rec, hsub rec hs, he⟩

theorem Carried.insert (h : Carried signed refs) {actor : String} {own : List SyncRecord}
    (ho : ∀ rec ∈ own, rec ∈ signed ∧ rec.actor = actor) :
    Carried signed (refs.insert actor (own.map some)) := by
  intro other lines hl l hm
  rw [ExtTreeMap.getElem?_insert] at hl
  by_cases he : actor = other
  · simp only [he, compare_self, if_true, Option.some.injEq] at hl
    subst hl
    obtain ⟨rec, hrec, rfl⟩ := mem_map.mp hm
    exact ⟨rec, (ho rec hrec).1, rfl, he ▸ (ho rec hrec).2⟩
  · simp only [Std.compare_eq_iff_eq, he, if_false] at hl
    exact h other lines hl l hm

variable {remote : Refs} {i : Fin n} {s : Site} {k : Castle c}

theorem mem_materialize (hl : Ledger r born signed) (h : RefsSound r signed remote i s) :
    rec ∈ materialize c (s.repo k) ↔ rec ∈ carried s.tracking ∨ rec ∈ s.own := by
  have hrepo : ∀ rec, rec ∈ (s.repo k).records c ↔ rec ∈ carried s.tracking ∨ rec ∈ s.own := by
    intro rec
    rw [mem_records]
    constructor
    · intro hr
      obtain ⟨-, refs, actor, lines, rfl | rfl, hlines, hm⟩ := hr
      · exact .inl (mem_carried.mpr ⟨actor, lines, hlines, hm⟩)
      · have hown : rec ∈ carried ((∅ : Refs).insert k.identity.actor (s.own.map some)) :=
          mem_carried.mpr ⟨actor, lines, hlines, hm⟩
        rcases mem_carried_insert.mp hown with hown | ⟨other, ls, -, hn, -⟩
        · exact .inr hown
        · simp at hn
    · intro hr
      rcases hr with hr | hr
      · obtain ⟨actor, lines, hlines, hm⟩ := mem_carried.mp hr
        exact ⟨(hl.authentic rec (h.tracking.mem hr)).1, s.tracking, actor, lines, .inl rfl, hlines, hm⟩
      · refine ⟨(hl.authentic rec (h.own rec hr).1).1, _, k.identity.actor, s.own.map some,
          .inr rfl, ?_,
          mem_map_of_mem hr⟩
        simp [Site.repo]
  have hsigned : ∀ rec, rec ∈ (s.repo k).records c → rec ∈ signed := by
    intro rec hr
    exact ((hrepo rec).mp hr).elim h.tracking.mem fun ho => (h.own rec ho).1
  constructor
  · intro hr
    exact (hrepo rec).mp (mem_records_of_materialize hr)
  · intro hr
    refine mem_materialize_of_unique ((hrepo rec).mpr hr) fun rec' hr' he => ?_
    exact inj_on_of_nodup_map hl.distinct (hsigned rec' hr') (hsigned rec ((hrepo rec).mpr hr)) he

variable {id : RecordId}

theorem mem_log_tuples (hl : Ledger r born signed) (h : RefsSound r signed remote i s) :
    id ∈ (s.log k).tuples ↔ HasOut (carried s.tracking) id ∨ HasOut s.own id := by
  simp only [Site.log, mem_tuples, mem_materialize hl h, HasOut, or_and_right, exists_or]

theorem mem_log_taken (hl : Ledger r born signed) (h : RefsSound r signed remote i s) :
    id ∈ (s.log k).taken ↔ HasTake (carried s.tracking) id ∨ HasTake s.own id := by
  simp only [Site.log, mem_taken, mem_materialize hl h, HasTake, or_and_right, exists_or]

theorem SiteSound.mono {born' : List (Fin n × Tuple)} {signed' : List SyncRecord} {remote' : Refs}
    (h : SiteSound r born signed remote i s) (hborn : ∀ p ∈ born, p ∈ born')
    (hmine : ∀ t, (i, t) ∈ born' → (i, t) ∈ born) (hsigned : ∀ rec ∈ signed, rec ∈ signed')
    (hremote : ∀ actor ∈ remote, actor ∈ remote') :
    SiteSound r born' signed' remote' i s := by
  refine ⟨⟨fun rec hrec => ?_, h.tracking.mono hsigned, fun a ha => hremote a (h.fetched a ha)⟩,
    h.exports, fun j hj => ?_, h.rows, fun t ht => h.once t (hmine t ht), h.dropped⟩
  · obtain ⟨hs, ha⟩ := h.own rec hrec
    exact ⟨hsigned rec hs, ha⟩
  · obtain ⟨o, ho, hi⟩ := h.journal j hj
    exact ⟨o, hborn _ ho, hi⟩

theorem worked_self (s : Kingdom n) (i : Fin n) (site : Site) (tuples : List Tuple) :
    (s.worked i site tuples).sites i = site := by
  simp [Kingdom.worked]

theorem worked_ne (s : Kingdom n) {j : Fin n} (h : j ≠ i) (site : Site) (tuples : List Tuple) :
    (s.worked i site tuples).sites j = s.sites j := by
  simp [Kingdom.worked, h]

theorem exchanged_self (s : Kingdom n) (i : Fin n) (site : Site) (remote : Refs) (tuples : List Tuple) :
    (s.exchanged i site remote tuples).sites i = site := worked_self s i site tuples

theorem exchanged_ne (s : Kingdom n) {j : Fin n} (h : j ≠ i) (site : Site) (remote : Refs)
    (tuples : List Tuple) : (s.exchanged i site remote tuples).sites j = s.sites j :=
  worked_ne s h site tuples

variable {tuples : List Tuple}

theorem mem_born_worked {p : Fin n × Tuple} :
    p ∈ born ++ tuples.map (fun t => (i, t)) ↔ p ∈ born ∨ (p.1 = i ∧ p.2 ∈ tuples) := by
  simp only [mem_append, mem_map]
  constructor
  · intro h
    rcases h with h | ⟨t, ht, rfl⟩
    · exact .inl h
    · exact .inr ⟨rfl, ht⟩
  · intro h
    rcases h with h | ⟨hi, ht⟩
    · exact .inl h
    · exact .inr ⟨p.2, ht, by rw [← hi]⟩

theorem freshTuples_spec {s : Kingdom n} (h : s.freshTuples tuples = true) :
    ∀ t ∈ tuples, ∀ p ∈ s.born, p.2.id ≠ t.id := by
  simpa [Kingdom.freshTuples] using h

theorem Ledger.worked {s : Kingdom n} (h : Ledger r s.born s.signed) {site : Site}
    (hfresh : s.freshTuples tuples = true) (hone : tuples.length ≤ 1) :
    Ledger r (s.worked i site tuples).born s.signed := by
  have hold : ∀ p ∈ s.born, p ∈ (s.worked i site tuples).born :=
    fun p hp => mem_born_worked.mpr (.inl hp)
  refine ⟨?_, h.distinct, h.authentic, ?_, ?_⟩
  · have hids : (s.worked i site tuples).born.map (fun p => p.2.id) =
        s.born.map (fun p => p.2.id) ++ tuples.map Tuple.id := by
      simp [Kingdom.worked, Function.comp_def]
    rw [hids]
    refine List.Nodup.append h.unique ?_ fun id hid hid' => ?_
    · cases tuples with
      | nil => exact nodup_nil
      | cons t rest =>
        have hnil : rest = [] := length_eq_zero_iff.mp (by simpa using hone)
        rw [hnil]
        exact nodup_singleton _
    · obtain ⟨p, hp, rfl⟩ := mem_map.mp hid
      obtain ⟨t, ht, he⟩ := mem_map.mp hid'
      exact freshTuples_spec hfresh t ht p hp he.symm
  · intro rec hrec t hop
    obtain ⟨o, ho, hi⟩ := h.outs rec hrec t hop
    exact ⟨o, hold _ ho, hi⟩
  · intro rec hrec id hop
    obtain ⟨p, hp, hid⟩ := h.takes rec hrec id hop
    exact ⟨p, hold p hp, hid⟩

theorem taken_born (hl : Ledger r born signed) (h : RefsSound r signed remote i s)
    (hid : id ∈ (s.log k).taken) : ∃ p ∈ born, p.2.id = id := by
  rcases (mem_log_taken hl h).mp hid with ⟨rec, hrec, hop⟩ | ⟨rec, hrec, hop⟩
  · exact hl.takes rec (h.tracking.mem hrec) id hop
  · exact hl.takes rec (h.own rec hrec).1 id hop

theorem plainOp_of_localOp {op : Op} (h : localOp op = true) : plainOp op = true := by
  cases op <;> first | rfl | cases h

theorem written_length (op : Op) : (written op).length ≤ 1 := by
  cases op <;> simp [written]

theorem sound_space {s : Kingdom n} (h : Sound r s) {op : Op} {space : Inner}
    (hop : localOp op = true) (hfresh : s.freshTuples (written op) = true)
    (hs : (s.sites i).space.step op = some space) :
    Sound r (s.worked i { s.sites i with space } (written op)) := by
  have hnew := freshTuples_spec hfresh
  have hi := h.site i
  have hadds := adds_localOp hop hs
  refine ⟨h.ledger.worked hfresh (written_length op), h.remote, fun j => ?_⟩
  have hborn : ∀ p ∈ s.born, p ∈ (s.worked i { s.sites i with space } (written op)).born :=
    fun p hp => mem_born_worked.mpr (.inl hp)
  by_cases hj : j = i
  · subst hj
    rw [worked_self]
    obtain ⟨takes, hex⟩ := hi.exports
    refine ⟨⟨hi.own, hi.tracking, hi.fetched⟩,
      ⟨takes, exportInv_evolve hex (step_face (plainOp_of_localOp hop) hs)⟩, ?_, ?_, ?_, ?_⟩
    · intro row hrow
      rcases hadds.journal_cases hrow with hrow | hw
      · obtain ⟨o, ho, himp⟩ := hi.journal row hrow
        exact ⟨o, hborn _ ho, himp⟩
      · exact ⟨j, mem_born_worked.mpr (.inr ⟨rfl, hw⟩), fun _ => rfl⟩
    · intro row hrow
      rcases hadds.rows row hrow with hrow | hrow
      · exact hadds.mem_journal (hi.rows row hrow)
      · exact hrow.1
    · intro t ht hinst hlife row hrow row' hrow' he he'
      -- Rows of an old tuple are old rows; a new tuple is stored by this call alone.
      rcases localOp_cases hop hs with ⟨hjour, -⟩ | ⟨new, hw, -, hjour, -⟩
      · have hnone : t ∉ written op ∨ (j, t) ∈ s.born := by
          by_cases hm : (j, t) ∈ s.born
          · exact .inr hm
          · exact .inl fun hw => by
              obtain ⟨o, ho, -⟩ := hi.journal row (hjour ▸ hrow)
              exact hnew t hw _ ho he
        have hold : (j, t) ∈ s.born := by
          rcases mem_born_worked.mp ht with hm | hm
          · exact hm
          · exact hnone.resolve_left fun hn => hn hm.2
        exact hi.once t hold hinst hlife row (hjour ▸ hrow) row' (hjour ▸ hrow') he he'
      · have hsplit : ∀ x, x ∈ space.store.journal → x ∈ (s.sites j).space.store.journal ∨ x = new := by
          intro x hx
          rw [hjour] at hx
          exact (mem_append.mp hx).imp_right mem_singleton.mp
        have hnotold : ∀ x ∈ (s.sites j).space.store.journal, ∀ u ∈ written op, x.tuple.id ≠ u.id := by
          intro x hx u hu
          obtain ⟨o, ho, -⟩ := hi.journal x hx
          exact hnew u hu _ ho
        rcases hsplit row hrow with hrow | rfl
        · rcases hsplit row' hrow' with hrow' | rfl
          · rcases mem_born_worked.mp ht with hm | hm
            · exact hi.once t hm hinst hlife row hrow row' hrow' he he'
            · exact absurd he (hnotold row hrow t hm.2)
          · exact absurd (he.trans he'.symm) (hnotold row hrow _ hw)
        · rcases hsplit row' hrow' with hrow' | rfl
          · exact absurd (he'.trans he.symm) (hnotold row' hrow' _ hw)
          · rfl
    · intro id hid
      have hlog : id ∈ ((s.sites j).log (r.castle j)).taken := hid
      obtain ⟨p, hp, hpid⟩ := taken_born h.ledger hi.toRefsSound hlog
      refine Store.existsId_eq_false.mpr fun row hrow hrid => ?_
      rcases hadds.rows row hrow with hrow | ⟨-, hw⟩
      · exact Store.existsId_eq_false.mp (hi.dropped id hlog) row hrow hrid
      · exact hnew _ hw p hp (hpid.trans hrid.symm)
  · rw [worked_ne s hj]
    refine (h.site j).mono hborn (fun t ht => ?_) (fun _ h => h) (fun _ h => h)
    exact (mem_born_worked.mp ht).resolve_right fun hn => hj hn.1

theorem offers_born (hl : Ledger r born signed) (h : RefsSound r signed remote i s) {t : Tuple}
    (ho : Offers k (s.log k) id t) :
    t.id = id ∧ ∃ o, (o, t) ∈ born := by
  obtain ⟨hid, rec, hrec, hop⟩ := exists_out_of_tuples ho.1
  refine ⟨hid, ?_⟩
  have hsigned : rec ∈ signed :=
    ((mem_materialize hl h).mp hrec).elim h.tracking.mem fun hm => (h.own rec hm).1
  obtain ⟨o, hborn, -⟩ := hl.outs rec hsigned t hop
  exact ⟨o, hborn⟩

theorem contact_written_length (k : Castle c) (contact : Contact) :
    (contact.written k).length ≤ 1 := by
  cases contact <;> simp [Contact.written]

theorem contact_written_ephemeral {contact : Contact} {t : Tuple} (h : t ∈ contact.written k) :
    t.lifecycle = .ephemeral := by
  cases contact with
  | skipped | synced => cases h
  | unreachable id now error | pushFailed id now error => rw [mem_singleton.mp h]; rfl

theorem Ledger.export (hl : Ledger r born signed) (h : SiteSound r born signed remote i s)
    {stamps : List Stamp} {records : List SyncRecord} (hx : Exported (r.castle i) s stamps records)
    (hexact : s.exportsExactly (r.castle i)) (hfresh : freshStamps signed stamps = true) :
    Ledger r born (signed ++ records) := by
  obtain ⟨hnd, hne⟩ := freshStamps_iff.mp hfresh
  refine ⟨hl.unique, ?_, ?_, ?_, ?_⟩
  · rw [map_append]
    refine List.Nodup.append hl.distinct (hx.ids.nodup hnd) fun id hid hid' => ?_
    obtain ⟨rec, hrec, rfl⟩ := mem_map.mp hid
    obtain ⟨st, hst, he⟩ := mem_map.mp (hx.ids.subset hid')
    exact hne st hst rec hrec he.symm
  · refine forall_mem_append.mpr ⟨hl.authentic, ?_⟩
    intro rec hrec
    refine ⟨?_, hx.exact hexact rec hrec⟩
    obtain ⟨stamp, ⟨j, -, -, -, -, rfl⟩ | ⟨id, -, rfl⟩⟩ := hx.made rec hrec
    all_goals exact SyncRecord.signed_verify _ _ _ _
  · refine forall_mem_append.mpr ⟨hl.outs, ?_⟩
    intro rec hrec t hop
    obtain ⟨stamp, ⟨j, hj, -, hinst, -, rfl⟩ | ⟨id, -, rfl⟩⟩ := hx.made rec hrec
    · cases hop
      obtain ⟨o, ho, hoi⟩ := h.journal j hj
      exact ⟨i, hoi hinst ▸ ho, hinst, rfl⟩
    · cases hop
  · refine forall_mem_append.mpr ⟨hl.takes, ?_⟩
    intro rec hrec id hop
    obtain ⟨stamp, ⟨j, -, -, -, -, rfl⟩ | ⟨id', hid, rfl⟩⟩ := hx.made rec hrec
    · cases hop
    · cases hop
      have hsome : ∀ l : List SyncRecord, (∀ x ∈ l, x ∈ signed) → HasOut l id →
          ∃ p ∈ born, p.2.id = id := by
        intro l hsub hout
        obtain ⟨x, hx', t, hop', ht⟩ := hout
        obtain ⟨o, ho, -⟩ := hl.outs x (hsub x hx') t hop'
        exact ⟨(o, t), ho, ht⟩
      rcases (mem_log_tuples hl h.toRefsSound).mp hid with hout | hout
      · exact hsome _ (fun x hx' => h.tracking.mem hx') hout
      · exact hsome _ (fun x hx' => (h.own x hx').1) hout

/-- What an exchange appends to the own ref is what it signed. -/
theorem Exchanged.own_exact {s site : Site} {contact : Contact} {stamps : List Stamp}
    {remote remote' : Refs}
    (h : Exchanged k contact stamps s remote site remote') (hexact : s.exportsExactly k) :
    ∃ records, site.own = s.own ++ records ∧ Exported k s stamps records := by
  obtain ⟨records, hown, hexp⟩ := h.own
  exact ⟨records, by rw [hown, map_reread (hexp.exact hexact)], hexp⟩

theorem sound_exchange {s : Kingdom n} (h : Sound r s) {i : Fin n} {outStamps takeStamps : List Stamp}
    {contact : Contact} {site : Site} {remote : Refs} (hexact : (s.sites i).exportsExactly (r.castle i))
    (hstamps : freshStamps s.signed (outStamps ++ takeStamps) = true)
    (hfresh : s.freshTuples (contact.written (r.castle i)) = true)
    (hx : (s.sites i).exchange (r.castle i) s.remote outStamps takeStamps contact =
    some (site, remote)) :
    Sound r (s.exchanged i site remote (contact.written (r.castle i))) := by
  have hspec := exchange_spec hx
  obtain ⟨records, hown, hexp⟩ := hspec.own_exact hexact
  have hdrop : site.own.drop (s.sites i).own.length = records := by
    rw [hown, drop_left]
  have hi := h.site i
  have hnew := freshTuples_spec hfresh
  have hborn : ∀ p ∈ s.born, p ∈ (s.worked i site (contact.written (r.castle i))).born :=
    fun p hp => mem_born_worked.mpr (.inl hp)
  have hwrote : ∀ t ∈ contact.written (r.castle i),
      (i, t) ∈ (s.worked i site (contact.written (r.castle i))).born :=
    fun t ht => mem_born_worked.mpr (.inr ⟨rfl, ht⟩)
  have hsub : ∀ rec ∈ s.signed, rec ∈ s.signed ++ records := fun rec hr => mem_append_left _ hr
  have hmade : ∀ rec ∈ records, rec.actor = (r.castle i).identity.actor := by
    intro rec hrec
    obtain ⟨stamp, ⟨j, -, -, -, -, rfl⟩ | ⟨id, -, rfl⟩⟩ := hexp.made rec hrec
    · rfl
    · rfl
  have howns : ∀ rec ∈ site.own, rec ∈ s.signed ++ records ∧ rec.actor =
      (r.castle i).identity.actor := by
    intro rec hrec
    rw [hown] at hrec
    rcases mem_append.mp hrec with hrec | hrec
    · exact ⟨hsub rec (hi.own rec hrec).1, (hi.own rec hrec).2⟩
    · exact ⟨mem_append_right _ hrec, hmade rec hrec⟩
  have hremote : Carried (s.signed ++ records) remote := by
    rcases hspec.remote with rfl | rfl
    · exact h.remote.mono hsub
    · exact (h.remote.mono hsub).insert howns
  have hkeys : ∀ actor ∈ s.remote, actor ∈ remote := by
    intro actor ha
    rcases hspec.remote with rfl | rfl
    · exact ha
    · exact ExtTreeMap.mem_insert.mpr (.inr ha)
  have hledger : Ledger r (s.worked i site (contact.written (r.castle i))).born
      (s.signed ++ records) := by
    have hl : Ledger r (s.worked i site (contact.written (r.castle i))).born s.signed :=
      h.ledger.worked hfresh (contact_written_length _ contact)
    have hl' := h.ledger.export hi hexp hexact hstamps
    refine ⟨hl.unique, hl'.distinct, hl'.authentic, fun rec hrec t hop => ?_, fun rec hrec id hop => ?_⟩
    · obtain ⟨o, ho, hrest⟩ := hl'.outs rec hrec t hop
      exact ⟨o, hborn _ ho, hrest⟩
    · obtain ⟨p, hp, hid⟩ := hl'.takes rec hrec id hop
      exact ⟨p, hborn p hp, hid⟩
  have hrefs : RefsSound r (s.signed ++ records) remote i site := by
    refine ⟨howns, ?_, ?_⟩
    · rcases hspec.tracking with ht | ht
      · rw [ht]
        exact hi.tracking.mono hsub
      · rw [ht, union_eq_of_subset hi.fetched]
        exact h.remote.mono hsub
    · intro actor ha
      rcases hspec.tracking with ht | ht
      · exact hkeys actor (hi.fetched actor (ht ▸ ha))
      · rw [ht, union_eq_of_subset hi.fetched] at ha
        exact hkeys actor ha
  have hsigned : (s.exchanged i site remote (contact.written (r.castle i))).signed =
      s.signed ++ records := congrArg (s.signed ++ ·) hdrop
  refine ⟨by rw [hsigned]; exact hledger, by rw [hsigned]; exact hremote, fun j => ?_⟩
  rw [hsigned]
  by_cases hj : j = i
  · subst hj
    rw [exchanged_self]
    obtain ⟨takes, hex⟩ := hi.exports
    refine ⟨hrefs, ?_, ?_, ?_, ?_, hspec.dropped⟩
    · have hfr : freshStamps (s.sites j).own (outStamps ++ takeStamps) = true :=
        freshStamps_of_subset hstamps fun rec hrec => (hi.own rec hrec).1
      obtain ⟨takes', res, hreach⟩ := reaches_exchange
        (s := { site := s.sites j, phase := .idle, takes, resurrected := [] }) hx hexact hfr
      have hinv := hreach.exportInv hex
      exact ⟨takes', hinv.site, trivial, hinv.ownTakes, hinv.takes⟩
    · intro row hrow
      rcases hspec.space.journal_cases hrow with hrow | hw | ⟨id, ho⟩
      · obtain ⟨o, ho, himp⟩ := hi.journal row hrow
        exact ⟨o, hborn _ ho, himp⟩
      · exact ⟨j, hwrote _ hw, fun _ => rfl⟩
      · obtain ⟨-, o, hb⟩ := offers_born hledger hrefs ho
        exact ⟨o, hb, fun hinst => absurd hinst ho.2.2⟩
    · intro row hrow
      rcases hspec.space.rows row hrow with hrow | hrow
      · exact hspec.space.mem_journal (hi.rows row hrow)
      · exact hrow.1
    · intro t ht hinst hlife row hrow row' hrow' he he'
      have hold : (j, t) ∈ s.born :=
        (mem_born_worked.mp ht).resolve_right fun hn => hlife (contact_written_ephemeral hn.2)
      -- Nothing the cycle stores has the id of a tuple under this castle's label.
      have hwas : ∀ x ∈ site.space.store.journal, x.tuple.id = t.id →
          x ∈ (s.sites j).space.store.journal := by
        intro x hx' hxid
        rcases hspec.space.journal_cases hx' with hm | hw | ⟨id, ho⟩
        · exact hm
        · exact absurd hxid.symm (hnew _ hw (j, t) hold)
        · obtain ⟨-, o, hb⟩ := offers_born hledger hrefs ho
          have heq : (o, x.tuple) = (j, t) := hledger.tuple_eq hb ht hxid
          cases heq
          exact absurd hinst ho.2.2
      exact hi.once t hold hinst hlife row (hwas row hrow he) row' (hwas row' hrow' he') he he'
  · rw [exchanged_ne s hj]
    refine (h.site j).mono hborn (fun t ht => ?_) hsub hkeys
    exact (mem_born_worked.mp ht).resolve_right fun hn => hj hn.1

theorem mem_compact_own (hauth : ∀ rec ∈ s.own, rec.verify c = true ∧ rec.reread c = rec) :
    rec ∈ (s.compact k).own ↔ rec ∈ s.own ∧ (s.log k).keeps rec = true := by
  unfold Site.compact
  dsimp only
  rw [recordsInRef_map_some fun rec hrec => (hauth rec hrec).1,
    map_reread fun rec hrec => (hauth rec (mem_filter.mp hrec).1).2]
  split
  · exact mem_filter
  · rename_i hlen
    -- Nothing was dropped.
    have hall : s.own.filter (s.log k).keeps = s.own := by
      refine filter_sublist.eq_of_length_le ?_
      omega
    constructor
    · intro hrec
      rw [← hall] at hrec
      exact mem_filter.mp hrec
    · exact fun hrec => hrec.1

theorem compact_frame (k : Castle c) (s : Site) : ∃ own, s.compact k = { s with own } := by
  unfold Site.compact
  dsimp only
  split
  · exact ⟨_, rfl⟩
  · exact ⟨s.own, rfl⟩

theorem sound_compact {s : Kingdom n} (h : Sound r s) (i : Fin n) :
    Sound r (s.worked i ((s.sites i).compact (r.castle i)) []) := by
  have hi := h.site i
  have hauth : ∀ rec ∈ (s.sites i).own, rec.verify c = true ∧ rec.reread c = rec :=
    fun rec hrec => h.ledger.authentic rec (hi.own rec hrec).1
  have hsub : ∀ rec ∈ ((s.sites i).compact (r.castle i)).own, rec ∈ (s.sites i).own :=
    fun rec hrec => ((mem_compact_own hauth).mp hrec).1
  have hborn : (s.worked i ((s.sites i).compact (r.castle i)) []).born = s.born := by
    simp [Kingdom.worked]
  refine ⟨by rw [hborn]; exact h.ledger, h.remote, fun j => ?_⟩
  rw [hborn]
  by_cases hj : j = i
  · subst hj
    rw [worked_self]
    obtain ⟨takes, hex⟩ := hi.exports
    have hpast : ∀ id ∈ ((s.sites j).log (r.castle j)).taken,
        Past (s.sites j).space.store ((s.sites j).cursor.getD 0) id :=
      fun id hid row hrow hrid =>
        absurd hrid (Store.existsId_eq_false.mp (hi.dropped id hid) row hrow)
    have hinv := exportInv_compact hex hpast
    obtain ⟨own, he⟩ := compact_frame (r.castle j) (s.sites j)
    rw [he] at hsub hinv ⊢
    have hrefs : RefsSound r s.signed s.remote j { s.sites j with own } :=
      ⟨fun rec hrec => hi.own rec (hsub rec hrec), hi.tracking, hi.fetched⟩
    refine ⟨hrefs, ⟨takes, hinv⟩, hi.journal, hi.rows, hi.once, fun id hid => ?_⟩
    refine hi.dropped id ((mem_log_taken h.ledger hi.toRefsSound).mpr ?_)
    refine ((mem_log_taken h.ledger hrefs).mp hid).imp_right fun htake => ?_
    obtain ⟨rec, hrec, hop⟩ := htake
    exact ⟨rec, hsub rec hrec, hop⟩
  · rw [worked_ne s hj]
    exact h.site j

theorem step_cases {s s' : Kingdom n} {m : Move n} (h : s.step r m = some s') :
    (∃ i op space, m = .space i op ∧ localOp op = true ∧ s.freshTuples (written op) = true ∧
      (s.sites i).space.step op = some space ∧
      s' = s.worked i { s.sites i with space } (written op)) ∨
    (∃ i outStamps takeStamps contact site remote, m = .exchange i outStamps takeStamps contact ∧
      freshStamps s.signed (outStamps ++ takeStamps) = true ∧
      s.freshTuples (contact.written (r.castle i)) = true ∧
      (s.sites i).exchange (r.castle i) s.remote outStamps takeStamps contact = some (site, remote) ∧
      s' = s.exchanged i site remote (contact.written (r.castle i))) ∨
    ∃ i, m = .compact i ∧ s' = s.worked i ((s.sites i).compact (r.castle i)) [] := by
  cases m with
  | space i op =>
    simp only [Kingdom.step] at h
    split at h
    · rename_i hc
      simp only [Bool.and_eq_true] at hc
      obtain ⟨space, hs, rfl⟩ := Option.map_eq_some_iff.mp h
      exact .inl ⟨i, op, space, rfl, hc.1, hc.2, hs, rfl⟩
    · cases h
  | exchange i outStamps takeStamps contact =>
    simp only [Kingdom.step] at h
    split at h
    · rename_i hc
      simp only [Bool.and_eq_true] at hc
      obtain ⟨p, hx, rfl⟩ := Option.map_eq_some_iff.mp h
      exact .inr (.inl ⟨i, outStamps, takeStamps, contact, p.1, p.2, rfl, hc.1, hc.2, hx, rfl⟩)
    · cases h
  | compact i =>
    cases h
    exact .inr (.inr ⟨i, rfl, rfl⟩)

/-- What an exchange exports is parsed as it was written. -/
def exactGuard (r : Realm c n) (s : Kingdom n) : Move n → Prop
  | .exchange i _ _ _ => (s.sites i).exportsExactly (r.castle i)
  | _ => True

theorem sound_step {s s' : Kingdom n} {m : Move n} (h : Sound r s) (hstep : s.step r m = some s')
    (hg : exactGuard r s m) : Sound r s' := by
  rcases step_cases hstep with ⟨i, op, space, -, hop, hfresh, hs, rfl⟩ |
    ⟨i, outStamps, takeStamps, contact, site, remote, rfl, hstamps, hfresh, hx, rfl⟩ | ⟨i, -, rfl⟩
  · exact sound_space h hop hfresh hs
  · exact sound_exchange h hg hstamps hfresh hx
  · exact sound_compact h i

end

end RatKingdom.Sync
