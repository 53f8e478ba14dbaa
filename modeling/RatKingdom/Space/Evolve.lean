/-
What a statement can do to the tables.

Every write of the store is a sequence of two moves: `rewrite`, which drops rows or
changes columns a chosen `key` does not read, and `push`, which stamps and journals
one new row.  The facts other modules need about the counter, the journal and the
rows are proved for these two moves once, and each operation is shown to be such a
sequence.
-/
import RatKingdom.Space.Store

namespace RatKingdom.Space

open Core List

def Row.stamp (r : Row) : Nat × RecordId × String := (r.sequence, r.tuple.id, r.tuple.inst)

namespace Store

universe u
variable {K : Type u}

/-- `new` keeps some of the rows of `old`, in order, up to what `key` reads of them. -/
def Rewrites (key : Row → K) (old new : List Row) : Prop := (new.map key).Sublist (old.map key)

theorem rewrites_refl (key : Row → K) (rows : List Row) : Rewrites key rows rows :=
  List.Sublist.refl _

theorem rewrites_filter (key : Row → K) (p : Row → Bool) (rows : List Row) :
    Rewrites key rows (rows.filter p) :=
  filter_sublist.map key

variable {key : Row → K}

theorem rewrites_map {f : Row → Row} (hf : ∀ r, key (f r) = key r) (rows : List Row) :
    Rewrites key rows (rows.map f) := by
  have h : (rows.map f).map key = rows.map key := by
    rw [map_map]
    exact map_congr_left fun r _ => hf r
  rw [Rewrites, h]

theorem Rewrites.trans {a b c : List Row} (hab : Rewrites key a b) (hbc : Rewrites key b c) :
    Rewrites key a c := List.Sublist.trans hbc hab

variable {r : Row}

theorem Rewrites.origin {old new : List Row} (h : Rewrites key old new) (hr : r ∈ new) :
    ∃ r₀ ∈ old, key r₀ = key r :=
  mem_map.mp (h.subset (mem_map_of_mem hr))

inductive Evolves (key : Row → K) : Store → Store → Prop
  | refl (s : Store) : Evolves key s s
  | rewrite {s m m' : Store} : Evolves key s m → Rewrites key m.rows m'.rows →
      m'.lastSequence = m.lastSequence → m'.journal = m.journal → Evolves key s m'
  | push {s m : Store} (t : Tuple) : Evolves key s m → m.existsId t.id = false →
      Evolves key s (m.push t)

variable {a b : Store}

theorem Evolves.trans {c : Store} (hab : Evolves key a b) (hbc : Evolves key b c) :
    Evolves key a c := by
  induction hbc with
  | refl => exact hab
  | rewrite _ hr hl hj ih => exact .rewrite ih hr hl hj
  | push t _ hx ih => exact .push t ih hx

theorem Evolves.coarsen {L : Type u} {key' : Row → L} {g : K → L} (hg : ∀ r, key' r = g (key r))
    (h : Evolves key a b) : Evolves key' a b := by
  have hmap : ∀ rows : List Row, rows.map key' = (rows.map key).map g := by
    intro rows
    rw [map_map]
    exact map_congr_left fun r _ => hg r
  induction h with
  | refl => exact .refl a
  | rewrite _ hr hl hj ih =>
    refine .rewrite ih ?_ hl hj
    rw [Rewrites, hmap, hmap]
    exact hr.map g
  | push t _ hx ih => exact .push t ih hx

theorem Evolves.lastSequence_le (h : Evolves key a b) : a.lastSequence ≤ b.lastSequence := by
  induction h with
  | refl => exact Nat.le_refl _
  | rewrite _ _ hl _ ih => rw [hl]; exact ih
  | push t _ _ ih => exact Nat.le_succ_of_le ih

theorem Evolves.journal_append (h : Evolves key a b) :
    ∃ later, b.journal = a.journal ++ later ∧ ∀ j ∈ later, a.lastSequence < j.sequence := by
  induction h with
  | refl => exact ⟨[], by simp⟩
  | rewrite _ _ _ hj ih => rw [hj]; exact ih
  | @push m t hm _ ih =>
    obtain ⟨later, hj, hlt⟩ := ih
    refine ⟨later ++ [⟨m.lastSequence + 1, t⟩], by simp [Store.push, hj], ?_⟩
    intro j hmem
    rcases mem_append.mp hmem with hmem | hmem
    · exact hlt j hmem
    · rw [mem_singleton.mp hmem]
      exact Nat.lt_succ_of_le hm.lastSequence_le

variable {id : RecordId}

theorem Evolves.hasPersistenceEvent_mono (h : Evolves key a b)
    (hid : a.hasPersistenceEvent id = true) : b.hasPersistenceEvent id = true := by
  obtain ⟨later, hj, -⟩ := h.journal_append
  rw [hasPersistenceEvent, hj, any_append, Bool.or_eq_true]
  exact .inl hid

/-- A row present afterwards was there before, as far as `key` reads it, or was
stamped and journaled since. -/
theorem Evolves.row_origin (hkey : ∀ r r', key r = key r' → r.sequence = r'.sequence)
    (h : Evolves key a b) (hr : r ∈ b.rows) :
    (∃ r₀ ∈ a.rows, key r₀ = key r) ∨ a.lastSequence < r.sequence := by
  induction h generalizing r with
  | refl => exact .inl ⟨r, hr, rfl⟩
  | rewrite _ hw _ _ ih =>
    obtain ⟨r₁, hr₁, hk⟩ := hw.origin hr
    rcases ih hr₁ with ⟨r₀, hr₀, hk₀⟩ | hlt
    · exact .inl ⟨r₀, hr₀, hk₀.trans hk⟩
    · exact .inr (hkey _ _ hk ▸ hlt)
  | @push m t hm _ ih =>
    rcases mem_append.mp hr with hr | hr
    · exact ih hr
    · rw [mem_singleton.mp hr]
      exact .inr (Nat.lt_succ_of_le hm.lastSequence_le)

/-- A row keeps the journal entry written with it, as far as `key` reads them. -/
theorem Evolves.journaled {key : Row → K} {a b : Store} (h : Evolves key a b)
    (ha : ∀ r ∈ a.rows, ∃ j ∈ a.journal, key j = key r) :
    ∀ r ∈ b.rows, ∃ j ∈ b.journal, key j = key r := by
  induction h with
  | refl => exact ha
  | rewrite _ hw _ hj ih =>
    intro r hr
    obtain ⟨r₀, hr₀, he⟩ := hw.origin hr
    obtain ⟨j, hm, hje⟩ := ih r₀ hr₀
    exact ⟨j, hj ▸ hm, hje.trans he⟩
  | push t _ _ ih =>
    intro r hr
    rcases mem_append.mp hr with hr | hr
    · obtain ⟨j, hm, he⟩ := ih r hr
      exact ⟨j, mem_append_left _ hm, he⟩
    · exact ⟨r, mem_append_right _ hr, rfl⟩

/-- What holds of the tables of every reachable store. -/
structure Wf (s : Store) : Prop where
  ids : (s.rows.map fun r => r.tuple.id).Nodup
  sequences : (s.rows.map Row.sequence).Nodup
  bounded : ∀ r ∈ s.rows, r.sequence ≤ s.lastSequence
  journaled : ∀ r ∈ s.rows, ∃ j ∈ s.journal, j.stamp = r.stamp
  journalBounded : ∀ j ∈ s.journal, j.sequence ≤ s.lastSequence

theorem wf_empty : Wf empty := by
  constructor <;> simp [empty]

variable {s : Store}

theorem existsId_eq_false : s.existsId id = false ↔ ∀ r ∈ s.rows, r.tuple.id ≠ id := by
  simp [existsId]

theorem existsId_eq_true : s.existsId id = true ↔ ∃ r ∈ s.rows, r.tuple.id = id := by
  simp [existsId]

theorem hasPersistenceEvent_eq_true :
    s.hasPersistenceEvent id = true ↔ ∃ j ∈ s.journal, j.tuple.id = id := by
  simp [hasPersistenceEvent]

variable {t : Tuple}

theorem Wf.push (h : Wf s) (hx : s.existsId t.id = false) : Wf (s.push t) := by
  have hfresh := existsId_eq_false.mp hx
  refine ⟨?_, ?_, ?_, ?_, ?_⟩
  · simp only [Store.push, map_append, map_cons, map_nil]
    refine List.Nodup.append h.ids (nodup_singleton _) ?_
    rintro x hm hsing
    obtain ⟨r, hr, rfl⟩ := mem_map.mp hm
    exact hfresh r hr (mem_singleton.mp hsing)
  · simp only [Store.push, map_append, map_cons, map_nil]
    refine List.Nodup.append h.sequences (nodup_singleton _) ?_
    rintro x hm hsing
    obtain ⟨r, hr, rfl⟩ := mem_map.mp hm
    have := h.bounded r hr
    have := mem_singleton.mp hsing
    omega
  · intro r hr
    rcases mem_append.mp hr with hr | hr
    · exact Nat.le_succ_of_le (h.bounded r hr)
    · rw [mem_singleton.mp hr]; exact Nat.le_refl _
  · intro r hr
    rcases mem_append.mp hr with hr | hr
    · obtain ⟨j, hj, he⟩ := h.journaled r hr
      exact ⟨j, mem_append_left _ hj, he⟩
    · exact ⟨r, mem_append_right _ hr, rfl⟩
  · intro j hj
    rcases mem_append.mp hj with hj | hj
    · exact Nat.le_succ_of_le (h.journalBounded j hj)
    · rw [mem_singleton.mp hj]; exact Nat.le_refl _

theorem Wf.rewrite {m m' : Store} (h : Wf m) (hw : Rewrites Row.stamp m.rows m'.rows)
    (hl : m'.lastSequence = m.lastSequence) (hj : m'.journal = m.journal) : Wf m' := by
  have hids : (m'.rows.map fun r => r.tuple.id).Sublist (m.rows.map fun r => r.tuple.id) := by
    simpa [map_map, Function.comp_def, Row.stamp] using hw.map fun k => k.2.1
  have hseq : (m'.rows.map Row.sequence).Sublist (m.rows.map Row.sequence) := by
    simpa [map_map, Function.comp_def, Row.stamp] using hw.map fun k => k.1
  refine ⟨hids.nodup h.ids, hseq.nodup h.sequences, ?_, ?_, ?_⟩
  · intro r hr
    obtain ⟨r₀, hr₀, he⟩ := hw.origin hr
    have hs : r₀.sequence = r.sequence := congrArg Prod.fst he
    rw [hl, ← hs]
    exact h.bounded r₀ hr₀
  · intro r hr
    obtain ⟨r₀, hr₀, he⟩ := hw.origin hr
    obtain ⟨j, hm, hje⟩ := h.journaled r₀ hr₀
    exact ⟨j, hj ▸ hm, hje.trans he⟩
  · rw [hl, hj]
    exact h.journalBounded

theorem Evolves.wf (h : Evolves Row.stamp a b) (ha : Wf a) : Wf b := by
  induction h with
  | refl => exact ha
  | rewrite _ hw hl hj ih => exact ih.rewrite hw hl hj
  | push t _ hx ih => exact ih.push hx

theorem Wf.row_eq_of_id (h : Wf s) {r' : Row} (hr : r ∈ s.rows) (hr' : r' ∈ s.rows)
    (he : r.tuple.id = r'.tuple.id) : r = r' :=
  inj_on_of_nodup_map h.ids hr hr' he

theorem Wf.persisted (h : Wf s) (hr : r ∈ s.rows) : s.hasPersistenceEvent r.tuple.id = true := by
  obtain ⟨j, hj, he⟩ := h.journaled r hr
  exact hasPersistenceEvent_eq_true.mpr ⟨j, hj, congrArg (fun k => k.2.1) he⟩

variable {s' : Store}

theorem insert_ok (h : s.insert t = .ok s') : s.existsId t.id = false ∧ s' = s.push t := by
  unfold insert at h
  split at h
  · cases h
  · rename_i hx
    split at h
    · cases h
      exact ⟨by simpa using hx, rfl⟩
    · cases h

theorem evolves_insert (key : Row → K) (h : s.insert t = .ok s') : Evolves key s s' := by
  obtain ⟨hx, rfl⟩ := insert_ok h
  exact .push t (.refl s) hx

theorem evolves_rows (key : Row → K) {rows : List Row} (h : Rewrites key s.rows rows) :
    Evolves key s { s with rows := rows } :=
  .rewrite (.refl s) h rfl rfl

theorem evolves_erase (key : Row → K) (s : Store) (id : RecordId) :
    Evolves key s (s.erase id) := evolves_rows key (rewrites_filter key _ _)

@[simp] theorem mem_erase_rows : r ∈ (s.erase id).rows ↔ r ∈ s.rows ∧ r.tuple.id ≠ id := by
  simp [erase]

theorem updateId_stamp {f : Tuple → Tuple} (hid : ∀ t, (f t).id = t.id)
    (hinst : ∀ t, (f t).inst = t.inst) (rows : List Row) :
    Rewrites Row.stamp rows (updateId id f rows) := by
  refine rewrites_map (fun r => ?_) rows
  by_cases h : r.tuple.id = id
  · simp [h, Row.stamp, hid, hinst]
  · simp [h]

theorem mem_updateId {f : Tuple → Tuple} {rows : List Row} :
    r ∈ updateId id f rows ↔ (r ∈ rows ∧ r.tuple.id ≠ id) ∨
        ∃ r₀ ∈ rows, r₀.tuple.id = id ∧ r = { r₀ with tuple := f r₀.tuple } := by
  simp only [updateId, mem_map]
  constructor
  · rintro ⟨r₀, hr₀, rfl⟩
    by_cases h : r₀.tuple.id = id
    · exact .inr ⟨r₀, hr₀, h, by simp [h]⟩
    · exact .inl ⟨by simpa [h] using hr₀, by simp [h]⟩
  · rintro (⟨hr, hne⟩ | ⟨r₀, hr₀, h, rfl⟩)
    · exact ⟨r, hr, by simp [hne]⟩
    · exact ⟨r₀, hr₀, by simp [h]⟩

theorem evolves_reinforce (s : Store) (id : RecordId) (t : Tuple) :
    Evolves Row.stamp s (s.reinforce id t) :=
  evolves_rows Row.stamp (updateId_stamp (f := reinforced t) (fun _ => rfl) (fun _ => rfl) s.rows)

theorem evolves_decayAndCollect (s : Store) (step : Float) :
    Evolves Row.stamp s (s.decayAndCollect step).1 :=
  evolves_rows Row.stamp ((rewrites_map (f := fun r => { r with tuple := decayed step r.tuple })
      (fun _ => rfl) s.rows).trans (rewrites_filter _ _ _))

theorem evolves_deleteExpired (key : Row → K) (s : Store) (now : DateTime) :
    Evolves key s (s.deleteExpired now).1 := evolves_rows key (rewrites_filter key _ _)

def SdlcPlan.refreshes (p : SdlcPlan) (t : Tuple) : Bool :=
  p.advancesCurrent && p.current.isSome && t.id = p.factId

def SdlcPlan.refresh (p : SdlcPlan) (g : SdlcSignal) (acceptedAt : DateTime) (t : Tuple) : Tuple :=
  if p.refreshes t then refreshedFact (p.fact g acceptedAt) acceptedAt t else t

def SdlcPlan.inserts (p : SdlcPlan) (g : SdlcSignal) (acceptedAt : DateTime) : List Tuple :=
  (if p.advancesCurrent && p.current.isNone then [p.fact g acceptedAt] else []) ++
    (if p.transitionEmitted then [p.transition g] else [])

@[simp] theorem tuples_push (s : Store) (t : Tuple) : (s.push t).tuples = s.tuples ++ [t] := by
  simp [tuples, Store.push]

variable {p : SdlcPlan} {g : SdlcSignal} {acceptedAt : DateTime}

theorem writeFact_ok (h : s.writeFact p g acceptedAt = .ok s') :
    Evolves Row.stamp s s' ∧ s'.tuples = s.tuples.map (p.refresh g acceptedAt) ++
        (if p.advancesCurrent && p.current.isNone then [p.fact g acceptedAt] else []) := by
  unfold writeFact at h
  cases hadv : p.advancesCurrent with
  | false =>
    have hid : p.refresh g acceptedAt = id := by
      funext t
      simp [SdlcPlan.refresh, SdlcPlan.refreshes, hadv]
    simp only [hadv, Bool.false_eq_true, if_false] at h
    cases h
    exact ⟨.refl s, by simp [hid]⟩
  | true =>
    simp only [hadv, if_true] at h
    cases hcur : p.current with
    | none =>
      have hid : p.refresh g acceptedAt = id := by
        funext t
        simp [SdlcPlan.refresh, SdlcPlan.refreshes, hcur]
      simp only [hcur, Option.isSome_none, Bool.false_eq_true, if_false] at h
      obtain ⟨hx, rfl⟩ := insert_ok h
      exact ⟨.push _ (.refl s) hx, by simp [hid, tuples_push]⟩
    | some c =>
      simp only [hcur, Option.isSome_some, if_true] at h
      cases h
      refine ⟨evolves_rows Row.stamp (updateId_stamp
        (f := refreshedFact (p.fact g acceptedAt) acceptedAt) (fun _ => rfl) (fun _ => rfl)
        s.rows), ?_⟩
      simp only [Option.isNone_some, Bool.and_false, Bool.false_eq_true, if_false, append_nil,
        tuples, updateId, map_map]
      refine map_congr_left fun r _ => ?_
      by_cases hr : r.tuple.id = p.factId
      · simp [SdlcPlan.refresh, SdlcPlan.refreshes, hadv, hcur, hr]
      · simp [SdlcPlan.refresh, SdlcPlan.refreshes, hr]

theorem writeCurrent_ok (h : s.writeCurrent p g acceptedAt = .ok s') :
    s'.rows = s.rows ∧ s'.lastSequence = s.lastSequence ∧ s'.journal = s.journal := by
  unfold writeCurrent at h
  split at h
  · split at h
    · cases h
    · cases h
      exact ⟨rfl, rfl, rfl⟩
  · cases h
    exact ⟨rfl, rfl, rfl⟩

theorem writeTransition_ok (h : s.writeTransition p g acceptedAt = .ok s') :
    Evolves Row.stamp s s' ∧
      s'.tuples = s.tuples ++ (if p.transitionEmitted then [p.transition g] else []) := by
  unfold writeTransition at h
  cases hem : p.transitionEmitted with
  | false =>
    simp only [hem, Bool.false_eq_true, if_false] at h
    cases h
    exact ⟨.refl s, by simp⟩
  | true =>
    simp only [hem, if_true] at h
    split at h
    · cases h
    · rename_i m hins
      obtain ⟨hx, rfl⟩ := insert_ok hins
      split at h
      · cases h
      · cases h
        refine ⟨.rewrite (.push _ (.refl s) hx) (rewrites_refl _ _) rfl rfl, ?_⟩
        exact tuples_push s _

theorem sdlcWrite_ok (h : s.sdlcWrite p g acceptedAt = .ok s') :
    Evolves Row.stamp s s' ∧
      s'.tuples = (s.tuples ++ [g.eventTuple]).map (p.refresh g acceptedAt) ++
        p.inserts g acceptedAt := by
  unfold sdlcWrite at h
  cases h₁ : s.insert g.eventTuple with
  | error e => rw [h₁] at h; cases h
  | ok s₁ =>
    rw [h₁] at h
    simp only [Except.bind] at h
    cases h₂ : s₁.writeFact p g acceptedAt with
    | error e => rw [h₂] at h; cases h
    | ok s₂ =>
      rw [h₂] at h
      simp only at h
      cases h₃ : s₂.writeCurrent p g acceptedAt with
      | error e => rw [h₃] at h; cases h
      | ok s₃ =>
        rw [h₃] at h
        simp only at h
        obtain ⟨-, rfl⟩ := insert_ok h₁
        obtain ⟨he₂, ht₂⟩ := writeFact_ok h₂
        obtain ⟨hr₃, hl₃, hj₃⟩ := writeCurrent_ok h₃
        obtain ⟨he₄, ht₄⟩ := writeTransition_ok h
        have he₃ : Evolves Row.stamp s₂ s₃ :=
          .rewrite (.refl s₂) (by rw [hr₃]; exact rewrites_refl _ _) hl₃ hj₃
        have ht₃ : s₃.tuples = s₂.tuples := by rw [tuples, tuples, hr₃]
        refine ⟨(evolves_insert _ h₁).trans (he₂.trans (he₃.trans he₄)), ?_⟩
        rw [ht₄, ht₃, ht₂, tuples_push, SdlcPlan.inserts, append_assoc]

def sdlcCommits (s : Store) (g : SdlcSignal) (acceptedAt : DateTime) (rollback : Bool) : Bool :=
  g.rejection.isNone && (s.receiptOf g.source g.deliveryId).isNone && !rollback &&
    (s.sdlcWrite (s.sdlcPlan g acceptedAt) g acceptedAt).isOk

/-- A signal commits its transaction, or is refused, or is a duplicate that writes
nothing. -/
theorem acceptSdlcSignal_spec (s : Store) (g : SdlcSignal) (acceptedAt : DateTime)
    (rollback : Bool) :
    (s.sdlcCommits g acceptedAt rollback = true ∧ ∃ s' receipt projected,
      s.acceptSdlcSignal g acceptedAt rollback = .ok (s', receipt, projected) ∧
        Evolves Row.stamp s s' ∧
        s'.tuples = (s.tuples ++ [g.eventTuple]).map
            ((s.sdlcPlan g acceptedAt).refresh g acceptedAt) ++
          (s.sdlcPlan g acceptedAt).inserts g acceptedAt) ∨
      (s.sdlcCommits g acceptedAt rollback = false ∧
        ((∃ e, s.acceptSdlcSignal g acceptedAt rollback = .error e) ∨
          ∃ receipt, s.acceptSdlcSignal g acceptedAt rollback = .ok (s, receipt, []))) := by
  unfold acceptSdlcSignal sdlcCommits
  cases g.rejection with
  | some e => exact .inr ⟨rfl, .inl ⟨e, rfl⟩⟩
  | none =>
    cases s.receiptOf g.source g.deliveryId with
    | some receipt => exact .inr ⟨rfl, .inr ⟨receipt, rfl⟩⟩
    | none =>
      dsimp only
      cases hw : s.sdlcWrite (s.sdlcPlan g acceptedAt) g acceptedAt with
      | error e => exact .inr ⟨by simp [Except.isOk, Except.toBool], .inl ⟨e, rfl⟩⟩
      | ok s₄ =>
        cases rollback with
        | true => exact .inr ⟨rfl, .inl ⟨_, rfl⟩⟩
        | false =>
          obtain ⟨hev, ht⟩ := sdlcWrite_ok hw
          refine .inl ⟨rfl,
            { s₄ with receipts := s₄.receipts ++
                [((g.source, g.deliveryId), sdlcReceipt (s.sdlcPlan g acceptedAt) g acceptedAt)] },
            _, _, rfl, ?_, ht⟩
          exact .rewrite hev (rewrites_refl _ _) rfl rfl

end Store

end RatKingdom.Space
