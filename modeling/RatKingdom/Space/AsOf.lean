/-
Reads of the past.

`get_as_of` reads the journal up to a boundary, and the journal holds a row as it was
inserted.  Over the history of a store it finds, for each moment, the journal row of every
tuple live then (`asOfRow_live`), and nothing of a tuple no moment had yet shown
(`Recorded.absent`).  So its answers are those of the moment exactly while no statement
rewrites a live row into another content (`faithful_iff_steady`).
-/
import RatKingdom.Space.Journal

namespace RatKingdom.Space

open Core List

namespace Database

def asOfRow (db : Database) (id : String) (boundary : Int) (scope : String) : Option EventRow :=
  ((db.events.filter fun e =>
    e.columns.scope = scope && e.columns.id = id && e.commitSequence ≤ boundary).insertionSort
      fun a b => b.commitSequence ≤ a.commitSequence).head?

def getAsOf (db : Database) (reader : TextReader) (id : RecordId) (boundary : Nat)
    (scope : String) : Except Error (Option (Nat × Tuple)) :=
  if (boundary : Int) ≤ maxInteger then
    match db.asOfRow (RecordId.toText id) boundary scope with
    | none => .ok none
    | some e => (rowToTupleOffset reader 1 e.columns).map fun t => some (e.commitSequence.toNat, t)
  else .error (.other "export boundary exceeds SQLite range")

def latest (db : Database) : Nat :=
  match db.sequenceState with
  | none => 0
  | some st => st.lastSequence.toNat

/-- A store with every database its statements have passed through, the last one its own. -/
abbrev Chronicle := Database × List Database

def chronicled : Chronicle → Action → Option Chronicle :=
  Lib.watched step fun db a _ history => history ++ db.moments a

def opening : Chronicle := (fresh, [fresh])

/-- A read at the latest sequence of a past moment gives the tuple as that moment had it,
and nothing where no moment up to it had shown the id in that scope. -/
structure FaithfulTo (reader : TextReader) (now : Database) (before : List Database)
    (moment : Database) : Prop where
  live : ∀ r ∈ moment.tuples, ∀ id, RecordId.toText id = r.columns.id →
    ∃ sequence, now.getAsOf reader id moment.latest r.columns.scope =
      (rowToTupleOffset reader 1 r.columns).map fun t => some (sequence, t)
  absent : ∀ id scope, (∀ m ∈ before ++ [moment], ∀ r ∈ m.tuples,
      ¬ (r.columns.id = RecordId.toText id ∧ r.columns.scope = scope)) →
    now.getAsOf reader id moment.latest scope = .ok none

def Faithful (reader : TextReader) (s : Chronicle) : Prop :=
  ∀ before moment after, s.2 = before ++ moment :: after → FaithfulTo reader s.1 before moment

def Steady (reader : TextReader) (db db' : Database) : Prop :=
  ∀ r ∈ db.tuples, ∀ r' ∈ db'.tuples, r.commitSequence = r'.commitSequence →
    rowToTupleOffset reader 1 r'.columns = rowToTupleOffset reader 1 r.columns

/-- No statement of the action rewrites a live row into another content. -/
def Unrewriting (reader : TextReader) (s : Chronicle) (a : Action) : Prop :=
  List.IsChain (Steady reader) (s.1 :: s.1.moments a)

variable {e : EventRow}

theorem eq_of_commitSequence {events : List EventRow} (hnodup : (sequences events).Nodup)
    {o : EventRow} (he : e ∈ events) (ho : o ∈ events) (h : e.commitSequence = o.commitSequence) :
    e = o :=
  inj_on_of_nodup_map hnodup he ho h

variable {db : Database} {scope : String}

/-- `ORDER BY commit_sequence DESC LIMIT 1` finds the greatest sequence there is. -/
theorem asOfRow_eq_some {db : Database} {id scope : String} {boundary : Int} {e : EventRow}
    (hnodup : (sequences db.events).Nodup) (he : e ∈ db.events) (hscope : e.columns.scope = scope)
    (hid : e.columns.id = id) (hle : e.commitSequence ≤ boundary)
    (hnewest : ∀ o ∈ db.events, o.columns.id = id → o.commitSequence ≤ boundary →
      o.commitSequence ≤ e.commitSequence) :
    db.asOfRow id boundary scope = some e := by
  have htotal : Std.Total fun a b : EventRow => b.commitSequence ≤ a.commitSequence :=
    ⟨fun a b => le_total b.commitSequence a.commitSequence⟩
  have htrans : IsTrans EventRow fun a b => b.commitSequence ≤ a.commitSequence :=
    ⟨fun a b c hab hbc => le_trans hbc hab⟩
  have hm : e ∈ (db.events.filter fun e =>
      e.columns.scope = scope && e.columns.id = id && e.commitSequence ≤ boundary) := by
    simp [he, hscope, hid, hle]
  rw [asOfRow]
  cases hsorted : (db.events.filter fun e =>
      e.columns.scope = scope && e.columns.id = id && e.commitSequence ≤ boundary).insertionSort
        fun a b => b.commitSequence ≤ a.commitSequence with
  | nil =>
    rw [← mem_insertionSort (fun a b : EventRow => b.commitSequence ≤ a.commitSequence),
      hsorted] at hm
    cases hm
  | cons first rest =>
    have hpairwise := pairwise_insertionSort
      (fun a b : EventRow => b.commitSequence ≤ a.commitSequence)
      (db.events.filter fun e =>
        e.columns.scope = scope && e.columns.id = id && e.commitSequence ≤ boundary)
    have hfirst : first ∈ (db.events.filter fun e =>
        e.columns.scope = scope && e.columns.id = id && e.commitSequence ≤ boundary) := by
      rw [← mem_insertionSort (fun a b : EventRow => b.commitSequence ≤ a.commitSequence), hsorted]
      exact mem_cons_self
    rw [← mem_insertionSort (fun a b : EventRow => b.commitSequence ≤ a.commitSequence),
      hsorted] at hm
    rw [hsorted] at hpairwise
    have hup : e.commitSequence ≤ first.commitSequence := by
      rcases mem_cons.mp hm with heq | hrest
      · rw [heq]
      · exact (pairwise_cons.mp hpairwise).1 e hrest
    obtain ⟨hfe, hwanted⟩ := mem_filter.mp hfirst
    simp only [Bool.and_eq_true, decide_eq_true_eq] at hwanted
    have hdown := hnewest first hfe hwanted.1.2 hwanted.2
    rw [head?_cons, eq_of_commitSequence hnodup he hfe (le_antisymm hup hdown)]

theorem asOfRow_eq_none {db : Database} {id scope : String} {boundary : Int}
    (h : ∀ e ∈ db.events, e.commitSequence ≤ boundary →
      ¬ (e.columns.id = id ∧ e.columns.scope = scope)) : db.asOfRow id boundary scope = none := by
  have hempty : (db.events.filter fun e =>
      e.columns.scope = scope && e.columns.id = id && e.commitSequence ≤ boundary) = [] := by
    rw [filter_eq_nil_iff]
    intro e he hwanted
    simp only [Bool.and_eq_true, decide_eq_true_eq] at hwanted
    exact h e he hwanted.2 ⟨hwanted.1.2, hwanted.1.1⟩
  rw [asOfRow, hempty]
  rfl

variable {n : Nat}

theorem Journal.latest_eq (h : Journal db n) : db.latest = n := by
  simp [latest, h.state]

variable {now : Database} {n' : Nat}

section
variable (h : Journal db n) (h' : Journal now n') (hcont : Continues db now)
include h h' hcont

theorem mem_events_of_le (he : e ∈ now.events) (hle : e.commitSequence ≤ n) : e ∈ db.events := by
  have hm : e.commitSequence ∈ sequences db.events := by
    rw [h.sequences]
    exact mem_numbers.mpr ⟨(h'.mem_events he).1, hle⟩
  obtain ⟨o, ho, heq⟩ := mem_sequences.mp hm
  rw [← eq_of_commitSequence h'.settled.events (hcont.events.subset ho) he heq]
  exact ho

theorem asOfRow_live {r : TupleRow} (hr : r ∈ db.tuples) :
    ∃ e ∈ now.events, r.commitSequence = some e.commitSequence ∧
      now.asOfRow r.columns.id db.latest r.columns.scope = some e := by
  obtain ⟨e, he, hseq, hid, hscope⟩ := h.live r hr
  have hnow := hcont.events.subset he
  refine ⟨e, hnow, hseq, ?_⟩
  rw [h.latest_eq]
  refine asOfRow_eq_some h'.settled.events hnow hscope hid (h.mem_events he).2 fun o ho hoid hle => ?_
  exact h.newest r hr o (mem_events_of_le h h' hcont ho hle) hoid e.commitSequence hseq

theorem getAsOf_live {r : TupleRow} (hr : r ∈ db.tuples) {id : RecordId}
    (hid : RecordId.toText id = r.columns.id) (reader : TextReader) :
    ∃ e ∈ now.events, r.commitSequence = some e.commitSequence ∧
      now.getAsOf reader id db.latest r.columns.scope =
        (rowToTupleOffset reader 1 e.columns).map fun t => some (e.commitSequence.toNat, t) := by
  obtain ⟨e, he, hseq, hrow⟩ := asOfRow_live h h' hcont hr
  refine ⟨e, he, hseq, ?_⟩
  have hbound : ((db.latest : Nat) : Int) ≤ maxInteger := by
    rw [h.latest_eq]
    exact h.bound
  rw [getAsOf, if_pos hbound, hid, hrow]

end

/-- A history: each database is one statement after the one before, from a new file to the
database of the store. -/
structure Recorded (s : Chronicle) : Prop where
  chain : List.IsChain Stmt s.2
  first : s.2.head? = some fresh
  last : s.2.getLast? = some s.1

theorem recorded_opening : Recorded opening := ⟨isChain_singleton _, rfl, rfl⟩

variable {s : Chronicle} {after before : List Database} {moment : Database}

theorem Recorded.journal (h : Recorded s) (hs : s.2 = before ++ moment :: after) :
    (∃ n, Journal moment n) ∧ (∃ n, Journal s.1 n) ∧ Continues moment s.1 := by
  obtain ⟨rest, hrest⟩ := head?_eq_some_iff.mp h.first
  have hchain := h.chain
  have hall : ∀ d ∈ s.2, ∃ n, Journal d n := by
    intro d hd
    rw [hrest] at hd hchain
    rcases mem_cons.mp hd with rfl | hd
    · exact ⟨0, journal_fresh⟩
    · exact (journal_of_chain journal_fresh hchain d hd).1
  have hmoment : moment ∈ s.2 := by
    rw [hs]
    exact mem_append_right _ mem_cons_self
  obtain ⟨n, hn⟩ := hall moment hmoment
  refine ⟨⟨n, hn⟩, hall s.1 (mem_of_getLast? h.last), ?_⟩
  rw [hs] at hchain
  have hl : (moment :: after).getLast? = some s.1 := by
    have heq := h.last
    rw [hs, getLast?_append_of_ne_nil _ (cons_ne_nil _ _)] at heq
    exact heq
  rcases mem_cons.mp (mem_of_getLast? hl) with heq | hm
  · rw [heq]
    exact .refl moment
  · exact (journal_of_chain hn hchain.right_of_append s.1 hm).2

/-- The id and scope of a journal row were those of a live tuple at some moment. -/
def Shown (moments : List Database) (e : EventRow) : Prop :=
  ∃ m ∈ moments, ∃ r ∈ m.tuples, r.columns.id = e.columns.id ∧ r.columns.scope = e.columns.scope

theorem Shown.mono {ms ms' : List Database} (h : Shown ms e) (hsub : ∀ m ∈ ms, m ∈ ms') :
    Shown ms' e := by
  obtain ⟨m, hm, r, hr, heq⟩ := h
  exact ⟨m, hsub m hm, r, hr, heq⟩

variable {d d' : Database}

theorem Stmt.shown (hd : Journal d n) (hs : Stmt d d') (he : e ∈ d'.events) :
    e ∈ d.events ∨ Shown [d'] e := by
  cases hs with
  | inserts t mid hok htuples hsame =>
    rw [hsame.2.1, (hd.insertTuple_ok hok).2.2] at he
    rcases mem_append.mp he with he | he
    · exact .inl he
    · rw [mem_singleton.mp he]
      refine .inr ⟨d', mem_singleton_self _, ⟨some ((n : Int) + 1), columns t⟩, ?_, rfl, rfl⟩
      rw [htuples, (hd.insertTuple_ok hok).2.2]
      exact mem_concat_self
  | keeps hrows hsame =>
    rw [hsame.2.1] at he
    exact .inl he

theorem shown_of_chain (hd : Journal d n) {seen : List Database}
    (hseen : ∀ e ∈ d.events, Shown (seen ++ [d]) e)
    (hchain : List.IsChain Stmt (d :: (before ++ [moment]))) :
    ∀ e ∈ moment.events, Shown (seen ++ d :: (before ++ [moment])) e := by
  induction before generalizing d n seen with
  | nil =>
    have hs := (isChain_cons_cons.mp hchain).1
    intro e he
    rcases hs.shown hd he with he | hshown
    · exact (hseen e he).mono fun m hm => by simp at hm ⊢; tauto
    · exact hshown.mono fun m hm => by simp at hm ⊢; tauto
  | cons m before ih =>
    obtain ⟨hs, hrest⟩ := isChain_cons_cons.mp hchain
    obtain ⟨⟨n', hm⟩, -⟩ := hs.keeps_journal hd
    have hseen' : ∀ e ∈ m.events, Shown ((seen ++ [d]) ++ [m]) e := by
      intro e he
      rcases hs.shown hd he with he | hshown
      · exact (hseen e he).mono fun m hm => mem_append_left _ hm
      · exact hshown.mono fun m hm => mem_append_right _ hm
    intro e he
    have hshown := ih hm hseen' hrest e he
    simpa using hshown

theorem Recorded.shown (h : Recorded s) (hs : s.2 = before ++ moment :: after) :
    ∀ e ∈ moment.events, Shown (before ++ [moment]) e := by
  have hchain := h.chain
  rw [hs, isChain_split] at hchain
  have hfirst := h.first
  rw [hs] at hfirst
  cases before with
  | nil =>
    have heq : moment = fresh := by simpa using hfirst
    intro e he
    rw [heq] at he
    cases he
  | cons b before =>
    have heq : b = fresh := by simpa using hfirst
    rw [heq] at hchain ⊢
    have hseen : ∀ e ∈ fresh.events, Shown ([] ++ [fresh]) e := by
      intro e he
      cases he
    exact shown_of_chain journal_fresh hseen hchain.1

theorem Recorded.absent {s : Chronicle} (h : Recorded s) {before after : List Database}
    {moment : Database} (hs : s.2 = before ++ moment :: after) {reader : TextReader}
    {id : RecordId} {scope : String}
    (hno : ∀ m ∈ before ++ [moment], ∀ r ∈ m.tuples,
      ¬ (r.columns.id = RecordId.toText id ∧ r.columns.scope = scope)) :
    s.1.getAsOf reader id moment.latest scope = .ok none := by
  obtain ⟨⟨n, hn⟩, ⟨n', hn'⟩, hcont⟩ := h.journal hs
  have hbound : ((moment.latest : Nat) : Int) ≤ maxInteger := by
    rw [hn.latest_eq]
    exact hn.bound
  have hnone : s.1.asOfRow (RecordId.toText id) moment.latest scope = none := by
    refine asOfRow_eq_none fun e he hle heq => ?_
    rw [hn.latest_eq] at hle
    obtain ⟨m, hm, r, hr, hid, hscope⟩ :=
      h.shown hs e (mem_events_of_le hn hn' hcont he hle)
    exact hno m hm r hr ⟨hid.trans heq.1, hscope.trans heq.2⟩
  rw [getAsOf, if_pos hbound, hnone]

theorem map_read_inj {a b : Except Error Tuple} {q q' : Nat}
    (h : (a.map fun t => some (q, t)) = b.map fun t => some (q', t)) : a = b := by
  cases a with
  | error e =>
    cases b with
    | error e' => exact congrArg _ (Except.error.inj h)
    | ok t => cases h
  | ok t =>
    cases b with
    | error e => cases h
    | ok t' =>
      have hpair := Option.some.inj (Except.ok.inj h)
      exact congrArg _ (Prod.mk.inj hpair).2

variable {R : Database → Database → Prop}

/-- A property of a database with a whole journal that every statement of a chain carries
over holds all along it. -/
theorem of_chain {P : Database → Prop}
    (hstep : ∀ d d' n, Journal d n → Stmt d d' → R d d' → P d → P d') (hd : Journal d n) (hP : P d)
    {ds : List Database} (hchain : List.IsChain Stmt (d :: ds)) (hR : List.IsChain R (d :: ds)) :
    ∀ m ∈ d :: ds, P m := by
  induction ds generalizing d n with
  | nil =>
    intro m hm
    rw [mem_singleton.mp hm]
    exact hP
  | cons m ds ih =>
    obtain ⟨hs, hrest⟩ := isChain_cons_cons.mp hchain
    obtain ⟨hr, hrest'⟩ := isChain_cons_cons.mp hR
    obtain ⟨⟨n', hm⟩, -⟩ := hs.keeps_journal hd
    exact forall_mem_cons.mpr ⟨hP, ih hm (hstep d m n hd hs hr hP) hrest hrest'⟩

def Textual (db : Database) : Prop := ∀ r ∈ db.tuples, ∃ id, RecordId.toText id = r.columns.id

theorem Stmt.textual (hd : Journal d n) (hs : Stmt d d') (hids : Textual d) : Textual d' := by
  cases hs with
  | inserts t mid hok htuples hsame =>
    intro r hr
    rw [htuples, (hd.insertTuple_ok hok).2.2] at hr
    rcases mem_append.mp hr with hr | hr
    · exact hids r hr
    · rw [mem_singleton.mp hr]
      exact ⟨t.id, rfl⟩
  | keeps hrows hsame =>
    intro r' hr'
    obtain ⟨r, hr, hkey⟩ := exists_of_rowKeys hrows hr'
    simp only [rowKey, Prod.mk.injEq] at hkey
    rw [← hkey.2.1]
    exact hids r hr

def Mirrored (reader : TextReader) (db : Database) : Prop :=
  ∀ r ∈ db.tuples, ∀ e ∈ db.events, r.commitSequence = some e.commitSequence →
    rowToTupleOffset reader 1 e.columns = rowToTupleOffset reader 1 r.columns

theorem Stmt.mirrored {reader : TextReader} (hd : Journal d n) (hs : Stmt d d')
    (hsteady : Steady reader d d') (h : Mirrored reader d) :
    Mirrored reader d' := by
  intro r' hr' e he hseq
  cases hs with
  | inserts t mid hok htuples hsame =>
    rw [htuples, (hd.insertTuple_ok hok).2.2] at hr'
    rw [hsame.2.1, (hd.insertTuple_ok hok).2.2] at he
    rcases mem_append.mp hr' with hr | hr
    · obtain ⟨o, ho, hor, -⟩ := hd.live r' hr
      rcases mem_append.mp he with he | he
      · exact h r' hr e he hseq
      · rw [mem_singleton.mp he, hor, Option.some.injEq] at hseq
        have := (hd.mem_events ho).2
        dsimp only at hseq
        omega
    · rw [mem_singleton.mp hr] at hseq ⊢
      rcases mem_append.mp he with he | he
      · have := (hd.mem_events he).2
        rw [Option.some.injEq] at hseq
        omega
      · rw [mem_singleton.mp he]
  | keeps hrows hsame =>
    rw [hsame.2.1] at he
    obtain ⟨r, hr, hkey⟩ := exists_of_rowKeys hrows hr'
    simp only [rowKey, Prod.mk.injEq] at hkey
    have hkept : rowToTupleOffset reader 1 r'.columns = rowToTupleOffset reader 1 r.columns :=
      hsteady r hr r' hr' hkey.1
    rw [hkept]
    exact h r hr e he (by rw [hkey.1, hseq])

theorem Recorded.along (h : Recorded s) {P : Database → Prop}
    (hs : ∀ d d' n, Journal d n → Stmt d d' → R d d' → P d → P d') (hP : P fresh)
    (hR : List.IsChain R s.2) : ∀ m ∈ s.2, P m := by
  obtain ⟨rest, hrest⟩ := head?_eq_some_iff.mp h.first
  have hchain := h.chain
  rw [hrest] at hchain hR ⊢
  exact of_chain hs journal_fresh hP hchain hR

/-- Reads are faithful to the whole history exactly when no statement of it rewrote a live
row into another content. -/
theorem faithful_iff_steady (h : Recorded s) (reader : TextReader) :
    Faithful reader s ↔ List.IsChain (Steady reader) s.2 := by
  constructor
  · intro hfaithful
    have htext := h.along (fun d d' n hd hs _ hids => hs.textual hd hids)
      (fun r hr => by cases hr) h.chain
    rw [isChain_iff_forall_rel_of_append_cons_cons]
    intro d d' before after hs r hr r' hr' hseq
    have hs' : s.2 = (before ++ [d]) ++ d' :: after := by simp [hs]
    have hmem : d ∈ s.2 := by simp [hs]
    have hmem' : d' ∈ s.2 := by simp [hs]
    obtain ⟨id, hid⟩ := htext d hmem r hr
    obtain ⟨id', hid'⟩ := htext d' hmem' r' hr'
    obtain ⟨⟨n, hn⟩, ⟨m, hm⟩, hcont⟩ := h.journal hs
    obtain ⟨⟨n', hn'⟩, -, hcont'⟩ := h.journal hs'
    obtain ⟨e, he, heseq, hread⟩ := getAsOf_live hn hm hcont hr hid reader
    obtain ⟨e', he', heseq', hread'⟩ := getAsOf_live hn' hm hcont' hr' hid' reader
    have hsame : e = e' := by
      refine eq_of_commitSequence hm.settled.events he he' ?_
      rw [heseq, heseq', Option.some.injEq] at hseq
      exact hseq
    obtain ⟨q, hq⟩ := (hfaithful before d _ hs).live r hr id hid
    obtain ⟨q', hq'⟩ := (hfaithful _ d' _ hs').live r' hr' id' hid'
    rw [hread] at hq
    rw [hread'] at hq'
    rw [← map_read_inj hq, ← map_read_inj hq', hsame]
  · intro hsteady before moment after hs
    obtain ⟨⟨n, hn⟩, ⟨m, hm⟩, hcont⟩ := h.journal hs
    have hmirror := h.along (fun d d' n hd hs hst hmir => hs.mirrored hd hst hmir)
      (fun r hr => by cases hr) hsteady moment (by simp [hs])
    refine ⟨fun r hr id hid => ?_, fun id scope hno => h.absent hs hno⟩
    obtain ⟨e, he, heseq, hread⟩ := getAsOf_live hn hm hcont hr hid reader
    obtain ⟨o, ho, hoseq, -⟩ := hn.live r hr
    have hle : e.commitSequence ≤ n := by
      rw [heseq, Option.some.injEq] at hoseq
      rw [hoseq]
      exact (hn.mem_events ho).2
    rw [hread, hmirror r hr e (mem_events_of_le hn hm hcont he hle) heseq]
    exact ⟨_, rfl⟩

theorem chronicled_eq (s : Chronicle) (a : Action) :
    chronicled s a = some (s.1.next a, s.2 ++ s.1.moments a) := rfl

theorem isChain_history (hl : s.2.getLast? = some s.1) (ds : List Database) :
    List.IsChain R (s.2 ++ ds) ↔ List.IsChain R s.2 ∧ List.IsChain R (s.1 :: ds) := by
  obtain ⟨pre, hpre⟩ := getLast?_eq_some_iff.mp hl
  rw [hpre, append_assoc]
  exact isChain_split

theorem recorded_step {s' : Chronicle} {a : Action} (h : Recorded s)
    (hs : chronicled s a = some s') : Recorded s' := by
  rw [chronicled_eq] at hs
  cases hs
  obtain ⟨pre, hpre⟩ := getLast?_eq_some_iff.mp h.last
  obtain ⟨⟨n, hn⟩, -⟩ := h.journal hpre
  obtain ⟨before, hbefore⟩ := moments_last s.1 a
  refine ⟨(isChain_history h.last _).mpr ⟨h.chain, moments_chain hn a⟩, ?_, ?_⟩
  · rw [head?_append, h.first]
    rfl
  · rw [hbefore, ← append_assoc, getLast?_concat]

/-- Over every run, reads are faithful in all states reached exactly when no action's
statement rewrites a live row into another content. -/
theorem getAsOf_faithful_iff (reader : TextReader) (as : List Action) :
    Lib.Keeps chronicled (Faithful reader) opening as ↔
      Lib.Meets chronicled (Unrewriting reader) opening as := by
  refine Lib.keeps_iff_meets (fun s a s' hI hs => recorded_step hI hs) ?_ recorded_opening ?_
  · intro s a s' hI hP hs
    have hI' := recorded_step hI hs
    cases hs
    rw [faithful_iff_steady hI', isChain_history hI.last]
    constructor
    · intro h
      exact h.2
    · intro h
      exact ⟨(faithful_iff_steady hI reader).mp hP, h⟩
  · exact (faithful_iff_steady recorded_opening reader).mpr (isChain_singleton _)

def markReader : TextReader :=
  { epochReader with
    json := fun s => if s = "true" then some (.bool true) else epochReader.json s }

def reinforcement : Tuple := { epochTuple 7 with payload := .bool true }

/-- A trail written and then reinforced under another payload: the read at the latest
sequence gives the payload of the insert, and not the live one. -/
theorem not_getAsOf_faithful :
    ¬ Lib.Keeps chronicled (Faithful markReader) opening
      [.insert (epochTuple 7), .reinforce 7 reinforcement] := by
  intro h
  have hrun : Lib.run chronicled opening [.insert (epochTuple 7), .reinforce 7 reinforcement] =
      some ((fresh.next (.insert (epochTuple 7))).next (.reinforce 7 reinforcement),
        [fresh, fresh.next (.insert (epochTuple 7)),
          (fresh.next (.insert (epochTuple 7))).next (.reinforce 7 reinforcement)]) := rfl
  have hrecorded := Lib.run_invariant (fun s a s' hI hs => recorded_step hI hs)
    recorded_opening hrun
  have hsteady := (faithful_iff_steady hrecorded markReader).mp (h.last hrun)
  obtain ⟨-, hpair⟩ := isChain_cons_cons.mp hsteady
  have hkeep := (isChain_cons_cons.mp hpair).1 ⟨some 1, columns (epochTuple 7)⟩
    mem_cons_self ⟨some 1, reinforced reinforcement (columns (epochTuple 7))⟩
    mem_cons_self rfl
  have hl : rowToTupleOffset markReader 1 (reinforced reinforcement (columns (epochTuple 7))) =
      .ok reinforcement := rfl
  have hread : rowToTupleOffset markReader 1 (columns (epochTuple 7)) = .ok (epochTuple 7) := rfl
  have hpayload := congrArg Tuple.payload (Except.ok.inj hkeep)
  cases hpayload

end Database

end RatKingdom.Space
