/-
The storage query against the in-memory predicate.

`queryOrdered` runs the statement `append_pattern_filters` builds: each condition compares a
column's text, rows come in the order of their id texts and a limit cuts them off.  What it
gives is `selected`, the tuples `Pattern::matches` accepts in id order, exactly when the
limit is an integer SQLite has and each selected tuple survives its own texts
(`query_agrees_iff`).
-/
import RatKingdom.Space.Tables

namespace RatKingdom.Space

open Core List

/-- SQLite's `instr` from a position on: where `needle` first occurs, or 0. -/
def instrFrom (needle : List Char) : Nat → List Char → Nat
  | pos, [] => if needle.isPrefixOf [] then pos else 0
  | pos, c :: cs => if needle.isPrefixOf (c :: cs) then pos else instrFrom needle (pos + 1) cs

def instr (hay needle : String) : Nat := instrFrom needle.toList 1 hay.toList

theorem instrFrom_pos {needle : List Char} {pos : Nat} (hpos : 0 < pos) (hay : List Char) :
    0 < instrFrom needle pos hay ↔ needle <:+: hay := by
  induction hay generalizing pos with
  | nil =>
    simp only [instrFrom, isPrefixOf_iff_prefix, prefix_nil, infix_nil]
    by_cases h : needle = []
    · simp [h, hpos]
    · simp [h]
  | cons c cs ih =>
    simp only [instrFrom, isPrefixOf_iff_prefix, infix_cons_iff]
    by_cases h : needle <+: c :: cs
    · simp [h, hpos]
    · simp [h, ih (Nat.succ_pos pos)]

theorem instr_pos (hay needle : String) :
    decide (0 < instr hay needle) = containsText hay needle := by
  simp [instr, containsText, instrFrom_pos Nat.one_pos]

namespace Database

def condition {α : Type} (want : Option α) (holds : α → Columns → Bool) : List (Columns → Bool) :=
  match want with
  | none => []
  | some a => [holds a]

def patternFilters (p : Pattern) (consumableOnly : Bool) : List (Columns → Bool) :=
  condition p.category (fun want c => c.category = want.asStr) ++
    condition p.scope (fun want c => c.scope = want) ++
    condition p.identity (fun want c => c.identity = want) ++
    condition p.inst (fun want c => c.inst = want) ++
    condition p.payloadSearch (fun want c => 0 < instr c.payload want) ++
    condition p.payloadSearchAnd (fun want c => 0 < instr c.payload want) ++
    condition p.afterId (fun want c => RecordId.toText want < c.id) ++
    if consumableOnly then [fun c : Columns => decide (c.lifecycle ≠ "furniture")] else []

/-- `ORDER BY id ASC`, or `DESC`. -/
def idOrder (newestFirst : Bool) (a b : Columns) : Bool :=
  if newestFirst then b.id ≤ a.id else a.id ≤ b.id

/-- `LIMIT n`: a literal past the integers of SQLite is a floating point number, and no row
count. -/
def limited {α : Type} (limit : Option Nat) (rows : List α) : Except Error (List α) :=
  match limit with
  | none => .ok rows
  | some n =>
    if (n : Int) ≤ maxInteger then .ok (rows.take n)
    else .error (.other "sqlite: datatype mismatch")

section
variable (db : Database) (reader : TextReader) (p : Pattern) (consumableOnly : Bool)
  (limit : Option Nat)

def queryOrdered (newestFirst : Bool) : Except Error (List Tuple) :=
  let found := (db.tuples.map TupleRow.columns).filter fun c =>
    (patternFilters p consumableOnly).all fun holds => holds c
  (limited limit (found.insertionSort fun a b => idOrder newestFirst a b)).bind fun rows =>
    rows.mapM (rowToTuple reader)

def query : Except Error (List Tuple) := db.queryOrdered reader p consumableOnly limit false

def queryNewest : Except Error (List Tuple) := db.queryOrdered reader p consumableOnly limit true

end

end Database

open Database

def wanted (p : Pattern) (consumableOnly : Bool) (t : Tuple) : Bool :=
  p.matches t && (!consumableOnly || t.lifecycle ≠ .furniture)

def recordOrder (newestFirst : Bool) (a b : Tuple) : Bool :=
  if newestFirst then b.id ≤ a.id else a.id ≤ b.id

def cut {α : Type} (limit : Option Nat) (xs : List α) : List α :=
  match limit with
  | none => xs
  | some n => xs.take n

def selected (ts : List Tuple) (p : Pattern) (consumableOnly : Bool) (limit : Option Nat)
    (newestFirst : Bool) : List Tuple :=
  cut limit ((ts.filter (wanted p consumableOnly)).insertionSort fun a b =>
    recordOrder newestFirst a b)

/-- `a` comes before `b` in the order asked for. -/
def Precedes (newestFirst : Bool) (a b : Tuple) : Prop :=
  if newestFirst then b.id < a.id else a.id < b.id

/-- The answer a caller is owed: all the wanted tuples, in strict id order, cut to the
limit. -/
def Answers (ts : List Tuple) (p : Pattern) (consumableOnly : Bool) (limit : Option Nat)
    (newestFirst : Bool) (out : List Tuple) : Prop :=
  ∃ whole, whole.Perm (ts.filter (wanted p consumableOnly)) ∧
    whole.Pairwise (Precedes newestFirst) ∧ out = cut limit whole

def Database.Holds (db : Database) (ts : List Tuple) : Prop :=
  db.tuples.map TupleRow.columns = ts.map columns

structure ReadsBack (reader : TextReader) (t : Tuple) : Prop where
  payload : reader.json t.payload.toText = some t.payload
  createdAt : reader.rfc3339 (DateTime.toRfc3339 t.createdAt) = some t.createdAt
  expiresAt : ∀ e, t.expiresAt = some e → reader.rfc3339 (DateTime.toRfc3339 e) = some e
  strength : t.strength.bind Store.storedStrength = t.strength

def Countable (limit : Option Nat) : Prop := ∀ n, limit = some n → (n : Int) ≤ maxInteger

instance (limit : Option Nat) : Decidable (Countable limit) :=
  match limit with
  | none => isTrue fun _ h => (by cases h)
  | some n => decidable_of_iff ((n : Int) ≤ maxInteger)
      ⟨fun hn m h => (by cases h; exact hn), fun h => h n rfl⟩

theorem converted_bind {α β : Type} (index : Nat) (a : α) (f : α → Except Error β) :
    (converted index (some a) >>= f) = f a := rfl

variable {t : Tuple}

theorem rowToTuple_columns {reader : TextReader} (hid : RecordId.Valid t.id) :
    rowToTuple reader (columns t) = .ok t ↔ ReadsBack reader t := by
  have hread : rowToTuple reader (columns t) = (do
      let payload ← converted 6 (reader.json t.payload.toText)
      let createdAt ← converted 7 (reader.rfc3339 (DateTime.toRfc3339 t.createdAt))
      let expiresAt ← (t.expiresAt.map DateTime.toRfc3339).elim (pure none) fun s =>
        (converted 8 (reader.rfc3339 s)).map some
      pure { t with payload, createdAt, expiresAt,
                    strength := t.strength.bind Store.storedStrength }) := by
    simp only [rowToTuple, rowToTupleOffset, columns, RecordId.ofText_toText hid, Category.ofStr_asStr,
      Lifecycle.ofStr_asStr, converted_bind]
    cases t.expiresAt <;> rfl
  rw [hread]
  cases t with
  | mk id category scope identity inst lifecycle payload createdAt expiresAt strength =>
  constructor
  · intro h
    cases hp : reader.json payload.toText with
    | none =>
      simp only [hp] at h
      cases h
    | some v =>
    cases hc : reader.rfc3339 (DateTime.toRfc3339 createdAt) with
    | none =>
      simp only [hp, hc, converted_bind] at h
      cases h
    | some d =>
    simp only [hp, hc, converted_bind] at h
    cases expiresAt with
    | none =>
      have hfields := Tuple.mk.inj (Except.ok.inj h)
      obtain ⟨-, -, -, -, -, -, rfl, rfl, -, hs⟩ := hfields
      exact ⟨hp, hc, nofun, hs⟩
    | some e =>
      cases he : reader.rfc3339 (DateTime.toRfc3339 e) with
      | none =>
        simp only [Option.map_some, Option.elim_some, he] at h
        cases h
      | some e' =>
        simp only [Option.map_some, Option.elim_some, he] at h
        have hfields := Tuple.mk.inj (Except.ok.inj h)
        obtain ⟨-, -, -, -, -, -, rfl, rfl, hexpires, hs⟩ := hfields
        cases hexpires
        exact ⟨hp, hc, fun x hx => (by cases hx; exact he), hs⟩
  · intro h
    have hp := h.payload
    have hc := h.createdAt
    have hs := h.strength
    dsimp only at hp hc hs
    simp only [hp, hc, hs, converted_bind]
    cases expiresAt with
    | none => rfl
    | some e =>
      simp only [Option.map_some, Option.elim_some, h.expiresAt e rfl]
      rfl

theorem mapM_map_ok {α β ε : Type} {f : β → Except ε α} {g : α → β} (xs : List α) :
    (xs.map g).mapM f = .ok xs ↔ ∀ x ∈ xs, f (g x) = .ok x := by
  induction xs with
  | nil => exact ⟨fun _ x hx => (not_mem_nil hx).elim, fun _ => rfl⟩
  | cons x xs ih =>
    rw [map_cons, mapM_cons, forall_mem_cons, ← ih]
    cases f (g x) with
    | error e =>
      show (.error e : Except ε (List α)) = .ok (x :: xs) ↔ _
      simp only [reduceCtorEq, false_and]
    | ok y =>
      cases (xs.map g).mapM f with
      | error e =>
        show (.error e : Except ε (List α)) = .ok (x :: xs) ↔ _
        simp only [reduceCtorEq, and_false]
      | ok ys =>
        show (.ok (y :: ys) : Except ε (List α)) = .ok (x :: xs) ↔ _
        simp only [Except.ok.injEq, List.cons.injEq]

theorem all_condition_eq (want : Option String) (column : Columns → String) (c : Columns) :
    ((condition want fun w c => column c = w).all fun cond => cond c) =
      admits want (column c) := by
  cases want <;> simp [condition, admits]

theorem all_condition_instr (want : Option String) (c : Columns) :
    ((condition want fun w c => 0 < instr c.payload w).all fun cond => cond c) =
      admitsText want c.payload := by
  cases want with
  | none => rfl
  | some needle =>
    show (decide (0 < instr c.payload needle) && true) = containsText c.payload needle
    rw [Bool.and_true, instr_pos]

variable {p : Pattern}

theorem all_patternFilters (hid : RecordId.Valid t.id)
    (hafter : ∀ a, p.afterId = some a → RecordId.Valid a) (consumableOnly : Bool) :
    ((patternFilters p consumableOnly).all fun cond => cond (columns t)) =
      wanted p consumableOnly t := by
  have hcategory : ((condition p.category fun want c => c.category = want.asStr).all
      fun cond => cond (columns t)) = admits p.category t.category := by
    cases p.category <;> simp [condition, admits, columns, Category.asStr_inj]
  have hafter' : ((condition p.afterId fun want c => RecordId.toText want < c.id).all
      fun cond => cond (columns t)) = p.afterId.elim true fun after => decide (after < t.id) := by
    cases h : p.afterId with
    | none => rfl
    | some after =>
      show (decide (RecordId.toText after < RecordId.toText t.id) && true) = decide (after < t.id)
      rw [Bool.and_true]
      exact decide_eq_decide.mpr (RecordId.toText_lt_iff (hafter after h) hid)
  have hlifecycle : ((if consumableOnly then [fun c : Columns => decide (c.lifecycle ≠ "furniture")]
      else []).all fun cond => cond (columns t)) = (!consumableOnly || t.lifecycle ≠ .furniture) := by
    cases consumableOnly <;> simp [columns, Lifecycle.asStr_eq_furniture]
  simp only [patternFilters, all_append, hcategory, hafter', hlifecycle,
    all_condition_instr]
  rw [all_condition_eq p.scope Columns.scope, all_condition_eq p.identity Columns.identity,
    all_condition_eq p.inst Columns.inst]
  simp only [columns, wanted, Pattern.matches, Bool.and_assoc]
  cases p.afterId <;> rfl

variable {a b : Tuple}

theorem idOrder_columns (ha : RecordId.Valid a.id) (hb : RecordId.Valid b.id) (newestFirst : Bool) :
    recordOrder newestFirst a b = idOrder newestFirst (columns a) (columns b) := by
  cases newestFirst <;>
    simp [recordOrder, idOrder, columns, RecordId.toText_le_iff, ha, hb]

variable {db : Database} {ts : List Tuple}

theorem found_eq (hdb : db.Holds ts) (hids : ∀ t ∈ ts, RecordId.Valid t.id)
    (hafter : ∀ a, p.afterId = some a → RecordId.Valid a) (consumableOnly newestFirst : Bool) :
    (((db.tuples.map TupleRow.columns).filter fun c =>
        (patternFilters p consumableOnly).all fun holds => holds c).insertionSort
      fun a b => idOrder newestFirst a b) =
      ((ts.filter (wanted p consumableOnly)).insertionSort
        fun a b => recordOrder newestFirst a b).map columns := by
  have hfilter : (ts.map columns).filter (fun c =>
      (patternFilters p consumableOnly).all fun holds => holds c) =
        (ts.filter (wanted p consumableOnly)).map columns := by
    rw [filter_map]
    congr 1
    refine filter_congr fun t ht => ?_
    exact all_patternFilters (hids t ht) hafter consumableOnly
  rw [hdb, hfilter]
  refine (map_insertionSort _ _ _ _ fun a ha b hb => ?_).symm
  rw [idOrder_columns (hids a (mem_of_mem_filter ha)) (hids b (mem_of_mem_filter hb))]

theorem limited_map {α β : Type} (f : α → β) (limit : Option Nat) (rows : List α) :
    limited limit (rows.map f) = (limited limit rows).map (List.map f) := by
  cases limit with
  | none => rfl
  | some n =>
    simp only [limited]
    by_cases h : (n : Int) ≤ maxInteger
    · rw [if_pos h, if_pos h, ← map_take]
      rfl
    · rw [if_neg h, if_neg h]
      rfl

variable {limit : Option Nat}

theorem limited_of_countable {α : Type} (h : Countable limit) (rows : List α) :
    limited limit rows = .ok (cut limit rows) := by
  cases limit with
  | none => rfl
  | some n => exact if_pos (h n rfl)

theorem mem_of_mem_cut {α : Type} {xs : List α} {x : α} (h : x ∈ cut limit xs) : x ∈ xs := by
  cases limit with
  | none => exact h
  | some n => exact mem_of_mem_take h

theorem limited_of_not_countable {α : Type} (h : ¬ Countable limit) (rows : List α) :
    limited limit rows = .error (.other "sqlite: datatype mismatch") := by
  cases limit with
  | none => exact (h nofun).elim
  | some n => exact if_neg fun hn => h fun m hm => by cases hm; exact hn

variable {newestFirst : Bool}

theorem mem_selected {consumableOnly : Bool}
    (h : t ∈ selected ts p consumableOnly limit newestFirst) :
    t ∈ ts ∧ wanted p consumableOnly t = true :=
  mem_filter.mp ((mem_insertionSort _).mp (mem_of_mem_cut h))

theorem queryOrdered_eq_iff (hdb : db.Holds ts) (hids : ∀ t ∈ ts, RecordId.Valid t.id)
    (hafter : ∀ a, p.afterId = some a → RecordId.Valid a) (reader : TextReader)
    (consumableOnly : Bool) (limit : Option Nat) (newestFirst : Bool) :
    db.queryOrdered reader p consumableOnly limit newestFirst =
        .ok (selected ts p consumableOnly limit newestFirst) ↔
      Countable limit ∧
        ∀ t ∈ selected ts p consumableOnly limit newestFirst, ReadsBack reader t := by
  have hvalid : ∀ t ∈ selected ts p consumableOnly limit newestFirst, RecordId.Valid t.id :=
    fun t ht => hids t (mem_selected ht).1
  simp only [queryOrdered, found_eq hdb hids hafter]
  rw [limited_map]
  by_cases hlimit : Countable limit
  · rw [limited_of_countable hlimit]
    show List.mapM _ (List.map columns (selected ts p consumableOnly limit newestFirst)) = _ ↔ _
    rw [mapM_map_ok]
    constructor
    · intro h
      exact ⟨hlimit, fun t ht => (rowToTuple_columns (hvalid t ht)).mp (h t ht)⟩
    · intro h t ht
      exact (rowToTuple_columns (hvalid t ht)).mpr (h.2 t ht)
  · rw [limited_of_not_countable hlimit]
    exact ⟨nofun, fun h => (hlimit h.1).elim⟩

theorem pairwise_recordOrder (newestFirst : Bool) (xs : List Tuple) :
    (xs.insertionSort fun a b => recordOrder newestFirst a b).Pairwise
      fun a b => recordOrder newestFirst a b := by
  have htotal : Std.Total fun a b : Tuple => (recordOrder newestFirst a b : Prop) := by
    refine ⟨fun a b => ?_⟩
    cases newestFirst <;> simp [recordOrder, Nat.le_total]
  have htrans : IsTrans Tuple fun a b => (recordOrder newestFirst a b : Prop) := by
    refine ⟨fun a b c hab hbc => ?_⟩
    cases newestFirst with
    | false => exact decide_eq_true (Nat.le_trans (of_decide_eq_true hab) (of_decide_eq_true hbc))
    | true => exact decide_eq_true (Nat.le_trans (of_decide_eq_true hbc) (of_decide_eq_true hab))
  exact pairwise_insertionSort _ xs

theorem precedes_of_recordOrder (h : recordOrder newestFirst a b = true) (hne : a.id ≠ b.id) :
    Precedes newestFirst a b := by
  cases newestFirst with
  | false => exact Nat.lt_of_le_of_ne (of_decide_eq_true h) hne
  | true => exact Nat.lt_of_le_of_ne (of_decide_eq_true h) hne.symm

theorem not_precedes_both (hab : Precedes newestFirst a b) (hba : Precedes newestFirst b a) :
    False := by
  cases newestFirst with
  | false | true => exact Nat.lt_asymm hab hba

theorem answers_iff (hdistinct : (ts.map Tuple.id).Nodup) (p : Pattern) (consumableOnly : Bool)
    (limit : Option Nat) (newestFirst : Bool) (out : List Tuple) :
    Answers ts p consumableOnly limit newestFirst out ↔
      out = selected ts p consumableOnly limit newestFirst := by
  have hperm := perm_insertionSort (fun a b => recordOrder newestFirst a b = true)
    (ts.filter (wanted p consumableOnly))
  have hnodup : ((ts.filter (wanted p consumableOnly)).map Tuple.id).Nodup :=
    hdistinct.sublist (List.Sublist.map _ filter_sublist)
  have hstrict : ((ts.filter (wanted p consumableOnly)).insertionSort
      fun a b => recordOrder newestFirst a b).Pairwise (Precedes newestFirst) := by
    have hne := pairwise_map.mp ((hperm.map Tuple.id).nodup_iff.mpr hnodup)
    exact (hne.and (pairwise_recordOrder newestFirst _)).imp
      fun h => precedes_of_recordOrder h.2 h.1
  constructor
  · intro h
    obtain ⟨whole, hwhole, hsorted, hout⟩ := h
    have heq := List.Perm.eq_of_pairwise
      (fun a b _ _ hab hba => (not_precedes_both hab hba).elim) hsorted hstrict
      (hwhole.trans hperm.symm)
    rw [hout, heq, selected]
  · intro h
    exact ⟨_, hperm, hstrict, h⟩

theorem queryOrdered_answers_iff (hdb : db.Holds ts) (hids : ∀ t ∈ ts, RecordId.Valid t.id)
    (hdistinct : (ts.map Tuple.id).Nodup) (hafter : ∀ a, p.afterId = some a → RecordId.Valid a)
    (reader : TextReader) (consumableOnly : Bool) (limit : Option Nat) (newestFirst : Bool) :
    (∃ out, db.queryOrdered reader p consumableOnly limit newestFirst = .ok out ∧
        Answers ts p consumableOnly limit newestFirst out) ↔
      Countable limit ∧
        ∀ t ∈ selected ts p consumableOnly limit newestFirst, ReadsBack reader t := by
  rw [← queryOrdered_eq_iff hdb hids hafter]
  constructor
  · intro h
    obtain ⟨out, hout, hans⟩ := h
    rw [hout, (answers_iff hdistinct p consumableOnly limit newestFirst out).mp hans]
  · intro h
    exact ⟨_, h, (answers_iff hdistinct p consumableOnly limit newestFirst _).mpr rfl⟩

/-- `Store::query` and `Store::query_newest` answer as the predicate does exactly when the
limit is an integer SQLite has and every selected tuple reads back from its columns. -/
theorem query_agrees_iff {db : Database} {ts : List Tuple} (hdb : db.Holds ts)
    (hids : ∀ t ∈ ts, RecordId.Valid t.id) (hdistinct : (ts.map Tuple.id).Nodup) {p : Pattern}
    (hafter : ∀ a, p.afterId = some a → RecordId.Valid a) (reader : TextReader)
    (consumableOnly : Bool) (limit : Option Nat) :
    ((∃ out, db.query reader p consumableOnly limit = .ok out ∧
        Answers ts p consumableOnly limit false out) ↔
      Countable limit ∧ ∀ t ∈ selected ts p consumableOnly limit false, ReadsBack reader t) ∧
    ((∃ out, db.queryNewest reader p consumableOnly limit = .ok out ∧
        Answers ts p consumableOnly limit true out) ↔
      Countable limit ∧ ∀ t ∈ selected ts p consumableOnly limit true, ReadsBack reader t) :=
  ⟨queryOrdered_answers_iff hdb hids hdistinct hafter reader consumableOnly limit false,
    queryOrdered_answers_iff hdb hids hdistinct hafter reader consumableOnly limit true⟩

def epochTable : Database :=
  { blank with
    tuples := [⟨some 1, columns (epochTuple 7)⟩, ⟨some 2, columns (epochTuple 3)⟩] }

theorem readsBack_epochTuple (id : RecordId) : ReadsBack epochReader (epochTuple id) where
  payload := rfl
  createdAt := by
    have htext : DateTime.toRfc3339 0 = "1970-01-01T00:00:00+00:00" := by decide
    show epochReader.rfc3339 (DateTime.toRfc3339 0) = some 0
    rw [htext]
    rfl
  expiresAt := nofun
  strength := rfl

theorem query_agrees_epochTable :
    (∃ out, epochTable.query epochReader { afterId := some 2 } true (some 1) = .ok out ∧
        Answers [epochTuple 7, epochTuple 3] { afterId := some 2 } true (some 1) false out) ∧
    ∃ out, epochTable.queryNewest epochReader { afterId := some 2 } true (some 1) = .ok out ∧
        Answers [epochTuple 7, epochTuple 3] { afterId := some 2 } true (some 1) true out := by
  have hids : ∀ t ∈ [epochTuple 7, epochTuple 3], RecordId.Valid t.id := by decide
  have hread : ∀ newestFirst, ∀ t ∈ selected [epochTuple 7, epochTuple 3] { afterId := some 2 }
      true (some 1) newestFirst, ReadsBack epochReader t := by
    intro newestFirst t ht
    have hm := (mem_selected ht).1
    rcases mem_cons.mp hm with rfl | hm
    · exact readsBack_epochTuple 7
    · rw [mem_singleton.mp hm]
      exact readsBack_epochTuple 3
  have h := @query_agrees_iff epochTable [epochTuple 7, epochTuple 3] rfl hids
    (by decide) { afterId := some 2 } (fun a ha => by cases ha; decide) epochReader true
    (some 1)
  exact ⟨h.1.mpr ⟨by decide, hread false⟩, h.2.mpr ⟨by decide, hread true⟩⟩

/-- An empty table and a limit of 2^63: the literal is no integer of SQLite, and the query
fails where the answer is no tuple. -/
theorem not_query_agrees :
    ¬ ∃ out, blank.query epochReader .any false (some 9223372036854775808) = .ok out ∧
        Answers [] .any false (some 9223372036854775808) false out := by
  have hfail : blank.query epochReader .any false (some 9223372036854775808) =
      .error (.other "sqlite: datatype mismatch") := rfl
  rw [hfail]
  intro h
  obtain ⟨out, hout, -⟩ := h
  cases hout

end RatKingdom.Space
