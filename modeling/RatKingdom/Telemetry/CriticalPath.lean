/-
The critical path of a ticket, built from its phase spans.

`buildCriticalPath` sorts the spans by id and keeps the first of each key.  Its key leaves
out the ticket and the scope, which the search that fetched the spans has fixed already.  The
theorem of this file is about runs of the writer: while the ids of the tickets need no
escapes, each occurrence is recorded once, and the reader keeps every span the search gives.
-/
import RatKingdom.Lib.First
import RatKingdom.Telemetry.Span

namespace RatKingdom.Telemetry

open Core Space Lib

/-- `SpanKey`: what the reader tells spans apart by. -/
structure SpanKey where
  phase : String
  attempt : Nat
  target : Option String
  candidate : Option String
  lane : Option String
  occurrenceKey : Option String
  deriving DecidableEq

def spanKey (p : Value) : SpanKey :=
  { phase := (p.getStr "phase").getD "?"
    attempt := ((p.get "attempt").bind asU64).getD 1
    target := p.getStr "target"
    candidate := p.getStr "candidate"
    lane := p.getStr "lane"
    occurrenceKey := p.getStr "occurrence_key" }

def distinctRows (rows : List Tuple) : List Tuple :=
  firsts (fun t : Tuple => spanKey t.payload) [] (rows.insertionSort fun a b => a.id ≤ b.id)

def byPhase (phases : List Value) (phase : String) : List Value :=
  phases.filter fun p => p.getStr "phase" = some phase

def latest (phases : List Value) (phase : String) : Option Value := (byPhase phases phase).getLast?

def asI64 : Value → Option Int
  | .number (.int i) =>
    if -9223372036854775808 ≤ i ∧ i ≤ 9223372036854775807 then some i else none
  | _ => none

def authorityTime (phases : List Value) (authority : Authority) : Option Int :=
  let durations := (phases.filter fun p => p.getStr "authority" = some authority.asStr).filterMap
    fun p => (p.get "duration_ms").bind asI64
  if durations.isEmpty then none else some (durations.foldl (· + ·) 0)

/-- The object `build_critical_path` gives. -/
structure CriticalPath where
  task : String
  phases : List Value
  taskToMainMs : Option Int
  inFlight : Bool
  terminalReason : Option String
  target : Option String
  candidate : Option String
  reviewRounds : Nat
  reworkRounds : Nat
  reworkAmplification : Option Float
  proofTotal : Nat
  proofReused : Nat
  humanMs : Option Int
  llmMs : Option Int

/-- `build_critical_path` from its phases on; `parse` is `parse_rfc3339`. -/
def summarize (parse : String → Option DateTime) (task : String) (phases : List Value) :
    CriticalPath :=
  let startAt := (latest phases "ticket_ready").bind fun p =>
    (p.getStr "queued_at").or (p.getStr "started_at")
  let merge := latest phases "merge"
  let endAt := merge.bind fun p => p.getStr "ended_at"
  let reviewRounds := (byPhase phases "semantic_review").length
  let reworkRounds := (byPhase phases "rework").length
  { task, phases, reviewRounds, reworkRounds
    taskToMainMs := do
      let s ← startAt.bind parse
      let e ← endAt.bind parse
      pure (millisBetween s e)
    inFlight := merge.isNone
    terminalReason := ((latest phases "attention_hold").bind fun p => p.getStr "terminal_reason").or
      (phases.getLast?.bind fun p => p.getStr "terminal_reason")
    target := phases.reverse.findSome? fun p => p.getStr "target"
    candidate := phases.reverse.findSome? fun p => p.getStr "candidate"
    reworkAmplification :=
      if 0 < reviewRounds then some (Float.ofNat reworkRounds / Float.ofNat reviewRounds) else none
    proofTotal := phases.countP fun p => (p.getStr "proof_kind").isSome
    proofReused := phases.countP fun p => (p.get "proof_reused").bind Value.asBool = some true
    humanMs := authorityTime phases .human
    llmMs := authorityTime phases .llm }

def buildCriticalPath (parse : String → Option DateTime) (task : String) (rows : List Tuple) :
    CriticalPath :=
  summarize parse task ((distinctRows rows).map Tuple.payload)

section
variable {rows rows' : List Tuple}

theorem sorted_rows (rows : List Tuple) :
    (rows.insertionSort fun a b : Tuple => a.id ≤ b.id).Pairwise fun a b => a.id ≤ b.id :=
  List.pairwise_insertionSort (fun a b : Tuple => a.id ≤ b.id) rows

theorem distinctRows_congr (hid : ∀ t ∈ rows, ∀ u ∈ rows, t.id = u.id → t = u)
    (hm : ∀ t, t ∈ rows ↔ t ∈ rows') : distinctRows rows = distinctRows rows' := by
  unfold distinctRows
  refine firsts_congr (r := fun a b : Tuple => a.id ≤ b.id) (fun a => Nat.le_refl _)
    (sorted_rows rows) (sorted_rows rows') ?_ ?_
  · intro a ha b hb hab hba
    rw [List.mem_insertionSort] at ha hb
    exact hid a ha b hb (Nat.le_antisymm hab hba)
  · intro t
    rw [List.mem_insertionSort, List.mem_insertionSort]
    exact hm t

theorem distinctRows_eq_self (hsorted : rows.Pairwise fun a b => a.id ≤ b.id)
    (hkeys : rows.Pairwise fun a b => spanKey a.payload ≠ spanKey b.payload) :
    distinctRows rows = rows := by
  unfold distinctRows
  rw [List.Pairwise.insertionSort_eq hsorted]
  exact firsts_eq_self (fun _ _ => List.not_mem_nil) hkeys

end

/-- What a reader and the callers of the writer are promised. -/
structure Faithful (j : Journal) : Prop where
  once : ∀ a ∈ j.answers, j.store.tuples.countP a.occurrence.names = 1
  honest : ∀ a ∈ j.answers, a.wrote = false → a.stood = true
  apart : ∀ scope task, distinctRows (j.store.scan (spanPattern scope task)) =
    j.store.scan (spanPattern scope task)
  steady : ∀ parse task rows rows', (∀ t ∈ rows, t ∈ j.store.tuples) → (∀ t, t ∈ rows ↔ t ∈ rows') →
      buildCriticalPath parse task rows = buildCriticalPath parse task rows'

variable {j j' : Journal}

theorem spanKey_tuple (c : Call) :
    spanKey c.tuple.payload =
      { phase := c.span.phase.asStr, attempt := c.span.attempt.toNat, target := c.span.target
        candidate := c.span.candidate, lane := c.span.lane
        occurrenceKey := c.span.occurrenceKey } := by
  unfold spanKey
  rw [Call.tuple_payload, PhaseSpan.getStr_phase, PhaseSpan.get_attempt, PhaseSpan.getStr_target,
    PhaseSpan.getStr_candidate, PhaseSpan.getStr_lane, PhaseSpan.getStr_occurrenceKey]
  rfl

theorem occurrence_eq_of_spanKey {c c' : Call} {scope task : String} (hc : Plain c.span.task.toList)
    (hc' : Plain c'.span.task.toList) (hm : (spanPattern scope task).matches c.tuple = true)
    (hm' : (spanPattern scope task).matches c'.tuple = true)
    (hk : spanKey c.tuple.payload = spanKey c'.tuple.payload) : c.occurrence = c'.occurrence := by
  obtain ⟨hs, ht⟩ := spanPattern_tuple.mp hm
  obtain ⟨hs', ht'⟩ := spanPattern_tuple.mp hm'
  have htask : c.span.task = c'.span.task :=
    String.toList_injective ((search_task hc ht).symm.trans (search_task hc' ht'))
  rw [spanKey_tuple, spanKey_tuple, SpanKey.mk.injEq] at hk
  obtain ⟨hph, hattempt, htarget, hcandidate, hlane, hkey⟩ := hk
  unfold Call.occurrence
  rw [Occurrence.mk.injEq]
  exact ⟨hs.trans hs'.symm, htask, Phase.asStr_injective hph, UInt32.toNat_inj.mp hattempt,
    htarget, hcandidate, hlane, hkey⟩

theorem eq_of_countP_le_one {α : Type} {p : α → Bool} {l : List α} (h : l.countP p ≤ 1) {a b : α}
    (ha : a ∈ l) (hb : b ∈ l) (hpa : p a = true) (hpb : p b = true) : a = b := by
  rw [List.countP_eq_length_filter] at h
  have ha' : a ∈ l.filter p := List.mem_filter.mpr ⟨ha, hpa⟩
  have hb' : b ∈ l.filter p := List.mem_filter.mpr ⟨hb, hpb⟩
  cases hl : l.filter p with
  | nil =>
    rw [hl] at ha'
    cases ha'
  | cons c rest =>
    rw [hl] at ha' hb' h
    cases List.eq_nil_of_length_eq_zero (Nat.le_zero.mp (Nat.le_of_succ_le_succ h))
    rw [List.mem_singleton.mp ha', List.mem_singleton.mp hb']

theorem apart_of_kept (h : Kept j) (scope task : String) :
    distinctRows (j.store.scan (spanPattern scope task)) =
      j.store.scan (spanPattern scope task) := by
  apply distinctRows_eq_self (Store.scan_sorted _ _)
  have hnodup : (j.store.scan (spanPattern scope task)).Nodup := by
    have hids : (j.store.tuples.map Tuple.id).Nodup := by
      have hw := h.wf.ids
      unfold Store.tuples
      rw [List.map_map]
      exact hw
    exact (Store.scan_perm _ _).nodup_iff.mpr ((List.Nodup.of_map _ hids).filter _)
  refine hnodup.imp_of_mem fun {t u} ht hu hne hk => hne ?_
  obtain ⟨htmem, htp⟩ := Store.mem_scan.mp ht
  obtain ⟨humem, hup⟩ := Store.mem_scan.mp hu
  obtain ⟨c, hc, rfl⟩ := h.recorded t htmem (isSpan_of_spanPattern htp)
  obtain ⟨c', hc', rfl⟩ := h.recorded u humem (isSpan_of_spanPattern hup)
  have ho := occurrence_eq_of_spanKey hc hc' htp hup hk
  exact eq_of_countP_le_one (h.single c.occurrence) htmem humem (names_tuple.mpr rfl)
    (names_tuple.mpr ho)

theorem faithful_of_kept (h : Kept j) : Faithful j := by
  refine ⟨fun a ha => ?_, h.honest, apart_of_kept h, fun parse task rows rows' hrows hm => ?_⟩
  · obtain ⟨t, ht, hn⟩ := h.answered a ha
    exact Nat.le_antisymm (h.single a.occurrence) (List.countP_pos_iff.mpr ⟨t, ht, hn⟩)
  · unfold buildCriticalPath
    rw [distinctRows_congr (fun t ht u hu => h.wf.tuple_eq_of_id (hrows t ht) (hrows u hu)) hm]

/-- Each occurrence is recorded once and read back, as long as the tickets' ids need no
escapes. -/
theorem spans_recorded_once (moves : List Move) (h : Meets Journal.step Legible .fresh moves) :
    Keeps Journal.step Faithful .fresh moves :=
  (keeps_of_meets (fun _ _ _ hk hs hg => kept_step hk hg hs) kept_fresh h).mono
    fun _ hk => faithful_of_kept hk

def merged (task : String) (id : RecordId) : Call :=
  { scope := "repo", castle := "daemon", span := { task, phase := .merge }, id, now := 0 }

def mergedOnce (task : String) : Store := Store.empty.push (merged task 1).tuple

theorem tuples_mergedOnce (task : String) :
    (mergedOnce task).tuples = [(merged task 1).tuple] := rfl

theorem record_first (task : String) :
    recordPhaseSpan Store.empty (merged task 1) = .ok (mergedOnce task, true) :=
  recordPhaseSpan_fresh rfl rfl (by decide)

theorem spans_recorded_once_replayed :
    ((run Journal.step .fresh [.record (merged "TKT-1" 1), .record (merged "TKT-1" 2)]).map
      fun j => j.answers.map Answer.wrote) = some [true, false] ∧
      Keeps Journal.step Faithful .fresh
        [.record (merged "TKT-1" 1), .record (merged "TKT-1" 2)] := by
  have hplain : Plain "TKT-1".toList := by decide
  have hrecorded : Recorded (mergedOnce "TKT-1") := by
    intro t ht _
    rw [tuples_mergedOnce] at ht
    exact ⟨_, hplain, List.mem_singleton.mp ht⟩
  have hfound : spanExists (mergedOnce "TKT-1") (merged "TKT-1" 2).scope (merged "TKT-1" 2).span =
      true :=
    (spanExists_iff hrecorded hplain).mpr ⟨_, List.mem_cons_self, names_tuple.mpr rfl⟩
  have hfirst := step_record (j := .fresh) (record_first "TKT-1")
  have hsecond := fun answers =>
    step_record (j := ⟨mergedOnce "TKT-1", answers⟩) (recordPhaseSpan_found hfound)
  constructor
  · unfold run
    rw [hfirst, Option.bind_some]
    unfold run
    rw [hsecond]
    rfl
  · apply spans_recorded_once
    intro j _
    exact ⟨hplain, fun j' _ => ⟨hplain, trivial⟩⟩

theorem quoted_not_found :
    spanExists (mergedOnce "a\"b") (merged "a\"b" 2).scope (merged "a\"b" 2).span = false := by
  unfold spanExists
  rw [List.any_eq_false]
  intro t ht
  obtain ⟨hm, hp⟩ := Store.mem_scan.mp ht
  rw [tuples_mergedOnce] at hm
  rw [List.mem_singleton.mp hm] at hp
  simp only [Pattern.matches, Bool.and_eq_true] at hp
  obtain ⟨s, rest, hs, hpre⟩ :=
    contains_field word_task (merged "a\"b" 1).span.flat_fields hp.2.2.2.2.1
  cases task_field _ hs
  have hpre : ['a', '"', 'b', '"'] <+: 'a' :: '\\' :: '"' :: 'b' :: '"' :: rest := hpre
  exact absurd (List.cons_prefix_cons.mp (List.cons_prefix_cons.mp hpre).2).1 (by decide)

/-- So the next call records it again. -/
theorem quoted_task_recorded_twice : ¬ ∀ moves, Keeps Journal.step Faithful .fresh moves := by
  intro h
  have hkeeps := h [.record (merged "a\"b" 1), .record (merged "a\"b" 2)]
  have hsecond := recordPhaseSpan_fresh quoted_not_found (s := mergedOnce "a\"b") (by decide)
    (by decide)
  have hl : Faithful
      { store := (mergedOnce "a\"b").push (merged "a\"b" 2).tuple
        answers := _ } :=
    ((hkeeps.2 _ (step_record (record_first "a\"b"))).2 _ (step_record hsecond)).head
  have honce := hl.once _ (List.mem_append_right _ List.mem_cons_self)
  rw [Store.tuples_push, tuples_mergedOnce] at honce
  have htwice : ∀ id, (merged "a\"b" 2).occurrence.names (merged "a\"b" id).tuple = true :=
    fun id => names_tuple.mpr rfl
  simp only [List.cons_append, List.nil_append, List.countP_cons_of_pos, htwice, List.countP_nil]
    at honce
  exact absurd honce (by decide)

end RatKingdom.Telemetry
