/-
Phase spans: one durable record for each occurrence of a phase of a ticket's way to main.

`recordPhaseSpan` writes a span unless the space already has one of the same occurrence.  It
looks for it with a payload search on the task and the phase, and compares the rest of the
occurrence field by field.
-/
import RatKingdom.Core.Search
import RatKingdom.Space.Scan

namespace RatKingdom.Telemetry

open Core Space Lib List

def spanIdentity : String := "task_span"

inductive Phase where
  | ticketReady | claimed | agentLaunched | firstProgress | completed | verificationQueued
  | landingPrep | semanticReview | rework | merge | deliveryClosure | attentionHold
  deriving DecidableEq

def Phase.asStr : Phase → String
  | .ticketReady => "ticket_ready"
  | .claimed => "claimed"
  | .agentLaunched => "agent_launched"
  | .firstProgress => "first_progress"
  | .completed => "completed"
  | .verificationQueued => "verification"
  | .landingPrep => "landing_prep"
  | .semanticReview => "semantic_review"
  | .rework => "rework"
  | .merge => "merge"
  | .deliveryClosure => "delivery_closure"
  | .attentionHold => "attention_hold"

theorem Phase.plain (p : Phase) : Plain p.asStr.toList := by
  cases p <;> decide

theorem Phase.asStr_injective {p q : Phase} (h : p.asStr = q.asStr) : p = q := by
  cases p <;> cases q <;> first | rfl | exact absurd h (by decide)

inductive Authority where
  | human | llm

def Authority.asStr : Authority → String
  | .human => "human"
  | .llm => "llm"

structure PhaseSpan where
  task : String
  phase : Phase
  attempt : UInt32 := 1
  queuedAt : Option DateTime := none
  startedAt : Option DateTime := none
  endedAt : Option DateTime := none
  terminalReason : Option String := none
  repo : Option String := none
  target : Option String := none
  candidate : Option String := none
  lane : Option String := none
  occurrenceKey : Option String := none
  proofKind : Option String := none
  proofReused : Option Bool := none
  authority : Option Authority := none
  durationSemantic : Option String := none
  timestampProvenance : Option String := none
  queueWaitMsMonotonic : Option UInt64 := none
  durationMsMonotonic : Option UInt64 := none

open PhaseSpan

def millisBetween (a b : DateTime) : Int := (b - a).tdiv 1000000

def forwardMillis (a b : Option DateTime) : Option Int := do
  let a ← a
  let b ← b
  if 0 ≤ millisBetween a b then some (millisBetween a b) else none

namespace PhaseSpan

def queueWaitMs (s : PhaseSpan) : Option Int := forwardMillis s.queuedAt s.startedAt

def durationMs (s : PhaseSpan) : Option Int := forwardMillis s.startedAt s.endedAt

end PhaseSpan

/-- An instant as it is serialized: RFC 3339 with `Z` for the offset. -/
def instantText (t : DateTime) : String :=
  String.ofList ((DateTime.toRfc3339 t).toList.take ((DateTime.toRfc3339 t).length - 6)) ++ "Z"

/-- An optional field, `null` when absent. -/
def nullable {α : Type} (f : α → Value) (a : Option α) : Value := (a.map f).getD .null

def PhaseSpan.fields (s : PhaseSpan) : List (String × Value) :=
  [("attempt", .number (.int s.attempt.toNat)),
    ("authority", nullable (fun a : Authority => .string a.asStr) s.authority),
    ("candidate", nullable .string s.candidate),
    ("duration_ms", nullable (fun ms => .number (.int ms)) s.durationMs),
    ("duration_ms_monotonic",
      nullable (fun ms : UInt64 => .number (.int ms.toNat)) s.durationMsMonotonic),
    ("duration_semantic", nullable .string s.durationSemantic),
    ("ended_at", nullable (fun t => .string (instantText t)) s.endedAt),
    ("lane", nullable .string s.lane),
    ("occurrence_key", nullable .string s.occurrenceKey),
    ("phase", .string s.phase.asStr),
    ("proof_kind", nullable .string s.proofKind),
    ("proof_reused", nullable .bool s.proofReused),
    ("queue_wait_ms", nullable (fun ms => .number (.int ms)) s.queueWaitMs),
    ("queue_wait_ms_monotonic",
      nullable (fun ms : UInt64 => .number (.int ms.toNat)) s.queueWaitMsMonotonic),
    ("queued_at", nullable (fun t => .string (instantText t)) s.queuedAt),
    ("repo", nullable .string s.repo),
    ("started_at", nullable (fun t => .string (instantText t)) s.startedAt),
    ("target", nullable .string s.target),
    ("task", .string s.task),
    ("terminal_reason", nullable .string s.terminalReason),
    ("timestamp_provenance", nullable .string s.timestampProvenance)]

def PhaseSpan.toPayload (s : PhaseSpan) : Value := .object s.fields

def asU64 : Value → Option Nat
  | .number (.int i) => if 0 ≤ i ∧ i ≤ 18446744073709551615 then some i.toNat else none
  | _ => none

def spanPattern (scope task : String) : Pattern :=
  { category := some .event, identity := some spanIdentity, scope := some scope
    payloadSearch := some (fieldSearch "task" task) }

def spanExists (s : Store) (scope : String) (span : PhaseSpan) : Bool :=
  (s.scan { spanPattern scope span.task with
      payloadSearchAnd := some (fieldSearch "phase" span.phase.asStr) }).any fun t =>
    decide ((t.payload.get "attempt").bind asU64 = some span.attempt.toNat) &&
      (decide (t.payload.getStr "target" = span.target) &&
        (decide (t.payload.getStr "candidate" = span.candidate) &&
          (decide (t.payload.getStr "lane" = span.lane) &&
            decide (t.payload.getStr "occurrence_key" = span.occurrenceKey))))

/-- One call, with the id and the clock its tuple draws. -/
structure Call where
  scope : String
  castle : String
  span : PhaseSpan
  id : RecordId
  now : DateTime

def Call.tuple (c : Call) : Tuple :=
  (Tuple.new c.id c.now .event c.scope spanIdentity c.castle c.span.toPayload).withLifecycle
    .furniture

@[simp] theorem Call.tuple_category (c : Call) : c.tuple.category = .event := rfl
@[simp] theorem Call.tuple_identity (c : Call) : c.tuple.identity = spanIdentity := rfl
@[simp] theorem Call.tuple_scope (c : Call) : c.tuple.scope = c.scope := rfl
@[simp] theorem Call.tuple_payload (c : Call) : c.tuple.payload = c.span.toPayload := rfl

def recordPhaseSpan (s : Store) (c : Call) : Except Error (Store × Bool) :=
  if spanExists s c.scope c.span then .ok (s, false)
  else
    match s.insert c.tuple with
    | .ok s' => .ok (s', true)
    | .error e => .error e

/-- What keeps two spans apart. -/
structure Occurrence where
  scope : String
  task : String
  phase : Phase
  attempt : UInt32
  target : Option String
  candidate : Option String
  lane : Option String
  occurrenceKey : Option String
  deriving DecidableEq

def Call.occurrence (c : Call) : Occurrence :=
  { scope := c.scope, task := c.span.task, phase := c.span.phase, attempt := c.span.attempt
    target := c.span.target, candidate := c.span.candidate, lane := c.span.lane
    occurrenceKey := c.span.occurrenceKey }

def isSpan (t : Tuple) : Bool := decide (t.category = .event) && decide (t.identity = spanIdentity)

def Occurrence.names (o : Occurrence) (t : Tuple) : Bool :=
  isSpan t && (decide (t.scope = o.scope) && (decide (t.payload.getStr "task" = some o.task) &&
      (decide (t.payload.getStr "phase" = some o.phase.asStr) &&
        (decide ((t.payload.get "attempt").bind asU64 = some o.attempt.toNat) &&
          (decide (t.payload.getStr "target" = o.target) &&
            (decide (t.payload.getStr "candidate" = o.candidate) &&
              (decide (t.payload.getStr "lane" = o.lane) &&
                decide (t.payload.getStr "occurrence_key" = o.occurrenceKey))))))))

theorem asU64_toNat (n : UInt32) : asU64 (.number (.int n.toNat)) = some n.toNat := by
  have hlt := n.toNat_lt
  have hbound : (0 : Int) ≤ n.toNat ∧ (n.toNat : Int) ≤ 18446744073709551615 := by omega
  show (if (0 : Int) ≤ n.toNat ∧ (n.toNat : Int) ≤ 18446744073709551615 then
    some (n.toNat : Int).toNat else none) = _
  rw [if_pos hbound, Int.toNat_natCast]

theorem nullable_asStr (a : Option String) : (nullable Value.string a).asStr = a := by
  cases a <;> rfl

namespace PhaseSpan

variable (s : PhaseSpan)

theorem getStr_task : s.toPayload.getStr "task" = some s.task := rfl

theorem getStr_phase : s.toPayload.getStr "phase" = some s.phase.asStr := rfl

theorem get_attempt : (s.toPayload.get "attempt").bind asU64 = some s.attempt.toNat :=
  asU64_toNat s.attempt

theorem getStr_target : s.toPayload.getStr "target" = s.target := nullable_asStr s.target

theorem getStr_candidate : s.toPayload.getStr "candidate" = s.candidate :=
  nullable_asStr s.candidate

theorem getStr_lane : s.toPayload.getStr "lane" = s.lane := nullable_asStr s.lane

theorem getStr_occurrenceKey : s.toPayload.getStr "occurrence_key" = s.occurrenceKey :=
  nullable_asStr s.occurrenceKey

theorem flat_fields : Flat s.fields := by
  have hscalar : ∀ {α : Type} {f : α → Value} (a : Option α), (∀ a, (f a).Scalar) →
      (nullable f a).Scalar := by
    intro α f a h
    cases a with
    | none => trivial
    | some a => exact h a
  have hvalues : ∀ f ∈ s.fields, f.2.Scalar := by
    simp only [fields, forall_mem_cons]
    refine ⟨trivial, hscalar _ fun _ => trivial, hscalar _ fun _ => trivial,
      hscalar _ fun _ => trivial, hscalar _ fun _ => trivial, hscalar _ fun _ => trivial,
      hscalar _ fun _ => trivial, hscalar _ fun _ => trivial, hscalar _ fun _ => trivial,
      trivial, hscalar _ fun _ => trivial, hscalar _ fun _ => trivial,
      hscalar _ fun _ => trivial, hscalar _ fun _ => trivial, hscalar _ fun _ => trivial,
      hscalar _ fun _ => trivial, hscalar _ fun _ => trivial, hscalar _ fun _ => trivial,
      trivial, hscalar _ fun _ => trivial, hscalar _ fun _ => trivial, ?_⟩
    exact fun f hf => (not_mem_nil hf).elim
  have hnames : ∀ name ∈ s.fields.map Prod.fst, Plain name.toList := by
    show ∀ name ∈ ["attempt", "authority", "candidate", "duration_ms", "duration_ms_monotonic",
      "duration_semantic", "ended_at", "lane", "occurrence_key", "phase", "proof_kind",
      "proof_reused", "queue_wait_ms", "queue_wait_ms_monotonic", "queued_at", "repo",
      "started_at", "target", "task", "terminal_reason", "timestamp_provenance"],
      Plain name.toList
    decide
  exact fun f hf => ⟨hnames f.1 (mem_map_of_mem hf), hvalues f hf⟩

end PhaseSpan

variable {c c' : Call}

theorem isSpan_tuple (c : Call) : isSpan c.tuple = true := by
  simp [isSpan]

theorem names_tuple {o : Occurrence} : o.names c.tuple = true ↔ o = c.occurrence := by
  obtain ⟨scope, task, phase, attempt, target, candidate, lane, occurrenceKey⟩ := o
  simp only [Occurrence.names, isSpan_tuple, Bool.true_and, Bool.and_eq_true, decide_eq_true_eq]
  simp only [Call.tuple_payload, Call.tuple_scope, getStr_task, getStr_phase,
    get_attempt, getStr_target, getStr_candidate,
    getStr_lane, getStr_occurrenceKey, Option.some.injEq, UInt32.toNat_inj,
    Call.occurrence, Occurrence.mk.injEq]
  constructor
  · rintro ⟨h1, h2, h3, h4, h5, h6, h7, h8⟩
    exact ⟨h1.symm, h2.symm, (Phase.asStr_injective h3).symm, h4.symm, h5.symm, h6.symm, h7.symm,
      h8.symm⟩
  · rintro ⟨rfl, rfl, rfl, rfl, rfl, rfl, rfl, rfl⟩
    exact ⟨rfl, rfl, rfl, rfl, rfl, rfl, rfl, rfl⟩

def Recorded (s : Store) : Prop :=
  ∀ t ∈ s.tuples, isSpan t = true → ∃ c : Call, Plain c.span.task.toList ∧ t = c.tuple

theorem word_task : Word "task".toList :=
  ⟨by decide, 't', ['a', 's', 'k'], rfl, by decide, by decide, by decide⟩

theorem word_phase : Word "phase".toList :=
  ⟨by decide, 'p', ['h', 'a', 's', 'e'], rfl, by decide, by decide, by decide⟩

theorem task_field (s : PhaseSpan) {v : Value} (h : ("task", v) ∈ s.fields) :
    v = .string s.task := by
  simpa [fields] using h

theorem phase_field (s : PhaseSpan) {v : Value} (h : ("phase", v) ∈ s.fields) :
    v = .string s.phase.asStr := by
  simpa [fields] using h

theorem search_task {s : PhaseSpan} {x : String} (hs : Plain s.task.toList)
    (h : containsText s.toPayload.toText (fieldSearch "task" x) = true) :
    x.toList.takeWhile (· ≠ '"') = s.task.toList :=
  contains_field_plain word_task s.flat_fields (fun _ => task_field s) hs h

theorem search_task_iff {s : PhaseSpan} {x : String} (hs : Plain s.task.toList)
    (hx : Plain x.toList) :
    containsText s.toPayload.toText (fieldSearch "task" x) = true ↔ s.task = x :=
  contains_field_iff word_task s.flat_fields (by simp [PhaseSpan.fields])
    (fun _ => task_field s) hs hx

theorem search_phase_iff {s : PhaseSpan} {p : Phase} :
    containsText s.toPayload.toText (fieldSearch "phase" p.asStr) = true ↔ s.phase = p := by
  have h := contains_field_iff (x := p.asStr) word_phase s.flat_fields
    (by simp [PhaseSpan.fields]) (fun _ => phase_field s) s.phase.plain p.plain
  exact h.trans ⟨Phase.asStr_injective, fun he => he ▸ rfl⟩

theorem isSpan_of_names {o : Occurrence} {t : Tuple} (h : o.names t = true) : isSpan t = true := by
  unfold Occurrence.names at h
  rw [Bool.and_eq_true] at h
  exact h.1

theorem spanPattern_tuple {scope task : String} :
    (spanPattern scope task).matches c.tuple = true ↔
      c.scope = scope ∧ containsText c.span.toPayload.toText (fieldSearch "task" task) = true := by
  simp only [spanPattern, Pattern.matches, admits, admitsText, Bool.and_true, Bool.and_eq_true,
    decide_eq_true_eq]
  simp only [Call.tuple_category, Call.tuple_identity, Call.tuple_scope, Call.tuple_payload,
    true_and]

theorem isSpan_of_spanPattern {scope task : String} {t : Tuple}
    (h : (spanPattern scope task).matches t = true) : isSpan t = true := by
  simp only [spanPattern, Pattern.matches, admits, Bool.and_eq_true, decide_eq_true_eq] at h
  simp [isSpan, h.1, h.2.2.1]

theorem occurrence_eq_iff (hc' : Plain c'.span.task.toList) (hc : Plain c.span.task.toList) :
    (({ spanPattern c.scope c.span.task with
        payloadSearchAnd := some (fieldSearch "phase" c.span.phase.asStr) } : Pattern).matches
          c'.tuple = true ∧ c'.span.attempt = c.span.attempt ∧ c'.span.target = c.span.target ∧
        c'.span.candidate = c.span.candidate ∧ c'.span.lane = c.span.lane ∧
        c'.span.occurrenceKey = c.span.occurrenceKey) ↔
      c.occurrence = c'.occurrence := by
  have hmatches : ({ spanPattern c.scope c.span.task with
        payloadSearchAnd := some (fieldSearch "phase" c.span.phase.asStr) } : Pattern).matches
          c'.tuple = true ↔
      c'.scope = c.scope ∧ c'.span.task = c.span.task ∧ c'.span.phase = c.span.phase := by
    rw [← search_phase_iff, ← search_task_iff hc' hc]
    simp only [spanPattern, Pattern.matches, admits, admitsText, Bool.and_true, Bool.and_eq_true,
      decide_eq_true_eq]
    simp only [Call.tuple_category, Call.tuple_identity, Call.tuple_scope, Call.tuple_payload,
      true_and]
  rw [hmatches]
  rw [Occurrence.mk.injEq]
  constructor
  · rintro ⟨⟨h1, h2, h3⟩, h4, h5, h6, h7, h8⟩
    exact ⟨h1.symm, h2.symm, h3.symm, h4.symm, h5.symm, h6.symm, h7.symm, h8.symm⟩
  · rintro ⟨h1, h2, h3, h4, h5, h6, h7, h8⟩
    exact ⟨⟨h1.symm, h2.symm, h3.symm⟩, h4.symm, h5.symm, h6.symm, h7.symm, h8.symm⟩

theorem spanExists_iff {s : Store} (hs : Recorded s) (hc : Plain c.span.task.toList) :
    spanExists s c.scope c.span = true ↔ ∃ t ∈ s.tuples, c.occurrence.names t = true := by
  have hfields : ∀ c' : Call,
      (decide ((c'.tuple.payload.get "attempt").bind asU64 = some c.span.attempt.toNat) &&
        (decide (c'.tuple.payload.getStr "target" = c.span.target) &&
          (decide (c'.tuple.payload.getStr "candidate" = c.span.candidate) &&
            (decide (c'.tuple.payload.getStr "lane" = c.span.lane) &&
              decide (c'.tuple.payload.getStr "occurrence_key" = c.span.occurrenceKey))))) = true ↔
      c'.span.attempt = c.span.attempt ∧ c'.span.target = c.span.target ∧
        c'.span.candidate = c.span.candidate ∧ c'.span.lane = c.span.lane ∧
        c'.span.occurrenceKey = c.span.occurrenceKey := by
    intro c'
    simp only [Call.tuple_payload, get_attempt, getStr_target,
      getStr_candidate, getStr_lane, getStr_occurrenceKey,
      Bool.and_eq_true, decide_eq_true_eq, Option.some.injEq, UInt32.toNat_inj]
  unfold spanExists
  rw [any_eq_true]
  constructor
  · rintro ⟨t, ht, hsame⟩
    obtain ⟨hm, hp⟩ := Store.mem_scan.mp ht
    have hspan : isSpan t = true := by
      simp only [spanPattern, Pattern.matches, admits, Bool.and_eq_true, decide_eq_true_eq] at hp
      simp [isSpan, hp.1, hp.2.2.1]
    obtain ⟨c', hc', rfl⟩ := hs t hm hspan
    exact ⟨c'.tuple, hm,
      names_tuple.mpr ((occurrence_eq_iff hc' hc).mp ⟨hp, (hfields c').mp hsame⟩)⟩
  · rintro ⟨t, hm, hn⟩
    obtain ⟨c', hc', rfl⟩ := hs t hm (isSpan_of_names hn)
    obtain ⟨hp, hsame⟩ := (occurrence_eq_iff hc' hc).mpr (names_tuple.mp hn)
    exact ⟨c'.tuple, Store.mem_scan.mpr ⟨hm, hp⟩, (hfields c').mpr hsame⟩

/-- What a call answered, and whether a span of its occurrence stood before it. -/
structure Answer where
  occurrence : Occurrence
  wrote : Bool
  stood : Bool

structure Journal where
  store : Store
  answers : List Answer

def Journal.fresh : Journal := ⟨Store.empty, []⟩

inductive Move where
  | record (c : Call)
  | write (t : Tuple)
  | delete (id : RecordId)

/-- Furniture is not taken or collected, so a span stays; a call that fails changes nothing. -/
def Journal.step (j : Journal) : Move → Option Journal
  | .record c =>
    match recordPhaseSpan j.store c with
    | .ok (store, wrote) =>
      some
        { store
          answers := j.answers ++ [⟨c.occurrence, wrote, j.store.tuples.any c.occurrence.names⟩] }
    | .error _ => some j
  | .write t =>
    if isSpan t then none
    else
      match j.store.insert t with
      | .ok store => some { j with store }
      | .error _ => some j
  | .delete id =>
    if j.store.tuples.any fun t => decide (t.id = id) && isSpan t then none
    else some { j with store := j.store.erase id }

/-- The ticket ids of the calls need no escapes. -/
def Legible (_ : Journal) : Move → Prop
  | .record c => Plain c.span.task.toList
  | _ => True

/-- What holds of the journal as long as the ids are legible. -/
structure Kept (j : Journal) : Prop where
  wf : j.store.Wf
  recorded : Recorded j.store
  single : ∀ o : Occurrence, j.store.tuples.countP o.names ≤ 1
  answered : ∀ a ∈ j.answers, ∃ t ∈ j.store.tuples, a.occurrence.names t = true
  honest : ∀ a ∈ j.answers, a.wrote = false → a.stood = true

theorem kept_fresh : Kept Journal.fresh := by
  refine ⟨Store.wf_empty, ?_, ?_, ?_, ?_⟩ <;>
    simp [Journal.fresh, Store.empty, Store.tuples, Recorded]

theorem recordPhaseSpan_cases {s s' : Store} {wrote : Bool}
    (h : recordPhaseSpan s c = .ok (s', wrote)) :
    (spanExists s c.scope c.span = true ∧ s' = s ∧ wrote = false) ∨
      (spanExists s c.scope c.span = false ∧ s.existsId c.id = false ∧ s' = s.push c.tuple ∧
        wrote = true) := by
  unfold recordPhaseSpan at h
  split at h
  · rename_i hx
    cases h
    exact .inl ⟨hx, rfl, rfl⟩
  · rename_i hx
    cases hi : s.insert c.tuple with
    | error e =>
      rw [hi] at h
      cases h
    | ok s'' =>
      rw [hi] at h
      cases h
      obtain ⟨hfresh, rfl⟩ := Store.insert_ok hi
      exact .inr ⟨Bool.eq_false_iff.mpr hx, hfresh, rfl, rfl⟩

theorem recordPhaseSpan_found {s : Store} (h : spanExists s c.scope c.span = true) :
    recordPhaseSpan s c = .ok (s, false) := by
  unfold recordPhaseSpan
  rw [if_pos h]

theorem recordPhaseSpan_fresh {s : Store} (h : spanExists s c.scope c.span = false)
    (hid : s.existsId c.id = false) (hroom : s.lastSequence < Store.maxSequence) :
    recordPhaseSpan s c = .ok (s.push c.tuple, true) := by
  have hid' : s.existsId c.tuple.id = false := hid
  unfold recordPhaseSpan Store.insert
  rw [h, hid', if_neg Bool.false_ne_true, if_neg Bool.false_ne_true, if_pos hroom]

theorem step_record {j : Journal} {store : Store} {wrote : Bool}
    (h : recordPhaseSpan j.store c = .ok (store, wrote)) :
    j.step (.record c) = some
        { store
          answers := j.answers ++ [⟨c.occurrence, wrote, j.store.tuples.any c.occurrence.names⟩] } := by
  simp only [Journal.step, h]

theorem tuples_erase (s : Store) (id : RecordId) :
    (s.erase id).tuples = s.tuples.filter fun t => t.id ≠ id := by
  simp only [Store.erase, Store.tuples, filter_map]
  rfl

variable {j j' : Journal}

theorem kept_pushSpan (h : Kept j) (hc : Plain c.span.task.toList)
    (hfree : spanExists j.store c.scope c.span = false) (hid : j.store.existsId c.id = false) :
    Kept
      { store := j.store.push c.tuple
        answers :=
          j.answers ++ [⟨c.occurrence, true, j.store.tuples.any c.occurrence.names⟩] } := by
  have hnone : ∀ t ∈ j.store.tuples, ¬ c.occurrence.names t = true := by
    intro t ht hn
    rw [(spanExists_iff h.recorded hc).mpr ⟨t, ht, hn⟩] at hfree
    cases hfree
  refine ⟨h.wf.push hid, ?_, ?_, ?_, ?_⟩
  · intro t ht hs
    rw [Store.tuples_push] at ht
    rcases mem_append.mp ht with ht | ht
    · exact h.recorded t ht hs
    · exact ⟨c, hc, mem_singleton.mp ht⟩
  · intro o
    rw [Store.tuples_push, countP_append, countP_singleton]
    by_cases ho : o = c.occurrence
    · have hzero : j.store.tuples.countP o.names = 0 := by
        rw [ho]
        exact countP_eq_zero.mpr hnone
      split <;> omega
    · have hother : ¬ o.names c.tuple = true := fun hn => ho (names_tuple.mp hn)
      rw [if_neg hother]
      exact h.single o
  · intro a ha
    rw [Store.tuples_push]
    rcases mem_append.mp ha with ha | ha
    · obtain ⟨t, ht, hn⟩ := h.answered a ha
      exact ⟨t, mem_append_left _ ht, hn⟩
    · rw [mem_singleton.mp ha]
      exact ⟨c.tuple, mem_append_right _ mem_cons_self, names_tuple.mpr rfl⟩
  · refine forall_mem_concat.mpr ⟨h.honest, ?_⟩
    intro hw
    cases hw

theorem kept_aside {store : Store} (h : Kept j) (hwf : store.Wf)
    (hspans : store.tuples.filter isSpan = j.store.tuples.filter isSpan) :
    Kept { j with store } := by
  have hm : ∀ t, isSpan t = true → (t ∈ store.tuples ↔ t ∈ j.store.tuples) := by
    intro t hs
    have hiff : t ∈ store.tuples.filter isSpan ↔ t ∈ j.store.tuples.filter isSpan := by
      rw [hspans]
    simpa [hs] using hiff
  have hcount : ∀ (o : Occurrence) (l : List Tuple), l.countP o.names = (l.filter isSpan).countP
      o.names := by
    intro o l
    rw [countP_filter]
    apply countP_congr
    intro t _
    rw [Bool.and_eq_true, iff_self_and]
    exact isSpan_of_names
  refine ⟨hwf, fun t ht hs => h.recorded t ((hm t hs).mp ht) hs, fun o => ?_, ?_, h.honest⟩
  · rw [hcount, hspans, ← hcount]
    exact h.single o
  · intro a ha
    obtain ⟨t, ht, hn⟩ := h.answered a ha
    exact ⟨t, (hm t (isSpan_of_names hn)).mpr ht, hn⟩

theorem kept_step {m : Move} (h : Kept j) (hg : Legible j m) (hstep : j.step m = some j') :
    Kept j' := by
  cases m with
  | record c =>
    have hc : Plain c.span.task.toList := hg
    cases hr : recordPhaseSpan j.store c with
    | error e =>
      simp only [Journal.step, hr] at hstep
      cases hstep
      exact h
    | ok out =>
      obtain ⟨store, wrote⟩ := out
      rw [step_record hr] at hstep
      cases hstep
      rcases recordPhaseSpan_cases hr with ⟨hx, rfl, rfl⟩ | ⟨hx, hid, rfl, rfl⟩
      · have hstands := (spanExists_iff h.recorded hc).mp hx
        refine ⟨h.wf, h.recorded, h.single,
          forall_mem_concat.mpr ⟨h.answered, ?_⟩, forall_mem_concat.mpr ⟨h.honest, ?_⟩⟩
        · exact hstands
        · exact fun _ => any_eq_true.mpr hstands
      · exact kept_pushSpan h hc hx hid
  | write t =>
    simp only [Journal.step] at hstep
    obtain ⟨hs, hstep⟩ := Option.ite_none_left_eq_some.mp hstep
    cases hi : j.store.insert t with
    | error e =>
      rw [hi] at hstep
      cases hstep
      exact h
    | ok store =>
      rw [hi] at hstep
      cases hstep
      obtain ⟨hfresh, rfl⟩ := Store.insert_ok hi
      refine kept_aside h (h.wf.push hfresh) ?_
      rw [Store.tuples_push, filter_append, filter_cons_of_neg hs, filter_nil, append_nil]
  | delete id =>
    simp only [Journal.step] at hstep
    obtain ⟨hs, hstep⟩ := Option.ite_none_left_eq_some.mp hstep
    cases hstep
    refine kept_aside h (h.wf.rewrite (Store.rewrites_filter _ _ _) rfl rfl) ?_
    rw [tuples_erase, filter_filter]
    apply filter_congr
    intro t ht
    rw [Bool.and_eq_left_iff_imp]
    intro hspan
    rw [Bool.not_eq_true, any_eq_false] at hs
    have hne := hs t ht
    simpa [hspan] using hne

end RatKingdom.Telemetry
