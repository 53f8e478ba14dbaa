/-
The attention item that is offered next.

`next_unsettled_attention` walks a report from behind the lease cursor to its end and then
once more from its start, past every violation it finds a terminal decision of.  A decision
is looked up by a text with the id as it is, in a payload that has the id with its escapes.
So where the id of a decided violation needs an escape, it is offered again (`offers_iff`).
-/
import Mathlib.Data.List.Find
import RatKingdom.Core.Search
import RatKingdom.Reconcile.Decide

namespace RatKingdom.Reconcile

open Core Space List

structure ConvergenceReport where
  scope : String
  violations : List Violation

structure AttentionItem where
  violation : Violation
  effectiveAuthority : Authority
  deriving DecidableEq

def behind (cursor : Option String) (v : Violation) : Bool := cursor.all fun c => c < v.id

def nextAttention (report : ConvergenceReport) (policy : AuthorityPolicy) (cursor : Option String) :
    Option AttentionItem :=
  (report.violations.find? (behind cursor)).map fun v => ⟨v, policy.effectiveAuthority v⟩

def decisionIdentity : String := "orchestrator_decision"

def findDecision (s : Store) (repo violationId : String) : Option Value :=
  let pattern : Pattern :=
    { category := some .event, identity := some decisionIdentity, scope := some repo,
      payloadSearch := some (fieldSearch "violation_id" violationId) }
  (((s.scan pattern).filter fun t => t.payload.getStr "violation_id" = some violationId).find?
    fun t => (t.payload.get "terminal").bind Value.asBool = some true).map Tuple.payload

/-- The loop of `next_unsettled_attention`.  No answer is a loop cut off. -/
def nextUnsettled (s : Store) (report : ConvergenceReport) (policy : AuthorityPolicy) :
    Nat → Option String → Bool → Option (Option AttentionItem)
  | 0, _, _ => none
  | fuel + 1, after, wrapped =>
    match nextAttention report policy after with
    | none => if wrapped then some none else nextUnsettled s report policy fuel none true
    | some item =>
      if (findDecision s report.scope item.violation.id).isNone then some (some item)
      else nextUnsettled s report policy fuel (some item.violation.id) wrapped

def nextUnsettledAttention (s : Store) (report : ConvergenceReport) (policy : AuthorityPolicy)
    (cursor : Option String) (fuel : Nat) : Option (Option AttentionItem) :=
  nextUnsettled s report policy fuel cursor cursor.isNone

def Settles (repo violationId : String) (t : Tuple) : Prop :=
  t.category = .event ∧ t.identity = decisionIdentity ∧ t.scope = repo ∧
    t.payload.getStr "violation_id" = some violationId ∧
      (t.payload.get "terminal").bind Value.asBool = some true
deriving Decidable

def decided (s : Store) (repo violationId : String) : Bool :=
  s.tuples.any fun t => Settles repo violationId t

def legible (s : Store) (repo violationId : String) : Bool :=
  s.tuples.any fun t => Settles repo violationId t ∧
    containsText t.payload.toText (fieldSearch "violation_id" violationId) = true

variable (s : Store) (report : ConvergenceReport) (policy : AuthorityPolicy)

def undecided : List Violation := report.violations.filter fun v => !decided s report.scope v.id

/-- The least undecided violation behind the cursor or else the least one. -/
def due (cursor : Option String) : Option AttentionItem :=
  (((undecided s report).find? (behind cursor)).or (undecided s report).head?).map fun v =>
    ⟨v, policy.effectiveAuthority v⟩

def walk (cursor : Option String) : List Violation :=
  report.violations.filter (behind cursor) ++ report.violations

variable {s report policy}

theorem findDecision_isNone (s : Store) (repo violationId : String) :
    (findDecision s repo violationId).isNone = !legible s repo violationId := by
  rw [Bool.eq_iff_iff, Option.isNone_iff_eq_none, findDecision, Option.map_eq_none_iff,
    find?_eq_none, Bool.not_eq_true', legible, any_eq_false]
  constructor
  · intro h t ht
    simp only [decide_eq_true_eq]
    rintro ⟨⟨hc, hi, hr, hv, hterm⟩, htext⟩
    refine h t (mem_filter.mpr ⟨Store.mem_scan.mpr ⟨ht, ?_⟩, decide_eq_true hv⟩) (decide_eq_true hterm)
    simp [Pattern.matches, admits, admitsText, hc, hi, hr, htext]
  · intro h t ht hterm
    obtain ⟨hscan, hv⟩ := mem_filter.mp ht
    obtain ⟨hm, hmatch⟩ := Store.mem_scan.mp hscan
    simp only [Pattern.matches, admits, admitsText, Bool.and_eq_true, decide_eq_true_eq] at hmatch
    exact h t hm (decide_eq_true ⟨⟨hmatch.1, hmatch.2.2.1, hmatch.2.1, of_decide_eq_true hv,
      of_decide_eq_true hterm⟩, hmatch.2.2.2.2.1⟩)

theorem decided_of_legible {repo violationId : String} (h : legible s repo violationId = true) :
    decided s repo violationId = true := by
  obtain ⟨t, ht, hd⟩ := any_eq_true.mp h
  exact any_eq_true.mpr ⟨t, ht, decide_eq_true (of_decide_eq_true hd).1⟩

/-- A decision shows an id that needs no escape. -/
theorem legible_of_plain {repo violationId : String} (hid : Plain violationId.toList)
    (h : decided s repo violationId = true) : legible s repo violationId = true := by
  obtain ⟨t, ht, hd⟩ := any_eq_true.mp h
  have hsettles : Settles repo violationId t := of_decide_eq_true hd
  obtain ⟨fields, hfields, hm⟩ := mem_of_getStr hsettles.2.2.2.1
  refine any_eq_true.mpr ⟨t, ht, decide_eq_true ⟨hsettles, ?_⟩⟩
  rw [hfields]
  exact contains_of_field (by decide) hid hm

def offered (s : Store) (report : ConvergenceReport) (cursor : Option String) : Option Violation :=
  report.violations.find? fun v => behind cursor v && !legible s report.scope v.id

variable {cursor : Option String} {v : Violation}

theorem behind_trans (h : behind cursor v = true) {x : Violation}
    (hx : behind (some v.id) x = true) : behind cursor x = true := by
  cases cursor with
  | none => rfl
  | some c => exact decide_eq_true ((of_decide_eq_true h).trans (of_decide_eq_true hx))

section
variable (hs : report.violations.Pairwise fun a b => a.id ≤ b.id)
  (h : report.violations.find? (behind cursor) = some v)
include hs h

theorem le_of_first {x : Violation} (hx : x ∈ report.violations) (hb : behind cursor x = true) :
    v.id ≤ x.id := by
  obtain ⟨hv, before, rest, hsplit, hbefore⟩ := find?_eq_some_iff_append.mp h
  rw [hsplit] at hx hs
  rcases mem_append.mp hx with hx | hx
  · have hno := hbefore x hx
    rw [hb] at hno
    cases hno
  · rcases mem_cons.mp hx with rfl | hx
    · exact le_rfl
    · exact (pairwise_cons.mp (pairwise_append.mp hs).2.1).1 x hx

theorem offered_next (hl : legible s report.scope v.id = true) :
    offered s report cursor = offered s report (some v.id) := by
  apply find?_congr
  intro x hx
  rw [Bool.eq_iff_iff, Bool.and_eq_true, Bool.and_eq_true]
  refine and_congr_left fun hopen => ⟨fun hc => ?_, behind_trans (find?_some h)⟩
  refine decide_eq_true (lt_of_le_of_ne (le_of_first hs h hx hc) fun he => ?_)
  rw [← he, hl] at hopen
  cases hopen

end

theorem countP_next (h : report.violations.find? (behind cursor) = some v) :
    report.violations.countP (behind (some v.id)) < report.violations.countP (behind cursor) := by
  obtain ⟨hv, before, rest, hsplit, -⟩ := find?_eq_some_iff_append.mp h
  have hle (l : List Violation) : l.countP (behind (some v.id)) ≤ l.countP (behind cursor) :=
    countP_mono_left fun x _ hx => behind_trans hv hx
  have hself : ¬ behind (some v.id) v = true := fun hb => lt_irrefl _ (of_decide_eq_true hb)
  rw [hsplit, countP_append, countP_append, countP_cons_of_neg hself, countP_cons_of_pos hv]
  have := hle before
  have := hle rest
  omega

theorem nextUnsettled_eq (hs : report.violations.Pairwise fun a b => a.id ≤ b.id)
    {fuel : Nat} {after : Option String} {wrapped : Bool}
    (hf : report.violations.countP (behind after) +
      (if wrapped then 0 else report.violations.length + 1) < fuel) :
    nextUnsettled s report policy fuel after wrapped = some (((offered s report after).or
      (if wrapped then none else offered s report none)).map fun v =>
        ⟨v, policy.effectiveAuthority v⟩) := by
  induction fuel generalizing after wrapped with
  | zero => omega
  | succ fuel ih =>
    unfold nextUnsettled nextAttention
    cases hn : report.violations.find? (behind after) with
    | none =>
      have hnone : offered s report after = none := by
        apply find?_eq_none.mpr
        intro x hx
        simp [find?_eq_none.mp hn x hx]
      rw [hnone]
      cases wrapped with
      | true => rfl
      | false =>
        rw [if_neg Bool.false_ne_true] at hf ⊢
        have hall := countP_le_length (p := behind none) (l := report.violations)
        show nextUnsettled s report policy fuel none true = _
        rw [ih (by rw [if_pos rfl]; omega)]
        simp
    | some v =>
      have hlt := countP_next hn
      rw [Option.map_some]
      dsimp only
      rw [findDecision_isNone]
      by_cases hl : legible s report.scope v.id = true
      · rw [hl, if_neg (by decide), ih (by omega), offered_next hs hn hl]
      · rw [Bool.not_eq_true] at hl
        have hsome : offered s report after = some v := by
          obtain ⟨hv, before, rest, hsplit, hbefore⟩ := find?_eq_some_iff_append.mp hn
          refine find?_eq_some_iff_append.mpr ⟨by simp [hv, hl], before, rest, hsplit, fun x hx => ?_⟩
          simp [(Bool.not_eq_true' _).mp (hbefore x hx)]
        rw [hl, hsome]
        rfl

theorem find?_not_eq_iff {α : Type} {p q : α → Bool} (hpq : ∀ x, p x = true → q x = true)
    (l : List α) : l.find? (fun x => !p x) = l.find? (fun x => !q x) ↔
      ∀ x ∈ l.takeWhile q, p x = true := by
  induction l with
  | nil => simp
  | cons x l ih =>
    cases hq : q x with
    | false =>
      have hp : p x = false := Bool.eq_false_iff.mpr fun hp => by simp [hpq x hp] at hq
      simp [hp, hq]
    | true =>
      cases hp : p x with
      | true => simpa [hp, hq] using ih
      | false =>
        have hne : some x ≠ l.find? fun x => !q x := by
          intro he
          have hsome := find?_some he.symm
          rw [hq] at hsome
          cases hsome
        simp [hp, hq, hne]

theorem find?_walk (p : Violation → Bool) (cursor : Option String) :
    (walk report cursor).find? p =
      (report.violations.find? fun v => behind cursor v && p v).or (report.violations.find? p) := by
  rw [walk, find?_append, find?_filter]
  simp only [Bool.decide_and, Bool.decide_eq_true]

/-- The walk always ends, with the least undecided violation behind the cursor or else the least
one exactly where each one it passes before has a decision that shows its id. -/
theorem offers_iff (s : Store) (report : ConvergenceReport) (policy : AuthorityPolicy)
    (cursor : Option String)
    (hs : report.violations.Pairwise fun a b => a.id ≤ b.id) :
    ∃ answer, (∀ fuel, 2 * report.violations.length + 1 < fuel →
        nextUnsettledAttention s report policy cursor fuel = some answer) ∧
      (answer = due s report policy cursor ↔
        ∀ v ∈ (walk report cursor).takeWhile fun v => decided s report.scope v.id,
          legible s report.scope v.id = true) := by
  refine ⟨((walk report cursor).find? fun v => !legible s report.scope v.id).map fun v =>
    ⟨v, policy.effectiveAuthority v⟩, fun fuel hf => ?_, ?_⟩
  · have hall := countP_le_length (p := behind cursor) (l := report.violations)
    rw [nextUnsettledAttention, nextUnsettled_eq hs (by split <;> omega), find?_walk]
    cases cursor with
    | none => simp [offered, behind]
    | some c => simp [offered, behind]
  · rw [← find?_not_eq_iff fun v => decided_of_legible, due, undecided, find?_filter, head?_filter,
      find?_walk, find?_walk]
    simp only [Bool.and_comm (behind cursor _), Bool.decide_and, Bool.decide_eq_true]
    exact (Option.map_injective fun v w h => (AttentionItem.mk.injEq .. ▸ h).1).eq_iff

def held (branch id : String) : Violation :=
  { id := "conflict-held-landing:barn:" ++ branch ++ ":" ++ id
    kind := "conflict-held-landing", scope := "barn", subject := branch, detail := "", evidence := []
    authority := .orchestrator }

def heldReport : ConvergenceReport :=
  { scope := "barn", violations := [held "rat/\"eaves\"" "1", held "rat/gutter" "2",
    held "rat/roof" "3"] }

def decisionOf (id : RecordId) (v : Violation) : Tuple :=
  Tuple.new id 0 .event "barn" decisionIdentity "castle"
    (.object [("terminal", .bool true), ("violation_id", .string v.id)])

/-- The first and the last of the three are decided, and the lease stands between them. -/
def heldStore : Store :=
  (Store.empty.push (decisionOf 1 (held "rat/\"eaves\"" "1"))).push (decisionOf 2 (held "rat/roof" "3"))

def heldCursor : Option String := some (held "rat/gutter" "2").id

theorem settled_offered_again :
    due heldStore heldReport {} heldCursor = some ⟨held "rat/gutter" "2", .orchestrator⟩ ∧
      nextUnsettledAttention heldStore heldReport {} heldCursor 8 =
        some (some ⟨held "rat/\"eaves\"" "1", .orchestrator⟩) :=
  ⟨by decide, by decide +kernel⟩

theorem offers_iff_quoted : ∃ answer, (∀ fuel, 7 < fuel →
      nextUnsettledAttention heldStore heldReport {} heldCursor fuel = some answer) ∧
    (answer = due heldStore heldReport {} heldCursor ↔
      ∀ v ∈ (walk heldReport heldCursor).takeWhile fun v => decided heldStore "barn" v.id,
        legible heldStore "barn" v.id = true) :=
  offers_iff heldStore heldReport {} heldCursor (by decide)

end RatKingdom.Reconcile
