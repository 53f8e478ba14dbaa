/-
The factory events of a journal, read page by page.

A page is cut at the limit, and the next one starts above the row after the cut, so the pages
leave out every row at a multiple of one more than the limit (`pages_complete_iff`).
-/
import RatKingdom.Coordinator.Skipped

namespace RatKingdom.Coordinator

open Core List

namespace FactoryEventFilter

/-- A client of `factory.events.replay`: it asks again from the boundary of the reply while
the reply is truncated. -/
def pages (journal : Journal) : Nat → FactoryEventFilter → Option (List FactoryEvent)
  | 0, _ => none
  | fuel + 1, f =>
    let r := f.replayJournal journal
    if r.truncated then
      (pages journal fuel { f with after := r.boundary }).map fun later => r.events ++ later
    else some r.events

/-- What the client is to get. -/
def expected (f : FactoryEventFilter) (journal : Journal) : List FactoryEvent :=
  ((journal.filter fun e => isAbove f.after e.cursor).filterMap project).filter f.matches

def rows (f : FactoryEventFilter) (journal : Journal) : List CoordinatorEvent :=
  journal.filter fun e => asI64 (f.after.getD 0) < e.cursor

/-- The row at this place is not the one after a cut. -/
def OnPage (f : FactoryEventFilter) (i : Nat) : Prop := (i + 1) % (f.limitOf + 1) ≠ 0
deriving Decidable

/-- A row with an event that matches is on a page exactly when it is above the starting
point. -/
def Paged (f : FactoryEventFilter) (journal : Journal) : Prop :=
  ∀ i e, (f.rows journal)[i]? = some e → (project e).any f.matches = true →
    (f.OnPage i ↔ isAbove f.after e.cursor = true)

def event? (f : FactoryEventFilter) (e : CoordinatorEvent) : Option FactoryEvent :=
  (project e).filter f.matches

/-- What the pages say of rows of which the first is at the place `k`. -/
def said (f : FactoryEventFilter) (k : Nat) (rows : List CoordinatorEvent) : List FactoryEvent :=
  (rows.zipIdx k).filterMap fun p => if f.OnPage p.2 then f.event? p.1 else none

variable {journal : Journal} {e : CoordinatorEvent} {l : List CoordinatorEvent} {k : Nat}

theorem events_eq (f : FactoryEventFilter) (l : List CoordinatorEvent) :
    (l.filterMap project).filter f.matches = l.filterMap f.event? := filter_filterMap

theorem said_append (f : FactoryEventFilter) (k : Nat) (l m : List CoordinatorEvent) :
    f.said k (l ++ m) = f.said k l ++ f.said (k + l.length) m := by
  rw [said, zipIdx_append, filterMap_append]
  rfl

theorem said_period (f : FactoryEventFilter) (k : Nat) (l : List CoordinatorEvent) :
    f.said (k + (f.limitOf + 1)) l = f.said k l := by
  induction l generalizing k with
  | nil => rfl
  | cons e l ih =>
    have hsame : f.OnPage (k + (f.limitOf + 1)) ↔ f.OnPage k := by
      rw [OnPage, OnPage, Nat.add_right_comm k, Nat.add_mod_right]
    have hrest := ih (k + 1)
    rw [Nat.add_right_comm] at hrest
    have hcons : ∀ j, f.said j (e :: l) = f.said j [e] ++ f.said (j + 1) l := fun j =>
      f.said_append j [e] l
    rw [hcons, hcons, hrest]
    refine congrArg (· ++ f.said (k + 1) l) ?_
    show List.filterMap _ [(e, _)] = List.filterMap _ [(e, k)]
    simp only [filterMap_cons, hsame]

theorem said_page (f : FactoryEventFilter) (hl : l.length ≤ f.limitOf) :
    f.said 0 l = l.filterMap f.event? := by
  have hall : f.said 0 l = (l.zipIdx 0).filterMap fun p => f.event? p.1 := by
    refine filterMap_congr fun p hp => if_pos ?_
    have hlt := snd_lt_of_mem_zipIdx hp
    rw [OnPage, Nat.mod_eq_of_lt (by omega)]
    exact Nat.succ_ne_zero p.2
  conv => rhs; rw [← zipIdx_map_fst 0 l, filterMap_map]
  exact hall

theorem filter_above (hl : l.Pairwise fun a b => a.cursor < b.cursor) (h : l[k]? = some e) :
    (l.filter fun x => e.cursor < x.cursor) = l.drop (k + 1) := by
  obtain ⟨hk, he⟩ := List.getElem?_eq_some_iff.mp h
  have hsplit : l = l.take (k + 1) ++ l.drop (k + 1) := (take_append_drop _ _).symm
  rw [take_succ_eq_append_getElem hk, he] at hsplit
  rw [hsplit] at hl
  obtain ⟨hfront, -, hback⟩ := pairwise_append.mp hl
  obtain ⟨-, -, hbefore⟩ := pairwise_append.mp hfront
  have hdrop : ∀ x ∈ l.take k ++ [e], ¬ (decide (e.cursor < x.cursor)) = true := by
    intro x hx
    rw [decide_eq_true_iff]
    rcases mem_append.mp hx with hx | hx
    · exact Nat.lt_asymm (hbefore x hx e (mem_singleton_self e))
    · rw [mem_singleton.mp hx]
      exact Nat.lt_irrefl _
  have hkeep : ∀ x ∈ l.drop (k + 1), decide (e.cursor < x.cursor) = true := fun x hx =>
    decide_eq_true (hback e (mem_concat_self) x hx)
  conv => lhs; rw [hsplit]
  rw [filter_append, filter_eq_nil_iff.mpr hdrop, filter_eq_self.mpr hkeep, nil_append]

theorem sorted_rows (h : Sequenced journal) (f : FactoryEventFilter) :
    (f.rows journal).Pairwise fun a b => a.cursor < b.cursor :=
  h.sorted.sublist filter_sublist

theorem rows_next (h : Sequenced journal) (f : FactoryEventFilter)
    (hk : (f.rows journal)[k]? = some e) :
    rows { f with after := some e.cursor } journal = (f.rows journal).drop (k + 1) := by
  have he := mem_filter.mp (mem_of_getElem? hk)
  rw [← filter_above (sorted_rows h f) hk, rows, rows, filter_filter]
  refine filter_congr fun x hx => ?_
  rw [Option.getD_some, asI64_of_lt (h.fits e he.1), ← Bool.decide_and, decide_eq_decide]
  have habove := of_decide_eq_true he.2
  omega

/-- Asking again comes to an end, and the replies say what is on the pages. -/
theorem pages_eq (h : Sequenced journal) (f : FactoryEventFilter) (fuel : Nat)
    (hfuel : (f.rows journal).length < fuel) :
    pages journal fuel f = some (f.said 0 (f.rows journal)) := by
  induction fuel generalizing f with
  | zero => exact absurd hfuel (Nat.not_lt_zero _)
  | succ fuel ih =>
    have hscan : f.replayJournal journal =
      factoryReplay ((f.rows journal).take (f.limitOf + 1)) f := rfl
    have hevents : (f.replayJournal journal).events =
        ((f.rows journal).take f.limitOf).filterMap f.event? := by
      rw [hscan, ← events_eq]
      simp only [factoryReplay, take_take, Nat.min_eq_left (Nat.le_succ f.limitOf)]
    have hcut : (f.replayJournal journal).truncated =
        decide (f.limitOf < (f.rows journal).length) := by
      rw [hscan, factoryReplay, length_take]
      exact decide_eq_decide.mpr (by omega)
    by_cases hlt : f.limitOf < (f.rows journal).length
    · have he := getElem?_eq_getElem hlt
      generalize (f.rows journal)[f.limitOf] = e at he
      have hboundary : (f.replayJournal journal).boundary = some e.cursor := by
        have hlen : f.limitOf < ((f.rows journal).take (f.limitOf + 1)).length := by
          rw [length_take]
          omega
        rw [hscan, factoryReplay, boundaryOf, if_pos hlen,
          getElem?_take_of_lt (Nat.lt_succ_self _), he]
        rfl
      have hnext := rows_next h f he
      have hrec := ih { f with after := some e.cursor } (by
        rw [hnext, length_drop]
        omega)
      rw [pages, hcut, if_pos (decide_eq_true hlt), hboundary, hrec, hnext, hevents]
      -- The page ends before the row that the next one starts above.
      have hrows := (take_append_drop (f.limitOf + 1) (f.rows journal)).symm
      have hl : f.said (0 + ((f.rows journal).take f.limitOf).length) [e] = [] := by
        rw [length_take, Nat.min_eq_left (Nat.le_of_lt hlt), Nat.zero_add]
        simp [said, OnPage]
      rw [take_add_one, he] at hrows
      conv => rhs; rw [hrows]
      rw [said_append, said_append, Option.toList_some, hl, append_nil,
        said_page f (by rw [length_take]; omega)]
      have hlen : 0 + ((f.rows journal).take f.limitOf ++ [e]).length = 0 + (f.limitOf + 1) := by
        rw [length_append, length_take, Nat.min_eq_left (Nat.le_of_lt hlt)]
        rfl
      rw [hlen, said_period]
      rfl
    · rw [pages, hcut, if_neg (by simpa using hlt), hevents,
        take_of_length_le (Nat.le_of_not_lt hlt), said_page f (Nat.le_of_not_lt hlt)]

variable {ev : FactoryEvent}

theorem event?_eq_some {f : FactoryEventFilter} :
    f.event? e = some ev ↔ project e = some ev ∧ f.matches ev = true := Option.filter_eq_some_iff

theorem cursor_of_event? {f : FactoryEventFilter} (h : f.event? e = some ev) :
    ev.cursor = e.cursor := project_cursor (event?_eq_some.mp h).1

theorem expected_eq (h : Sequenced journal) (f : FactoryEventFilter) :
    f.expected journal = (f.rows journal).zipIdx.filterMap fun p =>
      if isAbove f.after p.1.cursor then f.event? p.1 else none := by
  have hrows : (journal.filter fun e => isAbove f.after e.cursor) =
      (f.rows journal).filter fun e => isAbove f.after e.cursor := by
    rw [rows, filter_filter]
    refine filter_congr fun e he => ?_
    cases ha : isAbove f.after e.cursor with
    | false => rfl
    | true =>
      have hlt := (isAbove_iff (h.positive e he)).mp ha
      have hcast := asI64_le (f.after.getD 0)
      exact (decide_eq_true (by omega)).symm
  rw [expected, events_eq, hrows, filterMap_filter]
  conv => lhs; rw [← zipIdx_map_fst 0 (f.rows journal)]
  rw [filterMap_map]
  rfl

theorem mem_selected (h : Sequenced journal) (f : FactoryEventFilter) {i : Nat}
    (hi : (f.rows journal)[i]? = some e) (hev : f.event? e = some ev)
    (p : CoordinatorEvent × Nat → Prop) [DecidablePred p] :
    (ev ∈ (f.rows journal).zipIdx.filterMap fun r => if p r then f.event? r.1 else none) ↔
      p (e, i) := by
  rw [mem_filterMap]
  constructor
  · intro ⟨r, hr, hsome⟩
    obtain ⟨hp, hrev⟩ := Option.ite_none_right_eq_some.mp hsome
    have hrow : (f.rows journal)[r.2]? = some r.1 := mem_zipIdx_iff_getElem?.mp hr
    have hcursor : r.1.cursor = e.cursor :=
      (cursor_of_event? hrev).symm.trans (cursor_of_event? hev)
    have heq : r.1 = e := h.eq_of_cursor (mem_filter.mp (mem_of_getElem? hrow)).1
      (mem_filter.mp (mem_of_getElem? hi)).1 hcursor
    have hnodup : (f.rows journal).Nodup := (sorted_rows h f).imp fun hlt heq' => by
      rw [heq'] at hlt
      exact Nat.lt_irrefl _ hlt
    have hplace : r.2 = i := (getElem?_inj (List.getElem?_eq_some_iff.mp hrow).1 hnodup).mp
      (by rw [hrow, hi, heq])
    rwa [← heq, ← hplace]
  · intro hp
    exact ⟨(e, i), mem_zipIdx_iff_getElem?.mpr hi, by rw [if_pos hp, hev]⟩

/-- The client gets what it is to get exactly when the rows that no page says, and only these
among the rows with an event that matches, are not above its starting point. -/
theorem pages_complete_iff (h : Sequenced journal) (f : FactoryEventFilter) {fuel : Nat}
    (hfuel : journal.length < fuel) :
    pages journal fuel f = some (f.expected journal) ↔ f.Paged journal := by
  rw [pages_eq h f fuel (Nat.lt_of_le_of_lt (length_filter_le _ _) hfuel), Option.some.injEq,
    expected_eq h f, said]
  constructor
  · intro heq i e hi hmatch
    obtain ⟨ev, hev, hok⟩ := (Option.any_eq_true _ _).mp hmatch
    have hevent : f.event? e = some ev := event?_eq_some.mpr ⟨hev, hok⟩
    rw [← mem_selected h f hi hevent fun r => f.OnPage r.2, heq, mem_selected h f hi hevent]
  · intro hpaged
    refine filterMap_congr fun p hp => ?_
    cases hev : f.event? p.1 with
    | none => rw [ite_self, ite_self]
    | some ev =>
      obtain ⟨hproject, hok⟩ := event?_eq_some.mp hev
      have hiff := hpaged p.2 p.1 (mem_zipIdx_iff_getElem?.mp hp)
        ((Option.any_eq_true _ _).mpr ⟨ev, hproject, hok⟩)
      simp only [hiff]

def factoryEvent (kind : String) : Tuple :=
  .new 0 0 .event "rat" "factory_event" "castle" (.object [("kind", .string kind)])

def twoEvents : Journal := [⟨1, factoryEvent "ticket_created"⟩, ⟨2, factoryEvent "ticket_closed"⟩]

theorem pages_complete_iff_two : pages twoEvents 3 {} = some (expected {} twoEvents) ↔
    Paged {} twoEvents :=
  pages_complete_iff ⟨by decide, by decide, by decide⟩ {} (by decide)

/-- Of two events, with a page of one, the second is the boundary of the first page. -/
theorem second_event_on_no_page :
    (pages twoEvents 3 { limit := some 1 }).map (·.map FactoryEvent.cursor) = some [1] ∧
      (expected { limit := some 1 } twoEvents).map FactoryEvent.cursor = [1, 2] := by
  decide +kernel

end FactoryEventFilter

end RatKingdom.Coordinator
