/-
Which coordinator events a watching client does not get.

The stream drops what is not above its cursor, so an event is lost where the client takes a
later one out of the feed first, and a reply is out of order where the reports of one agent
enclose what another one said.  Without either the client gets every event it waits for
(`nothingSkipped_iff`).
-/
import RatKingdom.Coordinator.Watch

namespace RatKingdom.Coordinator

open Core Lib List Option Client State CoordinatorEvent

def Client.Expects (c : Client) (e : CoordinatorEvent) : Prop :=
  c.request.wants e = true ∧ isAbove c.start e.cursor = true
deriving Decidable

/-- A rollup report replaced in the reply by a later one of its instance and agent. -/
def State.Replaced (s : State) (e : CoordinatorEvent) : Prop :=
  ∃ r ∈ s.journal, r.cursor ∈ s.client.reply ∧ SameLine rollupKey e r ∧ e.cursor < r.cursor
deriving Decidable

/-- The event is on its way, and the stream has not gone past it. -/
def State.ToCome (s : State) (e : CoordinatorEvent) : Prop :=
  (e.cursor ∈ s.writers.map CoordinatorEvent.cursor ∨
    e.cursor ∈ s.client.feed.map CoordinatorEvent.cursor) ∧
    isAbove s.client.cursor e.cursor = true
deriving Decidable

def Client.warned (c : Client) : Bool := c.noticed || 0 < c.missed

/-- From the reply on the client has got, each once and in order, what it is to get. -/
def NothingSkipped (s : State) : Prop :=
  s.client.warned = true ∨ s.client.replied = false ∨
    s.client.received.Pairwise (· < ·) ∧ ∀ e ∈ s.journal, s.client.Expects e →
      e.cursor ∈ s.client.received ∨ s.Replaced e ∨ s.ToCome e
deriving Decidable

/-- No event the client waits for lies between its cursor and the event at the head of the
feed, when it takes that one. -/
def InTurn (s : State) (e : CoordinatorEvent) : Prop :=
  s.client.delivers e = true → ∀ x ∈ s.journal, s.client.Expects x →
    isAbove s.client.cursor x.cursor = true → e.cursor ≤ x.cursor
deriving Decidable

/-- The reports of one instance and agent enclose no other event of the reply, unless its
own line of reports reaches beyond them. -/
def Unenclosed (journal : Journal) (f : CoordinatorFilter) : Prop :=
  f.after.isSome = true → maxReplayEvents < (eventsAfter journal f.after (maxReplayEvents + 1)).length ∨
    Unnested rollupKey cursor (f.replayed (eventsAfter journal f.after (maxReplayEvents + 1)))
deriving Decidable

def InOrder (s : State) : Label → Prop
  | .scan =>
    match s.client.request with
    | .coordinator f => s.client.warned = true ∨ Unenclosed s.journal f
    | .factory _ => True
  | .recv =>
    match s.client.feed with
    | [] => True
    | e :: _ => s.client.warned = true ∨ InTurn s e
  | _ => True

theorem isAbove_iff {seen : Option Nat} {cursor : Nat} (h : 0 < cursor) :
    isAbove seen cursor = true ↔ seen.getD 0 < cursor := by
  cases seen with
  | none => simp [isAbove, h]
  | some seen => simp [isAbove]

theorem maxCursor_getD (a b : Option Nat) : (maxCursor a b).getD 0 = max (a.getD 0) (b.getD 0) := by
  cases a <;> cases b <;> simp [maxCursor]

theorem asI64_le (n : Nat) : asI64 n ≤ n := by
  unfold asI64
  split
  · exact Int.le_refl _
  · omega

theorem asI64_of_lt {n : Nat} (h : n < 2 ^ 63) : asI64 n = n := if_pos h

variable {journal : Journal} {e : CoordinatorEvent}

theorem le_latestSequence (h : e ∈ journal) : e.cursor ≤ (latestSequence journal).getD 0 := by
  have hmem : e.cursor ∈ journal.map CoordinatorEvent.cursor := mem_map_of_mem h
  cases hm : latestSequence journal with
  | none =>
    rw [latestSequence, max?_eq_none_iff] at hm
    rw [hm] at hmem
    cases hmem
  | some m => exact (max?_eq_some_iff.mp hm).2 e.cursor hmem

theorem latestSequence_le {n : Nat} (h : ∀ e ∈ journal, e.cursor ≤ n) :
    (latestSequence journal).getD 0 ≤ n := by
  cases hm : latestSequence journal with
  | none => exact Nat.zero_le n
  | some m =>
    obtain ⟨e, he, heq⟩ := mem_map.mp (max?_eq_some_iff.mp hm).1
    rw [getD_some, ← heq]
    exact h e he

theorem latestSequence_append (journal : Journal) (e : CoordinatorEvent) :
    (latestSequence journal).getD 0 ≤ (latestSequence (journal ++ [e])).getD 0 :=
  latestSequence_le fun _ hx => le_latestSequence (mem_append_left _ hx)

/-- Cursors are positive, fit in an `i64` and increase along the journal. -/
structure Sequenced (journal : Journal) : Prop where
  sorted : journal.Pairwise fun a b => a.cursor < b.cursor
  positive : ∀ e ∈ journal, 0 < e.cursor
  fits : ∀ e ∈ journal, e.cursor < 2 ^ 63

theorem Sequenced.insert (h : Sequenced journal) {t : Tuple}
    (he : insertCoordinator journal t = some e) :
    Sequenced (journal ++ [e]) ∧ ∀ x ∈ journal, x.cursor < e.cursor := by
  unfold insertCoordinator at he
  obtain ⟨hfits, he⟩ := ite_none_right_eq_some.mp he
  have hcursor : e.cursor = nextSequence journal := by
    cases he
    rfl
  have hnew : ∀ x ∈ journal, x.cursor < e.cursor := by
    intro x hx
    have := le_latestSequence hx
    rw [hcursor, nextSequence]
    omega
  refine ⟨⟨?_, fun x hx => ?_, fun x hx => ?_⟩, hnew⟩
  · refine pairwise_append.mpr ⟨h.sorted, pairwise_singleton _ _, fun x hx y hy => ?_⟩
    rw [mem_singleton.mp hy]
    exact hnew x hx
  · rcases mem_append.mp hx with hx | hx
    · exact h.positive x hx
    · rw [mem_singleton.mp hx, hcursor, nextSequence]
      omega
  · rcases mem_append.mp hx with hx | hx
    · exact h.fits x hx
    · rw [mem_singleton.mp hx, hcursor]
      exact hfits

/-- What a scan that was not cut says of the journal. -/
structure Scanned (journal : Journal) (after : Option Nat) (scanned : List CoordinatorEvent)
    (boundary : Option Nat) : Prop where
  sublist : scanned.Sublist journal
  all : ∀ e ∈ journal, isAbove after e.cursor = true → e ∈ scanned
  above : ∀ e ∈ scanned, asI64 (after.getD 0) < e.cursor
  le : ∀ e ∈ scanned, e.cursor ≤ boundary.getD 0
  bound : boundary.getD 0 ≤ max ((latestSequence journal).getD 0) (after.getD 0)
  last : scanned ≠ [] → ∃ e ∈ scanned, boundary = some e.cursor

theorem scanned_of_uncut (h : Sequenced journal) {after : Option Nat} {limit : Nat}
    (hcut : ¬ limit < (eventsAfter journal after (limit + 1)).length) :
    Scanned journal after (eventsAfter journal after (limit + 1))
      (boundaryOf (eventsAfter journal after (limit + 1)) limit after) := by
  generalize hscan : eventsAfter journal after (limit + 1) = scanned at hcut ⊢
  have hfull : scanned = journal.filter fun e => asI64 (after.getD 0) < e.cursor := by
    rw [← hscan, eventsAfter] at hcut ⊢
    rw [length_take] at hcut
    exact take_of_length_le (by omega)
  have hsub : scanned.Sublist journal := by
    rw [hfull]
    exact filter_sublist
  have hboundary : boundaryOf scanned limit after =
      (scanned.getLast?.map CoordinatorEvent.cursor).or after := by
    rw [boundaryOf, if_neg hcut, getLast?_eq_getElem?]
  refine ⟨hsub, fun e he habove => ?_, fun e he => ?_, fun e he => ?_, ?_, fun hne => ?_⟩
  · rw [hfull]
    have hlt := (isAbove_iff (h.positive e he)).mp habove
    have hcast := asI64_le (after.getD 0)
    exact mem_filter.mpr ⟨he, decide_eq_true (by omega)⟩
  · rw [hfull] at he
    exact of_decide_eq_true (mem_filter.mp he).2
  · obtain ⟨before, last, rfl⟩ := eq_nil_or_concat scanned |>.resolve_left (ne_nil_of_mem he)
    rw [hboundary, concat_eq_append, getLast?_concat]
    have hsorted := h.sorted.sublist hsub
    rw [concat_eq_append] at hsorted he
    show e.cursor ≤ last.cursor
    rcases mem_append.mp he with he | he
    · exact Nat.le_of_lt ((pairwise_append.mp hsorted).2.2 e he last (mem_singleton_self last))
    · rw [mem_singleton.mp he]
  · rw [hboundary]
    cases hl : scanned.getLast? with
    | none => exact Nat.le_max_right _ _
    | some last =>
      have hm := hsub.mem (mem_of_getLast? hl)
      exact Nat.le_trans (le_latestSequence hm) (Nat.le_max_left _ _)
  · refine ⟨scanned.getLast hne, getLast_mem hne, ?_⟩
    rw [hboundary, getLast?_eq_some_getLast hne]
    rfl

/-- The event was put in the journal and has not reached the handler. -/
def State.OnWay (s : State) (e : CoordinatorEvent) : Prop :=
  e.cursor ∈ s.writers.map CoordinatorEvent.cursor ∨
    e.cursor ∈ s.client.feed.map CoordinatorEvent.cursor

structure Caught (s : State) : Prop where
  covered : ∀ e ∈ s.journal, s.client.Expects e → isAbove s.client.cursor e.cursor = true →
    s.OnWay e
  done : ∀ e ∈ s.journal, s.client.Expects e → isAbove s.client.cursor e.cursor = false →
    e.cursor ∈ s.client.received ∨ s.Replaced e
  order : s.client.received.Pairwise (· < ·)
  below : ∀ c ∈ s.client.received, c ≤ s.client.cursor.getD 0
  reply : ∀ c ∈ s.client.reply, c ∈ s.client.received
  bound : s.client.cursor.getD 0 ≤ max ((latestSequence s.journal).getD 0) (s.client.start.getD 0)

def Good (s : State) : Prop := match s.client.phase with
  | .connecting => True
  | .subscribed => True
  | .baselined baseline => baseline.getD 0 ≤ (latestSequence s.journal).getD 0 ∧
      ∀ e ∈ s.journal, baseline.getD 0 < e.cursor → s.OnWay e
  | .replied => Caught s ∧ (s.client.received ≠ [] → s.client.cursor.getD 0 < 2 ^ 63)
  | .streaming => Caught s
  | .closed => False

structure Inv (s : State) : Prop where
  sequenced : Sequenced s.journal
  writers : ∀ e ∈ s.writers, e ∈ s.journal
  feed : ∀ e ∈ s.client.feed, e ∈ s.journal
  good : s.client.warned = false → Good s

theorem inv_init (request : Request) : Inv (init request) :=
  ⟨⟨List.Pairwise.nil, fun e h => (by cases h), fun e h => (by cases h)⟩,
    fun e h => (by cases h), fun e h => (by cases h), fun _ => trivial⟩

variable {s : State}

theorem Inv.nothingSkipped (h : Inv s) : NothingSkipped s := by
  cases hw : s.client.warned with
  | true => exact .inl hw
  | false =>
    refine .inr ?_
    have hgood := h.good hw
    have hcaught : Caught s → s.client.received.Pairwise (· < ·) ∧
        ∀ e ∈ s.journal, s.client.Expects e →
          e.cursor ∈ s.client.received ∨ s.Replaced e ∨ s.ToCome e := by
      intro hc
      refine ⟨hc.order, fun e he hexp => ?_⟩
      cases ha : isAbove s.client.cursor e.cursor with
      | true => exact .inr (.inr ⟨hc.covered e he hexp ha, ha⟩)
      | false =>
        rcases hc.done e he hexp ha with hr | hr
        · exact .inl hr
        · exact .inr (.inl hr)
    unfold Good at hgood
    cases hp : s.client.phase with
    | connecting | subscribed | baselined baseline => exact .inl (by rw [replied, hp]; rfl)
    | replied =>
      rw [hp] at hgood
      exact .inr (hcaught hgood.1)
    | streaming =>
      rw [hp] at hgood
      exact .inr (hcaught hgood)
    | closed =>
      rw [hp] at hgood
      exact hgood.elim

theorem Sequenced.eq_of_cursor (h : Sequenced journal) {x y : CoordinatorEvent} (hx : x ∈ journal)
    (hy : y ∈ journal) (heq : x.cursor = y.cursor) : x = y :=
  eq_of_pos h.sorted hx hy heq

theorem Caught.insert (h : Caught s) (hpos : 0 < e.cursor)
    (hnew : ∀ x ∈ s.journal, x.cursor < e.cursor) :
    Caught { s with journal := s.journal ++ [e], writers := s.writers ++ [e] } := by
  refine ⟨fun x hx hexp ha => ?_, fun x hx hexp ha => ?_, h.order, h.below, h.reply, ?_⟩
  · rcases mem_append.mp hx with hx | hx
    · rcases h.covered x hx hexp ha with hw | hf
      · exact .inl (by rw [map_append]; exact mem_append_left _ hw)
      · exact .inr hf
    · rw [mem_singleton.mp hx]
      exact .inl (by simp)
  · rcases mem_append.mp hx with hx | hx
    · rcases h.done x hx hexp ha with hr | ⟨r, hr, hrest⟩
      · exact .inl hr
      · exact .inr ⟨r, mem_append_left _ hr, hrest⟩
    · -- A new event below the cursor is below the starting point too.
      have hxe : x = e := mem_singleton.mp hx
      have hcur : ¬ s.client.cursor.getD 0 < e.cursor := by
        rw [← isAbove_iff hpos, ← hxe]
        exact Bool.eq_false_iff.mp ha
      have hstart : s.client.start.getD 0 < e.cursor := by
        rw [← isAbove_iff hpos, ← hxe]
        exact hexp.2
      have hlatest : (latestSequence s.journal).getD 0 < e.cursor := by
        cases hm : latestSequence s.journal with
        | none => exact hpos
        | some m =>
          obtain ⟨y, hy, heq⟩ := mem_map.mp (max?_eq_some_iff.mp hm).1
          rw [getD_some, ← heq]
          exact hnew y hy
      have hbound := h.bound
      omega
  · have hgrow := latestSequence_append s.journal e
    have hbound := h.bound
    show s.client.cursor.getD 0 ≤
      max ((latestSequence (s.journal ++ [e])).getD 0) (s.client.start.getD 0)
    omega

theorem Inv.insert (h : Inv s) {t : Tuple} (he : insertCoordinator s.journal t = some e) :
    Inv { s with journal := s.journal ++ [e], writers := s.writers ++ [e] } := by
  obtain ⟨hseq, hnew⟩ := h.sequenced.insert he
  have hl : e ∈ s.journal ++ [e] := mem_concat_self
  have hpos := hseq.positive e hl
  refine ⟨hseq, fun x hx => ?_, fun x hx => mem_append_left _ (h.feed x hx), fun hw => ?_⟩
  · rcases mem_append.mp hx with hx | hx
    · exact mem_append_left _ (h.writers x hx)
    · rw [mem_singleton.mp hx]
      exact hl
  · have hgood := h.good hw
    unfold Good at hgood ⊢
    dsimp only
    split at hgood
    · trivial
    · trivial
    · rename_i baseline hp
      obtain ⟨hle, hway⟩ := hgood
      refine ⟨Nat.le_trans hle (latestSequence_append s.journal e), fun x hx hlt => ?_⟩
      rcases mem_append.mp hx with hx | hx
      · rcases hway x hx hlt with hw | hf
        · exact .inl (by rw [map_append]; exact mem_append_left _ hw)
        · exact .inr hf
      · rw [mem_singleton.mp hx]
        exact .inl (by simp)
    · exact ⟨hgood.1.insert hpos hnew, hgood.2⟩
    · exact hgood.insert hpos hnew
    · exact hgood

theorem Good.frame {s' : State} (h : Good s) (hj : s'.journal = s.journal)
    (hc : s'.client = { s.client with feed := s'.client.feed })
    (hway : ∀ x, s.OnWay x → s'.OnWay x) : Good s' := by
  obtain ⟨journal', writers', client'⟩ := s'
  obtain ⟨journal, writers, client⟩ := s
  dsimp only at hj hc
  subst hj
  have hcaught : Caught ⟨journal', writers, client⟩ → Caught ⟨journal', writers', client'⟩ := by
    intro hcaught
    rw [hc] at hway ⊢
    exact ⟨fun x hx hexp ha => hway x (hcaught.covered x hx hexp ha), hcaught.done, hcaught.order,
      hcaught.below, hcaught.reply, hcaught.bound⟩
  have hph : client'.phase = client.phase := by rw [hc]
  have hcursor : client'.cursor = client.cursor := by rw [hc]
  have hreceived : client'.received = client.received := by rw [hc]
  unfold Good at h ⊢
  rw [hph]
  cases hp : client.phase with
  | connecting | subscribed => trivial
  | baselined baseline =>
    rw [hp] at h
    exact ⟨h.1, fun x hx hlt => hway x (h.2 x hx hlt)⟩
  | replied =>
    rw [hp] at h
    rw [hcursor, hreceived]
    exact ⟨hcaught h.1, h.2⟩
  | streaming =>
    rw [hp] at h
    exact hcaught h
  | closed =>
    rw [hp] at h
    exact h

theorem mem_or_mem_eraseIdx {α : Type} {l : List α} {i : Nat} {a x : α} (h : l[i]? = some a)
    (hx : x ∈ l) : x = a ∨ x ∈ l.eraseIdx i := by
  obtain ⟨j, hj, rfl⟩ := mem_iff_getElem.mp hx
  by_cases hij : j = i
  · subst hij
    rw [getElem?_eq_getElem hj] at h
    exact .inl (some.inj h)
  · exact .inr (mem_eraseIdx_iff_getElem.mpr ⟨j, hj, hij, rfl⟩)

theorem Client.push_feed {c : Client} (hl : c.listening = true) (hw : (c.push e).warned = false) :
    c.push e = { c with feed := c.feed ++ [e] } := by
  unfold push at hw ⊢
  rw [hl] at hw ⊢
  by_cases hlen : c.feed.length < feedCapacity
  · simp [hlen]
  · simp [hlen, warned] at hw

theorem Client.push_cases (c : Client) (e : CoordinatorEvent) :
    (c.push e).request = c.request ∧ (∀ x ∈ (c.push e).feed, x ∈ c.feed ∨ x = e) ∧
      ((c.push e).warned = false → c.warned = false) := by
  unfold push
  split
  · exact ⟨rfl, fun x hx => .inl hx, fun h => h⟩
  · split
    · refine ⟨rfl, fun x hx => ?_, fun h => h⟩
      simpa using hx
    · refine ⟨rfl, fun x hx => ?_, fun h => ?_⟩
      · simpa using mem_of_mem_tail hx
      · simp [warned] at h

theorem Inv.broadcast (h : Inv s) {i : Nat} (he : s.writers[i]? = some e) :
    Inv { s with writers := s.writers.eraseIdx i, client := s.client.push e } := by
  obtain ⟨hrequest, hfeed, hwarned⟩ := s.client.push_cases e
  refine ⟨h.sequenced, fun x hx => h.writers x (mem_of_mem_eraseIdx hx), fun x hx => ?_,
    fun hw => ?_⟩
  · rcases hfeed x hx with hx | rfl
    · exact h.feed x hx
    · exact h.writers x (mem_of_getElem? he)
  · have hgood := h.good (hwarned hw)
    cases hl : s.client.listening with
    | true =>
      have hpush := push_feed hl hw
      refine hgood.frame rfl (by rw [hpush]) fun x hx => ?_
      unfold State.OnWay at hx ⊢
      rw [hpush]
      rcases hx with hx | hx
      · obtain ⟨y, hy, hyx⟩ := mem_map.mp hx
        rcases mem_or_mem_eraseIdx he hy with rfl | hy
        · exact .inr (by simp [hyx])
        · exact .inl (mem_map.mpr ⟨y, hy, hyx⟩)
      · exact .inr (by rw [map_append]; exact mem_append_left _ hx)
    | false =>
      have hph : s.client.phase = .connecting ∨ s.client.phase = .closed := by
        by_cases hp : s.client.phase = .connecting
        · exact .inl hp
        · exact .inr (by simpa [listening, hp] using hl)
      have hpush : s.client.push e = s.client := by
        unfold push
        rw [hl]
        rfl
      unfold Good at hgood ⊢
      rw [hpush]
      rcases hph with hp | hp
      · rw [hp]
        trivial
      · rw [hp] at hgood
        exact hgood.elim

theorem caught_of_scan (s : State) (hs : Sequenced s.journal) {scanned : List CoordinatorEvent}
    {boundary : Option Nat} (hscan : Scanned s.journal s.client.start scanned boundary)
    (hcursor : boundary.getD 0 ≤ s.client.cursor.getD 0)
    (hbound : s.client.cursor.getD 0 ≤
      max ((latestSequence s.journal).getD 0) (s.client.start.getD 0))
    (hreply : s.client.reply = s.client.received)
    (hsent : ∀ e ∈ scanned, s.client.request.wants e = true →
      e.cursor ∈ s.client.received ∨ s.Replaced e)
    (horder : s.client.received.Pairwise (· < ·))
    (hfrom : ∀ c ∈ s.client.received, ∃ e ∈ scanned, e.cursor = c) : Caught s := by
  refine ⟨fun e he hexp ha => ?_, fun e he hexp _ => ?_, horder, fun c hc => ?_, fun c hc => ?_,
    hbound⟩
  · have hlt := (isAbove_iff (hs.positive e he)).mp ha
    have hle := hscan.le e (hscan.all e he hexp.2)
    omega
  · exact hsent e (hscan.all e he hexp.2) hexp.1
  · obtain ⟨e, he, rfl⟩ := hfrom c hc
    exact Nat.le_trans (hscan.le e he) hcursor
  · rw [hreply] at hc
    exact hc

theorem project_cursor {f : FactoryEvent} (h : project e = some f) : f.cursor = e.cursor := by
  unfold project at h
  dsimp only at h
  split at h
  · cases h
  · obtain ⟨kind, -, rfl⟩ := map_eq_some_iff.mp h
    rfl

theorem factory_cursors (f : FactoryEventFilter) (rows : List CoordinatorEvent) :
    ((rows.filterMap project).filter f.matches).map FactoryEvent.cursor =
      (rows.filter fun e => (Request.factory f).wants e).map CoordinatorEvent.cursor := by
  induction rows with
  | nil => rfl
  | cons e rows ih =>
    have hwants : (Request.factory f).wants e = (project e).any f.matches := rfl
    cases hp : project e with
    | none =>
      rw [filterMap_cons_none hp, filter_cons, hwants, hp, if_neg (by simp), ih]
    | some g =>
      rw [filterMap_cons_some hp, filter_cons, filter_cons, hwants, hp]
      cases hm : f.matches g with
      | true => simp [hm, ih, project_cursor hp]
      | false => simp [hm, ih]

section
variable {s : State} {f : FactoryEventFilter}

theorem factoryReplay_uncut {journal : Journal} (hs : Sequenced journal)
    (hcut : (f.replayJournal journal).truncated = false) :
    ∃ scanned, Scanned journal f.after scanned (f.replayJournal journal).boundary ∧
      (f.replayJournal journal).events.map FactoryEvent.cursor =
        (scanned.filter fun e => (Request.factory f).wants e).map CoordinatorEvent.cursor := by
  have hlimit : ¬ f.limitOf < (eventsAfter journal f.after (f.limitOf + 1)).length := by
    simpa [FactoryEventFilter.replayJournal, factoryReplay] using hcut
  refine ⟨_, scanned_of_uncut hs hlimit, ?_⟩
  show ((((eventsAfter journal f.after (f.limitOf + 1)).take f.limitOf).filterMap project).filter
    f.matches).map FactoryEvent.cursor = _
  rw [take_of_length_le (by omega), factory_cursors]

theorem pairwise_cursors {journal rows : List CoordinatorEvent} (hs : Sequenced journal)
    (hsub : rows.Sublist journal) : (rows.map CoordinatorEvent.cursor).Pairwise (· < ·) :=
  pairwise_map.mpr (hs.sorted.sublist hsub)

theorem Inv.replyFactory (h : Inv s) (hrequest : s.client.request = .factory f) :
    Inv (s.withClient (s.client.replyFactory f s.journal)) := by
  refine ⟨h.sequenced, h.writers, h.feed, fun hw => ?_⟩
  have hcut : (f.replayJournal s.journal).truncated = false := by
    simp only [withClient, Client.replyFactory, Client.warned, Bool.or_eq_false_iff] at hw
    exact hw.1.2
  obtain ⟨scanned, hscan, hcursors⟩ := factoryReplay_uncut h.sequenced hcut
  have hcursor : ((f.replayJournal s.journal).boundary.or f.after).getD 0 =
      (f.replayJournal s.journal).boundary.getD 0 := by
    cases hb : (f.replayJournal s.journal).boundary with
    | some b => rfl
    | none =>
      have hafter : f.after = none := by
        have hor : boundaryOf _ _ f.after = none := hb
        rw [boundaryOf, or_eq_none_iff] at hor
        exact hor.2
      rw [hafter]
      rfl
  have hcaught : Caught (s.withClient (s.client.replyFactory f s.journal)) := by
    apply caught_of_scan (s.withClient (s.client.replyFactory f s.journal)) h.sequenced hscan
    · show _ ≤ ((f.replayJournal s.journal).boundary.or f.after).getD 0
      omega
    · show ((f.replayJournal s.journal).boundary.or f.after).getD 0 ≤ _
      rw [hcursor]
      exact hscan.bound
    · rfl
    · intro e he hwants
      refine .inl ?_
      show e.cursor ∈ (f.replayJournal s.journal).events.map FactoryEvent.cursor
      rw [hcursors]
      have hwants' : (Request.factory f).wants e = true := hrequest ▸ hwants
      exact mem_map_of_mem (mem_filter.mpr ⟨he, hwants'⟩)
    · show ((f.replayJournal s.journal).events.map FactoryEvent.cursor).Pairwise (· < ·)
      rw [hcursors]
      exact pairwise_cursors h.sequenced (filter_sublist.trans hscan.sublist)
    · intro c hc
      have hc' : c ∈ (f.replayJournal s.journal).events.map FactoryEvent.cursor := hc
      rw [hcursors] at hc'
      obtain ⟨e, he, rfl⟩ := mem_map.mp hc'
      exact ⟨e, (mem_filter.mp he).1, rfl⟩
  refine ⟨hcaught, fun hne => ?_⟩
  -- A reply that holds an event ends in a cursor of the journal.
  show ((f.replayJournal s.journal).boundary.or f.after).getD 0 < 2 ^ 63
  have hscanned : scanned ≠ [] := by
    intro hnil
    apply hne
    show (f.replayJournal s.journal).events.map FactoryEvent.cursor = []
    rw [hcursors, hnil]
    rfl
  obtain ⟨e, he, hb⟩ := hscan.last hscanned
  rw [hcursor, hb]
  exact h.sequenced.fits e (hscan.sublist.mem he)

end

section
variable {s : State} {f : CoordinatorFilter} {baseline : Option Nat}

theorem Inv.replyLatest (h : Inv s) (hph : s.client.phase = .baselined baseline)
    (hafter : f.after = none) :
    Inv (s.withClient (s.client.replyCoordinator f s.journal baseline)) := by
  have hreply : s.client.replyCoordinator f s.journal baseline = { s.client with
        phase := .streaming, cursor := baseline, start := baseline, reply := [], received := []
        noticed := s.client.noticed } := by
    simp [replyCoordinator, hafter, replay, boundaryOf, CoordinatorFilter.replayed, coalesce,
      maxCursor]
  rw [hreply]
  refine ⟨h.sequenced, h.writers, h.feed, fun hw => ?_⟩
  have hgood := h.good hw
  rw [Good, hph] at hgood
  obtain ⟨hle, hway⟩ := hgood
  show Caught _
  refine ⟨fun e he _ ha => ?_, fun e _ hexp ha => ?_, List.Pairwise.nil, fun c hc => ?_,
    fun c hc => ?_, ?_⟩
  · exact hway e he ((isAbove_iff (h.sequenced.positive e he)).mp ha)
  · have habove : isAbove baseline e.cursor = true := hexp.2
    have hnot : isAbove baseline e.cursor = false := ha
    rw [habove] at hnot
    cases hnot
  · cases hc
  · cases hc
  · exact Nat.le_trans hle (Nat.le_max_left _ _)

variable (f) in
theorem reply_ordered_iff {scanned : List CoordinatorEvent} (hs : Sequenced s.journal)
    (hsub : scanned.Sublist s.journal) :
    ((replay scanned f).events.map CoordinatorEvent.cursor).Pairwise (· < ·) ↔
      Unnested rollupKey CoordinatorEvent.cursor (f.replayed scanned) := by
  have hrows : (f.replayed scanned).Pairwise fun a b => a.cursor < b.cursor :=
    hs.sorted.sublist ((filter_sublist.trans (take_sublist _ _)).trans hsub)
  rw [pairwise_map]
  exact coalesce_sorted_iff hrows

/-- A starting point of the request: the reply holds the scan, the older reports replaced. -/
theorem Inv.replyAfter (h : Inv s) (hrequest : s.client.request = .coordinator f)
    (hph : s.client.phase = .baselined baseline) (hafter : f.after.isSome = true)
    (hin : s.client.warned = true ∨ Unenclosed s.journal f) :
    Inv (s.withClient (s.client.replyCoordinator f s.journal baseline)) := by
  refine ⟨h.sequenced, h.writers, h.feed, fun hw => ?_⟩
  generalize hscanned : eventsAfter s.journal f.after (maxReplayEvents + 1) = scanned
  have hreply : s.client.replyCoordinator f s.journal baseline = { s.client with
        phase := .streaming, cursor := maxCursor baseline (replay scanned f).boundary
        start := f.after, reply := (replay scanned f).events.map cursor
        received := (replay scanned f).events.map cursor
        noticed := s.client.noticed || (replay scanned f).truncated } := by
    simp only [replyCoordinator, hafter, if_true, hscanned]
    rw [or_of_isSome hafter]
  rw [hreply] at hw ⊢
  -- No notice was sent, so the scan was not cut.
  have hcut : ¬ maxReplayEvents < scanned.length := by
    simp only [withClient, warned, replay, Bool.or_eq_false_iff] at hw
    simpa using hw.1.2
  have hw' : s.client.warned = false := by
    simp only [withClient, warned, Bool.or_eq_false_iff] at hw ⊢
    exact ⟨hw.1.1, hw.2⟩
  have hgood := h.good hw'
  rw [Good, hph] at hgood
  have hunnested : Unnested rollupKey cursor (f.replayed scanned) := by
    rcases hin with hin | hin
    · rw [hw'] at hin
      cases hin
    · rcases hin hafter with hlong | hun
      · rw [hscanned] at hlong
        exact absurd hlong hcut
      · rw [hscanned] at hun
        exact hun
  have hscan : Scanned s.journal f.after scanned (replay scanned f).boundary := by
    have hwhole : ¬ maxReplayEvents <
        (eventsAfter s.journal f.after (maxReplayEvents + 1)).length := by
      rw [hscanned]
      exact hcut
    have hscan := scanned_of_uncut h.sequenced hwhole
    rw [hscanned] at hscan
    exact hscan
  have hrows : f.replayed scanned = scanned.filter fun e => f.matchesEvent e.event := by
    rw [CoordinatorFilter.replayed, take_of_length_le (by omega)]
  have hsorted : (f.replayed scanned).Pairwise fun a b => a.cursor < b.cursor := by
    rw [hrows]
    exact h.sequenced.sorted.sublist (filter_sublist.trans hscan.sublist)
  have hm : ∀ {e}, e ∈ (replay scanned f).events → e ∈ scanned := by
    intro e he
    have hrow := coalesce_subset he
    rw [hrows] at hrow
    exact (mem_filter.mp hrow).1
  show Caught _
  refine caught_of_scan _ h.sequenced hscan ?_ ?_ rfl ?_ ?_ ?_
  · show _ ≤ (maxCursor baseline (replay scanned f).boundary).getD 0
    rw [maxCursor_getD]
    exact Nat.le_max_right _ _
  · show (maxCursor baseline (replay scanned f).boundary).getD 0 ≤
      max ((latestSequence s.journal).getD 0) (f.after.getD 0)
    rw [maxCursor_getD]
    have hbound := hscan.bound
    omega
  · intro e he hwants
    have hwants' : (Request.coordinator f).wants e = true := hrequest ▸ hwants
    have hrow : e ∈ f.replayed scanned := by
      rw [hrows]
      exact mem_filter.mpr ⟨he, hwants'⟩
    have hcovered : e ∈ coalesce rollupKey (f.replayed scanned) ∨
        ∃ r ∈ coalesce rollupKey (f.replayed scanned),
          SameLine rollupKey e r ∧ e.cursor < r.cursor := coalesce_covers hsorted hrow
    rcases hcovered with hkept | ⟨r, hr, hline, hlt⟩
    · exact .inl (mem_map_of_mem hkept)
    · exact .inr ⟨r, hscan.sublist.mem (hm hr), mem_map_of_mem hr, hline, hlt⟩
  · exact (reply_ordered_iff f h.sequenced hscan.sublist).mpr hunnested
  · intro c hc
    obtain ⟨e, he, rfl⟩ := mem_map.mp hc
    exact ⟨e, hm he, rfl⟩

end

section
variable {s : State}

/-- The catch-up of a factory watch goes on where the reply ended. -/
theorem Inv.catchup {f : FactoryEventFilter} (h : Inv s) (hrequest : s.client.request = .factory f)
    (hph : s.client.phase = .replied) :
    Inv (s.withClient { s.client.catchup f s.journal with phase := .streaming }) := by
  refine ⟨h.sequenced, h.writers, h.feed, fun hw => ?_⟩
  generalize hr : { f with after := s.client.cursor }.replayJournal s.journal = r
  have hnew : s.client.catchup f s.journal = { s.client with
        cursor := maxCursor s.client.cursor r.boundary
        received := s.client.received ++ r.events.map FactoryEvent.cursor
        noticed := s.client.noticed || r.truncated } := by
    rw [Client.catchup, hr]
  rw [hnew] at hw ⊢
  have hcut : r.truncated = false := by
    simp only [withClient, Client.warned, Bool.or_eq_false_iff] at hw
    exact hw.1.2
  have hw' : s.client.warned = false := by
    simp only [withClient, Client.warned, Bool.or_eq_false_iff] at hw ⊢
    exact ⟨hw.1.1, hw.2⟩
  have hgood := h.good hw'
  rw [Good, hph] at hgood
  obtain ⟨hc, hfits⟩ := hgood
  rw [← hr] at hcut
  obtain ⟨scanned, hscan, hcursors⟩ := factoryReplay_uncut h.sequenced hcut
  rw [hr] at hscan hcursors
  -- What was sent ends at the cursor, and the scan begins above it.
  have hlater : ∀ e ∈ scanned, ∀ c ∈ s.client.received, c < e.cursor := by
    intro e he c hm
    have habove := hscan.above e he
    have hle := hc.below c hm
    have hne : s.client.received ≠ [] := ne_nil_of_mem hm
    have hcast : asI64 (s.client.cursor.getD 0) = s.client.cursor.getD 0 := asI64_of_lt (hfits hne)
    have habove' : asI64 (s.client.cursor.getD 0) < e.cursor := habove
    omega
  have hfrom : ∀ c ∈ r.events.map FactoryEvent.cursor, ∃ e ∈ scanned, e.cursor = c := by
    intro c hm
    rw [hcursors] at hm
    obtain ⟨e, he, rfl⟩ := mem_map.mp hm
    exact ⟨e, (mem_filter.mp he).1, rfl⟩
  show Caught _
  refine ⟨fun e he hexp ha => ?_, fun e he hexp ha => ?_, ?_, fun c hm => ?_, fun c hm => ?_, ?_⟩
  · have hlt : (maxCursor s.client.cursor r.boundary).getD 0 < e.cursor :=
      (isAbove_iff (h.sequenced.positive e he)).mp ha
    rw [maxCursor_getD] at hlt
    have hin : e ∈ scanned := by
      refine hscan.all e he ((isAbove_iff (h.sequenced.positive e he)).mpr ?_)
      show s.client.cursor.getD 0 < e.cursor
      omega
    have hle := hscan.le e hin
    omega
  · cases hold : isAbove s.client.cursor e.cursor with
    | false =>
      rcases hc.done e he hexp hold with hgot | hgot
      · exact .inl (mem_append_left _ hgot)
      · exact .inr hgot
    | true =>
      refine .inl (mem_append_right _ ?_)
      have hwants : s.client.request.wants e = true := hexp.1
      rw [hrequest] at hwants
      rw [hcursors]
      exact mem_map_of_mem (mem_filter.mpr ⟨hscan.all e he hold, hwants⟩)
  · refine pairwise_append.mpr ⟨hc.order, ?_, fun c hm d hd => ?_⟩
    · rw [hcursors]
      exact pairwise_cursors h.sequenced (filter_sublist.trans hscan.sublist)
    · obtain ⟨e, he, rfl⟩ := hfrom d hd
      exact hlater e he c hm
  · show c ≤ (maxCursor s.client.cursor r.boundary).getD 0
    rw [maxCursor_getD]
    rcases mem_append.mp hm with hm | hm
    · exact Nat.le_trans (hc.below c hm) (Nat.le_max_left _ _)
    · obtain ⟨e, he, rfl⟩ := hfrom c hm
      exact Nat.le_trans (hscan.le e he) (Nat.le_max_right _ _)
  · exact mem_append_left _ (hc.reply c hm)
  · show (maxCursor s.client.cursor r.boundary).getD 0 ≤
      max ((latestSequence s.journal).getD 0) (s.client.start.getD 0)
    rw [maxCursor_getD]
    have hold := hc.bound
    have hbound : r.boundary.getD 0 ≤
      max ((latestSequence s.journal).getD 0) (s.client.cursor.getD 0) := hscan.bound
    omega

variable {e : CoordinatorEvent} {rest : List CoordinatorEvent}

/-- An event taken in its turn is sent, and what is not sent is not waited for. -/
theorem Caught.take (h : Caught s) (hs : Sequenced s.journal) (he : e ∈ s.journal)
    (hfeed : s.client.feed = e :: rest) (hin : InTurn s e) :
    Caught (s.withClient (s.client.take e rest)) := by
  -- The event at the head is the only one with its cursor.
  have hway : ∀ x ∈ s.journal, x ≠ e → s.OnWay x →
      x.cursor ∈ s.writers.map CoordinatorEvent.cursor ∨
        x.cursor ∈ rest.map CoordinatorEvent.cursor := by
    intro x hx hne hx'
    rcases hx' with hx' | hx'
    · exact .inl hx'
    · rw [hfeed, map_cons] at hx'
      rcases mem_cons.mp hx' with heq | hx'
      · exact absurd (hs.eq_of_cursor hx he heq) hne
      · exact .inr hx'
  cases hd : s.client.delivers e with
  | false =>
    have htake : s.client.take e rest = { s.client with feed := rest } := by
      rw [Client.take, hd, if_neg (by simp)]
    rw [htake]
    refine ⟨fun x hx hexp ha => ?_, h.done, h.order, h.below, h.reply, h.bound⟩
    refine hway x hx ?_ (h.covered x hx hexp ha)
    rintro rfl
    have hdelivers : s.client.delivers x = true := Bool.and_eq_true_iff.mpr ⟨hexp.1, ha⟩
    rw [hd] at hdelivers
    cases hdelivers
  | true =>
    have htake : s.client.take e rest = { s.client with
          feed := rest, cursor := some e.cursor
          received := s.client.received ++ [e.cursor] } := by
      rw [Client.take, hd, if_pos rfl]
    have hpos := hs.positive e he
    have habove : s.client.cursor.getD 0 < e.cursor :=
      (isAbove_iff hpos).mp (Bool.and_eq_true_iff.mp hd).2
    rw [htake]
    refine ⟨fun x hx hexp ha => ?_, fun x hx hexp ha => ?_, ?_, fun c hc => ?_, fun c hc => ?_, ?_⟩
    · have hlt : e.cursor < x.cursor := of_decide_eq_true ha
      have hold : isAbove s.client.cursor x.cursor = true := (isAbove_iff (by omega)).mpr (by omega)
      refine hway x hx ?_ (h.covered x hx hexp hold)
      rintro rfl
      omega
    · have hle : ¬ e.cursor < x.cursor := of_decide_eq_false ha
      cases hold : isAbove s.client.cursor x.cursor with
      | false =>
        rcases h.done x hx hexp hold with hgot | hgot
        · exact .inl (mem_append_left _ hgot)
        · exact .inr hgot
      | true =>
        have hturn := hin hd x hx hexp hold
        have heq : x.cursor = e.cursor := by omega
        rw [heq]
        exact .inl (mem_concat_self)
    · refine pairwise_append.mpr ⟨h.order, pairwise_singleton _ _, fun c hc d hd' => ?_⟩
      rw [mem_singleton.mp hd']
      have := h.below c hc
      omega
    · show c ≤ e.cursor
      rcases mem_append.mp hc with hc | hc
      · have := h.below c hc
        omega
      · rw [mem_singleton.mp hc]
    · exact mem_append_left _ (h.reply c hc)
    · exact Nat.le_trans (le_latestSequence he) (Nat.le_max_left _ _)

theorem Client.take_frame (c : Client) (e : CoordinatorEvent) (rest : List CoordinatorEvent) :
    (c.take e rest).phase = c.phase ∧ (c.take e rest).warned = c.warned ∧
      (c.take e rest).feed = rest := by
  unfold take
  split
  · exact ⟨rfl, rfl, rfl⟩
  · exact ⟨rfl, rfl, rfl⟩

theorem Inv.take (h : Inv s) (hph : s.client.phase = .streaming)
    (hfeed : s.client.feed = e :: rest) (hin : s.client.warned = true ∨ InTurn s e) :
    Inv (s.withClient (s.client.take e rest)) := by
  obtain ⟨hphase', hwarned, hfeed'⟩ := s.client.take_frame e rest
  have he : e ∈ s.journal := h.feed e (by rw [hfeed]; exact mem_cons_self)
  refine ⟨h.sequenced, h.writers, fun x hx => ?_, fun hw => ?_⟩
  · have hx' : x ∈ rest := hfeed' ▸ hx
    exact h.feed x (by rw [hfeed]; exact mem_cons_of_mem _ hx')
  · have hw' : s.client.warned = false := hwarned ▸ hw
    have hgood := h.good hw'
    rw [Good, hph] at hgood
    have hturn : InTurn s e := by
      rcases hin with hin | hin
      · rw [hw'] at hin
        cases hin
      · exact hin
    have hcaught := hgood.take h.sequenced he hfeed hturn
    unfold Good
    have hgoal : (s.withClient (s.client.take e rest)).client.phase = .streaming :=
      hphase'.trans hph
    rw [hgoal]
    exact hcaught

theorem Inv.lagged (h : Inv s) : Inv (s.withClient (s.client.lagged s.journal)) := by
  have hlagged : (s.client.lagged s.journal).feed = s.client.feed ∧
      (s.client.lagged s.journal).noticed = true := by
    unfold Client.lagged
    split
    · exact ⟨rfl, rfl⟩
    · exact ⟨rfl, rfl⟩
  refine ⟨h.sequenced, h.writers, fun e he => h.feed e (hlagged.1 ▸ he), fun hw => ?_⟩
  have hwarned : (s.client.lagged s.journal).warned = true := by
    rw [Client.warned, hlagged.2]
    rfl
  have hw' : (s.client.lagged s.journal).warned = false := hw
  rw [hwarned] at hw'
  cases hw'

end

section
variable {s s' : State}

theorem Inv.subscribe (h : Inv s) : Inv (s.withClient { s.client with phase := .subscribed }) :=
  ⟨h.sequenced, h.writers, h.feed, fun _ => trivial⟩

theorem Inv.readLatest (h : Inv s) :
    Inv (s.withClient { s.client with phase := .baselined (latestSequence s.journal) }) := by
  refine ⟨h.sequenced, h.writers, h.feed, fun _ => ⟨Nat.le_refl _, fun e he hlt => ?_⟩⟩
  have hle : e.cursor ≤ (latestSequence s.journal).getD 0 := le_latestSequence he
  exact absurd hlt (Nat.not_lt_of_le hle)

theorem inv_step {l : Label} (h : Inv s) (hs : s.step l = some s') (hin : InOrder s l) :
    Inv s' := by
  cases l with
  | insert t =>
    obtain ⟨e, he, rfl⟩ := map_eq_some_iff.mp hs
    exact h.insert he
  | broadcast i =>
    obtain ⟨e, he, rfl⟩ := map_eq_some_iff.mp hs
    exact h.broadcast he
  | subscribe =>
    simp only [step] at hs
    split at hs
    · cases hs
      exact h.subscribe
    · cases hs
  | readLatest =>
    simp only [step] at hs
    split at hs
    · cases hs
      exact h.readLatest
    · cases hs
  | scan =>
    simp only [step] at hs
    split at hs
    · rename_i f baseline hrequest hph
      cases hs
      cases hafter : f.after with
      | none => exact h.replyLatest hph hafter
      | some a =>
        refine h.replyAfter hrequest hph (by rw [hafter]; rfl) ?_
        rw [InOrder, hrequest] at hin
        exact hin
    · rename_i f hrequest hph
      cases hs
      exact h.replyFactory hrequest
    · cases hs
  | catchup =>
    simp only [step] at hs
    split at hs
    · rename_i f hrequest hph
      cases hs
      exact h.catchup hrequest hph
    · cases hs
  | recv =>
    simp only [step] at hs
    obtain ⟨hph, hs⟩ := ite_none_left_eq_some.mp hs
    split at hs
    · cases hs
      exact h.lagged
    · split at hs
      · cases hs
      · rename_i e rest hfeed
        cases hs
        rw [InOrder, hfeed] at hin
        exact h.take (not_not.mp hph) hfeed hin

theorem unenclosed_of_reply {f : CoordinatorFilter} {baseline : Option Nat} (h : Inv s)
    (hp : NothingSkipped (s.withClient (s.client.replyCoordinator f s.journal baseline))) :
    s.client.warned = true ∨ Unenclosed s.journal f := by
  cases hw : s.client.warned with
  | true => exact .inl rfl
  | false =>
    refine .inr fun hafter => ?_
    by_cases hcut : maxReplayEvents < (eventsAfter s.journal f.after (maxReplayEvents + 1)).length
    · exact .inl hcut
    · refine .inr ?_
      have hnotice : (s.client.replyCoordinator f s.journal baseline).warned = false := by
        rw [warned, Bool.or_eq_false_iff] at hw ⊢
        simpa [replyCoordinator, hafter, replay, hcut] using hw
      rcases hp with hwarned | hreplied | ⟨horder, -⟩
      · have hwarned' : (s.client.replyCoordinator f s.journal baseline).warned = true := hwarned
        rw [hnotice] at hwarned'
        cases hwarned'
      · have hreplied' : (s.client.replyCoordinator f s.journal baseline).replied = false := hreplied
        cases hreplied'
      · have hscan := scanned_of_uncut h.sequenced hcut
        rw [← reply_ordered_iff f h.sequenced hscan.sublist]
        simpa [withClient, replyCoordinator, hafter] using horder

theorem inTurn_of_take {e : CoordinatorEvent} {rest : List CoordinatorEvent} (h : Inv s)
    (hph : s.client.phase = .streaming)
    (hp : NothingSkipped (s.withClient (s.client.take e rest))) :
    s.client.warned = true ∨ InTurn s e := by
  obtain ⟨hphase', hwarned, -⟩ := s.client.take_frame e rest
  cases hw : s.client.warned with
  | true => exact .inl rfl
  | false =>
    refine .inr fun hd x hx hexp ha => ?_
    have hgood := h.good hw
    rw [Good, hph] at hgood
    have hcaught : Caught s := hgood
    have habove := (isAbove_iff (h.sequenced.positive x hx)).mp ha
    have htake : s.client.take e rest = { s.client with
          feed := rest, cursor := some e.cursor
          received := s.client.received ++ [e.cursor] } := by
      rw [Client.take, hd, if_pos rfl]
    rcases hp with hwarned' | hreplied | ⟨-, hall⟩
    · have hw' : (s.client.take e rest).warned = true := hwarned'
      rw [hwarned, hw] at hw'
      cases hw'
    · have hreplied' : (s.client.take e rest).replied = false := hreplied
      rw [Client.replied, hphase', hph] at hreplied'
      cases hreplied'
    · rw [htake] at hall
      rcases hall x hx hexp with hgot | ⟨r, -, hr, -, hlt⟩ | ⟨-, habove'⟩
      · rcases mem_append.mp hgot with hgot | hgot
        · have hle := hcaught.below _ hgot
          omega
        · rw [mem_singleton.mp hgot]
      · -- A report that replaced it is in the reply, so the cursor is past both.
        have hle := hcaught.below _ (hcaught.reply _ hr)
        omega
      · exact Nat.le_of_lt (of_decide_eq_true habove')

theorem inOrder_of_nothingSkipped {l : Label} (h : Inv s) (hs : s.step l = some s')
    (hp : NothingSkipped s') : InOrder s l := by
  cases l with
  | scan =>
    simp only [step] at hs
    split at hs
    · rename_i f baseline hrequest hph
      cases hs
      rw [InOrder, hrequest]
      exact unenclosed_of_reply h hp
    · rename_i f hrequest hph
      rw [InOrder, hrequest]
      trivial
    · cases hs
  | recv =>
    simp only [step] at hs
    obtain ⟨hph, hs⟩ := ite_none_left_eq_some.mp hs
    split at hs
    · rename_i hmissed
      have hw : s.client.warned = true := Bool.or_eq_true_iff.mpr (.inr (decide_eq_true hmissed))
      rw [InOrder]
      split
      · trivial
      · exact .inl hw
    · split at hs
      · cases hs
      · rename_i e rest hfeed
        cases hs
        rw [InOrder, hfeed]
        exact inTurn_of_take h (not_not.mp hph) hp
  | insert t | broadcast i | subscribe | readLatest | catchup => trivial

end

/-- A run skips nothing exactly where no scan finds reports that enclose another event and
no receive takes an event before one the client still waits for. -/
theorem nothingSkipped_iff (request : Request) (labels : List Label) :
    Keeps step NothingSkipped (init request) labels ↔ Meets step InOrder (init request) labels :=
  keeps_iff_meets_of_guarded (fun _ _ _ hi hs hg => inv_step hi hs hg)
    (fun _ hi => hi.nothingSkipped)
    (fun _ _ _ hi hs hp => inOrder_of_nothingSkipped hi hs hp) (inv_init request)

def escalation (agent : String) : Tuple := .new 0 0 .event "rat" "middle_rat_progress" "wf-1"
    (.object [("instance", .string "wf-1"), ("agent", .string agent), ("route", .string "escalate")])

/-- Two writers broadcast in the other order than they wrote, and the stream drops the
escalation that is behind. -/
theorem not_nothingSkipped : ¬ Keeps step NothingSkipped (init (.coordinator {}))
    [.subscribe, .readLatest, .scan, .insert (escalation "gnaw"), .insert (escalation "nibble"),
      .broadcast 1, .broadcast 0, .recv, .recv] :=
  not_keeps_of_run (by decide +kernel)

end RatKingdom.Coordinator
