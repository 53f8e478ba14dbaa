/-
Lost wakeups.

A waiter is stranded when its receiver still listens while the store holds a tuple
the waiter is entitled to: it blocks until its deadline although a fresh read would
answer at once.  Every path that ends in `offer` leaves nobody stranded.  Two write
paths do not offer, the refresh in place of `reinforce` and the projections of
`accept_sdlc_signal`, and a run strands a waiter exactly when one of them writes a
tuple somebody awaits.
-/
import RatKingdom.Space.Waiters

namespace RatKingdom.Space

open Core Lib List Store

def Waiter.entitled (w : Waiter) (t : Tuple) : Bool :=
  w.pattern.matches t && (!w.destructive || t.lifecycle ≠ .furniture)

/-- A registered waiter with a live receiver is entitled to `t`. -/
def Inner.Awaits (s : Inner) (t : Tuple) : Prop :=
  ∃ w ∈ s.waiters, listeningAt s.readers w.reader = true ∧ w.entitled t = true
deriving Decidable

def Inner.NoLostWakeup (s : Inner) : Prop := ∀ r ∈ s.store.rows, ¬ s.Awaits r.tuple
deriving Decidable

/-- Every waiter sends to a reader that has been created. -/
def Inner.Placed (s : Inner) : Prop := ∀ w ∈ s.waiters, w.reader < s.readers.length

theorem length_send (readers : List Reader) (i : Nat) (row : Row) :
    (send readers i row).length = readers.length := by
  unfold send
  split
  · rfl
  · split
    · exact length_set
    · rfl

variable {readers : List Reader} {i : Nat} {r' : Reader}

theorem listeningAt_set {j : Nat} {r : Reader} (hr : readers[i]? = some r) :
    listeningAt (readers.set i r') j = if i = j then r'.listening else listeningAt readers j := by
  have hi : i < readers.length := (List.getElem?_eq_some_iff.mp hr).1
  by_cases hij : i = j
  · subst hij
    simp [listeningAt, hi]
  · simp [listeningAt, getElem?_set_ne hij, hij]

theorem listeningAt_send (readers : List Reader) (i j : Nat) (row : Row) :
    listeningAt (send readers i row) j = listeningAt readers j := by
  unfold send
  split
  · rfl
  · rename_i r hr
    split
    · rename_i hl
      rw [listeningAt_set hr]
      by_cases hij : i = j
      · subst hij
        simp only [if_true, listeningAt, hr]
        rfl
      · rw [if_neg hij]
    · rfl

section
variable (row : Row) (ws : List Waiter) (readers : List Reader)

theorem length_offerLoop (c : Bool) : (offerLoop row ws readers c).2.1.length = readers.length := by
  induction ws generalizing readers c with
  | nil => rfl
  | cons w ws ih =>
    unfold offerLoop
    split
    · exact ih readers c
    · rw [ih, length_send]

theorem listeningAt_offerLoop (c : Bool) (j : Nat) :
    listeningAt (offerLoop row ws readers c).2.1 j = listeningAt readers j := by
  induction ws generalizing readers c with
  | nil => rfl
  | cons w ws ih =>
    unfold offerLoop
    split
    · exact ih readers c
    · rw [ih, listeningAt_send]

theorem offerLoop_consumed : (offerLoop row ws readers true).2.2 = true := by
  induction ws generalizing readers with
  | nil => rfl
  | cons w ws ih =>
    unfold offerLoop
    split
    · exact ih readers
    · rw [Bool.true_or]
      exact ih _

end

variable {t : Tuple}

theorem Waiter.passedOver_false {w : Waiter} (h : w.passedOver t false = true) :
    w.entitled t = false := by
  simp only [Waiter.passedOver, Bool.false_or, Bool.or_eq_true, Bool.not_eq_true',
    Bool.and_eq_true, decide_eq_true_eq] at h
  rcases h with h | ⟨hd, hl⟩
  · simp [Waiter.entitled, h]
  · simp [Waiter.entitled, hd, hl]

variable {row : Row} {ws : List Waiter}

/-- Unless the tuple was consumed, the waiters that keep their place are not entitled
to it. -/
theorem mem_offerLoop {c : Bool} {w : Waiter} (h : w ∈ (offerLoop row ws readers c).1) :
    w ∈ ws ∧ ((offerLoop row ws readers c).2.2 = false → w.entitled row.tuple = false) := by
  induction ws generalizing readers c with
  | nil => cases h
  | cons v ws ih =>
    unfold offerLoop at h ⊢
    by_cases hp : v.passedOver row.tuple c = true
    · simp only [hp, if_true, mem_cons] at h ⊢
      rcases h with rfl | h
      · refine ⟨.inl rfl, fun hc => ?_⟩
        cases c with
        | false => exact Waiter.passedOver_false hp
        | true => rw [offerLoop_consumed] at hc; cases hc
      · obtain ⟨hm, he⟩ := ih h
        exact ⟨.inr hm, he⟩
    · simp only [hp, Bool.false_eq_true, if_false, mem_cons] at h ⊢
      obtain ⟨hm, he⟩ := ih h
      exact ⟨.inr hm, he⟩

variable {s : Inner}

theorem awaits_of_offer (h : (s.offer row).Awaits t) : s.Awaits t := by
  obtain ⟨w, hw, hl, he⟩ := h
  refine ⟨w, (mem_offerLoop hw).1, ?_, he⟩
  rw [← hl]
  exact (listeningAt_offerLoop row s.waiters s.readers false w.reader).symm

theorem placed_offer (h : s.Placed) (row : Row) : (s.offer row).Placed := by
  intro w hw
  have hlen : (s.offer row).readers.length = s.readers.length := length_offerLoop row _ _ _
  rw [hlen]
  exact h w (mem_offerLoop hw).1

theorem noLostWakeup_offer (h : ∀ r ∈ s.store.rows, r = row ∨ ¬ s.Awaits r.tuple) :
    (s.offer row).NoLostWakeup := by
  intro r hr haw
  have hrow : r ∈ s.store.rows := by
    unfold Inner.offer at hr
    dsimp only at hr
    split at hr
    · exact (mem_erase_rows.mp hr).1
    · exact hr
  rcases h r hrow with rfl | hno
  · obtain ⟨w, hw, -, he⟩ := haw
    cases hc : (offerLoop r s.waiters s.readers false).2.2 with
    | false =>
      have hne : w.entitled r.tuple = false := (mem_offerLoop hw).2 hc
      rw [hne] at he
      cases he
    | true =>
      -- The row was consumed, so it is no longer stored.
      simp only [Inner.offer, hc, if_true] at hr
      exact (mem_erase_rows.mp hr).2 rfl
  · exact hno (awaits_of_offer haw)

variable {s' : Inner}

theorem noLostWakeup_wrote (h : s.Wrote t s') (hP : s.NoLostWakeup) : s'.NoLostWakeup := by
  obtain ⟨store, kept, hsub, hrows, -, -, rfl⟩ := h
  refine noLostWakeup_offer fun r hr => ?_
  simp only [hrows, mem_append, mem_singleton] at hr
  rcases hr with hr | hr
  · exact .inr (hP r (hsub.subset hr))
  · exact .inl hr

theorem placed_wrote (h : s.Wrote t s') (hI : s.Placed) : s'.Placed := by
  obtain ⟨store, kept, -, -, -, -, rfl⟩ := h
  exact placed_offer (s := { s with store }) hI _

theorem patternFilters_eq (p : Pattern) (consumableOnly : Bool) (t : Tuple) :
    patternFilters p consumableOnly t =
      (p.matches t && (!consumableOnly || t.lifecycle ≠ .furniture)) := by
  cases h : p.afterId <;> simp [patternFilters, Pattern.matches, h, Bool.and_assoc]

theorem query_one_eq_nil {s : Store} {p : Pattern} {consumableOnly : Bool}
    (h : s.query p consumableOnly (some 1) = []) {r : Row} (hr : r ∈ s.rows) :
    patternFilters p consumableOnly r.tuple = false := by
  cases hf : patternFilters p consumableOnly r.tuple with
  | false => rfl
  | true =>
    have hm : r ∈ (s.rows.filter fun r => patternFilters p consumableOnly r.tuple).insertionSort
        fun a b => a.tuple.id ≤ b.tuple.id :=
      (mem_insertionSort _).mpr (mem_filter.mpr ⟨hr, hf⟩)
    simp only [query, take_eq_nil_iff, Nat.one_ne_zero, false_or] at h
    rw [h] at hm
    cases hm

theorem listeningAt_append (hi : i < readers.length) (r : Reader) :
    listeningAt (readers ++ [r]) i = listeningAt readers i := by
  simp [listeningAt, getElem?_append_left hi]

theorem noLostWakeup_checkAndRegister (hI : s.Placed) (hP : s.NoLostWakeup) (p : Pattern)
    (destructive : Bool) : (s.checkAndRegister p destructive).NoLostWakeup := by
  rcases checkAndRegister_cases s p destructive with ⟨row, rest, hq, he⟩ | ⟨hq, he⟩
  · rw [he]
    intro r hr haw
    have hrow : r ∈ s.store.rows := by
      dsimp only at hr
      split at hr
      · exact (mem_erase_rows.mp hr).1
      · exact hr
    obtain ⟨w, hw, hl, hent⟩ := haw
    dsimp only at hw hl
    rw [listeningAt_append (hI w hw)] at hl
    exact hP r hrow ⟨w, hw, hl, hent⟩
  · rw [he]
    intro r hr haw
    obtain ⟨w, hw, hl, hent⟩ := haw
    dsimp only at hw hl hr
    rcases mem_append.mp hw with hw | hw
    · rw [listeningAt_append (hI w hw)] at hl
      exact hP r hr ⟨w, hw, hl, hent⟩
    · rw [mem_singleton.mp hw] at hent
      have hmiss : patternFilters p destructive r.tuple = false := query_one_eq_nil hq hr
      rw [patternFilters_eq] at hmiss
      simp only [Waiter.entitled] at hent
      rw [hmiss] at hent
      cases hent

theorem placed_checkAndRegister (hI : s.Placed) (p : Pattern) (destructive : Bool) :
    (s.checkAndRegister p destructive).Placed := by
  rcases checkAndRegister_cases s p destructive with ⟨row, rest, -, he⟩ | ⟨-, he⟩
  · rw [he]
    intro w hw
    have := hI w hw
    simp only [length_append, length_singleton]
    omega
  · rw [he]
    intro w hw
    simp only [length_append, length_singleton]
    rcases mem_append.mp hw with hw | hw
    · have := hI w hw
      omega
    · rw [mem_singleton.mp hw]
      exact Nat.lt_succ_self _

theorem noLostWakeup_move {r : Reader} (hr : s.readers[i]? = some r)
    (hl : r'.listening = true → r.listening = true) (hws : ∀ w ∈ ws, w ∈ s.waiters)
    (hP : s.NoLostWakeup) :
    ({ s with waiters := ws, readers := s.readers.set i r' } : Inner).NoLostWakeup := by
  intro row hrow haw
  obtain ⟨w, hw, hlis, he⟩ := haw
  refine hP row hrow ⟨w, hws w hw, ?_, he⟩
  simp only [listeningAt_set hr] at hlis
  by_cases hi : i = w.reader
  · rw [if_pos hi] at hlis
    subst hi
    simp only [listeningAt, hr]
    exact hl hlis
  · rw [if_neg hi] at hlis
    exact hlis

theorem placed_move (hws : ∀ w ∈ ws, w ∈ s.waiters) (hI : s.Placed) :
    ({ s with waiters := ws, readers := s.readers.set i r' } : Inner).Placed := by
  intro w hw
  simp only [length_set]
  exact hI w (hws w hw)

theorem noLostWakeup_store {s : Inner} {store : Store}
    (h : ∀ r ∈ store.rows, ∃ r₀ ∈ s.store.rows, ∀ w : Waiter, w.entitled r.tuple = w.entitled r₀.tuple)
    (hP : s.NoLostWakeup) : ({ s with store } : Inner).NoLostWakeup := by
  intro r hr haw
  obtain ⟨r₀, hr₀, he⟩ := h r hr
  obtain ⟨w, hw, hl, hent⟩ := haw
  exact hP r₀ hr₀ ⟨w, hw, hl, (he w).symm.trans hent⟩

theorem noLostWakeup_delete (id : RecordId) (hP : s.NoLostWakeup) : (s.delete id).1.NoLostWakeup :=
  noLostWakeup_store (fun r hr => ⟨r, (mem_erase_rows.mp hr).1, fun _ => rfl⟩) hP

theorem noLostWakeup_gcExpired (step : Float) (now : DateTime) (hP : s.NoLostWakeup) :
    (s.gcExpired step now).1.NoLostWakeup := by
  refine noLostWakeup_store (fun r hr => ?_) hP
  have hr := (mem_filter.mp hr).1
  have hr := (mem_filter.mp hr).1
  obtain ⟨r₀, hr₀, rfl⟩ := mem_map.mp hr
  exact ⟨r₀, hr₀, fun _ => rfl⟩

variable {id : RecordId}

theorem newestTrail_some {s : Store} {category : Category} {scope identity inst : String}
    (h : s.newestTrail category scope identity inst = some id) :
    ∃ r ∈ s.rows, r.tuple.id = id ∧ r.tuple.category = category ∧ r.tuple.scope = scope ∧
      r.tuple.identity = identity ∧ r.tuple.inst = inst := by
  have hm := max?_mem h
  obtain ⟨r, hr, hid⟩ := mem_map.mp hm
  obtain ⟨hr, hkey⟩ := mem_filter.mp hr
  simp only [trailKey, Bool.and_eq_true, decide_eq_true_eq] at hkey
  exact ⟨r, hr, hid, hkey.1.1.1, hkey.1.1.2, hkey.1.2, hkey.2⟩

theorem entitled_reinforced {stored : Tuple} (hid : stored.id = id)
    (hcat : stored.category = t.category) (hscope : stored.scope = t.scope)
    (hident : stored.identity = t.identity) (hinst : stored.inst = t.inst) (w : Waiter) :
    w.entitled (reinforced t stored) = w.entitled { t with id } := by
  have hm : w.pattern.matches (reinforced t stored) = w.pattern.matches { t with id } :=
    w.pattern.matches_congr hid hcat hscope hident hinst rfl
  rw [Waiter.entitled, hm]
  rfl

/-- A refresh in place strands a waiter exactly when somebody awaits the refreshed
trail. -/
theorem noLostWakeup_reinforce {s : Inner} {t : Tuple} {id : RecordId} (hwf : s.store.Wf)
    (hn : s.store.newestTrail t.category t.scope t.identity t.inst = some id)
    (hP : s.NoLostWakeup) :
    ({ s with store := s.store.reinforce id { t with strength := some fullStrength } } :
    Inner).NoLostWakeup ↔
      ¬ s.Awaits { t with id } := by
  obtain ⟨stored, hm, hid, hcat, hscope, hident, hinst⟩ := newestTrail_some hn
  have hent : ∀ w : Waiter,
      w.entitled (reinforced { t with strength := some fullStrength } stored.tuple) =
        w.entitled { t with id } :=
    fun w => entitled_reinforced (t := { t with strength := some fullStrength }) hid hcat hscope
      hident hinst w
  constructor
  · intro h haw
    obtain ⟨w, hw, hl, he⟩ := haw
    refine h { stored with tuple := reinforced { t with strength := some fullStrength } stored.tuple }
      (mem_updateId.mpr (.inr ⟨stored, hm, hid, rfl⟩)) ⟨w, hw, hl, ?_⟩
    exact (hent w).trans he
  · intro h r hr haw
    rcases mem_updateId.mp hr with ⟨hr, -⟩ | ⟨r₀, hr₀, hid₀, rfl⟩
    · exact hP r hr haw
    · have : r₀ = stored := hwf.row_eq_of_id hr₀ hm (hid₀.trans hid.symm)
      subst this
      obtain ⟨w, hw, hl, he⟩ := haw
      exact h ⟨w, hw, hl, (hent w).symm.trans he⟩

def sdlcTouched (s : Store) (g : Store.SdlcSignal) (acceptedAt : DateTime) : List Tuple :=
  let p := s.sdlcPlan g acceptedAt
  (s.tuples.filter p.refreshes ++ [g.eventTuple]).map (p.refresh g acceptedAt) ++
    p.inserts g acceptedAt

theorem noLostWakeup_sdlc {s : Inner} {store : Store} {g : Store.SdlcSignal}
    {acceptedAt : DateTime} (hP : s.NoLostWakeup)
    (ht : store.tuples = (s.store.tuples ++ [g.eventTuple]).map
        ((s.store.sdlcPlan g acceptedAt).refresh g acceptedAt) ++
      (s.store.sdlcPlan g acceptedAt).inserts g acceptedAt) :
    ({ s with store } : Inner).NoLostWakeup ↔
      ∀ t ∈ sdlcTouched s.store g acceptedAt, ¬ s.Awaits t := by
  have hrows : ({ s with store } : Inner).NoLostWakeup ↔ ∀ t ∈ store.tuples, ¬ s.Awaits t := by
    simp only [tuples, forall_mem_map]
    rfl
  rw [hrows, ht]
  simp only [sdlcTouched, mem_append, mem_map, mem_filter, mem_singleton]
  constructor
  · intro h t hm
    refine h t ?_
    rcases hm with ⟨u, hu, rfl⟩ | hm
    · rcases hu with ⟨hu, -⟩ | hu
      · exact .inl ⟨u, .inl hu, rfl⟩
      · exact .inl ⟨u, .inr hu, rfl⟩
    · exact .inr hm
  · intro h t hm
    rcases hm with ⟨u, hu | hu, rfl⟩ | hm
    · by_cases hre : (s.store.sdlcPlan g acceptedAt).refreshes u = true
      · exact h _ (.inl ⟨u, .inl ⟨hu, hre⟩, rfl⟩)
      · -- An untouched row: nobody awaited it before.
        have hsame : (s.store.sdlcPlan g acceptedAt).refresh g acceptedAt u = u := by
          simp [Store.SdlcPlan.refresh, hre]
        rw [hsame]
        obtain ⟨r, hr, rfl⟩ := mem_map.mp hu
        exact hP r hr
    · exact h _ (.inl ⟨u, .inr hu, rfl⟩)
    · exact h t (.inr hm)

/-- What the two write paths without an offer need: nobody awaits what they write. -/
def wakeupGuard (s : Inner) : Op → Prop
  | .reinforce t =>
    ∀ id, s.store.newestTrail t.category t.scope t.identity t.inst = some id → ¬ s.Awaits { t with id }
  | .acceptSdlcSignal g acceptedAt rollback =>
    s.store.sdlcCommits g acceptedAt rollback = true →
      ∀ t ∈ sdlcTouched s.store g acceptedAt, ¬ s.Awaits t
  | _ => True

theorem placed_step {op : Op} (hI : s.Placed) (h : s.step op = some s') : s'.Placed := by
  rcases step_cases h with ⟨t, -, hw⟩ | ⟨-, store, -, rfl⟩ | ⟨p, d, -, rfl⟩ |
    ⟨-, i, r, r', ws, -, hm, rfl⟩
  · exact placed_wrote hw hI
  · exact hI
  · exact placed_checkAndRegister hI p d
  · exact placed_move (fun _ hw => hm.waiters_subset hw) hI

/-- One step strands a waiter exactly when its guard fails. -/
theorem noLostWakeup_step {op : Op} (hwf : s.store.Wf) (hI : s.Placed) (hP : s.NoLostWakeup)
    (h : s.step op = some s') : s'.NoLostWakeup ↔ wakeupGuard s op := by
  cases op with
  | out t =>
    refine iff_of_true ?_ trivial
    rcases step_out h with ⟨u, -, hw⟩ | ⟨-, rfl⟩
    · exact noLostWakeup_wrote hw hP
    · exact hP
  | outIfNew t =>
    refine iff_of_true ?_ trivial
    rcases step_outIfNew h with ⟨u, -, hw⟩ | ⟨-, rfl⟩
    · exact noLostWakeup_wrote hw hP
    · exact hP
  | outCoordinator t =>
    refine iff_of_true ?_ trivial
    rcases step_outCoordinator h with ⟨u, -, hw⟩ | ⟨-, rfl⟩
    · exact noLostWakeup_wrote hw hP
    · exact hP
  | replace expected t =>
    refine iff_of_true ?_ trivial
    rcases step_replace h with ⟨u, -, hw⟩ | ⟨-, rfl⟩
    · exact noLostWakeup_wrote hw hP
    · exact hP
  | reinforce t =>
    rcases step_reinforce h with ⟨u, hu, hw⟩ | ⟨-, hn, rfl⟩ | ⟨-, id, hn, rfl⟩
    · refine iff_of_true (noLostWakeup_wrote hw hP) fun id hn => ?_
      simp [Inner.offered, hn] at hu
    · refine iff_of_true hP fun id hn' => ?_
      rw [hn] at hn'
      cases hn'
    · rw [noLostWakeup_reinforce hwf hn hP]
      constructor
      · intro hno id' hn'
        rw [hn] at hn'
        cases hn'
        exact hno
      · intro hg
        exact hg id hn
  | acceptSdlcSignal g acceptedAt rollback =>
    rcases step_acceptSdlcSignal h with ⟨hc, rfl⟩ | ⟨hc, store, -, ht, rfl⟩
    · refine iff_of_true hP fun hc' => ?_
      rw [hc] at hc'
      cases hc'
    · rw [noLostWakeup_sdlc hP ht]
      exact ⟨fun hno _ => hno, fun hg => hg hc⟩
  | delete id => cases h; exact iff_of_true (noLostWakeup_delete id hP) trivial
  | gcExpired decayStep now =>
    cases h
    exact iff_of_true (noLostWakeup_gcExpired decayStep now hP) trivial
  | checkAndRegister p destructive =>
    cases h
    exact iff_of_true (noLostWakeup_checkAndRegister hI hP p destructive) trivial
  | receive i =>
    obtain ⟨r, row, hr, -, -, rfl⟩ := receive_some h
    exact iff_of_true (noLostWakeup_move hr (fun hl => by cases hl) (fun _ hw => hw) hP) trivial
  | decideTimeout i =>
    obtain ⟨r, hr, hst, -, rfl⟩ := decideTimeout_some h
    refine iff_of_true (noLostWakeup_move hr (fun _ => ?_) (fun _ hw => hw) hP) trivial
    rw [Reader.listening, hst]
  | dropReceiver i =>
    obtain ⟨r, hr, -, rfl⟩ := dropReceiver_some h
    exact iff_of_true (noLostWakeup_move hr (fun hl => by cases hl) (fun _ hw => hw) hP) trivial
  | observeClosed i =>
    obtain ⟨r, hr, -, -, -, rfl⟩ := observeClosed_some h
    exact iff_of_true (noLostWakeup_move hr (fun hl => by cases hl) (fun _ hw => hw) hP) trivial
  | removeWaiter i =>
    obtain ⟨r, hr, -, rfl⟩ := removeWaiter_some h
    exact iff_of_true (noLostWakeup_move hr (fun hl => by cases hl)
      (fun _ hw => (mem_filter.mp hw).1) hP) trivial

/-- From an empty space, a run strands no waiter in any of its states exactly when no
refresh in place and no committed signal of it wrote a tuple somebody awaited. -/
theorem noLostWakeup_iff_guarded (ops : List Op) :
    Keeps Inner.step Inner.NoLostWakeup .empty ops ↔ Meets Inner.step wakeupGuard .empty ops := by
  have hwf : Inner.empty.store.Wf := wf_empty
  have hplaced : Inner.empty.Placed := fun w hw => by cases hw
  refine keeps_iff_meets (I := fun s => s.store.Wf ∧ s.Placed) ?_ ?_ ⟨hwf, hplaced⟩
    (fun r hr => by cases hr)
  · intro s op s' hI h
    exact ⟨wf_step hI.1 h, placed_step hI.2 h⟩
  · intro s op s' hI hP h
    exact noLostWakeup_step hI.1 hI.2 hP h

def trail (id : RecordId) (text : String) : Tuple :=
  (Tuple.new id 0 .obstacle "repo" "build" "rat-1" (.string text)).intoTrail defaultTrailTtl 0

def refreshTrace : List Op :=
  [.reinforce (trail 1 "slow"), .checkAndRegister { payloadSearch := some "blocked" } false,
    .reinforce (trail 2 "blocked")]

theorem refresh_in_place_strands_reader :
    ¬ Keeps Inner.step Inner.NoLostWakeup .empty refreshTrace :=
  not_keeps_of_run (by decide +kernel)

end RatKingdom.Space
