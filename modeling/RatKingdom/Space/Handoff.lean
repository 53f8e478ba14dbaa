/-
Exactly-once consumption.

A row is consumed the moment a send to a destructive reader succeeds, while the
reader may already have decided that its deadline passed.  The history `consumed`
of the space is compared here with what the take calls got.  Uniqueness holds in
every run; that somebody got the row fails exactly when the waiter first in line for
an offered tuple has expired and not yet dropped its receiver.
-/
import RatKingdom.Space.Wakeup

namespace RatKingdom.Space

open Core Lib List Option

/-- The call returned `row`, or awaits its channel with `row` in it. -/
def Reader.gets (r : Reader) (row : Row) : Prop :=
  r.state = .returned (some row) ∨ (r.state = .waiting ∧ r.slot = some row)

def Inner.TakeGets (s : Inner) (i : Nat) (row : Row) : Prop :=
  ∃ r, s.readers[i]? = some r ∧ r.destructive = true ∧ r.gets row

structure Inner.ExactlyOnce (s : Inner) : Prop where
  delivered : ∀ row ∈ s.consumed, ∃! i, s.TakeGets i row
  once : ∀ i j row row', s.TakeGets i row → s.TakeGets j row' → row.sequence = row'.sequence → i = j
  consumable : ∀ row ∈ s.consumed, row.tuple.lifecycle ≠ .furniture

/-- The first waiter that would consume `t`. -/
def takerIn (t : Tuple) (ws : List Waiter) (readers : List Reader) : Option Waiter :=
  ws.find? fun w => w.destructive && w.pattern.matches t && listeningAt readers w.reader

def Inner.taker (s : Inner) (t : Tuple) : Option Waiter := takerIn t s.waiters s.readers

/-- Every waiter is of the kind of the call it belongs to. -/
def Agree (ws : List Waiter) (readers : List Reader) : Prop :=
  ∀ w ∈ ws, ∃ r, readers[w.reader]? = some r ∧ r.destructive = w.destructive

theorem getElem?_send (readers : List Reader) (i j : Nat) (row : Row) :
    (send readers i row)[j]? = if i = j ∧ listeningAt readers i = true then
        readers[j]?.map fun r => { r with slot := some row }
      else readers[j]? := by
  unfold send listeningAt
  cases hr : readers[i]? with
  | none => simp
  | some r =>
    have hi : i < readers.length := (List.getElem?_eq_some_iff.mp hr).1
    by_cases hl : r.listening = true
    · by_cases hij : i = j
      · subst hij
        dsimp only
        rw [if_pos hl, if_pos ⟨rfl, hl⟩, getElem?_set_self hi, hr]
        rfl
      · simp [hl, getElem?_set_ne hij, hij]
    · simp [hl]

variable {ws : List Waiter} {readers : List Reader}

theorem agree_send (h : Agree ws readers) (i : Nat) (row : Row) :
    Agree ws (send readers i row) := by
  intro w hw
  obtain ⟨r, hr, hd⟩ := h w hw
  rw [getElem?_send, hr]
  split
  · exact ⟨_, rfl, hd⟩
  · exact ⟨r, rfl, hd⟩

theorem takerIn_send (t : Tuple) (ws : List Waiter) (readers : List Reader) (i : Nat) (row : Row) :
    takerIn t ws (send readers i row) = takerIn t ws readers := by
  unfold takerIn
  congr 1
  funext w
  rw [listeningAt_send]

variable {row : Row} {c : Bool} {j : Nat}

theorem offerLoop_untouched (h : ∀ w ∈ ws, w.reader ≠ j) :
    (offerLoop row ws readers c).2.1[j]? = readers[j]? := by
  induction ws generalizing readers c with
  | nil => rfl
  | cons w ws ih =>
    have hrest : ∀ w ∈ ws, w.reader ≠ j := fun w hw => h w (mem_cons_of_mem _ hw)
    have hne : w.reader ≠ j := h w mem_cons_self
    unfold offerLoop
    split
    · exact ih hrest
    · rw [ih hrest, getElem?_send, if_neg (fun hc => hne hc.1)]

variable {w : Waiter}

theorem offerLoop_kept (hnd : (ws.map Waiter.reader).Nodup)
    (hw : w ∈ (offerLoop row ws readers c).1) :
    (offerLoop row ws readers c).2.1[w.reader]? = readers[w.reader]? := by
  induction ws generalizing readers c with
  | nil => cases hw
  | cons v ws ih =>
    obtain ⟨hv, hnd⟩ := nodup_cons.mp hnd
    have hrest : ∀ u ∈ ws, u.reader ≠ v.reader :=
      fun u hu he => hv (he ▸ mem_map_of_mem hu)
    unfold offerLoop at hw ⊢
    by_cases hp : v.passedOver row.tuple c = true
    · simp only [hp, if_true, mem_cons] at hw ⊢
      rcases hw with rfl | hw
      · exact offerLoop_untouched hrest
      · exact ih hnd hw
    · simp only [hp, Bool.false_eq_true, if_false] at hw ⊢
      rw [ih hnd hw, getElem?_send, if_neg]
      intro hc
      exact hrest w (mem_offerLoop hw).1 hc.1.symm

theorem offerLoop_sublist (row : Row) (ws : List Waiter) (readers : List Reader) (c : Bool) :
    (offerLoop row ws readers c).1.Sublist ws := by
  induction ws generalizing readers c with
  | nil => exact List.Sublist.refl _
  | cons w ws ih =>
    unfold offerLoop
    split
    · exact (ih readers c).cons_cons w
    · exact (ih _ _).cons w

def handedTo (t : Tuple) (ws : List Waiter) (readers : List Reader) (c : Bool) : Option Waiter :=
  if c = true ∨ t.lifecycle = .furniture then none else takerIn t ws readers

/-- The loop sends to at most one destructive reader, the first in line, and consumes
the tuple exactly when there is one. -/
theorem offerLoop_takes (row : Row) (hag : Agree ws readers) :
    (offerLoop row ws readers c).2.2 = (c || (handedTo row.tuple ws readers c).isSome) ∧
      ∀ j r, readers[j]? = some r → r.destructive = true → (offerLoop row ws readers c).2.1[j]? =
          if (handedTo row.tuple ws readers c).any (fun w => w.reader = j) then
            some { r with slot := some row }
          else some r := by
  induction ws generalizing readers c with
  | nil =>
    refine ⟨by simp [offerLoop, handedTo, takerIn], fun j r hr _ => ?_⟩
    simp [offerLoop, handedTo, takerIn, hr]
  | cons w ws ih =>
    have hrest : Agree ws readers := fun v hv => hag v (mem_cons_of_mem _ hv)
    obtain ⟨r₀, hr₀, hd₀⟩ := hag w mem_cons_self
    unfold offerLoop
    by_cases hp : w.passedOver row.tuple c = true
    · -- A waiter that keeps its place is not the one the tuple is handed to.
      have hsame : handedTo row.tuple (w :: ws) readers c = handedTo row.tuple ws readers c := by
        unfold handedTo
        split
        · rfl
        · rename_i hno
          push Not at hno
          have hm : w.pattern.matches row.tuple = false := by
            simpa [Waiter.passedOver, hno.1, hno.2] using hp
          simp [takerIn, hm]
      simp only [hp, if_true, hsame]
      exact ih hrest
    · simp only [hp, Bool.false_eq_true, if_false]
      simp only [Waiter.passedOver, Bool.or_eq_true, Bool.and_eq_true, Bool.not_eq_true',
        decide_eq_true_eq, not_or, Bool.not_eq_false, not_and] at hp
      obtain ⟨hm, hfree⟩ := hp
      cases hd : w.destructive with
      | false =>
        -- A delivery to a plain reader.
        have hsame : ∀ rs, handedTo row.tuple (w :: ws) rs c = handedTo row.tuple ws rs c := by
          intro rs
          simp [handedTo, takerIn, hd]
        have hsend : handedTo row.tuple ws (send readers w.reader row) c =
            handedTo row.tuple ws readers c := by simp only [handedTo, takerIn_send]
        have hsent : Agree ws (send readers w.reader row) := agree_send hrest _ _
        obtain ⟨hc, hrs⟩ := ih (c := c) hsent
        simp only [Bool.false_and, Bool.or_false, hsame, hsend] at hc hrs ⊢
        refine ⟨hc, fun j r hr hrd => hrs j r ?_ hrd⟩
        rw [getElem?_send, if_neg, hr]
        intro h
        rw [← h.1, hr₀] at hr
        cases hr
        rw [hd₀, hd] at hrd
        cases hrd
      | true =>
        obtain ⟨hc, hl⟩ := hfree hd
        have hc : c = false := eq_false_of_ne_true hc
        subst hc
        cases hlis : listeningAt readers w.reader with
        | false =>
          -- The receiver is gone: the waiter is dropped and the search goes on.
          have hsend : send readers w.reader row = readers := by
            apply ext_getElem?
            intro k
            rw [getElem?_send, if_neg]
            intro h
            rw [hlis] at h
            exact Bool.noConfusion h.2
          have hsame : handedTo row.tuple (w :: ws) readers false =
              handedTo row.tuple ws readers false := by
            simp [handedTo, takerIn, hlis]
          simp only [hsend, hsame, Bool.and_false, Bool.or_false]
          exact ih hrest
        | true =>
          have hhand : handedTo row.tuple (w :: ws) readers false = some w := by
            simp [handedTo, takerIn, hd, hm, hlis, hl]
          have hdone : ∀ rs, handedTo row.tuple ws rs true = none := by
            intro rs
            simp [handedTo]
          have hsent : Agree ws (send readers w.reader row) := agree_send hrest _ _
          obtain ⟨hc, hrs⟩ := ih (c := true) hsent
          simp only [Bool.and_self, Bool.or_true, hhand, hdone] at hc hrs ⊢
          refine ⟨by rw [hc]; rfl, fun j r hr hrd => ?_⟩
          by_cases hj : w.reader = j
          · subst hj
            have hsent : (send readers w.reader row)[w.reader]? =
                some { r with slot := some row } := by
              rw [getElem?_send, if_pos ⟨rfl, hlis⟩, hr]
              rfl
            simpa using hrs w.reader _ hsent hrd
          · have hsent : (send readers w.reader row)[j]? = some r := by
              rw [getElem?_send, if_neg (fun h => hj h.1), hr]
            simpa [hj] using hrs j r hsent hrd

/-- What every run keeps, whatever the deadlines do: channels, waiters, rows and the
history of consumed rows fit together. -/
structure Inner.Handed (s : Inner) : Prop where
  wf : s.store.Wf
  agree : Agree s.waiters s.readers
  unsent : ∀ w ∈ s.waiters, ∀ r, s.readers[w.reader]? = some r → r.slot = none
  distinct : (s.waiters.map Waiter.reader).Nodup
  bounded : ∀ row ∈ s.consumed, row.sequence ≤ s.store.lastSequence
  apart : ∀ row ∈ s.consumed, ∀ r ∈ s.store.rows, row.sequence ≠ r.sequence
  consumable : ∀ row ∈ s.consumed, row.tuple.lifecycle ≠ .furniture
  gotten : ∀ i row, s.TakeGets i row → row ∈ s.consumed
  once : ∀ i j row row', s.TakeGets i row → s.TakeGets j row' → row.sequence = row'.sequence → i = j

theorem handed_empty : Inner.empty.Handed := by
  refine ⟨Store.wf_empty, ?_, ?_, ?_, ?_, ?_, ?_, ?_, ?_⟩
  · intro w hw; cases hw
  · intro w hw; cases hw
  · exact nodup_nil
  · intro row hrow; cases hrow
  · intro row hrow; cases hrow
  · intro row hrow; cases hrow
  · intro i row h; obtain ⟨r, hr, -⟩ := h; cases hr
  · intro i j row row' h; obtain ⟨r, hr, -⟩ := h; cases hr

variable {s : Inner}

/-- Under the invariant, exactly-once comes down to somebody getting every consumed
row. -/
theorem Inner.Handed.exactlyOnce_iff (h : s.Handed) :
    s.ExactlyOnce ↔ ∀ row ∈ s.consumed, ∃ i, s.TakeGets i row := by
  constructor
  · intro he row hrow
    obtain ⟨i, hi, -⟩ := he.delivered row hrow
    exact ⟨i, hi⟩
  · intro hd
    refine ⟨fun row hrow => ?_, h.once, h.consumable⟩
    obtain ⟨i, hi⟩ := hd row hrow
    exact ⟨i, hi, fun j hj => h.once j i row row hj hi rfl⟩

theorem Inner.Handed.waiter_gets (h : s.Handed) (hw : w ∈ s.waiters)
    (hl : listeningAt s.readers w.reader = true) : ¬ s.TakeGets w.reader row := by
  intro hg
  obtain ⟨r, hr, -, hg⟩ := hg
  rcases hg with hret | ⟨-, hslot⟩
  · simp [listeningAt, hr, Reader.listening, hret] at hl
  · rw [h.unsent w hw r hr] at hslot
    cases hslot

theorem any_reader {o : Option Waiter} :
    o.any (fun w => decide (w.reader = j)) = true ↔ ∃ w, o = some w ∧ w.reader = j := by
  cases o <;> simp

section Offer
variable {s : Inner} {row : Row}

abbrev Inner.handed (s : Inner) (row : Row) : Option Waiter :=
  handedTo row.tuple s.waiters s.readers false

theorem handed_spec {w : Waiter} (h : s.handed row = some w) :
    w ∈ s.waiters ∧ w.destructive = true ∧ listeningAt s.readers w.reader = true ∧
      row.tuple.lifecycle ≠ .furniture := by
  unfold Inner.handed handedTo at h
  split at h
  · cases h
  · rename_i hno
    have hm := mem_of_find?_eq_some h
    have hpred := find?_some h
    simp only [Bool.and_eq_true] at hpred
    exact ⟨hm, hpred.1.1, hpred.2, fun hf => hno (.inr hf)⟩

theorem offer_consumed (hag : Agree s.waiters s.readers) :
    (offerLoop row s.waiters s.readers false).2.2 = (s.handed row).isSome := by
  have htakes := (offerLoop_takes row hag (c := false)).1
  simpa using htakes

variable {j : Nat}

theorem offer_reader (hag : Agree s.waiters s.readers) {r : Reader} (hr : s.readers[j]? = some r)
    (hd : r.destructive = true) :
    (s.offer row).readers[j]? =
      if (s.handed row).any (fun w => w.reader = j) then some { r with slot := some row }
      else some r :=
  (offerLoop_takes row hag (c := false)).2 j r hr hd

theorem offerLoop_flags (row : Row) (ws : List Waiter) (readers : List Reader) (c : Bool) (j : Nat) :
    (offerLoop row ws readers c).2.1[j]?.map Reader.destructive =
      readers[j]?.map Reader.destructive := by
  induction ws generalizing readers c with
  | nil => rfl
  | cons w ws ih =>
    unfold offerLoop
    split
    · exact ih readers c
    · rw [ih, getElem?_send]
      split
      · cases readers[j]? with
        | none | some r => rfl
      · rfl

theorem offer_destructive {r' : Reader} (hr' : (s.offer row).readers[j]? = some r')
    (hd : r'.destructive = true) : ∃ r, s.readers[j]? = some r ∧ r.destructive = true := by
  have hflag := offerLoop_flags row s.waiters s.readers false j
  have hr'' : (offerLoop row s.waiters s.readers false).2.1[j]? = some r' := hr'
  rw [hr'', map_some, hd] at hflag
  exact map_eq_some_iff.mp hflag.symm

/-- An offer adds one thing to what the take calls get: the row, to the first in line,
if that call still awaits its channel. -/
theorem offer_takeGets (h : s.Handed) {c : Row} :
    (s.offer row).TakeGets j c ↔
      s.TakeGets j c ∨ (c = row ∧ ∃ w r, s.handed row = some w ∧ w.reader = j ∧
        s.readers[j]? = some r ∧ r.state = .waiting) := by
  constructor
  · intro hg
    obtain ⟨r', hr', hd', hg⟩ := hg
    obtain ⟨r, hr, hd⟩ := offer_destructive hr' hd'
    rw [offer_reader h.agree hr hd] at hr'
    by_cases hany : (s.handed row).any (fun w => decide (w.reader = j)) = true
    · obtain ⟨w, hw, hj⟩ := any_reader.mp hany
      rw [if_pos hany] at hr'
      cases hr'
      rcases hg with hret | ⟨hst, hslot⟩
      · -- The first in line has not returned: it still listens.
        have hl := (handed_spec hw).2.2.1
        rw [hj] at hl
        simp [listeningAt, hr, Reader.listening, show r.state = _ from hret] at hl
      · cases hslot
        exact .inr ⟨rfl, w, r, hw, hj, hr, hst⟩
    · rw [if_neg hany] at hr'
      cases hr'
      exact .inl ⟨r', hr, hd', hg⟩
  · intro hg
    rcases hg with ⟨r, hr, hd, hg⟩ | ⟨rfl, w, r, hw, hj, hr, hst⟩
    · refine ⟨r, ?_, hd, hg⟩
      rw [offer_reader h.agree hr hd, if_neg]
      intro hany
      obtain ⟨w, hw, hj⟩ := any_reader.mp hany
      obtain ⟨hm, -, hl, -⟩ := handed_spec hw
      subst hj
      exact h.waiter_gets hm hl ⟨r, hr, hd, hg⟩
    · obtain ⟨hm, hwd, -, -⟩ := handed_spec hw
      obtain ⟨r₀, hr₀, hd₀⟩ := h.agree w hm
      rw [hj, hr] at hr₀
      cases hr₀
      refine ⟨{ r with slot := some c }, ?_, hd₀.trans hwd, .inr ⟨hst, rfl⟩⟩
      rw [offer_reader h.agree hr (hd₀.trans hwd), hw]
      simp [hj]

theorem offer_consumed_eq (h : s.Handed) :
    (s.offer row).consumed = if (s.handed row).isSome then s.consumed ++ [row] else s.consumed := by
  unfold Inner.offer
  dsimp only
  rw [offer_consumed h.agree]

theorem offer_rows (h : s.Handed) {r : Row} (hr : r ∈ (s.offer row).store.rows) :
    r ∈ s.store.rows ∧ ((s.handed row).isSome → r.tuple.id ≠ row.tuple.id) := by
  unfold Inner.offer at hr
  dsimp only at hr
  rw [offer_consumed h.agree] at hr
  split at hr
  · obtain ⟨hr, hne⟩ := Store.mem_erase_rows.mp hr
    exact ⟨hr, fun _ => hne⟩
  · rename_i hno
    exact ⟨hr, fun hs => absurd hs hno⟩

theorem mem_offer_consumed (h : s.Handed) {c : Row} :
    c ∈ (s.offer row).consumed ↔ c ∈ s.consumed ∨ (c = row ∧ (s.handed row).isSome) := by
  rw [offer_consumed_eq h]
  split
  · rename_i hs
    simp [hs]
  · rename_i hs
    simp [hs]

theorem handed_offer (h : s.Handed) (hrow : row ∈ s.store.rows) : (s.offer row).Handed := by
  have hl : (s.offer row).store.lastSequence = s.store.lastSequence := by
    unfold Inner.offer
    dsimp only
    split <;> rfl
  have hm : ∀ {w}, w ∈ (s.offer row).waiters → w ∈ s.waiters := fun hw => (mem_offerLoop hw).1
  have hkept : ∀ {w}, w ∈ (s.offer row).waiters →
      (s.offer row).readers[w.reader]? = s.readers[w.reader]? :=
    fun hw => offerLoop_kept h.distinct hw
  refine ⟨(evolves_offer Row.stamp s row).wf h.wf, ?_, ?_, ?_, ?_, ?_, ?_, ?_, ?_⟩
  · intro w hw
    rw [hkept hw]
    exact h.agree w (hm hw)
  · intro w hw r hr
    rw [hkept hw] at hr
    exact h.unsent w (hm hw) r hr
  · exact ((offerLoop_sublist row s.waiters s.readers false).map Waiter.reader).nodup h.distinct
  · intro c hc
    rw [hl]
    rcases (mem_offer_consumed h).mp hc with hc | ⟨rfl, -⟩
    · exact h.bounded c hc
    · exact h.wf.bounded c hrow
  · intro c hc r hr
    obtain ⟨hold, hne⟩ := offer_rows h hr
    rcases (mem_offer_consumed h).mp hc with hc | ⟨hc, hs⟩
    · exact h.apart c hc r hold
    · intro hseq
      rw [hc] at hseq
      have hsame : row = r := inj_on_of_nodup_map h.wf.sequences hrow hold hseq
      exact hne hs (hsame ▸ rfl)
  · intro c hc
    rcases (mem_offer_consumed h).mp hc with hc | ⟨rfl, hs⟩
    · exact h.consumable c hc
    · obtain ⟨w, hw⟩ := isSome_iff_exists.mp hs
      exact (handed_spec hw).2.2.2
  · intro i c hg
    refine (mem_offer_consumed h).mpr ?_
    rcases (offer_takeGets h).mp hg with hg | ⟨hc, w, -, hw, -⟩
    · exact .inl (h.gotten i c hg)
    · exact .inr ⟨hc, by rw [hw]; rfl⟩
  · -- The row is still stored, so no call got it before.
    have hfresh : ∀ {i c}, s.TakeGets i c → c.sequence ≠ row.sequence :=
      fun hg => h.apart _ (h.gotten _ _ hg) row hrow
    intro i j c c' hi hj hseq
    rcases (offer_takeGets h).mp hi with hi' | ⟨hc, w, -, hw, hwi, -⟩
    · rcases (offer_takeGets h).mp hj with hj' | ⟨hc', -⟩
      · exact h.once i j c c' hi' hj' hseq
      · exact absurd (hc' ▸ hseq) (hfresh hi')
    · rcases (offer_takeGets h).mp hj with hj' | ⟨-, w', -, hw', hwj, -⟩
      · exact absurd (hc ▸ hseq.symm) (hfresh hj')
      · rw [hw] at hw'
        cases hw'
        exact hwi.symm.trans hwj

theorem delivered_offer (h : s.Handed) (hrow : row ∈ s.store.rows)
    (hP : ∀ c ∈ s.consumed, ∃ i, s.TakeGets i c) :
    (∀ c ∈ (s.offer row).consumed, ∃ i, (s.offer row).TakeGets i c) ↔
      ∀ w, s.handed row = some w → ∀ r, s.readers[w.reader]? = some r → r.state ≠ .expired := by
  constructor
  · intro hd w hw r hr hexp
    have hc : row ∈ (s.offer row).consumed :=
      (mem_offer_consumed h).mpr (.inr ⟨rfl, by rw [hw]; rfl⟩)
    obtain ⟨i, hi⟩ := hd row hc
    rcases (offer_takeGets h).mp hi with hi | ⟨-, w', r', hw', hwi, hr', hst⟩
    · exact h.apart row (h.gotten i row hi) row hrow rfl
    · rw [hw] at hw'
      cases hw'
      rw [hwi, hr'] at hr
      cases hr
      rw [hst] at hexp
      cases hexp
  · intro hg c hc
    rcases (mem_offer_consumed h).mp hc with hc | ⟨rfl, hs⟩
    · obtain ⟨i, hi⟩ := hP c hc
      exact ⟨i, (offer_takeGets h).mpr (.inl hi)⟩
    · obtain ⟨w, hw⟩ := isSome_iff_exists.mp hs
      obtain ⟨hm, -, hl, -⟩ := handed_spec hw
      obtain ⟨r, hr, -⟩ := h.agree w hm
      refine ⟨w.reader, (offer_takeGets h).mpr (.inr ⟨rfl, w, r, hw, rfl, hr, ?_⟩)⟩
      -- A live receiver awaits or has expired.
      have hne := hg w hw r hr
      simp only [listeningAt, hr, Reader.listening] at hl
      cases hst : r.state with
      | waiting => rfl
      | expired => exact absurd hst hne
      | released | returned result => rw [hst] at hl; cases hl

end Offer

theorem handed_store {store : Store} (h : s.Handed) (hev : s.store.Evolves Row.stamp store) :
    ({ s with store } : Inner).Handed := by
  have hkey : ∀ r r' : Row, r.stamp = r'.stamp → r.sequence = r'.sequence :=
    fun r r' he => congrArg Prod.fst he
  refine ⟨hev.wf h.wf, h.agree, h.unsent, h.distinct, ?_, ?_, h.consumable, h.gotten, h.once⟩
  · intro c hc
    exact (h.bounded c hc).trans hev.lastSequence_le
  · intro c hc r hr
    rcases hev.row_origin hkey hr with ⟨r₀, hr₀, he⟩ | hlt
    · rw [← hkey _ _ he]
      exact h.apart c hc r₀ hr₀
    · have := h.bounded c hc
      omega

theorem mem_query {s : Store} {p : Pattern} {consumableOnly : Bool} {limit : Option Nat} {r : Row}
    (h : r ∈ s.query p consumableOnly limit) :
    r ∈ s.rows ∧ Store.patternFilters p consumableOnly r.tuple = true := by
  have hm : r ∈ (s.rows.filter fun r => Store.patternFilters p consumableOnly r.tuple).insertionSort
      fun a b => a.tuple.id ≤ b.tuple.id := by
    cases limit with
    | none => exact h
    | some n => exact mem_of_mem_take h
  exact mem_filter.mp ((mem_insertionSort _).mp hm)

variable {r : Reader} {i : Nat}

theorem takeGets_append {store : Store} {n : Nat} {consumed : List Row} {c : Row} :
    (⟨store, ws, n, s.readers ++ [r], consumed⟩ : Inner).TakeGets i c ↔
      s.TakeGets i c ∨ (i = s.readers.length ∧ r.destructive = true ∧ r.gets c) := by
  unfold Inner.TakeGets
  constructor
  · intro h
    obtain ⟨r', hr', hd, hg⟩ := h
    by_cases hi : i < s.readers.length
    · rw [getElem?_append_left hi] at hr'
      exact .inl ⟨r', hr', hd, hg⟩
    · rw [getElem?_append_right (by omega)] at hr'
      have hz : i - s.readers.length = 0 := by
        have := (List.getElem?_eq_some_iff.mp hr').1
        simp only [length_singleton] at this
        omega
      rw [hz] at hr'
      cases hr'
      exact .inr ⟨by omega, hd, hg⟩
  · intro h
    rcases h with ⟨r', hr', hd, hg⟩ | ⟨rfl, hd, hg⟩
    · refine ⟨r', ?_, hd, hg⟩
      rw [getElem?_append_left (List.getElem?_eq_some_iff.mp hr').1]
      exact hr'
    · exact ⟨r, by simp, hd, hg⟩

theorem agree_append (h : Agree ws readers) (r : Reader) : Agree ws (readers ++ [r]) := by
  intro w hw
  obtain ⟨r₀, hr₀, hd⟩ := h w hw
  exact ⟨r₀, by rw [getElem?_append_left (List.getElem?_eq_some_iff.mp hr₀).1, hr₀], hd⟩

theorem Inner.Handed.reader_lt (h : s.Handed) (hw : w ∈ s.waiters) :
    w.reader < s.readers.length := by
  obtain ⟨r, hr, -⟩ := h.agree w hw
  exact (List.getElem?_eq_some_iff.mp hr).1

theorem handed_hit (h : s.Handed) {p : Pattern} {destructive : Bool} {n : Nat}
    (hm : row ∈ s.store.rows) (hf : Store.patternFilters p destructive row.tuple = true) :
    ({ s with
      store := if destructive then s.store.erase row.tuple.id else s.store
      consumed := if destructive then s.consumed ++ [row] else s.consumed
      readers := s.readers ++ [⟨destructive, n, none, .returned (some row)⟩] } : Inner).Handed := by
  have hunsent : ∀ w ∈ s.waiters, ∀ r,
      (s.readers ++ [⟨destructive, n, none, .returned (some row)⟩])[w.reader]? = some r →
        r.slot = none := by
    intro w hw r hr
    rw [getElem?_append_left (h.reader_lt hw)] at hr
    exact h.unsent w hw r hr
  cases destructive with
  | false =>
    refine ⟨h.wf, agree_append h.agree _, hunsent, h.distinct, h.bounded, h.apart, h.consumable,
      ?_, ?_⟩
    · intro i c hg
      rcases takeGets_append.mp hg with hg | ⟨-, hd, -⟩
      · exact h.gotten i c hg
      · cases hd
    · intro i j c c' hi hj hseq
      rcases takeGets_append.mp hi with hi' | ⟨-, hd, -⟩
      · rcases takeGets_append.mp hj with hj' | ⟨-, hd, -⟩
        · exact h.once i j c c' hi' hj' hseq
        · cases hd
      · cases hd
  | true =>
    have hsucc : ∀ {c}, c ∈ s.consumed ++ [row] → c ∈ s.consumed ∨ c = row := by
      intro c hc
      rcases mem_append.mp hc with hc | hc
      · exact .inl hc
      · exact .inr (mem_singleton.mp hc)
    have hfresh : ∀ {i c}, s.TakeGets i c → c.sequence ≠ row.sequence :=
      fun hg => h.apart _ (h.gotten _ _ hg) row hm
    have hown : ∀ {c : Row}, (⟨true, n, none, .returned (some row)⟩ : Reader).gets c → c = row := by
      intro c hg
      rcases hg with hret | ⟨hst, -⟩
      · cases hret; rfl
      · cases hst
    refine ⟨(Store.evolves_erase _ _ _).wf h.wf, agree_append h.agree _, hunsent, h.distinct,
      ?_, ?_, ?_, ?_, ?_⟩
    · intro c hc
      rcases hsucc hc with hc | rfl
      · exact h.bounded c hc
      · exact h.wf.bounded c hm
    · intro c hc r hr
      obtain ⟨hold, hne⟩ := Store.mem_erase_rows.mp hr
      rcases hsucc hc with hc | rfl
      · exact h.apart c hc r hold
      · intro hseq
        have hsame : c = r := inj_on_of_nodup_map h.wf.sequences hm hold hseq
        exact hne (hsame ▸ rfl)
    · intro c hc
      rcases hsucc hc with hc | rfl
      · exact h.consumable c hc
      · rw [patternFilters_eq] at hf
        simpa using (Bool.and_eq_true_iff.mp hf).2
    · intro i c hg
      refine mem_append.mpr ?_
      rcases takeGets_append.mp hg with hg | ⟨-, -, hg⟩
      · exact .inl (h.gotten i c hg)
      · exact .inr (mem_singleton.mpr (hown hg))
    · intro i j c c' hi hj hseq
      rcases takeGets_append.mp hi with hi' | ⟨hi', -, hg⟩
      · rcases takeGets_append.mp hj with hj' | ⟨-, -, hg'⟩
        · exact h.once i j c c' hi' hj' hseq
        · rw [hown hg'] at hseq
          exact absurd hseq (hfresh hi')
      · rcases takeGets_append.mp hj with hj' | ⟨hj', -, -⟩
        · rw [hown hg] at hseq
          exact absurd hseq.symm (hfresh hj')
        · rw [hi', hj']

/-- A miss: the new call waits with an empty channel. -/
theorem handed_miss (h : s.Handed) (p : Pattern) (destructive : Bool) (n : Nat) :
    ({ s with
      waiters := s.waiters ++ [⟨s.nextWaiterId, p, destructive, s.readers.length⟩]
      nextWaiterId := n
      readers := s.readers ++ [⟨destructive, s.nextWaiterId, none, .waiting⟩] } : Inner).Handed := by
  have hn : ∀ c : Row, ¬ (⟨destructive, s.nextWaiterId, none, .waiting⟩ : Reader).gets c := by
    intro c hg
    rcases hg with hret | ⟨-, hslot⟩
    · cases hret
    · cases hslot
  refine ⟨h.wf, ?_, ?_, ?_, h.bounded, h.apart, h.consumable, ?_, ?_⟩
  · refine forall_mem_concat.mpr ⟨agree_append h.agree _, ?_⟩
    exact ⟨⟨destructive, s.nextWaiterId, none, .waiting⟩, by simp, rfl⟩
  · intro w hw r hr
    rcases mem_append.mp hw with hw | hw
    · dsimp only at hr
      rw [getElem?_append_left (h.reader_lt hw)] at hr
      exact h.unsent w hw r hr
    · rw [mem_singleton.mp hw] at hr
      simp only [getElem?_concat_length, some.injEq] at hr
      rw [← hr]
  · simp only [map_append, map_cons, map_nil]
    refine List.Nodup.append h.distinct (nodup_singleton _) ?_
    intro k hk hk'
    obtain ⟨w, hw, rfl⟩ := mem_map.mp hk
    have := h.reader_lt hw
    have := mem_singleton.mp hk'
    omega
  · intro i c hg
    rcases takeGets_append.mp hg with hg | ⟨-, -, hg⟩
    · exact h.gotten i c hg
    · exact absurd hg (hn c)
  · intro i j c c' hi hj hseq
    rcases takeGets_append.mp hi with hi' | ⟨-, -, hg⟩
    · rcases takeGets_append.mp hj with hj' | ⟨-, -, hg⟩
      · exact h.once i j c c' hi' hj' hseq
      · exact absurd hg (hn c')
    · exact absurd hg (hn c)

theorem handed_checkAndRegister (h : s.Handed) (p : Pattern) (destructive : Bool) :
    (s.checkAndRegister p destructive).Handed := by
  rcases checkAndRegister_cases s p destructive with ⟨row, rest, hq, he⟩ | ⟨-, he⟩
  · rw [he]
    obtain ⟨hm, hf⟩ := mem_query (hq ▸ mem_cons_self : row ∈ _)
    exact handed_hit h hm hf
  · rw [he]
    exact handed_miss h p destructive _

theorem delivered_checkAndRegister (p : Pattern) (destructive : Bool)
    (hP : ∀ c ∈ s.consumed, ∃ i, s.TakeGets i c) :
    ∀ c ∈ (s.checkAndRegister p destructive).consumed,
      ∃ i, (s.checkAndRegister p destructive).TakeGets i c := by
  rcases checkAndRegister_cases s p destructive with ⟨row, rest, -, he⟩ | ⟨-, he⟩
  · rw [he]
    intro c hc
    cases destructive with
    | false =>
      obtain ⟨i, hi⟩ := hP c hc
      exact ⟨i, takeGets_append.mpr (.inl hi)⟩
    | true =>
      rcases mem_append.mp hc with hc | hc
      · obtain ⟨i, hi⟩ := hP c hc
        exact ⟨i, takeGets_append.mpr (.inl hi)⟩
      · rw [mem_singleton.mp hc]
        exact ⟨_, takeGets_append.mpr (.inr ⟨rfl, rfl, .inl rfl⟩)⟩
  · rw [he]
    intro c hc
    obtain ⟨i, hi⟩ := hP c hc
    exact ⟨i, takeGets_append.mpr (.inl hi)⟩

variable {waiters : List Waiter} {r' : Reader}

theorem Reader.Move.flag (h : Reader.Move i waiters r ws r') : r'.destructive = r.destructive := by
  cases h <;> rfl

theorem Reader.Move.slot (h : Reader.Move i waiters r ws r') (hs : r.slot = none) :
    r'.slot = none := by
  cases h with
  | receive | dropReceiver => rfl
  | decideTimeout | observeClosed | removeWaiter => exact hs

theorem Reader.Move.gets_iff (h : Reader.Move i waiters r ws r') (row : Row) :
    r'.gets row ↔ r.gets row := by
  cases h with
  | receive hst hslot =>
    constructor
    · intro hg
      rcases hg with hret | ⟨hw, -⟩
      · cases hret
        exact .inr ⟨hst, hslot⟩
      · cases hw
    · intro hg
      rcases hg with hret | ⟨-, hs⟩
      · rw [hst] at hret; cases hret
      · rw [hslot] at hs
        cases hs
        exact .inl rfl
  | decideTimeout hst hslot | observeClosed hst hslot _ => simp [Reader.gets, hst, hslot]
  | dropReceiver hst | removeWaiter hst => simp [Reader.gets, hst]

theorem takeGets_move {s : Inner} {i : Nat} {r r' : Reader} {ws : List Waiter}
    (hr : s.readers[i]? = some r) (hm : Reader.Move i s.waiters r ws r') {j : Nat} {c : Row} :
    ({ s with waiters := ws, readers := s.readers.set i r' } : Inner).TakeGets j c ↔
      s.TakeGets j c := by
  have hi : i < s.readers.length := (List.getElem?_eq_some_iff.mp hr).1
  unfold Inner.TakeGets
  by_cases hij : i = j
  · subst hij
    rw [getElem?_set_self hi, hr]
    simp only [some.injEq, exists_eq_left']
    rw [hm.flag, hm.gets_iff]
  · rw [getElem?_set_ne hij]

theorem handed_move (h : s.Handed) (hr : s.readers[i]? = some r)
    (hm : Reader.Move i s.waiters r ws r') :
    ({ s with waiters := ws, readers := s.readers.set i r' } : Inner).Handed := by
  have hi : i < s.readers.length := (List.getElem?_eq_some_iff.mp hr).1
  refine ⟨h.wf, ?_, ?_, ?_, h.bounded, h.apart, h.consumable, ?_, ?_⟩
  · intro w hw
    obtain ⟨r₀, hr₀, hd⟩ := h.agree w (hm.waiters_subset hw)
    by_cases hij : i = w.reader
    · rw [← hij, hr] at hr₀
      cases hr₀
      rw [← hij, getElem?_set_self hi]
      exact ⟨r', rfl, hm.flag.trans hd⟩
    · rw [getElem?_set_ne hij]
      exact ⟨r₀, hr₀, hd⟩
  · intro w hw r₁ hr₁
    by_cases hij : i = w.reader
    · rw [← hij, getElem?_set_self hi] at hr₁
      cases hr₁
      exact hm.slot (h.unsent w (hm.waiters_subset hw) r (hij ▸ hr))
    · rw [getElem?_set_ne hij] at hr₁
      exact h.unsent w (hm.waiters_subset hw) r₁ hr₁
  · have hsub : ws.Sublist s.waiters := by
      cases hm with
      | removeWaiter => exact filter_sublist
      | _ => exact List.Sublist.refl _
    exact (hsub.map Waiter.reader).nodup h.distinct
  · intro j c hg
    exact h.gotten j c ((takeGets_move hr hm).mp hg)
  · intro j k c c' hj hk
    exact h.once j k c c' ((takeGets_move hr hm).mp hj) ((takeGets_move hr hm).mp hk)

def handoffGuard (s : Inner) (op : Op) : Prop :=
  ∀ t, s.offered op = some t → t.lifecycle ≠ .furniture → ∀ w, s.taker t = some w →
    ∀ r, s.readers[w.reader]? = some r → r.state ≠ .expired

theorem handed_eq_some_iff :
    s.handed row = some w ↔ row.tuple.lifecycle ≠ .furniture ∧ s.taker row.tuple = some w := by
  unfold Inner.handed handedTo Inner.taker
  by_cases hf : row.tuple.lifecycle = .furniture
  · simp [hf]
  · simp [hf]

theorem handed_step {s' : Inner} {op : Op} (h : s.Handed) (hs : s.step op = some s') :
    s'.Handed := by
  rcases step_cases hs with ⟨t, -, store, kept, -, hrows, -, hev, rfl⟩ | ⟨-, store, hev, rfl⟩ |
    ⟨p, d, -, rfl⟩ | ⟨-, i, r, r', ws, hr, hm, rfl⟩
  · refine handed_offer (handed_store h (hev.coarsen fun _ => rfl)) ?_
    rw [hrows]
    exact mem_append_right _ mem_cons_self
  · exact handed_store h hev
  · exact handed_checkAndRegister h p d
  · exact handed_move h hr hm

theorem delivered_step {s' : Inner} {op : Op} (h : s.Handed)
    (hP : ∀ c ∈ s.consumed, ∃ i, s.TakeGets i c) (hs : s.step op = some s') :
    (∀ c ∈ s'.consumed, ∃ i, s'.TakeGets i c) ↔ handoffGuard s op := by
  have hn : s.offered op = none → handoffGuard s op := by
    intro ho t ht
    rw [ho] at ht
    cases ht
  rcases step_cases hs with ⟨t, ho, store, kept, -, hrows, -, hev, rfl⟩ | ⟨ho, store, hev, rfl⟩ |
    ⟨p, d, rfl, rfl⟩ | ⟨ho, i, r, r', ws, hr, hm, rfl⟩
  · have hmem : (⟨store.lastSequence, t⟩ : Row) ∈ store.rows := by
      rw [hrows]
      exact mem_append_right _ mem_cons_self
    rw [delivered_offer (s := { s with store }) (handed_store h (hev.coarsen fun _ => rfl)) hmem hP]
    constructor
    · intro hg u hu hf w hw r hr
      rw [ho] at hu
      cases hu
      exact hg w (handed_eq_some_iff.mpr ⟨hf, hw⟩) r hr
    · intro hg w hw r hr
      obtain ⟨hf, hw⟩ := handed_eq_some_iff.mp hw
      exact hg t ho hf w hw r hr
  · exact iff_of_true hP (hn ho)
  · exact iff_of_true (delivered_checkAndRegister p d hP) (hn rfl)
  · refine iff_of_true (fun c hc => ?_) (hn ho)
    obtain ⟨j, hj⟩ := hP c hc
    exact ⟨j, (takeGets_move hr hm).mpr hj⟩

/-- From an empty space, every consumed row of a run goes to exactly one take call in
every state exactly when no tuple was offered while the waiter first in line for it
had expired with its receiver still there. -/
theorem exactlyOnce_iff_guarded (ops : List Op) :
    Keeps Inner.step Inner.ExactlyOnce .empty ops ↔ Meets Inner.step handoffGuard .empty ops := by
  refine keeps_iff_meets (I := Inner.Handed) ?_ ?_ handed_empty ?_
  · intro s op s' h hs
    exact handed_step h hs
  · intro s op s' h hP hs
    rw [(handed_step h hs).exactlyOnce_iff]
    exact delivered_step h (h.exactlyOnce_iff.mp hP) hs
  · exact handed_empty.exactlyOnce_iff.mpr fun c hc => by cases hc

def job : Tuple := Tuple.new 1 0 .task "repo" "job" "rat-1" .null

def lateSendTrace : List Op :=
  [.checkAndRegister Pattern.any true, .decideTimeout 0, .out job, .dropReceiver 0, .removeWaiter 0]

theorem late_send_loses_row : ¬ Keeps Inner.step Inner.ExactlyOnce .empty lateSendTrace := by
  intro hk
  have hl := hk.last (rfl : run Inner.step .empty lateSendTrace = some _)
  obtain ⟨i, ⟨r, hr, -, hg⟩, -⟩ := hl.delivered ⟨1, job⟩ mem_cons_self
  -- The only call there was returned nothing.
  have hr' : [(⟨true, 0, none, .returned none⟩ : Reader)][i]? = some r := hr
  have hm := mem_of_getElem? hr'
  rw [mem_singleton.mp hm] at hg
  rcases hg with hret | ⟨hst, -⟩
  · cases hret
  · cases hst

end RatKingdom.Space
