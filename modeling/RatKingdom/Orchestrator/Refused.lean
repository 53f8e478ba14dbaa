/-
What a failed call on the lease store leaves behind.

Every call puts its lease in memory before it writes the file, so a caller whose write
failed is refused a lease that it nevertheless holds until the next restart.  A failed call
leaves nothing behind exactly where it was stopped by a check, or would have written the
lease that is already there, in a store whose memory is on file
(`failed_call_changes_nothing_iff`).
-/
import RatKingdom.Lib.WriteBack
import RatKingdom.Orchestrator.Lease

namespace RatKingdom.Orchestrator

open Core (DateTime)
open Lib (Stored Effect)

def LeaseStore.current (s : LeaseStore) (scope : String) : Option Lease := s.data scope

def LeaseStore.toStored (s : LeaseStore) : Stored Leases := { data := s.data, file := s.file }

/-- A call that fails leaves every lease as it was reported, and as a reload would give it. -/
def FailureHarmless (s : LeaseStore) (c : Call) (writes : Bool) : Prop :=
  (s.answer c writes).2.ok = false → ∀ scope,
    (s.answer c writes).1.current scope = s.current scope ∧
      (s.answer c writes).1.load.current scope = (s.answer c writes).1.current scope

def Call.effect (data : Leases) : Call → Effect Leases
  | .acquire scope holder ttlSecs now =>
    match acquired data scope holder ttlSecs now with
    | .error _ => .refuse
    | .ok lease => .write (data.insert scope lease)
  | .renew scope holder generation ttlSecs now =>
    match checkFence data scope holder generation now with
    | .error _ => .refuse
    | .ok lease => .write (data.insert scope { lease with expiresAt := now + ttl ttlSecs })
  | .advanceCursor scope holder generation cursor now =>
    match checkFence data scope holder generation now with
    | .error _ => .refuse
    | .ok lease => .write (data.insert scope { lease with cursor := some cursor })
  | .release scope holder generation now =>
    match data scope with
    | none => .refuse
    | some lease =>
      if lease.holder ≠ holder ∨ lease.generation ≠ generation then .refuse
      else .write (data.insert scope { lease with expiresAt := now })
  | .restart => .keep

theorem persist_settle {α : Type} (s : LeaseStore) (data : Leases) (writes : Bool) (out : α) :
    ((s.persist data writes out).1.toStored, (s.persist data writes out).2.isOk) =
      s.toStored.settle (.write data) writes := by
  cases writes with
  | true | false => rfl

theorem ofLease_ok (r : Except LeaseError Lease) : (Reply.ofLease r).ok = r.isOk := by
  cases r with
  | ok l | error e => rfl

theorem ofUnit_ok (r : Except LeaseError Unit) : (Reply.ofUnit r).ok = r.isOk := by
  cases r with
  | ok l | error e => rfl

theorem answer_settle (s : LeaseStore) {c : Call} (hc : c ≠ .restart) (writes : Bool) :
    ((s.answer c writes).1.toStored, (s.answer c writes).2.ok) =
      s.toStored.settle (c.effect s.data) writes := by
  cases c with
  | acquire scope holder ttlSecs now =>
    show ((s.acquire scope holder ttlSecs now writes).1.toStored,
      (Reply.ofLease (s.acquire scope holder ttlSecs now writes).2).ok) = _
    rw [ofLease_ok, LeaseStore.acquire, Call.effect]
    cases acquired s.data scope holder ttlSecs now with
    | error e => rfl
    | ok lease => exact persist_settle s _ writes lease
  | renew scope holder generation ttlSecs now =>
    show ((s.renew scope holder generation ttlSecs now writes).1.toStored,
      (Reply.ofLease (s.renew scope holder generation ttlSecs now writes).2).ok) = _
    rw [ofLease_ok, LeaseStore.renew, Call.effect]
    cases checkFence s.data scope holder generation now with
    | error e => rfl
    | ok lease => exact persist_settle s _ writes _
  | advanceCursor scope holder generation cursor now =>
    show ((s.advanceCursor scope holder generation cursor now writes).1.toStored,
      (Reply.ofLease (s.advanceCursor scope holder generation cursor now writes).2).ok) = _
    rw [ofLease_ok, LeaseStore.advanceCursor, Call.effect]
    cases checkFence s.data scope holder generation now with
    | error e => rfl
    | ok lease => exact persist_settle s _ writes _
  | release scope holder generation now =>
    show ((s.release scope holder generation now writes).1.toStored,
      (Reply.ofUnit (s.release scope holder generation now writes).2).ok) = _
    rw [ofUnit_ok, LeaseStore.release, Call.effect]
    cases s.data scope with
    | none => rfl
    | some lease =>
      by_cases hf : lease.holder ≠ holder ∨ lease.generation ≠ generation
      · simp only [if_pos hf]
        rfl
      · simp only [if_neg hf]
        exact persist_settle s _ writes ()
  | restart => exact absurd rfl hc

/-- The checks of the call let it through. -/
def Call.Granted (data : Leases) : Call → Prop
  | .acquire scope holder _ now =>
    ∀ l, data scope = some l → l.holder = holder ∨ l.isLive now = false
  | .renew scope holder generation _ now =>
    ∃ l, data scope = some l ∧ l.holder = holder ∧ l.generation = generation ∧ l.isLive now = true
  | .advanceCursor scope holder generation _ now =>
    ∃ l, data scope = some l ∧ l.holder = holder ∧ l.generation = generation ∧ l.isLive now = true
  | .release scope holder generation _ =>
    ∃ l, data scope = some l ∧ l.holder = holder ∧ l.generation = generation
  | .restart => True

/-- The lease is already what the call makes of it. -/
def Call.Idle (data : Leases) : Call → Prop
  | .acquire scope holder ttlSecs now =>
    ∃ l, data scope = some l ∧ l.holder = holder ∧ l.expiresAt = now + ttl ttlSecs
  | .renew scope _ _ ttlSecs now => ∃ l, data scope = some l ∧ l.expiresAt = now + ttl ttlSecs
  | .advanceCursor scope _ _ cursor _ => ∃ l, data scope = some l ∧ l.cursor = some cursor
  | .release scope _ _ now => ∃ l, data scope = some l ∧ l.expiresAt = now
  | .restart => True

section
variable {data : Leases} {scope holder : String} {generation : Nat} {now : DateTime} {l l' : Lease}

theorem held_iff (hl : data scope = some l) (P : Lease → Prop) :
    (∃ l', data scope = some l' ∧ P l') ↔ P l := by
  simp [hl]

theorem insert_eq_iff (hl : data scope = some l) : data.insert scope l' = data ↔ l' = l := by
  rw [Leases.insert, Function.update_eq_self_iff, hl, Option.some.injEq]

theorem checkFence_granted (hl : data scope = some l) (hh : l.holder = holder)
    (hg : l.generation = generation) (hlive : l.isLive now = true) :
    checkFence data scope holder generation now = .ok l := by
  have hfence : ¬ (l.holder ≠ holder ∨ l.generation ≠ generation) := by
    rw [hh, hg]
    simp
  simp only [checkFence, hl, if_neg hfence, hlive, Bool.true_eq_false, if_false]

theorem checkFence_live (h : checkFence data scope holder generation now = .ok l) :
    l.isLive now = true := by
  unfold checkFence at h
  split at h
  · cases h
  · split at h
    · cases h
    · split at h
      · cases h
      · rename_i hl
        cases h
        simpa using hl

theorem checkFence_error_iff : (∃ e, checkFence data scope holder generation now = .error e) ↔
    ¬ ∃ l, data scope = some l ∧ l.holder = holder ∧ l.generation = generation ∧
      l.isLive now = true := by
  constructor
  · intro ⟨e, he⟩ ⟨l, hl, hh, hg, hlive⟩
    rw [checkFence_granted hl hh hg hlive] at he
    cases he
  · intro hno
    cases hf : checkFence data scope holder generation now with
    | error e => exact ⟨e, rfl⟩
    | ok l =>
      obtain ⟨hl, hh, hg⟩ := checkFence_ok hf
      exact absurd ⟨l, hl, hh, hg, checkFence_live hf⟩ hno

end

/-- What the call comes to, in the terms of its arguments and the lease of its scope. -/
theorem effect_cases (data : Leases) {c : Call} (hc : c ≠ .restart) :
    (¬ c.Granted data ∧ c.effect data = .refuse) ∨
      c.Granted data ∧ ∃ data', c.effect data = .write data' ∧ (data' = data ↔ c.Idle data) := by
  cases c with
  | acquire scope holder ttlSecs now =>
    rw [Call.effect, acquired]
    cases hd : data scope with
    | none =>
      refine .inr ⟨fun l hl => ?_, _, rfl, ?_⟩
      · rw [hd] at hl
        cases hl
      · rw [Leases.insert, Function.update_eq_self_iff, hd]
        simp [Call.Idle, hd]
    | some existing =>
      by_cases hs : existing.holder = holder
      · simp only [if_pos hs]
        refine .inr ⟨fun l hl => ?_, _, rfl, ?_⟩
        · rw [hd] at hl
          cases hl
          exact .inl hs
        · rw [insert_eq_iff hd, Call.Idle, held_iff hd]
          constructor
          · intro he
            exact ⟨hs, by rw [← he]⟩
          · intro ⟨_, hexp⟩
            rw [← hexp]
      · simp only [if_neg hs]
        by_cases hlive : existing.isLive now = true
        · rw [if_pos hlive]
          refine .inl ⟨fun hg => ?_, rfl⟩
          rcases hg existing hd with h | h
          · exact hs h
          · rw [hlive] at h
            cases h
        · rw [if_neg hlive]
          refine .inr ⟨fun l hl => ?_, _, rfl, ?_⟩
          · rw [hd] at hl
            cases hl
            exact .inr (by simpa using hlive)
          · -- A replacement has another holder than the lease it takes over.
            rw [insert_eq_iff hd, Call.Idle, held_iff hd]
            constructor
            · intro he
              exact absurd (congrArg Lease.holder he).symm hs
            · intro ⟨hh, _⟩
              exact absurd hh hs
  | renew scope holder generation _ now | advanceCursor scope holder generation _ now =>
    rw [Call.effect]
    cases hf : checkFence data scope holder generation now with
    | error e => exact .inl ⟨checkFence_error_iff.mp ⟨e, hf⟩, rfl⟩
    | ok l =>
      obtain ⟨hl, hh, hg⟩ := checkFence_ok hf
      refine .inr ⟨⟨l, hl, hh, hg, checkFence_live hf⟩, _, rfl, ?_⟩
      rw [insert_eq_iff hl, Call.Idle, held_iff hl]
      constructor
      · intro he
        rw [← he]
      · intro hidle
        rw [← hidle]
  | release scope holder generation now =>
    rw [Call.effect]
    cases hd : data scope with
    | none =>
      refine .inl ⟨?_, rfl⟩
      intro ⟨l, hl, _⟩
      rw [hd] at hl
      cases hl
    | some lease =>
      by_cases hf : lease.holder ≠ holder ∨ lease.generation ≠ generation
      · simp only [if_pos hf]
        refine .inl ⟨?_, trivial⟩
        rw [Call.Granted, held_iff hd]
        intro ⟨hh, hg⟩
        rcases hf with hf | hf
        · exact hf hh
        · exact hf hg
      · simp only [if_neg hf]
        push Not at hf
        refine .inr ⟨⟨lease, hd, hf.1, hf.2⟩, _, rfl, ?_⟩
        rw [insert_eq_iff hd, Call.Idle, held_iff hd]
        constructor
        · intro he
          rw [← he]
        · intro hexp
          rw [← hexp]
  | restart => exact absurd rfl hc

theorem failureHarmless_iff_clean (s : LeaseStore) {c : Call} (hc : c ≠ .restart) (writes : Bool) :
    FailureHarmless s c writes ↔
      s.toStored.Clean (s.toStored.settle (c.effect s.data) writes) := by
  rw [← answer_settle s hc writes]
  show (_ → ∀ scope, (s.answer c writes).1.data scope = s.data scope ∧
    (s.answer c writes).1.file scope = (s.answer c writes).1.data scope) ↔
      (_ → (s.answer c writes).1.data = s.data ∧
        (s.answer c writes).1.file = (s.answer c writes).1.data)
  rw [funext_iff, funext_iff, ← forall_and]

/-- A failed call leaves nothing behind exactly where it is stopped by a check, or would
write the lease that is already there, in a store whose memory is on file. -/
theorem failed_call_changes_nothing_iff (s : LeaseStore) (c : Call) (hc : c ≠ .restart)
    (writes : Bool) : FailureHarmless s c writes ↔ c.Granted s.data ∧ writes = true ∨
        s.file = s.data ∧ (c.Granted s.data → c.Idle s.data) := by
  rw [failureHarmless_iff_clean s hc, Stored.clean_settle_iff]
  rcases effect_cases s.data hc with ⟨hrefused, he⟩ | ⟨hgranted, data', he, hidle⟩
  · rw [he]
    show s.file = s.data ↔ _
    simp [hrefused]
  · rw [he]
    show writes = true ∨ data' = s.data ∧ s.file = s.data ↔ _
    rw [hidle]
    simp [hgranted, and_comm]

def secondLease : Lease :=
  { scope := "repo", holder := "orch-a", generation := 1, acquiredAt := 0
    expiresAt := 2 * DateTime.nanosPerSecond, cursor := none }

/-- The write of a renewal fails that would not have changed the expiry. -/
theorem failed_call_changes_nothing_renewed :
    FailureHarmless
      { data := Leases.insert (fun _ => none) "repo" secondLease
        file := .insert (fun _ => none) "repo" secondLease }
      (.renew "repo" "orch-a" 1 1 DateTime.nanosPerSecond) false :=
  (failed_call_changes_nothing_iff _ _ (by decide) false).mpr
    (.inr ⟨rfl, fun _ => ⟨secondLease, by decide, by decide⟩⟩)

/-- `orch-a` is told that its write failed, and holds the lease. -/
theorem failed_acquire_holds :
    ¬ FailureHarmless LeaseLog.start.store (.acquire "repo" "orch-a" 300 0) false := by
  intro h
  obtain ⟨hsame, -⟩ := h rfl "repo"
  revert hsame
  decide

end RatKingdom.Orchestrator
