/-
Verdicts come from the current generation, unless the ceiling is reached twice.

`Active` is the attempt a verdict may come from: the newest attempt dispatched, or what
superseded it in the end.  `active_review_attempt` follows the successors one step only.
The first attempt dispatched after a ceiling stays the expected one when it runs into the
ceiling itself, so a verdict it leaves behind is still read; in every other history the
verdict read is the active attempt's, or there is none.
-/
import RatKingdom.Landing.Review
import RatKingdom.Lib.Succession

namespace RatKingdom.Landing

open Core Space Lib List Option
open Telemetry (asU64 asU64_toNat)

section
variable (sha : Sha) (s : Store) (e : LandingQueueEntry)

def IsDeathMarker (t : Tuple) : Prop :=
  (markerPattern reviewDeathDispatchIdentity e.repoName).matches t = true ∧
    t.payload.getStr "dispatch_key" = some (ReviewDeathContext.ofEntry e).dispatchKey

def Withheld : Prop := ∃ t ∈ s.tuples, IsDeathMarker e t ∧ isDispatch t = false

/-- Retry `n` was dispatched. -/
def Dispatched (n : Nat) : Prop :=
  ∃ t ∈ s.tuples, IsDeathMarker e t ∧ isDispatch t = true ∧
    (t.payload.get "attempt").bind asU64 = some n

def CeilingSettled (a : String) : Prop :=
  ∃ t ∈ s.tuples, (markerPattern reviewCeilingSettledIdentity e.repoName).matches t = true ∧
    t.payload.getStr "task" = some e.task ∧ t.payload.getStr "branch" = some e.branch ∧
      t.payload.getStr "target" = some e.target ∧ t.payload.getStr "attempt" = some a

/-- Attempt `b` was dispatched again in the place of the settled attempt `a`. -/
def Superseded (a b : String) : Prop :=
  ∃ t ∈ s.tuples, (markerPattern reviewCeilingReenqueueIdentity e.repoName).matches t = true ∧
    t.payload.getStr "settled_attempt" = some a ∧ t.payload.getStr "new_attempt" = some b

inductive Newest : String → Prop
  | retry {n : Nat} (h : Dispatched s e n) (hmax : ∀ m, Dispatched s e m → m ≤ n) :
      Newest (reviewRetryInstanceId sha e n)
  | primary (h : ∀ n, ¬ Dispatched s e n) : Newest (reviewInstanceId sha e)

/-- The attempt a verdict may come from: the newest, or what superseded it in the end, and
no attempt once the chain is withheld or that one is settled. -/
def Active (a : String) : Prop :=
  ¬ Withheld s e ∧ ¬ CeilingSettled s e a ∧
    ∃ first, Newest sha s e first ∧ Lib.Ends (Superseded s e) first a

/-- What a read of the verdict has to satisfy: it answers, one attempt at most is active, and
a recommendation is taken from an artifact of that attempt. -/
structure Authoritative : Prop where
  answers : ∃ v, cachedVerdict sha s e = .ok v
  single : ∀ a b, Active sha s e a → Active sha s e b → a = b
  current : ∀ r, cachedVerdict sha s e = .ok (some r) → ∃ t a,
    verdictArtifact sha s e = .ok (some t) ∧ t.payload.getStr "recommendation" = some r ∧
      t.payload.getStr "review_attempt" = some a ∧ Active sha s e a

def LeftVerdict (a : String) : Prop :=
  ∃ t ∈ s.tuples, (verdictPattern e).matches t = true ∧ (verdictOf e a t).isSome = true

def FencedAgain (b : String) : Prop :=
  ∃ a, Newest sha s e a ∧ Superseded s e a b ∧ (CeilingSettled s e b ∨ ∃ c, Superseded s e b c)

end

theorem markerPattern_matches {identity repo : String} {t : Tuple} :
    (markerPattern identity repo).matches t = true ↔
      t.category = .event ∧ t.identity = identity ∧ t.scope = repo := by
  simp only [Pattern.matches, markerPattern, admits, admitsText, Bool.and_true, Bool.and_eq_true,
    decide_eq_true_eq]
  tauto

variable {s : Store} {e : LandingQueueEntry}

theorem mem_deathMarkers {t : Tuple} :
    t ∈ reviewDeathDispatchMarkers s (.ofEntry e) ↔ t ∈ s.tuples ∧ IsDeathMarker e t := by
  rw [reviewDeathDispatchMarkers, mem_filter, Store.mem_scan, decide_eq_true_eq, and_assoc]
  rfl

theorem settledMarker_isSome :
    (reviewDeathSettledMarker s (.ofEntry e)).isSome = true ↔ Withheld s e := by
  rw [reviewDeathSettledMarker, find?_isSome]
  simp only [mem_deathMarkers, and_assoc, Bool.not_eq_true', Withheld]

variable {a : String}

theorem settlement_isSome :
    (reviewCeilingSettlement s e a).isSome = true ↔ CeilingSettled s e a := by
  rw [reviewCeilingSettlement, find?_isSome]
  simp only [Store.mem_scan, and_assoc, Bool.and_eq_true, decide_eq_true_eq, CeilingSettled]

theorem mem_ordinals {n : Nat} :
    n ∈ ((reviewDeathDispatchMarkers s (.ofEntry e)).filter isDispatch).filterMap (fun t =>
      (t.payload.get "attempt").bind asU64) ↔ Dispatched s e n := by
  simp only [mem_filterMap, mem_filter, mem_deathMarkers, and_assoc, Dispatched]

theorem length_reviewInstanceId (sha : Sha) (e : LandingQueueEntry) :
    (reviewInstanceId sha e).length = 47 := by
  rw [reviewInstanceId, String.length_append, sha.length_hex]
  rfl

variable {sha : Sha}

theorem AttemptId.end_ne (h : AttemptId sha a) : a.length = 47 ∨ a.toList.getLast? ≠ some 'd' := by
  cases h with
  | primary e => exact .inl (length_reviewInstanceId sha e)
  | retry e n =>
    right
    intro hl
    rw [reviewRetryInstanceId, String.toList_append, String.toList_append, getLast?_append,
      getLast?_append, Nat.toString_eq_repr, Nat.toList_repr] at hl
    cases hdigit : (Nat.toDigits 10 n).getLast? with
    | none => exact absurd (getLast?_eq_none_iff.mp hdigit) Nat.toDigits_ne_nil
    | some c =>
      rw [hdigit] at hl
      have hm := mem_of_getLast? hdigit
      have hc : c = 'd' := by simpa using hl
      rw [hc] at hm
      exact absurd (Nat.isDigit_of_mem_toDigits (by decide) (by decide) hm) (by decide)
  | reenqueued _ =>
    right
    simp
  | shadow _ =>
    right
    simp [shadowInstanceSuffix]

theorem AttemptId.ne_settled {c : String} (h : AttemptId sha a) (hc : 47 ≤ c.length) :
    a ≠ c ++ "-settled" := by
  rintro rfl
  rcases h.end_ne with hlength | hl
  · rw [String.length_append] at hlength
    have hsettled : "-settled".length = 8 := rfl
    omega
  · simp at hl

theorem le_length_candidateAttempt (sha : Sha) (s : Store) (e : LandingQueueEntry) :
    47 ≤ (candidateAttempt sha s e).length := by
  unfold candidateAttempt
  split
  · rw [reviewRetryInstanceId, String.length_append, length_reviewInstanceId]
    omega
  · rw [length_reviewInstanceId]

structure WellWritten (sha : Sha) (t : Tuple) : Prop where
  /-- Ordinals are 32-bit, so the cast of the reader loses nothing. -/
  ordinal : t.category = .event → t.identity = reviewDeathDispatchIdentity →
    ∀ n, (t.payload.get "attempt").bind asU64 = some n → n < 2 ^ 32
  successor : t.category = .event → t.identity = reviewCeilingReenqueueIdentity →
    ∃ a, t.payload.getStr "settled_attempt" = some a ∧
      t.payload.getStr "new_attempt" = some (a ++ "-reenqueue")
  attempt : t.category = .artifact →
    ∀ a, t.payload.getStr "review_attempt" = some a → AttemptId sha a

section
variable (sha : Sha) (id now) (e : LandingQueueEntry)

theorem wellWritten_reviewDeath (attempt : UInt32) (instanceId state : String) (notBefore) :
    WellWritten sha (daemonMarker id now e.repoName reviewDeathDispatchIdentity
      ((ReviewDeathContext.ofEntry e).markerPayload attempt instanceId state notBefore)) where
  ordinal _ _ n hn := by
    have hattempt : asU64 (.number (.int attempt.toNat)) = some n := hn
    rw [asU64_toNat] at hattempt
    rw [← some.inj hattempt]
    exact attempt.toNat_lt
  successor _ hidentity := absurd (show reviewDeathDispatchIdentity = _ from hidentity) (by decide)
  attempt hcategory := nomatch hcategory

theorem wellWritten_settlement (attempt reason : String) (released) :
    WellWritten sha (daemonMarker id now e.repoName reviewCeilingSettledIdentity
      (settlementPayload now e attempt reason released)) where
  ordinal _ hidentity := absurd (show reviewCeilingSettledIdentity = _ from hidentity) (by decide)
  successor _ hidentity :=
    absurd (show reviewCeilingSettledIdentity = _ from hidentity) (by decide)
  attempt hcategory := nomatch hcategory

theorem wellWritten_reenqueue (settledAttempt : String) (settlement : Tuple) :
    WellWritten sha (daemonMarker id now e.repoName reviewCeilingReenqueueIdentity
      (reenqueuePayload e settledAttempt settlement)) where
  ordinal _ hidentity :=
    absurd (show reviewCeilingReenqueueIdentity = _ from hidentity) (by decide)
  successor _ _ := ⟨settledAttempt, rfl, rfl⟩
  attempt hcategory := nomatch hcategory

end

theorem Write.apply_adds (s : Store) (w : Write sha) :
    (w.apply s).tuples = s.tuples ∨
      ∃ t, WellWritten sha t ∧ (w.apply s).tuples = s.tuples ++ [t] := by
  cases w with
  | reviewDeath id now e attempt instanceId state notBefore =>
    exact .inr ⟨_, wellWritten_reviewDeath sha id now e attempt instanceId state notBefore,
      Store.tuples_push _ _⟩
  | settle id now e attempt reason released =>
    simp only [Write.apply, settleReviewCeiling]
    split
    · exact .inl rfl
    · exact .inr ⟨_, wellWritten_settlement sha id now e attempt reason released,
        Store.tuples_push _ _⟩
  | reenqueue id now e settledAttempt =>
    simp only [Write.apply, reenqueueAfterCeiling]
    cases reviewCeilingSettlement s e settledAttempt with
    | none => exact .inl rfl
    | some settlement =>
      cases reviewCeilingReenqueueMarker s e settledAttempt with
      | none =>
        exact .inr ⟨_, wellWritten_reenqueue sha id now e settledAttempt settlement,
          Store.tuples_push _ _⟩
      | some existing =>
        left
        dsimp only
        cases requiredPayloadStr existing.payload "new_attempt" "reenqueue marker" <;> rfl
  | artifact a =>
    have hcategory : a.tuple.category ≠ .event := by simp [a.category]
    exact .inr ⟨a.tuple, { ordinal := fun h => absurd h hcategory
                           successor := fun h => absurd h hcategory
                           attempt := fun _ => a.attempt }, Store.tuples_push _ _⟩

theorem wellWritten_foldl (ws : List (Write sha)) :
    ∀ s : Store, (∀ t ∈ s.tuples, WellWritten sha t) →
      ∀ t ∈ (ws.foldl Write.apply s).tuples, WellWritten sha t := by
  induction ws with
  | nil => exact fun _ hs => hs
  | cons w ws ih =>
    intro s hs
    refine ih (w.apply s) fun t ht => ?_
    rcases w.apply_adds s with hsame | ⟨u, hu, hadds⟩
    · rw [hsame] at ht
      exact hs t ht
    · rw [hadds, mem_append, mem_singleton] at ht
      rcases ht with ht | rfl
      · exact hs t ht
      · exact hu

theorem wellWritten_written (ws : List (Write sha)) :
    ∀ t ∈ (written ws).tuples, WellWritten sha t :=
  wellWritten_foldl ws .empty fun _ ht => nomatch ht

section
variable {sha : Sha} {s : Store} {e : LandingQueueEntry} {a b : String}
  (hw : ∀ t ∈ s.tuples, WellWritten sha t)
include hw

theorem Superseded.eq (h : Superseded s e a b) : b = a ++ "-reenqueue" := by
  obtain ⟨t, ht, hmatches, hsettled, hnew⟩ := h
  obtain ⟨hcategory, hidentity, _⟩ := markerPattern_matches.mp hmatches
  obtain ⟨a', hsettled', hnew'⟩ := (hw t ht).successor hcategory hidentity
  rw [hsettled] at hsettled'
  rw [hnew] at hnew'
  rw [some.inj hsettled', some.inj hnew']

theorem Superseded.unique (a b b' : String) (h : Superseded s e a b) (h' : Superseded s e a b') :
    b = b' := by
  rw [h.eq hw, h'.eq hw]

theorem reenqueueMarker_some {t : Tuple} (h : reviewCeilingReenqueueMarker s e a = some t) :
    Superseded s e a (a ++ "-reenqueue") ∧
      requiredPayloadStr t.payload "new_attempt" "reenqueue marker" = .ok (a ++ "-reenqueue") := by
  obtain ⟨ht, hmatches⟩ := Store.mem_scan.mp (mem_of_find?_eq_some h)
  have hsettled : t.payload.getStr "settled_attempt" = some a := by
    simpa using find?_some h
  obtain ⟨hcategory, hidentity, _⟩ := markerPattern_matches.mp hmatches
  obtain ⟨a', hsettled', hnew⟩ := (hw t ht).successor hcategory hidentity
  rw [hsettled] at hsettled'
  rw [← some.inj hsettled'] at hnew
  refine ⟨⟨t, ht, hmatches, hsettled, hnew⟩, ?_⟩
  rw [requiredPayloadStr, hnew]
  exact if_neg (by simp)

omit hw in
theorem reenqueueMarker_none (h : reviewCeilingReenqueueMarker s e a = none) :
    ∀ b, ¬ Superseded s e a b := by
  rintro b ⟨t, ht, hmatches, hsettled, _⟩
  exact find?_eq_none.mp h t (Store.mem_scan.mpr ⟨ht, hmatches⟩) (decide_eq_true hsettled)

theorem Dispatched.lt {n : Nat} (h : Dispatched s e n) : n < 2 ^ 32 := by
  obtain ⟨t, ht, ⟨hmatches, _⟩, _, hn⟩ := h
  obtain ⟨hcategory, hidentity, _⟩ := markerPattern_matches.mp hmatches
  exact (hw t ht).ordinal hcategory hidentity n hn

theorem newest_iff : Newest sha s e a ↔ a = candidateAttempt sha s e := by
  unfold candidateAttempt
  cases hlatest : latestRetry s e with
  | none =>
    have hnone : ∀ n, ¬ Dispatched s e n := fun n hn =>
      not_mem_nil (max?_eq_none_iff.mp hlatest ▸ mem_ordinals.mpr hn)
    constructor
    · intro h
      cases h with
      | retry hn _ => exact absurd hn (hnone _)
      | primary _ => rfl
    · rintro rfl
      exact .primary hnone
  | some n =>
    obtain ⟨hmem, hle⟩ := max?_eq_some_iff.mp hlatest
    have hn := mem_ordinals.mp hmem
    have hmax : ∀ m, Dispatched s e m → m ≤ n := fun m hm => hle m (mem_ordinals.mpr hm)
    simp only [Nat.mod_eq_of_lt (hn.lt hw)]
    constructor
    · intro h
      cases h with
      | retry hm hmmax => rw [Nat.le_antisymm (hmax _ hm) (hmmax n hn)]
      | primary hnone => exact absurd hn (hnone n)
    · rintro rfl
      exact .retry hn hmax

inductive Expected (sha : Sha) (s : Store) (e : LandingQueueEntry) : String → Prop
  | withheld (h : Withheld s e) : Expected sha s e (reviewInstanceId sha e ++ "-settled")
  | superseding {b : String} (hopen : ¬ Withheld s e)
      (h : Superseded s e (candidateAttempt sha s e) b) : Expected sha s e b
  | settled (hopen : ¬ Withheld s e) (hl : ∀ b, ¬ Superseded s e (candidateAttempt sha s e) b)
      (h : CeilingSettled s e (candidateAttempt sha s e)) :
      Expected sha s e (candidateAttempt sha s e ++ "-ceiling-settled")
  | newest (hopen : ¬ Withheld s e) (hl : ∀ b, ¬ Superseded s e (candidateAttempt sha s e) b)
      (h : ¬ CeilingSettled s e (candidateAttempt sha s e)) :
      Expected sha s e (candidateAttempt sha s e)

theorem active_expected : ∃ a, activeReviewAttempt sha s e = .ok a ∧ Expected sha s e a := by
  unfold activeReviewAttempt
  by_cases hheld : Withheld s e
  · rw [if_pos (settledMarker_isSome.mpr hheld)]
    exact ⟨_, rfl, .withheld hheld⟩
  · rw [if_neg (mt settledMarker_isSome.mp hheld)]
    cases hmarker : reviewCeilingReenqueueMarker s e (candidateAttempt sha s e) with
    | some t =>
      obtain ⟨hsuperseded, hread⟩ := reenqueueMarker_some hw hmarker
      exact ⟨_, hread, .superseding hheld hsuperseded⟩
    | none =>
      have hl := reenqueueMarker_none hmarker
      by_cases hsettled : CeilingSettled s e (candidateAttempt sha s e)
      · simp only [if_pos (settlement_isSome.mpr hsettled)]
        exact ⟨_, rfl, .settled hheld hl hsettled⟩
      · simp only [if_neg (mt settlement_isSome.mp hsettled)]
        exact ⟨_, rfl, .newest hheld hl hsettled⟩

end

section
variable {sha : Sha} {s : Store} {e : LandingQueueEntry} {a r : String} {t : Tuple}

theorem verdictOf_some (h : verdictOf e a t = some r) :
    t.payload.getStr "review_attempt" = some a ∧ t.payload.getStr "recommendation" = some r := by
  simp only [verdictOf, Bool.and_eq_true, decide_eq_true_eq] at h
  split at h
  case isTrue hfor => exact ⟨hfor.2, h⟩
  case isFalse => cases h

theorem verdictPattern_category (h : (verdictPattern e).matches t = true) :
    t.category = .artifact := by
  simp only [Pattern.matches, verdictPattern, Pattern.forCommit, admits, Bool.and_eq_true,
    decide_eq_true_eq] at h
  exact h.1

section
variable (hactive : activeReviewAttempt sha s e = .ok a)
include hactive

theorem cachedVerdict_eq : cachedVerdict sha s e =
      .ok ((s.scan (verdictPattern e)).findSome? (verdictOf e a)) := by
  rw [cachedVerdict, hactive]
  rfl

theorem cachedVerdict_taken (h : cachedVerdict sha s e = .ok (some r)) :
    ∃ t, verdictArtifact sha s e = .ok (some t) ∧ t ∈ s.tuples ∧
      (verdictPattern e).matches t = true ∧ verdictOf e a t = some r := by
  rw [cachedVerdict_eq hactive] at h
  obtain ⟨before, t, after, hscan, ht, hbefore⟩ :=
    findSome?_eq_some_iff.mp (Except.ok.inj h)
  have hm : t ∈ s.scan (verdictPattern e) := by
    rw [hscan]
    exact mem_append_right _ (mem_cons_self ..)
  obtain ⟨hstored, hmatches⟩ := Store.mem_scan.mp hm
  refine ⟨t, ?_, hstored, hmatches, ht⟩
  have hfind : (s.scan (verdictPattern e)).find? (fun t => (verdictOf e a t).isSome) = some t := by
    refine find?_eq_some_iff_append.mpr ⟨by rw [ht]; rfl, before, after, hscan, fun u hu => ?_⟩
    rw [hbefore u hu]
    rfl
  simp only [verdictArtifact, hactive]
  exact congrArg Except.ok hfind

theorem attempt_of_verdictArtifact (h : verdictArtifact sha s e = .ok (some t)) :
    t.payload.getStr "review_attempt" = some a := by
  simp only [verdictArtifact, hactive] at h
  have hsome := find?_some (Except.ok.inj h)
  obtain ⟨r, hr⟩ := isSome_iff_exists.mp hsome
  exact (verdictOf_some hr).1

theorem cachedVerdict_of_left (h : LeftVerdict s e a) :
    ∃ r, cachedVerdict sha s e = .ok (some r) := by
  obtain ⟨t, ht, hmatches, hverdict⟩ := h
  have hfound : ((s.scan (verdictPattern e)).findSome? (verdictOf e a)).isSome = true :=
    findSome?_isSome_iff.mpr ⟨t, Store.mem_scan.mpr ⟨ht, hmatches⟩, hverdict⟩
  obtain ⟨r, hr⟩ := isSome_iff_exists.mp hfound
  refine ⟨r, ?_⟩
  rw [cachedVerdict_eq hactive, hr]

end

end

section
variable {sha : Sha} {s : Store} {e : LandingQueueEntry} {a b : String}
  (hw : ∀ t ∈ s.tuples, WellWritten sha t)
include hw

theorem Active.unique (ha : Active sha s e a) (hb : Active sha s e b) : a = b := by
  obtain ⟨_, _, first, hfirst, hends⟩ := ha
  obtain ⟨_, _, first', hfirst', hends'⟩ := hb
  rw [(newest_iff hw).mp hfirst] at hends
  rw [(newest_iff hw).mp hfirst'] at hends'
  exact hends.unique (Superseded.unique hw) hends'

theorem Expected.active (h : Expected sha s e a) (hlaunched : AttemptId sha a)
    (hfenced : ¬ Withheld s e → ¬ FencedAgain sha s e a) : Active sha s e a := by
  have hnewest := (newest_iff (e := e) hw).mpr rfl
  have hlength := le_length_candidateAttempt sha s e
  cases h with
  | withheld _ =>
    exact absurd rfl (hlaunched.ne_settled (length_reviewInstanceId sha e).ge)
  | settled _ _ _ =>
    have hsplit : candidateAttempt sha s e ++ "-ceiling-settled" =
        candidateAttempt sha s e ++ "-ceiling" ++ "-settled" := by
      rw [String.append_assoc]
      rfl
    refine absurd hsplit (hlaunched.ne_settled ?_)
    rw [String.length_append]
    omega
  | superseding hopen hsuperseded =>
    have hnot := hfenced hopen
    refine ⟨hopen, fun hsettled => hnot ⟨_, hnewest, hsuperseded, .inl hsettled⟩, _, hnewest, ?_⟩
    exact .later hsuperseded (.here fun c hc => hnot ⟨_, hnewest, hsuperseded, .inr ⟨c, hc⟩⟩)
  | newest hopen hl hsettled => exact ⟨hopen, hsettled, _, hnewest, .here hl⟩

theorem FencedAgain.expected (h : FencedAgain sha s e b) (hopen : ¬ Withheld s e) :
    activeReviewAttempt sha s e = .ok b := by
  obtain ⟨a, hnewest, hsuperseded, _⟩ := h
  rw [(newest_iff hw).mp hnewest] at hsuperseded
  obtain ⟨x, hx, hexpected⟩ := active_expected (e := e) hw
  cases hexpected with
  | withheld hheld => exact absurd hheld hopen
  | superseding _ hsuperseded' =>
    rw [hx, Superseded.unique hw _ _ _ hsuperseded hsuperseded']
  | settled _ hl _ | newest _ hl _ => exact absurd hsuperseded (hl _)

omit hw in
theorem FencedAgain.not_active (h : FencedAgain sha s e b) : ¬ Active sha s e b := by
  obtain ⟨_, _, _, hfenced⟩ := h
  rintro ⟨_, hsettled, _, _, hends⟩
  rcases hfenced with hsettled' | ⟨c, hc⟩
  · exact hsettled hsettled'
  · exact hends.last c hc

end

theorem verdict_authoritative_iff (sha : Sha) (h : List (Write sha)) (e : LandingQueueEntry) :
    Authoritative sha (written h) e ↔ (Withheld (written h) e ∨
        ∀ b, FencedAgain sha (written h) e b → ¬ LeftVerdict (written h) e b) := by
  have hw := wellWritten_written h
  obtain ⟨a, hactive, hexpected⟩ := active_expected (e := e) hw
  constructor
  · intro hread
    by_cases hopen : Withheld (written h) e
    · exact .inl hopen
    right
    intro b hfenced hleft
    -- The fenced attempt is the expected one, so its verdict is read, and it is not active.
    have hb := hfenced.expected hw hopen
    obtain ⟨r, hr⟩ := cachedVerdict_of_left hb hleft
    obtain ⟨t, c, hartifact, _, hc, hcurrent⟩ := hread.current r hr
    rw [attempt_of_verdictArtifact hb hartifact] at hc
    rw [← some.inj hc] at hcurrent
    exact hfenced.not_active hcurrent
  · intro hcondition
    refine ⟨⟨_, cachedVerdict_eq hactive⟩, fun _ _ => Active.unique hw, fun r hr => ?_⟩
    obtain ⟨t, hartifact, ht, hmatches, hverdict⟩ := cachedVerdict_taken hactive hr
    obtain ⟨hattempt, hrecommendation⟩ := verdictOf_some hverdict
    have hlaunched := (hw t ht).attempt (verdictPattern_category hmatches) a hattempt
    refine ⟨t, a, hartifact, hrecommendation, hattempt, hexpected.active hw hlaunched ?_⟩
    intro hopen hfenced
    have hleft : LeftVerdict (written h) e a := ⟨t, ht, hmatches, by rw [hverdict]; rfl⟩
    exact hcondition.resolve_left hopen a hfenced hleft

def ceilingEntry : LandingQueueEntry :=
  { repoName := "rk", repoPath := "/srv/rk", branch := "rat/fix-7", target := "main"
    headSha := "4f0c2a1", diffClass := "code", task := "rk-7" }

def ceilingSha : Sha where
  hex _ := "96db7c8fc19dd92bda739d68243dbbcc"
  length_hex _ := rfl

def ceilingPrimary : String := reviewInstanceId ceilingSha ceilingEntry

def lateVerdict : Tuple :=
  .new 4 4 .artifact "rk" reviewArtifactIdentity "reviewer" (.object
      [("branch", .string "rat/fix-7"), ("head_sha", .string "4f0c2a1"),
        ("recommendation", .string "approve"),
        ("review_attempt", .string (ceilingPrimary ++ "-reenqueue")),
        ("target", .string "main"), ("task", .string "rk-7")])

def secondCeiling : List (Write ceilingSha) :=
  [.settle 1 1 ceilingEntry ceilingPrimary "ceiling" [], .reenqueue 2 2 ceilingEntry ceilingPrimary,
    .settle 3 3 ceilingEntry (ceilingPrimary ++ "-reenqueue") "ceiling" [],
    .artifact
      { tuple := lateVerdict
        category := rfl
        attempt := fun _ h =>
          some.inj h ▸ .reenqueued (.primary ceilingEntry) }]

theorem late_verdict_read : ¬ Authoritative ceilingSha (written secondCeiling) ceilingEntry := by
  intro hread
  have hexpected : activeReviewAttempt ceilingSha (written secondCeiling) ceilingEntry =
      .ok (ceilingPrimary ++ "-reenqueue") := by decide +kernel
  have hverdict : cachedVerdict ceilingSha (written secondCeiling) ceilingEntry =
      .ok (some "approve") := by decide +kernel
  have hsettled : CeilingSettled (written secondCeiling) ceilingEntry
      (ceilingPrimary ++ "-reenqueue") := settlement_isSome.mp (by decide +kernel)
  obtain ⟨t, a, hartifact, _, ha, _, hopen, _⟩ := hread.current "approve" hverdict
  rw [attempt_of_verdictArtifact hexpected hartifact] at ha
  rw [← some.inj ha] at hopen
  exact hopen hsettled

end RatKingdom.Landing
