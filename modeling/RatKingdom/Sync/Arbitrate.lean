/-
Claim arbitration.

The winners found on the way through a list are, for each (scope, identity), the least
(id, instance) among its claims so far (`Tracks`).  So what is kept of the list are its
leaders, and the laws replication rests on, that a merge may be arbitrated before or
after and in any order, are those of leaders.
-/
import Mathlib.Data.List.Nodup
import Mathlib.Data.Prod.Lex
import Mathlib.Data.String.Basic
import RatKingdom.Lib.Leaders
import RatKingdom.Sync.Notes

namespace RatKingdom.Sync

open Core Lib List

def claimKey (t : Tuple) : Option (String × String) :=
  if t.category = .claim then some (t.scope, t.identity) else none

def claimRank (t : Tuple) : RecordId ×ₗ String := toLex (t.id, t.inst)

variable {k : String × String}

theorem claimKey_eq_some {t : Tuple} :
    claimKey t = some k ↔ t.category = .claim ∧ (t.scope, t.identity) = k := by
  unfold claimKey
  split <;> simp_all

theorem claimKey_eq_none {t : Tuple} : claimKey t = none ↔ t.category ≠ .claim := by
  unfold claimKey
  split <;> simp_all

theorem notAfter_iff {a b : RecordId × String} : notAfter a b = true ↔ toLex a ≤ toLex b := by
  rw [Prod.Lex.toLex_le_toLex]
  simp [notAfter]

/-- `r` is the rank of a claim of `l` on `k`, and no claim on `k` ranks before it. -/
def Best (l : List Tuple) (k : String × String) (r : RecordId × String) : Prop :=
  (∃ t ∈ l, claimKey t = some k ∧ claimRank t = toLex r) ∧
    ∀ t ∈ l, claimKey t = some k → toLex r ≤ claimRank t

structure Tracks (l : List Tuple) (w : Winners) : Prop where
  unclaimed : ∀ k, w k = none → ∀ t ∈ l, claimKey t ≠ some k
  best : ∀ k r, w k = some r → Best l k r

variable {l l' : List Tuple} {w : Winners} {t : Tuple}

theorem Best.append_of_le {r : RecordId × String} (h : Best l k r)
    (ht : claimKey t = some k → toLex r ≤ claimRank t) : Best (l ++ [t]) k r := by
  obtain ⟨⟨b, hb, hk, hr⟩, hle⟩ := h
  refine ⟨⟨b, mem_append_left _ hb, hk, hr⟩, fun c hc hck => ?_⟩
  rcases mem_append.mp hc with hc | hc
  · exact hle c hc hck
  · rw [mem_singleton.mp hc] at hck ⊢
    exact ht hck

theorem Tracks.keep (h : Tracks l w) (hfree : ∀ k, w k = none → claimKey t ≠ some k)
    (hle : ∀ k r, w k = some r → claimKey t = some k → toLex r ≤ claimRank t) :
    Tracks (l ++ [t]) w where
  unclaimed := by
    intro k hk c hc
    rcases mem_append.mp hc with hc | hc
    · exact h.unclaimed k hk c hc
    · rw [mem_singleton.mp hc]
      exact hfree k hk
  best k r hr := (h.best k r hr).append_of_le (hle k r hr)

theorem Tracks.win (h : Tracks l w) (hk : claimKey t = some k)
    (hlt : ∀ r, w k = some r → claimRank t ≤ toLex r) :
    Tracks (l ++ [t]) (Function.update w k (some (t.id, t.inst))) where
  unclaimed := by
    intro k' hk' c hc
    have hne : k' ≠ k := by
      rintro rfl
      rw [Function.update_self] at hk'
      cases hk'
    rw [Function.update_of_ne hne] at hk'
    rcases mem_append.mp hc with hc | hc
    · exact h.unclaimed k' hk' c hc
    · rw [mem_singleton.mp hc, hk]
      exact fun he => hne (Option.some.inj he).symm
  best := by
    intro k' r hr
    by_cases hne : k' = k
    · subst hne
      rw [Function.update_self] at hr
      cases hr
      refine ⟨⟨t, mem_append_right _ mem_cons_self, hk, rfl⟩, fun c hc hck => ?_⟩
      rcases mem_append.mp hc with hc | hc
      · cases hw : w k' with
        | none => exact absurd hck (h.unclaimed k' hw c hc)
        | some r => exact (hlt r hw).trans ((h.best k' r hw).2 c hc hck)
      · rw [mem_singleton.mp hc]
        exact le_refl _
    · rw [Function.update_of_ne hne] at hr
      refine (h.best k' r hr).append_of_le fun ht => ?_
      rw [hk] at ht
      exact absurd (Option.some.inj ht).symm hne

theorem tracks_contend (h : Tracks l w) : Tracks (l ++ [t]) (contend w t) := by
  unfold contend
  split
  · rename_i hcat
    have hn : claimKey t = none := claimKey_eq_none.mpr hcat
    refine h.keep (fun k _ => ?_) fun k r _ hk => ?_
    · rw [hn]
      exact (Option.some_ne_none k).symm
    · rw [hn] at hk
      cases hk
  · rename_i hcat
    have hkey : claimKey t = some (t.scope, t.identity) :=
      claimKey_eq_some.mpr ⟨not_not.mp hcat, rfl⟩
    split
    · rename_i current hw
      split
      · rename_i hle
        refine h.keep (fun k hk he => ?_) fun k r hr he => ?_
        · rw [hkey] at he
          rw [← Option.some.inj he, hw] at hk
          cases hk
        · rw [hkey] at he
          rw [← Option.some.inj he, hw] at hr
          cases hr
          exact notAfter_iff.mp hle
      · rename_i hle
        refine h.win hkey fun r hr => ?_
        rw [hw] at hr
        cases hr
        exact (not_le.mp fun he => hle (notAfter_iff.mpr he)).le
    · rename_i hw
      refine h.win hkey fun r hr => ?_
      rw [hw] at hr
      cases hr

theorem tracks_foldl (l : List Tuple) : Tracks l (l.foldl contend fun _ => none) := by
  induction l using reverseRecOn with
  | nil => exact ⟨fun _ _ t ht => absurd ht not_mem_nil, fun _ _ h => absurd h (by simp)⟩
  | append_singleton l t ih =>
    rw [foldl_append]
    exact tracks_contend ih

/-- What arbitration keeps are the leaders, a claim being ranked by (id, instance). -/
theorem arbitrateClaims_eq (l : List Tuple) : arbitrateClaims l = leaders claimKey claimRank l := by
  unfold arbitrateClaims leaders
  refine filter_congr fun t ht => ?_
  have htracks := tracks_foldl l
  by_cases hcat : t.category = .claim
  · have hkey : claimKey t = some (t.scope, t.identity) := claimKey_eq_some.mpr ⟨hcat, rfl⟩
    rw [if_neg (not_not.mpr hcat)]
    split
    · rename_i id inst hw
      obtain ⟨⟨b, hb, hbk, hr⟩, hle⟩ := htracks.best _ _ hw
      rw [← Bool.decide_and, decide_eq_decide]
      have hrank : claimRank t = toLex (id, inst) ↔ t.id = id ∧ t.inst = inst :=
        (toLex_inj (a := (t.id, t.inst))).trans Prod.mk_inj
      rw [← hrank]
      constructor
      · intro he c hc hck _
        rw [he]
        exact hle c hc (hck.trans hkey)
      · intro hlead
        refine le_antisymm ?_ (hle t ht hkey)
        rw [← hr]
        exact hlead b hb (hbk.trans hkey.symm) (by rw [hkey]; exact Option.some_ne_none _)
    · rename_i hw
      exact absurd hkey (htracks.unclaimed _ hw t ht)
  · rw [if_pos hcat]
    refine (decide_eq_true fun c _ _ hne => ?_).symm
    exact absurd (claimKey_eq_none.mpr hcat) hne

theorem filter_others (l : List Tuple) :
    (arbitrateClaims l).filter (fun t => t.category ≠ .claim) =
      l.filter fun t => t.category ≠ .claim := by
  unfold arbitrateClaims
  rw [filter_filter]
  refine filter_congr fun t _ => ?_
  by_cases hcat : t.category = .claim <;> simp [hcat]

/-- Of the claims on one key exactly one is kept, the least. -/
theorem exists_winner (hids : (l.map Tuple.id).Nodup) (ht : t ∈ l) (hk : claimKey t = some k) :
    ∃ w ∈ l, (arbitrateClaims l).filter (fun c => claimKey c = some k) = [w] ∧
      ∀ c ∈ l, claimKey c = some k → claimRank w ≤ claimRank c := by
  obtain ⟨w, hw, hwk, -⟩ := exists_leader claimKey claimRank ht
  rw [hk] at hwk
  have hne : ∀ {c : Tuple}, claimKey c = some k → claimKey c ≠ none := fun h => by
    rw [h]
    exact Option.some_ne_none k
  have hlead : ∀ c ∈ l, claimKey c = some k → claimRank w ≤ claimRank c := fun c hc hck =>
    (mem_leaders.mp hw).2 c hc (hck.trans hwk.symm) (hne hwk)
  refine ⟨w, (mem_leaders.mp hw).1, ?_, hlead⟩
  rw [arbitrateClaims_eq]
  have hnodup : ((leaders claimKey claimRank l).filter fun c => claimKey c = some k).Nodup :=
    ((Nodup.of_map _ hids).filter _).filter _
  by_contra hsingle
  rcases (List.Nodup.ne_singleton_iff hnodup w).mp hsingle with hnil | ⟨c, hc, hcw⟩
  · have hm : w ∈ (leaders claimKey claimRank l).filter fun c => claimKey c = some k :=
      mem_filter.mpr ⟨hw, decide_eq_true hwk⟩
    rw [hnil] at hm
    exact absurd hm not_mem_nil
  · obtain ⟨hc, hck⟩ := mem_filter.mp hc
    have hck : claimKey c = some k := of_decide_eq_true hck
    obtain ⟨hcl, hclead⟩ := mem_leaders.mp hc
    have hrank : claimRank c = claimRank w := le_antisymm
      (hclead w (mem_leaders.mp hw).1 (hwk.trans hck.symm) (hne hck)) (hlead c hcl hck)
    exact hcw (inj_on_of_nodup_map hids hcl (mem_leaders.mp hw).1
      (congrArg Prod.fst (toLex_inj.mp hrank)))

/-- What arbitrating `l` leaves alone and whom it keeps, and that neither a second pass,
nor another order, nor arbitrating the parts of a union first makes a difference. -/
structure Arbitrates (l : List Tuple) : Prop where
  others : (arbitrateClaims l).filter (fun t => t.category ≠ .claim) =
    l.filter fun t => t.category ≠ .claim
  winner : ∀ k, (∃ t ∈ l, claimKey t = some k) →
    ∃ w ∈ l, (arbitrateClaims l).filter (fun c => claimKey c = some k) = [w] ∧
      ∀ c ∈ l, claimKey c = some k → claimRank w ≤ claimRank c
  idempotent : arbitrateClaims (arbitrateClaims l) = arbitrateClaims l
  reorder : ∀ l', l.Perm l' → (arbitrateClaims l).Perm (arbitrateClaims l')
  append : ∀ l', arbitrateClaims (l ++ l') =
    arbitrateClaims (arbitrateClaims l ++ arbitrateClaims l')
  union : ∀ l' u v, (∀ t, t ∈ u ↔ t ∈ l ∨ t ∈ l') →
    (∀ t, t ∈ v ↔ t ∈ arbitrateClaims l ∨ t ∈ arbitrateClaims l') →
    ∀ t, t ∈ arbitrateClaims u ↔ t ∈ arbitrateClaims v

theorem arbitration_laws (l : List Tuple) (hids : (l.map Tuple.id).Nodup) : Arbitrates l where
  others := filter_others l
  winner := fun _ ⟨_, ht, hk⟩ => exists_winner hids ht hk
  idempotent := by
    simp only [arbitrateClaims_eq]
    exact leaders_idem
  reorder l' hperm := by
    simp only [arbitrateClaims_eq]
    exact leaders_perm hperm
  append l' := by
    simp only [arbitrateClaims_eq]
    exact leaders_append
  union l' u v hu hv t := by
    simp only [arbitrateClaims_eq] at hv ⊢
    exact mem_leaders_union hu hv

def contested : List Tuple :=
  [.new 7 0 .claim "repo" "task-9" "alpha" .null, .new 5 0 .claim "repo" "task-9" "zeta" .null,
    .new 6 0 .fact "repo" "task-9" "zeta" .null]

theorem arbitration_laws_contested : Arbitrates contested ∧
    (arbitrateClaims contested).map Tuple.id = [5, 6] :=
  ⟨arbitration_laws contested (by decide), by decide⟩

end RatKingdom.Sync
