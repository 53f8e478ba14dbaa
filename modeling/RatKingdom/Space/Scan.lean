/-
Scans of the tuple space.

A scan gives the matching tuples in id order.  Ids are unique, so the part of a scan that
passes a test is decided by the tuples that pass it: two stores that hold the same tuples of
one author give the same tuples of that author to every scan, in the same order.
-/
import RatKingdom.Space.Wakeup

namespace RatKingdom.Space

open Core List

namespace Store

variable {s s₁ s₂ : Store} {p : Pattern} {q : Tuple → Bool}

def scan (s : Store) (p : Pattern) : List Tuple := (s.query p false none).map Row.tuple

theorem scan_perm (s : Store) (p : Pattern) : (s.scan p).Perm (s.tuples.filter p.matches) := by
  have hfilter : s.tuples.filter p.matches =
      (s.rows.filter fun r => patternFilters p false r.tuple).map Row.tuple := by
    unfold tuples
    rw [filter_map]
    congr 1
    apply filter_congr
    intro r _
    simp [patternFilters_eq]
  rw [hfilter]
  exact (perm_insertionSort _ _).map Row.tuple

theorem mem_scan {t : Tuple} : t ∈ s.scan p ↔ t ∈ s.tuples ∧ p.matches t = true := by
  rw [(scan_perm s p).mem_iff, mem_filter]

theorem scan_sorted (s : Store) (p : Pattern) : (s.scan p).Pairwise fun a b => a.id ≤ b.id := by
  unfold scan query
  rw [pairwise_map]
  exact pairwise_insertionSort (fun a b : Row => a.tuple.id ≤ b.tuple.id) _

theorem Wf.tuple_eq_of_id (h : Wf s) {t u : Tuple} (ht : t ∈ s.tuples) (hu : u ∈ s.tuples)
    (he : t.id = u.id) : t = u := by
  obtain ⟨r, hr, rfl⟩ := mem_map.mp ht
  obtain ⟨r', hr', rfl⟩ := mem_map.mp hu
  rw [h.row_eq_of_id hr hr' he]

/-- Two stores with the same tuples that pass `q` give the same ones of them to a scan. -/
theorem scan_filter_eq (h : Wf s₁) (hq : (s₁.tuples.filter q).Perm (s₂.tuples.filter q))
    (p : Pattern) : (s₁.scan p).filter q = (s₂.scan p).filter q := by
  have hswap : ∀ s : Store, ((s.scan p).filter q).Perm ((s.tuples.filter q).filter p.matches) := by
    intro s
    rw [filter_filter]
    simp only [Bool.and_comm (p.matches _)]
    rw [← filter_filter]
    exact (scan_perm s p).filter q
  apply @List.Perm.eq_of_pairwise _ fun a b : Tuple => a.id ≤ b.id
  · intro a b ha hb hab hba
    have ha₁ : a ∈ s₁.tuples := (mem_scan.mp (mem_filter.mp ha).1).1
    have hb₂ : b ∈ s₂.tuples.filter q :=
      mem_filter.mpr ⟨(mem_scan.mp (mem_filter.mp hb).1).1, (mem_filter.mp hb).2⟩
    have hb₁ : b ∈ s₁.tuples := (mem_filter.mp (hq.mem_iff.mpr hb₂)).1
    exact h.tuple_eq_of_id ha₁ hb₁ (Nat.le_antisymm hab hba)
  · exact (scan_sorted s₁ p).sublist filter_sublist
  · exact (scan_sorted s₂ p).sublist filter_sublist
  · exact (hswap s₁).trans ((hq.filter _).trans (hswap s₂).symm)

end Store

end RatKingdom.Space
