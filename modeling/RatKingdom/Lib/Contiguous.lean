/-
Runs of consecutive integers, seen through the count, the least and the greatest of a list.

Aggregates alone decide whether distinct integers fill an interval: they do when there are
as many of them as the interval holds and the two ends are its ends
(`contiguous_iff_aggregates`).
-/
import Mathlib.Data.Int.Interval

namespace RatKingdom.Lib

open List

/-- The integers of `l` are those above `a` and up to `b`. -/
def Contiguous (l : List Int) (a b : Int) : Prop := ∀ q, q ∈ l ↔ a < q ∧ q ≤ b

/-- `COALESCE(MIN(..), 0)`. -/
def least (l : List Int) : Int := l.min?.getD 0

/-- `COALESCE(MAX(..), 0)`. -/
def greatest (l : List Int) : Int := l.max?.getD 0

variable {l : List Int}

theorem le_greatest {q : Int} (h : q ∈ l) : q ≤ greatest l := by
  cases hmax : l.max? with
  | none =>
    rw [max?_eq_none_iff.mp hmax] at h
    exact (not_mem_nil h).elim
  | some m =>
    have hle := (max?_eq_some_iff.mp hmax).2 q h
    simpa [greatest, hmax] using hle

theorem least_le {q : Int} (h : q ∈ l) : least l ≤ q := by
  cases hmin : l.min? with
  | none =>
    rw [min?_eq_none_iff.mp hmin] at h
    exact (not_mem_nil h).elim
  | some m =>
    have hle := (min?_eq_some_iff.mp hmin).2 q h
    simpa [least, hmin] using hle

variable {b : Int}

theorem greatest_le_iff (hb : 0 ≤ b) : greatest l ≤ b ↔ ∀ q ∈ l, q ≤ b := by
  cases hmax : l.max? with
  | none => simp [greatest, max?_eq_none_iff.mp hmax, hb]
  | some m => simp [greatest, hmax, ← max?_le_iff hmax]

theorem greatest_eq_of_mem (hm : b ∈ l) (hle : ∀ q ∈ l, q ≤ b) : greatest l = b := by
  have hmax : l.max? = some b := max?_eq_some_iff.mpr ⟨hm, hle⟩
  simp [greatest, hmax]

variable {a : Int}

theorem least_eq_of_mem (hm : a ∈ l) (hle : ∀ q ∈ l, a ≤ q) : least l = a := by
  have hmin : l.min? = some a := min?_eq_some_iff.mpr ⟨hm, hle⟩
  simp [least, hmin]

theorem contiguous_iff_length (hnodup : l.Nodup) (hab : a ≤ b) (hin : ∀ q ∈ l, a < q ∧ q ≤ b) :
    Contiguous l a b ↔ (l.length : Int) = b - a := by
  have hcard : l.toFinset.card = l.length := toFinset_card_of_nodup hnodup
  have hsub : l.toFinset ⊆ Finset.Ioc a b := by
    intro q hq
    exact Finset.mem_Ioc.mpr (hin q (mem_toFinset.mp hq))
  have hwidth : ((Finset.Ioc a b).card : Int) = b - a := by
    rw [Int.card_Ioc]
    omega
  constructor
  · intro h
    have heq : l.toFinset = Finset.Ioc a b := by
      ext q
      rw [mem_toFinset, Finset.mem_Ioc]
      exact h q
    rw [← hcard, heq, hwidth]
  · intro h q
    have heq : l.toFinset = Finset.Ioc a b := by
      refine Finset.eq_of_subset_of_card_le hsub ?_
      omega
    rw [← mem_toFinset, heq, Finset.mem_Ioc]

theorem contiguous_iff_aggregates (hnodup : l.Nodup) (hab : a < b) :
    Contiguous l a b ↔ (l.length : Int) = b - a ∧ least l = a + 1 ∧ greatest l = b := by
  constructor
  · intro h
    have hin : ∀ q ∈ l, a < q ∧ q ≤ b := fun q hq => (h q).mp hq
    refine ⟨(contiguous_iff_length hnodup (le_of_lt hab) hin).mp h, ?_, ?_⟩
    · refine least_eq_of_mem ((h (a + 1)).mpr (by omega)) fun q hq => ?_
      have := (hin q hq).1
      omega
    · exact greatest_eq_of_mem ((h b).mpr (by omega)) fun q hq => (hin q hq).2
  · intro h
    obtain ⟨hlength, hleast, hgreatest⟩ := h
    have hin : ∀ q ∈ l, a < q ∧ q ≤ b := by
      intro q hq
      have hlow := least_le hq
      have hhigh := le_greatest hq
      omega
    exact (contiguous_iff_length hnodup (le_of_lt hab) hin).mpr hlength

theorem contiguous_self : Contiguous l a a ↔ l = [] := by
  constructor
  · intro h
    rw [eq_nil_iff_forall_not_mem]
    intro q hq
    have := (h q).mp hq
    omega
  · intro h q
    rw [h]
    constructor
    · intro hq
      exact (not_mem_nil hq).elim
    · intro hq
      omega

end RatKingdom.Lib
