/-
Waiting lines.

`Ahead q k j` says that `k` waits in the line `q` and `j` does not wait before it.  Those
that leave the line and those that join it at its end keep what is ahead of what.
-/
import Mathlib.Data.List.Basic

namespace RatKingdom.Lib

open List

universe u

variable {α : Type u} [DecidableEq α]

def Ahead (q : List α) (k j : α) : Prop := k ∈ q ∧ j ∉ q.takeWhile fun x => decide (x ≠ k)

theorem Ahead.sublist {q q' : List α} {k j : α} (h : Ahead q k j) (hn : q.Nodup)
    (hs : q'.Sublist q) (hk : k ∈ q') : Ahead q' k j := by
  refine ⟨hk, fun hj => h.2 ?_⟩
  clear h
  induction hs with
  | slnil => exact hj
  | cons a hs ih =>
    obtain ⟨ha, hn⟩ := nodup_cons.mp hn
    have hne : a ≠ k := fun he => ha (he ▸ hs.mem hk)
    rw [takeWhile_cons_of_pos (by simp [hne])]
    exact mem_cons_of_mem _ (ih hn hk hj)
  | cons_cons a hs ih =>
    obtain ⟨-, hn⟩ := nodup_cons.mp hn
    by_cases ha : a = k
    · rw [takeWhile_cons_of_neg (by simp [ha])] at hj
      cases hj
    · have hk' := (mem_cons.mp hk).resolve_left fun he => ha he.symm
      rw [takeWhile_cons_of_pos (by simp [ha])] at hj ⊢
      rcases mem_cons.mp hj with rfl | hj
      · exact mem_cons_self
      · exact mem_cons_of_mem _ (ih hn hk' hj)

theorem Ahead.append {q : List α} {k j : α} (h : Ahead q k j) (new : List α) :
    Ahead (q ++ new) k j := by
  refine ⟨mem_append_left _ h.1, fun hj => h.2 ?_⟩
  induction q with
  | nil => exact absurd h.1 not_mem_nil
  | cons a q ih =>
    by_cases ha : a = k
    · rw [cons_append, takeWhile_cons_of_neg (by simp [ha])] at hj
      cases hj
    · rw [cons_append, takeWhile_cons_of_pos (by simp [ha])] at hj
      rw [takeWhile_cons_of_pos (by simp [ha])]
      have hk : k ∈ q := (mem_cons.mp h.1).resolve_left fun he => ha he.symm
      rcases mem_cons.mp hj with rfl | hj
      · exact mem_cons_self
      · refine mem_cons_of_mem _ (ih ⟨hk, fun hq => h.2 ?_⟩ hj)
        rw [takeWhile_cons_of_pos (by simp [ha])]
        exact mem_cons_of_mem _ hq

theorem ahead_of_not_mem {q : List α} {k j : α} (hk : k ∈ q) (hj : j ∉ q) : Ahead q k j :=
  ⟨hk, fun h => hj ((takeWhile_sublist _).mem h)⟩

theorem Ahead.head {q : List α} {k j : α} (h : Ahead q k j) (hj : q.head? = some j) : j = k := by
  cases q with
  | nil => cases hj
  | cons a q =>
    cases hj
    by_contra hne
    apply h.2
    rw [takeWhile_cons_of_pos (by simp [hne])]
    exact mem_cons_self

end RatKingdom.Lib
