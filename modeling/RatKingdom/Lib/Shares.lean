/-
Weights carried by the members of a list, and their sums.

A list whose members each carry a weight in one of several lots changes one member at
a time; the sum over a lot changes by the difference.  Where every member's lot is in a
duplicate-free list of lots, the sums over the lots add up to the sum over the members.
-/
import Mathlib.Data.List.Nodup
import Mathlib.Algebra.BigOperators.Group.List.Basic
import Mathlib.Algebra.GroupWithZero.Nat

namespace RatKingdom.Lib

open List

universe u v
variable {α : Type u} {ι : Type v}

theorem split_of_getElem? {l : List α} {i : Nat} {a : α} (h : l[i]? = some a) :
    ∃ l₁ l₂, l = l₁ ++ a :: l₂ ∧ (∀ b, l.set i b = l₁ ++ b :: l₂) ∧ l.eraseIdx i = l₁ ++ l₂ := by
  obtain ⟨hi, rfl⟩ := List.getElem?_eq_some_iff.mp h
  refine ⟨l.take i, l.drop (i + 1), ?_, ?_, eraseIdx_eq_take_drop_succ ..⟩
  · simp
  · intro b
    rw [set_eq_take_append_cons_drop, if_pos hi]

/-- What the members of `l` weigh together. -/
def total (f : α → Nat) (l : List α) : Nat := (l.map f).sum

@[simp] theorem total_nil (f : α → Nat) : total f [] = 0 := rfl

@[simp] theorem total_cons (f : α → Nat) (a : α) (l : List α) : total f (a :: l) = f a + total f l := by
  simp [total]

@[simp] theorem total_append (f : α → Nat) (l₁ l₂ : List α) :
    total f (l₁ ++ l₂) = total f l₁ + total f l₂ := by
  simp [total]

theorem total_le_total {f g : α → Nat} {l : List α} (h : ∀ a ∈ l, f a ≤ g a) :
    total f l ≤ total g l := by
  induction l with
  | nil => exact Nat.le_refl _
  | cons a l ih =>
    have ha := h a mem_cons_self
    have hl := ih fun b hb => h b (mem_cons_of_mem _ hb)
    simp only [total_cons]
    omega

theorem le_total {f : α → Nat} {l : List α} {a : α} (h : a ∈ l) : f a ≤ total f l := by
  induction l with
  | nil => cases h
  | cons b l ih =>
    rw [total_cons]
    rcases mem_cons.mp h with rfl | h
    · omega
    · have := ih h
      omega

theorem total_eq_zero {f : α → Nat} {l : List α} (h : ∀ a ∈ l, f a = 0) : total f l = 0 := by
  induction l with
  | nil => rfl
  | cons a l ih =>
    rw [total_cons, h a mem_cons_self, ih fun b hb => h b (mem_cons_of_mem _ hb)]

/-- One lot of a duplicate-free list carries the whole weight `n`. -/
theorem total_single [DecidableEq ι] {lots : List ι} (hn : lots.Nodup) {j : ι} (hj : j ∈ lots)
    (n : Nat) : total (fun i => if j = i then n else 0) lots = n := by
  induction lots with
  | nil => cases hj
  | cons i lots ih =>
    obtain ⟨hi, hn⟩ := nodup_cons.mp hn
    rw [total_cons]
    by_cases h : j = i
    · subst h
      have hz : total (fun i => if j = i then n else 0) lots = 0 := by
        apply total_eq_zero
        intro a ha
        have hne : j ≠ a := fun he => hi (he ▸ ha)
        exact if_neg hne
      rw [if_pos rfl, hz, Nat.add_zero]
    · have hm : j ∈ lots := (mem_cons.mp hj).resolve_left h
      rw [if_neg h, ih hn hm, Nat.zero_add]

theorem total_add (f g : α → Nat) (l : List α) :
    total (fun a => f a + g a) l = total f l + total g l := by
  induction l with
  | nil => rfl
  | cons a l ih =>
    simp only [total_cons, ih]
    omega

theorem total_by_lot [DecidableEq ι] {lots : List ι} (hn : lots.Nodup) {lot : α → Option ι}
    {f : α → Nat} {l : List α} (h : ∀ a ∈ l, (∃ j ∈ lots, lot a = some j) ∨ f a = 0) :
    total f l = total (fun i => total (fun a => if lot a = some i then f a else 0) l) lots := by
  induction l with
  | nil => exact (total_eq_zero fun _ _ => rfl).symm
  | cons a l ih =>
    have hl := ih fun b hb => h b (mem_cons_of_mem _ hb)
    have ha : total (fun i => if lot a = some i then f a else 0) lots = f a := by
      rcases h a mem_cons_self with ⟨j, hj, he⟩ | hz
      · simp only [he, Option.some.injEq]
        exact total_single hn hj (f a)
      · rw [hz]
        exact total_eq_zero fun i _ => ite_self 0
    simp only [total_cons, total_add, ha, hl]

end RatKingdom.Lib
