/-
Chains of successors.

`next a b` says that `b` has taken the place of `a`.  `Ends next a c` follows the
successors of `a` to the one that has none.  Where a successor is unique the end is.
-/
import Mathlib.Order.Basic

namespace RatKingdom.Lib

universe u

variable {α : Type u}

/-- `c` is at the end of the chain of successors from `a`. -/
inductive Ends (next : α → α → Prop) : α → α → Prop
  | here {a : α} (h : ∀ b, ¬ next a b) : Ends next a a
  | later {a b c : α} (h : next a b) (hc : Ends next b c) : Ends next a c

variable {next : α → α → Prop} {a b c : α}

theorem Ends.last (h : Ends next a c) : ∀ b, ¬ next c b := by
  induction h with
  | here h | later _ _ h => exact h

theorem Ends.of_next (hunique : ∀ a b b', next a b → next a b' → b = b') (hab : next a b)
    (h : Ends next a c) : Ends next b c := by
  cases h with
  | here hn => exact absurd hab (hn b)
  | later hab' hc =>
    rw [hunique a b _ hab hab']
    exact hc

theorem Ends.unique (hunique : ∀ a b b', next a b → next a b' → b = b') {c' : α}
    (h : Ends next a c) (h' : Ends next a c') : c = c' := by
  induction h with
  | here hn =>
    cases h' with
    | here _ => rfl
    | later hab _ => exact absurd hab (hn _)
  | later hab _ ih => exact ih (h'.of_next hunique hab)

end RatKingdom.Lib
