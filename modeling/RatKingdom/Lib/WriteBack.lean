/-
A store that changes its memory first and writes its file afterwards.

A call is refused, answered without a change, or comes to new data.  New data is in memory
before the file is written and stays there when the write fails.  So a failed call leaves
nothing behind exactly where it had nothing to change (`clean_settle_iff`).
-/
import RatKingdom.Lib.Run

namespace RatKingdom.Lib

universe u v

structure Stored (σ : Type u) where
  data : σ
  file : σ

/-- What a call comes to before its file is written. -/
inductive Effect (σ : Type u) where
  | refuse | keep
  | write (data : σ)

namespace Stored

variable {σ : Type u}

/-- The store after a call, and whether the call was answered without an error. -/
def settle (s : Stored σ) (effect : Effect σ) (writes : Bool) : Stored σ × Bool :=
  match effect with
  | .refuse => (s, false)
  | .keep => (s, true)
  | .write data => ({ data, file := if writes then data else s.file }, writes)

/-- A call that fails leaves the data in memory as it was, and equal to the file. -/
def Clean (s : Stored σ) (r : Stored σ × Bool) : Prop :=
  r.2 = false → r.1.data = s.data ∧ r.1.file = r.1.data

/-- Memory and file are equal, and a write that fails was to change nothing. -/
def Harmless (s : Stored σ) (effect : Effect σ) (writes : Bool) : Prop :=
  match effect with
  | .refuse => s.file = s.data
  | .keep => True
  | .write data => writes = true ∨ data = s.data ∧ s.file = s.data

theorem clean_settle_iff (s : Stored σ) (effect : Effect σ) (writes : Bool) :
    s.Clean (s.settle effect writes) ↔ s.Harmless effect writes := by
  cases effect with
  | refuse =>
    show (false = false → s.data = s.data ∧ s.file = s.data) ↔ s.file = s.data
    simp
  | keep =>
    show (true = false → s.data = s.data ∧ s.file = s.data) ↔ True
    simp
  | write data =>
    cases writes with
    | true =>
      show (true = false → data = s.data ∧ data = data) ↔ true = true ∨ _
      simp
    | false =>
      show (false = false → data = s.data ∧ s.file = data) ↔ false = true ∨ data = s.data ∧ _
      constructor
      · intro h
        obtain ⟨hdata, hfile⟩ := h rfl
        exact .inr ⟨hdata, hfile.trans hdata⟩
      · intro h _
        rcases h with h | ⟨hdata, hfile⟩
        · cases h
        · exact ⟨hdata, hfile.trans hdata.symm⟩

end Stored

end RatKingdom.Lib
