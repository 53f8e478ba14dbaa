/-
The names of rats.

A name is never used twice: when the pool is used up, it is gone through again with a
generation behind each name, until one of them is free.
-/
import Mathlib.Data.List.Range
import Mathlib.Data.List.Nodup
import Mathlib.Data.List.Perm.Subperm

namespace RatKingdom.Core

open List

def ratNames : List String :=
  ["Whisker", "Nibbles", "Scurry", "Pip", "Templeton", "Rizzo", "Splinter", "Remy", "Gnaw",
    "Squeak", "Bristle", "Twitch", "Scamper", "Fidget", "Munch", "Gouda", "Brie", "Cheddar",
    "Stilton", "Colby", "Ratatosk", "Nezumi", "Peppercorn", "Sable", "Cinder", "Ash", "Sooty",
    "Dusty", "Pockets", "Burrow", "Tunnel", "Rummage", "Scrounge", "Filch", "Swipe", "Dart",
    "Skitter", "Vole", "Shrew", "Tails", "Nubbin", "Crumb", "Morsel", "Snuffle", "Wriggle",
    "Scritch", "Nimble", "Patter", "Scuttle", "Nudge", "Bramble", "Thistle", "Clover", "Acorn",
    "Hazel", "Pipsqueak", "Widget", "Gadget", "Biscuit", "Pumpernickel", "Marbles", "Peanut",
    "Waffle", "Noodle", "Mochi", "Pretzel", "Gruyere", "Havarti", "Muenster", "Provolone",
    "Camembert", "Manchego", "Roquefort", "Parmesan", "Asiago", "Gorgonzola", "Wensleydale",
    "Edam", "Jarlsberg", "Emmental", "Matthias", "Gonff", "Martin", "Cornflower", "Basil",
    "Cheesethief", "Methuselah", "Warbeak", "Mattimeo", "Cluny", "Deyna", "Triss", "Emile",
    "Django", "Gusteau", "Linguini"]

/-- The pool, gone through for the `generation`-th time. -/
def generationNames (generation : Nat) : List String :=
  ratNames.map fun name => name ++ "-" ++ toString generation

/-- The loop of `next_name` from a generation on, for so many turns. -/
def nextNameFrom (taken : List String) (generation : Nat) : Nat → Option String
  | 0 => none
  | turns + 1 =>
    match (generationNames generation).find? fun name => !taken.contains name with
    | some name => some name
    | none => nextNameFrom taken (generation + 1) turns

def nextName? (taken : List String) : Option String :=
  match ratNames.find? fun name => !taken.contains name with
  | some name => some name
  | none => nextNameFrom taken 2 (taken.length + 1)

theorem suffix_injective {name : String} {m n : Nat} (h : name ++ toString m = name ++ toString n) :
    m = n := by
  have hdigits : Nat.toDigits 10 m = Nat.toDigits 10 n := by
    have hl := congrArg String.toList h
    simpa using hl
  rw [← Nat.ofDigitChars_ten_toDigits (n := m), hdigits, Nat.ofDigitChars_ten_toDigits]

theorem generationNames_head (generation : Nat) :
    "Whisker-" ++ toString generation ∈ generationNames generation := by
  apply mem_map.mpr
  exact ⟨"Whisker", mem_cons_self, rfl⟩

theorem nextNameFrom_none {taken : List String} {generation turns : Nat}
    (h : nextNameFrom taken generation turns = none) :
    ∀ i, i < turns → "Whisker-" ++ toString (generation + i) ∈ taken := by
  induction turns generalizing generation with
  | zero =>
    intro i hi
    omega
  | succ turns ih =>
    intro i hi
    unfold nextNameFrom at h
    cases hf : (generationNames generation).find? fun name => !taken.contains name with
    | some name =>
      rw [hf] at h
      cases h
    | none =>
      rw [hf] at h
      cases i with
      | zero =>
        have hno := find?_eq_none.mp hf _ (generationNames_head generation)
        simpa using hno
      | succ i =>
        have hrest := ih h i (by omega)
        rw [show generation + (i + 1) = generation + 1 + i by omega]
        exact hrest

theorem nextName?_isSome (taken : List String) : (nextName? taken).isSome = true := by
  unfold nextName?
  cases ratNames.find? fun name => !taken.contains name with
  | some name => rfl
  | none =>
    show (nextNameFrom taken 2 (taken.length + 1)).isSome = true
    cases hn : nextNameFrom taken 2 (taken.length + 1) with
    | some name => rfl
    | none =>
      -- one taken name for each turn, and more turns than taken names
      have hm := nextNameFrom_none hn
      have hnodup : ((List.range (taken.length + 1)).map
          fun i => "Whisker-" ++ toString (2 + i)).Nodup := by
        apply List.Nodup.map ?_ nodup_range
        intro i j hij
        have hnum : 2 + i = 2 + j := suffix_injective hij
        omega
      have hsub : ((List.range (taken.length + 1)).map
          fun i => "Whisker-" ++ toString (2 + i)) ⊆ taken := by
        intro name hname
        obtain ⟨i, hi, rfl⟩ := mem_map.mp hname
        exact hm i (mem_range.mp hi)
      have hlen := (hnodup.subperm hsub).length_le
      rw [length_map, length_range] at hlen
      omega

def nextName (taken : List String) : String := (nextName? taken).get (nextName?_isSome taken)

theorem nextNameFrom_free {taken : List String} {generation turns : Nat} {name : String}
    (h : nextNameFrom taken generation turns = some name) : name ∉ taken := by
  induction turns generalizing generation with
  | zero => cases h
  | succ turns ih =>
    unfold nextNameFrom at h
    cases hf : (generationNames generation).find? fun name => !taken.contains name with
    | some found =>
      rw [hf] at h
      cases h
      have hfree := find?_some hf
      simpa using hfree
    | none =>
      rw [hf] at h
      exact ih h

theorem nextName_free (taken : List String) : nextName taken ∉ taken := by
  have hsome : nextName? taken = some (nextName taken) := (Option.some_get _).symm
  unfold nextName? at hsome
  cases hf : ratNames.find? fun name => !taken.contains name with
  | some name =>
    rw [hf] at hsome
    have hfree := find?_some hf
    rw [← Option.some.inj hsome]
    simpa using hfree
  | none =>
    rw [hf] at hsome
    exact nextNameFrom_free hsome

end RatKingdom.Core
