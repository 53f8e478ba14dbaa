/-
Ordered maps filled from a list, where a later element overwrites an earlier one
with the same key.

The entry under a key is the value of the last element that has it, so the map
depends on the order of the list exactly where two elements share a key and differ in
value.
-/
import Mathlib.Data.List.Induction

namespace RatKingdom.Lib

open Std List

universe u v w
variable {α : Type u} {κ : Type v} {β : Type w} [Ord κ] [TransOrd κ] [LawfulEqOrd κ]

def collect (key : α → κ) (val : α → β) (l : List α) : ExtTreeMap κ β :=
  l.foldl (fun m x => m.insert (key x) (val x)) ∅

variable {key : α → κ} {val : α → β}

omit [LawfulEqOrd κ] in
theorem collect_concat (l : List α) (x : α) :
    collect key val (l ++ [x]) = (collect key val l).insert (key x) (val x) := by
  simp [collect]

theorem getElem?_collect_concat [DecidableEq κ] (l : List α) (x : α) (k : κ) :
    (collect key val (l ++ [x]))[k]? =
      if key x = k then some (val x) else (collect key val l)[k]? := by
  rw [collect_concat, ExtTreeMap.getElem?_insert]
  by_cases h : key x = k
  · simp [h]
  · have hc : compare (key x) k ≠ .eq := fun he => h (LawfulEqOrd.eq_of_compare he)
    simp [h, hc]

theorem getElem?_collect_append [DecidableEq κ] (l₁ l₂ : List α) (k : κ) :
    (collect key val (l₁ ++ l₂))[k]? = (collect key val l₂)[k]?.or (collect key val l₁)[k]? := by
  induction l₂ using List.reverseRecOn with
  | nil => simp [collect]
  | append_singleton l₂ x ih =>
    rw [← append_assoc, getElem?_collect_concat, getElem?_collect_concat, ih]
    by_cases h : key x = k
    · simp [h]
    · simp [h]

variable {l : List α}

theorem exists_of_getElem?_collect [DecidableEq κ] {k : κ} {v : β}
    (h : (collect key val l)[k]? = some v) : ∃ x ∈ l, key x = k ∧ val x = v := by
  induction l using List.reverseRecOn with
  | nil => simp [collect] at h
  | append_singleton l x ih =>
    rw [getElem?_collect_concat] at h
    by_cases hx : key x = k
    · rw [if_pos hx] at h
      exact ⟨x, by simp, hx, Option.some.inj h⟩
    · rw [if_neg hx] at h
      obtain ⟨y, hy, hk, hv⟩ := ih h
      exact ⟨y, mem_append_left _ hy, hk, hv⟩

theorem mem_collect [DecidableEq κ] {k : κ} : k ∈ collect key val l ↔ ∃ x ∈ l, key x = k := by
  induction l using List.reverseRecOn with
  | nil => simp [collect]
  | append_singleton l x ih =>
    rw [collect_concat, ExtTreeMap.mem_insert, ih]
    simp only [Std.compare_eq_iff_eq, mem_append, mem_singleton]
    constructor
    · intro h
      rcases h with h | ⟨y, hy, hk⟩
      · exact ⟨x, .inr rfl, h⟩
      · exact ⟨y, .inl hy, hk⟩
    · intro h
      obtain ⟨y, hy | rfl, hk⟩ := h
      · exact .inr ⟨y, hy, hk⟩
      · exact .inl hk

theorem getElem?_collect_of_agree [DecidableEq κ] {x : α} (hx : x ∈ l)
    (hag : ∀ y ∈ l, key y = key x → val y = val x) :
    (collect key val l)[key x]? = some (val x) := by
  have hm : key x ∈ collect key val l := mem_collect.mpr ⟨x, hx, rfl⟩
  obtain ⟨v, hv⟩ := Option.isSome_iff_exists.mp (ExtTreeMap.mem_iff_isSome_getElem?.mp hm)
  obtain ⟨y, hy, hk, rfl⟩ := exists_of_getElem?_collect hv
  rw [hv, hag y hy hk]

/-- Two lists with the same elements fill the same map when equal keys mean equal
values. -/
theorem collect_congr [DecidableEq κ] {l l' : List α} (hsame : ∀ x, x ∈ l ↔ x ∈ l')
    (hag : ∀ x ∈ l, ∀ y ∈ l, key x = key y → val x = val y) :
    collect key val l = collect key val l' := by
  refine ExtTreeMap.ext_getElem? fun k => ?_
  by_cases hk : ∃ x ∈ l, key x = k
  · obtain ⟨x, hx, rfl⟩ := hk
    rw [getElem?_collect_of_agree hx fun y hy he => hag y hy x hx he,
      getElem?_collect_of_agree ((hsame x).mp hx) fun y hy he => hag y ((hsame y).mpr hy) x hx he]
  · have hk' : ¬ ∃ x ∈ l', key x = k := by
      rintro ⟨x, hx, he⟩
      exact hk ⟨x, (hsame x).mpr hx, he⟩
    rw [ExtTreeMap.getElem?_eq_none (fun h => hk (mem_collect.mp h)),
      ExtTreeMap.getElem?_eq_none (fun h => hk' (mem_collect.mp h))]

def collected (key : α → κ) (val : α → β) (l : List α) : List β :=
  (collect key val l).toList.map Prod.snd

theorem mem_collected [DecidableEq κ] {v : β} :
    v ∈ collected key val l ↔ ∃ k : κ, (collect key val l)[k]? = some v := by
  simp only [collected, mem_map, Prod.exists, ExtTreeMap.mem_toList_iff_getElem?_eq_some]
  constructor
  · intro h
    obtain ⟨k, v', h, rfl⟩ := h
    exact ⟨k, h⟩
  · intro h
    obtain ⟨k, h⟩ := h
    exact ⟨k, v, h, rfl⟩

theorem collected_map {γ : Type w} [DecidableEq κ] (f : β → γ) (l : List α) :
    (collected key val l).map f = collected key (fun x => f (val x)) l := by
  have hmap : collect key (fun x => f (val x)) l = (collect key val l).map fun _ v => f v := by
    induction l using List.reverseRecOn with
    | nil => rfl
    | append_singleton l x ih =>
      refine ExtTreeMap.ext_getElem? fun k => ?_
      rw [getElem?_collect_concat, ExtTreeMap.getElem?_map, getElem?_collect_concat, ih,
        ExtTreeMap.getElem?_map]
      by_cases h : key x = k
      · simp [h]
      · simp [h]
  rw [collected, collected, hmap, ExtTreeMap.toList_map, map_map, map_map]
  rfl

end RatKingdom.Lib
