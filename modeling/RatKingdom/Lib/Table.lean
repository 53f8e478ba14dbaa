/-
Finite maps as lists of rows with distinct keys.

The order of the rows is the order an iteration visits them in, which a hash map
leaves open; lookups do not depend on it.
-/
import Mathlib.Data.List.Nodup
import Mathlib.Algebra.BigOperators.Group.List.Basic

namespace RatKingdom.Lib

open List

universe u v w

@[ext]
structure Table (κ : Type u) (β : Type v) where
  rows : List (κ × β)
  nodup : (rows.map Prod.fst).Nodup

namespace Table

variable {κ : Type u} {β : Type v} {γ : Type w}

def empty : Table κ β where
  rows := []
  nodup := nodup_nil

def keys (t : Table κ β) : List κ := t.rows.map Prod.fst

/-- Every row through `f`, which may drop it. -/
def filterMap (f : β → Option γ) (t : Table κ β) : Table κ γ where
  rows := t.rows.filterMap fun r => (f r.2).map (r.1, ·)
  nodup := by
    have h : ((t.rows.filterMap fun r => (f r.2).map (r.1, ·)).map Prod.fst).Sublist
        (t.rows.map Prod.fst) := by
      induction t.rows with
      | nil => simp
      | cons r rs ih =>
        cases hf : f r.2 with
        | none => simpa [filterMap_cons, hf] using ih.cons _
        | some c => simpa [filterMap_cons, hf] using ih
    exact h.nodup t.nodup

section
variable [DecidableEq κ]

def get (t : Table κ β) (k : κ) : Option β := (t.rows.find? fun r => r.1 = k).map Prod.snd

/-- The row under `k`, when there is one, changed by `f`. -/
def modify (t : Table κ β) (k : κ) (f : β → β) : Table κ β where
  rows := t.rows.map fun r => if r.1 = k then (r.1, f r.2) else r
  nodup := by
    have h : (t.rows.map fun r => if r.1 = k then (r.1, f r.2) else r).map Prod.fst =
        t.rows.map Prod.fst := by
      rw [map_map]
      apply map_congr_left
      intro r _
      by_cases hr : r.1 = k
      · simp [hr]
      · simp [hr]
    rw [h]
    exact t.nodup

omit [DecidableEq κ] in
theorem eq_of_mem {t : Table κ β} {k : κ} {v v' : β} (h : (k, v) ∈ t.rows) (h' : (k, v') ∈ t.rows) :
    v = v' := by
  have hi := inj_on_of_nodup_map t.nodup h h' rfl
  exact (Prod.mk.inj hi).2

theorem get_eq_some_iff {t : Table κ β} {k : κ} {v : β} : t.get k = some v ↔ (k, v) ∈ t.rows := by
  constructor
  · intro h
    obtain ⟨r, hr, rfl⟩ := Option.map_eq_some_iff.mp h
    have hk : r.1 = k := by simpa using find?_some hr
    subst hk
    exact mem_of_find?_eq_some hr
  · intro h
    cases hf : t.rows.find? fun r => r.1 = k with
    | none =>
      rw [find?_eq_none] at hf
      exact absurd (decide_eq_true rfl) (hf (k, v) h)
    | some r =>
      have hk : r.1 = k := by simpa using find?_some hf
      have hm : (k, r.2) ∈ t.rows := by
        subst hk
        exact mem_of_find?_eq_some hf
      rw [get, hf, Option.map_some, eq_of_mem hm h]

theorem get_filterMap (f : β → Option γ) (t : Table κ β) (k : κ) :
    (t.filterMap f).get k = (t.get k).bind f := by
  apply Option.ext
  intro c
  rw [get_eq_some_iff, Option.bind_eq_some_iff]
  simp only [filterMap, mem_filterMap, Option.map_eq_some_iff, get_eq_some_iff]
  constructor
  · rintro ⟨⟨k', b⟩, hm, c', hc, he⟩
    cases he
    exact ⟨b, hm, hc⟩
  · rintro ⟨b, hm, hc⟩
    exact ⟨(k, b), hm, c, hc, rfl⟩

theorem get_modify (t : Table κ β) (k k' : κ) (f : β → β) :
    (t.modify k f).get k' = if k' = k then (t.get k').map f else t.get k' := by
  apply Option.ext
  intro c
  rw [get_eq_some_iff]
  simp only [modify, mem_map]
  by_cases hk : k' = k
  · subst hk
    rw [if_pos rfl, Option.map_eq_some_iff]
    simp only [get_eq_some_iff]
    constructor
    · rintro ⟨⟨j, b⟩, hm, he⟩
      by_cases hj : j = k'
      · subst hj
        rw [if_pos rfl] at he
        exact ⟨b, hm, (Prod.mk.inj he).2⟩
      · rw [if_neg hj] at he
        exact absurd (Prod.mk.inj he).1 hj
    · rintro ⟨b, hm, rfl⟩
      exact ⟨(k', b), hm, if_pos rfl⟩
  · rw [if_neg hk, get_eq_some_iff]
    constructor
    · rintro ⟨⟨j, b⟩, hm, he⟩
      by_cases hj : j = k
      · rw [if_pos hj] at he
        exact absurd ((Prod.mk.inj he).1 ▸ hj) hk
      · rw [if_neg hj] at he
        exact he ▸ hm
    · intro hm
      exact ⟨(k', c), hm, if_neg hk⟩

/-- What the change does not touch reads as before. -/
theorem map_get_modify {p : β → γ} {f : β → β} (h : ∀ b, p (f b) = p b) (t : Table κ β)
    (k k' : κ) : ((t.modify k f).get k').map p = (t.get k').map p := by
  rw [get_modify]
  by_cases hk : k' = k
  · rw [if_pos hk, Option.map_map]
    exact Option.map_congr fun b _ => h b
  · rw [if_neg hk]

/-- The rows but the one under `k`. -/
def erase (t : Table κ β) (k : κ) : Table κ β where
  rows := t.rows.filter fun r => decide (r.1 ≠ k)
  nodup := (filter_sublist.map Prod.fst).nodup t.nodup

/-- The row under `k` replaced, or a new one. -/
def set (t : Table κ β) (k : κ) (v : β) : Table κ β where
  rows := (k, v) :: (t.erase k).rows
  nodup := by
    rw [map_cons, nodup_cons]
    refine ⟨fun hk => ?_, (t.erase k).nodup⟩
    obtain ⟨r, hr, he⟩ := mem_map.mp hk
    have hne := (mem_filter.mp hr).2
    simp [he] at hne

theorem get_empty (k : κ) : (empty : Table κ β).get k = none := rfl

theorem get_erase (t : Table κ β) (k k' : κ) :
    (t.erase k).get k' = if k' = k then none else t.get k' := by
  apply Option.ext
  intro v
  rw [get_eq_some_iff]
  simp only [erase, mem_filter, decide_eq_true_eq]
  by_cases hk : k' = k
  · simp [hk]
  · simp [hk, get_eq_some_iff]

theorem get_set (t : Table κ β) (k k' : κ) (v : β) :
    (t.set k v).get k' = if k' = k then some v else t.get k' := by
  apply Option.ext
  intro w
  rw [get_eq_some_iff]
  simp only [set, mem_cons, Prod.mk.injEq]
  rw [← get_eq_some_iff, get_erase]
  by_cases hk : k' = k
  · simp [hk, eq_comm]
  · simp [hk]

/-- A table filled from a list, one row a key: those entries that `p` does not leave out. -/
theorem get_foldl_set (p : β → Bool) (key : β → κ) {l : List β}
    (hkey : ∀ a ∈ l, ∀ b ∈ l, key a = key b → a = b) (k : κ) (v : β) :
    (l.foldl (fun t b => if p b then t else t.set (key b) b) empty).get k = some v ↔
      v ∈ l ∧ key v = k ∧ p v = false := by
  have hfold : ∀ (l : List β) (t : Table κ β), (∀ a ∈ l, ∀ b ∈ l, key a = key b → a = b) →
      ((l.foldl (fun t b => if p b then t else t.set (key b) b) t).get k = some v ↔
        (v ∈ l ∧ key v = k ∧ p v = false) ∨
          (t.get k = some v ∧ ∀ b ∈ l, key b = k → p b = true)) := by
    intro l
    induction l with
    | nil => simp
    | cons b l ih =>
      intro t hdist
      have hrest : ∀ a ∈ l, ∀ b ∈ l, key a = key b → a = b := fun a ha b hb =>
        hdist a (mem_cons_of_mem _ ha) b (mem_cons_of_mem _ hb)
      rw [foldl_cons, ih _ hrest]
      by_cases hp : p b = true
      · rw [if_pos hp]
        constructor
        · rintro (⟨hv, hk, hpv⟩ | ⟨hget, hall⟩)
          · exact .inl ⟨mem_cons_of_mem _ hv, hk, hpv⟩
          · exact .inr ⟨hget, forall_mem_cons.mpr ⟨fun _ => hp, hall⟩⟩
        · rintro (⟨hv, hk, hpv⟩ | ⟨hget, hall⟩)
          · rcases mem_cons.mp hv with rfl | hv
            · rw [hp] at hpv
              cases hpv
            · exact .inl ⟨hv, hk, hpv⟩
          · exact .inr ⟨hget, fun a ha => hall a (mem_cons_of_mem _ ha)⟩
      · have hpf : p b = false := by simpa using hp
        rw [if_neg hp, get_set]
        constructor
        · rintro (⟨hv, hk, hpv⟩ | ⟨hget, hall⟩)
          · exact .inl ⟨mem_cons_of_mem _ hv, hk, hpv⟩
          · by_cases hk : k = key b
            · rw [if_pos hk] at hget
              cases hget
              exact .inl ⟨mem_cons_self, hk.symm, hpf⟩
            · rw [if_neg hk] at hget
              exact .inr ⟨hget, forall_mem_cons.mpr ⟨fun hka => absurd hka.symm hk, hall⟩⟩
        · rintro (⟨hv, hk, hpv⟩ | ⟨hget, hall⟩)
          · rcases mem_cons.mp hv with rfl | hv
            · by_cases hlater : ∃ a ∈ l, key a = k
              · obtain ⟨a, ha, hka⟩ := hlater
                have he := hdist a (mem_cons_of_mem _ ha) v mem_cons_self (hka.trans hk.symm)
                exact .inl ⟨he ▸ ha, hk, hpv⟩
              · refine .inr ⟨by rw [if_pos hk.symm], fun a ha hka => ?_⟩
                exact absurd ⟨a, ha, hka⟩ hlater
            · exact .inl ⟨hv, hk, hpv⟩
          · have hk : k ≠ key b := fun hk => hp (hall b mem_cons_self hk.symm)
            exact .inr ⟨by rw [if_neg hk]; exact hget, fun a ha => hall a (mem_cons_of_mem _ ha)⟩
  rw [hfold l empty hkey]
  constructor
  · rintro (h | ⟨hget, -⟩)
    · exact h
    · rw [get_empty] at hget
      cases hget
  · exact .inl

end

end Table

end RatKingdom.Lib
