/-
Searching a graph for a node with a stack of nodes to visit and a list of nodes seen.

The graph is given by the rows of a table: a node's neighbours are those of its row, and a
node without a row has none.  `search_some` is the termination of the search on every such
graph, `search_spec` its answer, and `Acyclic` comes with the changes of a graph that close
no cycle.
-/
import Mathlib.Algebra.BigOperators.Group.List.Basic
import Mathlib.Algebra.GroupWithZero.Nat

namespace RatKingdom.Lib

open Relation List

universe u v

section
variable {α : Type u} {β : Type v} [DecidableEq α]

def Arc (next : α → List α) (a b : α) : Prop := b ∈ next a

def search (next : α → List α) (target : α) : Nat → List α → List α → Option Bool
  | 0, _, _ => none
  | _ + 1, [], _ => some false
  | fuel + 1, node :: stack, seen =>
    if node = target then some true
    else if seen.contains node then search next target fuel stack seen
    else search next target fuel ((next node).reverse ++ stack) (node :: seen)

def due (key : β → α) (arcs : β → List α) (seen : List α) (r : β) : Nat :=
  if seen.contains (key r) then 0 else (arcs r).length

def pending (key : β → α) (arcs : β → List α) (rows : List β) (seen : List α) : Nat :=
  (rows.map (due key arcs seen)).sum

/-- The neighbours of a node are those of a row of its own, or none. -/
def Tabled (key : β → α) (arcs : β → List α) (rows : List β) (next : α → List α) : Prop :=
  ∀ a, next a = [] ∨ ∃ r ∈ rows, key r = a ∧ next a = arcs r

variable {key : β → α} {arcs : β → List α} {rows : List β} {next : α → List α} {target : α}

theorem due_cons_le (key : β → α) (arcs : β → List α) (a : α) (seen : List α) (r : β) :
    due key arcs (a :: seen) r ≤ due key arcs seen r := by
  unfold due
  by_cases hs : seen.contains (key r) = true
  · rw [if_pos (by rw [contains_cons, hs, Bool.or_true])]
    exact Nat.zero_le _
  · rw [if_neg hs]
    split <;> omega

theorem due_visited {a : α} (seen : List α) {r : β} (hk : key r = a) :
    due key arcs (a :: seen) r = 0 := by
  unfold due
  rw [if_pos (by rw [contains_cons, hk, beq_self_eq_true, Bool.true_or])]

theorem pending_cons_le (key : β → α) (arcs : β → List α) (rows : List β) (a : α) (seen : List α) :
    pending key arcs rows (a :: seen) ≤ pending key arcs rows seen := by
  induction rows with
  | nil => exact Nat.le_refl 0
  | cons r rows ih =>
    have hr := due_cons_le key arcs a seen r
    simp only [pending, map_cons, sum_cons] at ih ⊢
    omega

theorem pending_visit (hn : Tabled key arcs rows next) {a : α} {seen : List α}
    (ha : seen.contains a = false) :
    (next a).length + pending key arcs rows (a :: seen) ≤ pending key arcs rows seen := by
  obtain hnil | ⟨r, hr, hk, he⟩ := hn a
  · rw [hnil, length_nil, Nat.zero_add]
    exact pending_cons_le key arcs rows a seen
  · rw [he]
    clear he hn
    induction rows with
    | nil => exact absurd hr not_mem_nil
    | cons q rows ih =>
      have hq := due_cons_le key arcs a seen q
      have hrest := pending_cons_le key arcs rows a seen
      simp only [pending, map_cons, sum_cons] at ih hrest ⊢
      rcases mem_cons.mp hr with rfl | hr
      · have hdue : due key arcs seen r = (arcs r).length := by
          unfold due
          rw [hk, if_neg (by rw [ha]; exact Bool.false_ne_true)]
        rw [due_visited seen hk, hdue]
        omega
      · have h := ih hr
        omega

theorem search_some (hn : Tabled key arcs rows next) (fuel : Nat) :
    ∀ stack seen, stack.length + pending key arcs rows seen < fuel →
      (search next target fuel stack seen).isSome = true := by
  induction fuel with
  | zero => exact fun _ _ h => absurd h (Nat.not_lt_zero _)
  | succ fuel ih =>
    intro stack seen h
    cases stack with
    | nil => rfl
    | cons node stack =>
      rw [length_cons] at h
      unfold search
      by_cases ht : node = target
      · rw [if_pos ht]
        rfl
      · rw [if_neg ht]
        by_cases hs : seen.contains node = true
        · rw [if_pos hs]
          exact ih stack seen (by omega)
        · rw [if_neg hs]
          apply ih
          have hv := pending_visit (a := node) hn (Bool.eq_false_iff.mpr hs)
          rw [length_append, length_reverse]
          omega

theorem search_true {fuel : Nat} {stack seen : List α}
    (h : search next target fuel stack seen = some true) :
    ∃ a ∈ stack, ReflTransGen (Arc next) a target := by
  induction fuel generalizing stack seen with
  | zero => cases h
  | succ fuel ih =>
    cases stack with
    | nil => cases h
    | cons node stack =>
      unfold search at h
      by_cases ht : node = target
      · exact ⟨node, mem_cons_self, ht ▸ .refl⟩
      · rw [if_neg ht] at h
        by_cases hs : seen.contains node = true
        · rw [if_pos hs] at h
          obtain ⟨a, ha, hr⟩ := ih h
          exact ⟨a, mem_cons_of_mem _ ha, hr⟩
        · rw [if_neg hs] at h
          obtain ⟨a, ha, hr⟩ := ih h
          rcases mem_append.mp ha with ha | ha
          · exact ⟨node, mem_cons_self, .head (show Arc next node a from mem_reverse.mp ha) hr⟩
          · exact ⟨a, mem_cons_of_mem _ ha, hr⟩

def Covered (next : α → List α) (target : α) (stack seen : List α) : Prop :=
  ∀ a ∈ seen, a ≠ target ∧ ∀ b ∈ next a, b ∈ seen ∨ b ∈ stack

theorem search_false {fuel : Nat} {stack seen : List α} (hc : Covered next target stack seen)
    (h : search next target fuel stack seen = some false) :
    ∀ a, a ∈ stack ∨ a ∈ seen → ¬ ReflTransGen (Arc next) a target := by
  induction fuel generalizing stack seen with
  | zero => cases h
  | succ fuel ih =>
    cases stack with
    | nil =>
      -- Nothing waits any more: what has been seen is closed under the arcs.
      intro a ha hr
      have hseen : a ∈ seen := ha.resolve_left not_mem_nil
      clear ha
      induction hr using ReflTransGen.head_induction_on with
      | refl => exact (hc target hseen).1 rfl
      | head hab _ ihr => exact ihr (((hc _ hseen).2 _ hab).resolve_right not_mem_nil)
    | cons node stack =>
      unfold search at h
      by_cases ht : node = target
      · rw [if_pos ht] at h
        cases h
      · rw [if_neg ht] at h
        by_cases hs : seen.contains node = true
        · rw [if_pos hs] at h
          have hm : node ∈ seen := contains_iff_mem.mp hs
          intro a ha
          apply ih _ h a
          · rcases ha with ha | ha
            · rcases mem_cons.mp ha with rfl | ha
              · exact .inr hm
              · exact .inl ha
            · exact .inr ha
          · intro b hb
            refine ⟨(hc b hb).1, fun d hd => ?_⟩
            rcases (hc b hb).2 d hd with hd | hd
            · exact .inl hd
            · rcases mem_cons.mp hd with rfl | hd
              · exact .inl hm
              · exact .inr hd
        · rw [if_neg hs] at h
          intro a ha
          apply ih _ h a
          · rcases ha with ha | ha
            · rcases mem_cons.mp ha with rfl | ha
              · exact .inr mem_cons_self
              · exact .inl (mem_append_right _ ha)
            · exact .inr (mem_cons_of_mem _ ha)
          · intro b hb
            rcases mem_cons.mp hb with rfl | hb
            · exact ⟨ht, fun d hd => .inr (mem_append_left _ (mem_reverse.mpr hd))⟩
            · refine ⟨(hc b hb).1, fun d hd => ?_⟩
              rcases (hc b hb).2 d hd with hd | hd
              · exact .inl (mem_cons_of_mem _ hd)
              · rcases mem_cons.mp hd with rfl | hd
                · exact .inl mem_cons_self
                · exact .inr (mem_append_right _ hd)

theorem search_spec {fuel : Nat} {start : α} {found : Bool}
    (h : search next target fuel [start] [] = some found) :
    found = true ↔ ReflTransGen (Arc next) start target := by
  cases found with
  | true =>
    obtain ⟨a, ha, hr⟩ := search_true h
    rw [mem_singleton.mp ha] at hr
    exact ⟨fun _ => hr, fun _ => rfl⟩
  | false =>
    have hn := search_false (fun a ha => absurd ha not_mem_nil) h start (.inl mem_cons_self)
    exact ⟨nofun, fun hr => absurd hr hn⟩

end

section
variable {α : Type u} {R R' : α → α → Prop}

def Acyclic (R : α → α → Prop) : Prop := ∀ a, ¬ TransGen R a a

theorem Acyclic.mono (h : Acyclic R) (hsub : ∀ a b, R' a b → R a b) : Acyclic R' :=
  fun a hc => h a (TransGen.mono hsub a a hc)

theorem Acyclic.arc {x y : α} (h : Acyclic R) (hxy : ¬ ReflTransGen R y x)
    (hsub : ∀ a b, R' a b → R a b ∨ (a = x ∧ b = y)) : Acyclic R' := by
  have hpath : ∀ a b, TransGen R' a b →
      TransGen R a b ∨ (ReflTransGen R a x ∧ ReflTransGen R y b) := by
    intro a b hab
    induction hab with
    | single hab =>
      rcases hsub _ _ hab with hR | ⟨rfl, rfl⟩
      · exact .inl (.single hR)
      · exact .inr ⟨.refl, .refl⟩
    | tail _ hbc ih =>
      rcases hsub _ _ hbc with hR | ⟨rfl, rfl⟩
      · rcases ih with ih | ⟨hax, hyb⟩
        · exact .inl (ih.tail hR)
        · exact .inr ⟨hax, hyb.tail hR⟩
      · rcases ih with ih | ⟨hax, -⟩
        · exact .inr ⟨ih.to_reflTransGen, .refl⟩
        · exact .inr ⟨hax, .refl⟩
  intro a hc
  rcases hpath a a hc with hR | ⟨hax, hya⟩
  · exact h a hR
  · exact hxy (hya.trans hax)

theorem Acyclic.source {x : α} (h : Acyclic R) (hx : ∀ a, ¬ R' a x)
    (hsub : ∀ a b, R' a b → R a b ∨ a = x) : Acyclic R' := by
  have hpath : ∀ a b, TransGen R' a b → a ≠ x → TransGen R a b := by
    intro a b hab hax
    induction hab with
    | single hab => exact .single ((hsub _ _ hab).resolve_right hax)
    | tail hab hbc ih =>
      rename_i b c
      have hbx : b ≠ x := by
        intro hb
        obtain ⟨d, -, hd⟩ := TransGen.tail'_iff.mp hab
        exact hx d (hb ▸ hd)
      exact ih.tail ((hsub _ _ hbc).resolve_right hbx)
  intro a hc
  have hax : a ≠ x := by
    intro ha
    obtain ⟨d, -, hd⟩ := TransGen.tail'_iff.mp hc
    exact hx d (ha ▸ hd)
  exact h a (hpath a a hc hax)

end

end RatKingdom.Lib
