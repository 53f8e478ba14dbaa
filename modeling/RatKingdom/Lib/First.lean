/-
Keeping the first of each key.

`firsts key` goes through a list once and keeps an element unless an earlier one had its
key.  On a sorted list the outcome is a matter of the elements alone: it is, in order, what
has the least place of its key.  So a list may be shuffled or repeat itself before it is
sorted and gone through.

`pushFirst` does the same to a list that grows: an item is pushed unless its key is there.
Keys drawn in turn from an injective supply are never there (`fresh_of_drawn`).
-/
import Mathlib.Data.List.Induction
import Mathlib.Data.List.Nodup

namespace RatKingdom.Lib

open List

universe u v

section
variable {α : Type u} {κ : Type v} {key : α → κ} {l : List α} {a : α}

theorem nodup_concat_key (hl : (l.map key).Nodup) (ha : ∀ b ∈ l, key b ≠ key a) :
    ((l ++ [a]).map key).Nodup := by
  rw [map_append, nodup_append]
  refine ⟨hl, nodup_singleton _, ?_⟩
  intro x hx y hy
  obtain ⟨b, hb, rfl⟩ := mem_map.mp hx
  rw [mem_singleton.mp hy]
  exact ha b hb

theorem fresh_of_drawn {mint : Nat → κ} {n : Nat} (hmint : Function.Injective mint)
    (hl : ∀ b ∈ l, ∃ m < n, key b = mint m) : ∀ b ∈ l, key b ≠ mint n := by
  intro b hb he
  obtain ⟨m, hm, hk⟩ := hl b hb
  have hmn : m = n := hmint (hk.symm.trans he)
  omega

theorem drawn_concat {mint : Nat → κ} {n : Nat} (hl : ∀ b ∈ l, ∃ m < n, key b = mint m)
    (ha : key a = mint n) : ∀ b ∈ l ++ [a], ∃ m < n + 1, key b = mint m := by
  intro b hb
  rcases mem_append.mp hb with hb | hb
  · obtain ⟨m, hm, hk⟩ := hl b hb
    exact ⟨m, Nat.lt_succ_of_lt hm, hk⟩
  · rw [mem_singleton.mp hb]
    exact ⟨n, Nat.lt_succ_self n, ha⟩

end

variable {α : Type u} {κ : Type v} [DecidableEq κ] {key : α → κ} {r : α → α → Prop}

theorem find?_key {l : List α} {a : α} {k : κ} (hnodup : (l.map key).Nodup) (ha : a ∈ l)
    (hk : key a = k) : l.find? (fun x => key x = k) = some a := by
  cases hf : l.find? fun x => key x = k with
  | none => exact absurd (decide_eq_true hk) (find?_eq_none.mp hf a ha)
  | some x =>
    have hx : key x = k := by simpa using find?_some hf
    rw [inj_on_of_nodup_map hnodup (mem_of_find?_eq_some hf) ha (hx.trans hk.symm)]

/-- The elements whose key is neither in `seen` nor had by an earlier element. -/
def firsts (key : α → κ) : List κ → List α → List α
  | _, [] => []
  | seen, a :: l =>
    if key a ∈ seen then firsts key seen l else a :: firsts key (key a :: seen) l

theorem firsts_sublist (key : α → κ) (seen : List κ) (l : List α) :
    (firsts key seen l).Sublist l := by
  induction l generalizing seen with
  | nil => exact List.Sublist.refl _
  | cons a l ih =>
    unfold firsts
    split
    · exact (ih seen).cons a
    · exact (ih _).cons_cons a

variable {seen : List κ} {l : List α} {a : α}

theorem key_of_mem_firsts (h : a ∈ firsts key seen l) : key a ∉ seen := by
  induction l generalizing seen with
  | nil => cases h
  | cons b l ih =>
    unfold firsts at h
    split at h
    · exact ih h
    · rename_i hb
      rcases mem_cons.mp h with rfl | h
      · exact hb
      · exact fun hs => ih h (mem_cons_of_mem _ hs)

theorem firsts_keys (key : α → κ) (seen : List κ) (l : List α) :
    (firsts key seen l).Pairwise fun a b => key a ≠ key b := by
  induction l generalizing seen with
  | nil => exact List.Pairwise.nil
  | cons a l ih =>
    unfold firsts
    split
    · exact ih seen
    · refine pairwise_cons.mpr ⟨fun b hb he => ?_, ih _⟩
      exact key_of_mem_firsts hb (he ▸ mem_cons_self)

theorem first_of_mem_firsts (hrefl : ∀ a, r a a) (hl : l.Pairwise r) (h : a ∈ firsts key seen l) :
    ∀ b ∈ l, key b = key a → r a b := by
  induction l generalizing seen with
  | nil => cases h
  | cons c l ih =>
    obtain ⟨hc, hl⟩ := pairwise_cons.mp hl
    unfold firsts at h
    intro b hb hk
    split at h
    · rename_i hseen
      rcases mem_cons.mp hb with rfl | hb
      · exact absurd (hk ▸ hseen) (key_of_mem_firsts h)
      · exact ih hl h b hb hk
    · rcases mem_cons.mp h with rfl | h
      · rcases mem_cons.mp hb with rfl | hb
        · exact hrefl _
        · exact hc b hb
      · rcases mem_cons.mp hb with rfl | hb
        · exact absurd (hk ▸ mem_cons_self) (key_of_mem_firsts h)
        · exact ih hl h b hb hk

theorem mem_firsts_of_first (hl : l.Pairwise r) (hanti : ∀ a ∈ l, ∀ b ∈ l, r a b → r b a → a = b)
    (ha : a ∈ l) (hseen : key a ∉ seen) (hfirst : ∀ b ∈ l, key b = key a → r a b) :
    a ∈ firsts key seen l := by
  induction l generalizing seen with
  | nil => cases ha
  | cons c l ih =>
    obtain ⟨hc, hl⟩ := pairwise_cons.mp hl
    have hrest : ∀ {seen : List κ}, key a ∉ seen → a ∈ l → a ∈ firsts key seen l :=
      fun hseen ha => ih hl
        (fun x hx y hy => hanti x (mem_cons_of_mem _ hx) y (mem_cons_of_mem _ hy)) ha
        hseen fun b hb => hfirst b (mem_cons_of_mem _ hb)
    unfold firsts
    by_cases hk : key c = key a
    · have hac : a = c := by
        rcases mem_cons.mp ha with hac | hm
        · exact hac
        · exact hanti a ha c mem_cons_self (hfirst c mem_cons_self hk) (hc a hm)
      rw [← hac, if_neg hseen]
      exact mem_cons_self
    · have hm : a ∈ l := (mem_cons.mp ha).resolve_left fun he => hk (congrArg key he).symm
      split
      · exact hrest hseen hm
      · refine mem_cons_of_mem _ (hrest ?_ hm)
        intro hin
        rcases mem_cons.mp hin with he | hin
        · exact hk he.symm
        · exact hseen hin

theorem firsts_congr (hrefl : ∀ a, r a a) {l' : List α} (hl : l.Pairwise r) (hl' : l'.Pairwise r)
    (hanti : ∀ a ∈ l, ∀ b ∈ l, r a b → r b a → a = b) (hm : ∀ a, a ∈ l ↔ a ∈ l') :
    firsts key [] l = firsts key [] l' := by
  have hanti' : ∀ a ∈ l', ∀ b ∈ l', r a b → r b a → a = b :=
    fun a ha b hb => hanti a ((hm a).mpr ha) b ((hm b).mpr hb)
  have hnodup : ∀ m : List α, (firsts key [] m).Nodup := fun m =>
    (firsts_keys key [] m).imp fun h he => h (congrArg key he)
  have hkept : ∀ a, a ∈ firsts key [] l ↔ a ∈ firsts key [] l' := by
    intro a
    constructor
    · intro h
      refine mem_firsts_of_first hl' hanti' ((hm a).mp ((firsts_sublist key [] l).subset h))
        not_mem_nil fun b hb => first_of_mem_firsts hrefl hl h b ((hm b).mpr hb)
    · intro h
      refine mem_firsts_of_first hl hanti ((hm a).mpr ((firsts_sublist key [] l').subset h))
        not_mem_nil fun b hb => first_of_mem_firsts hrefl hl' h b ((hm b).mp hb)
  refine @List.Perm.eq_of_pairwise _ r _ _ ?_ (hl.sublist (firsts_sublist key [] l))
    (hl'.sublist (firsts_sublist key [] l')) ?_
  · intro a b ha hb
    exact hanti a ((firsts_sublist key [] l).subset ha) b
      ((hm b).mpr ((firsts_sublist key [] l').subset hb))
  · exact (perm_ext_iff_of_nodup (hnodup l) (hnodup l')).mpr hkept

theorem firsts_eq_self (hseen : ∀ a ∈ l, key a ∉ seen) (hl : l.Pairwise fun a b => key a ≠ key b) :
    firsts key seen l = l := by
  induction l generalizing seen with
  | nil => rfl
  | cons a l ih =>
    obtain ⟨ha, hl⟩ := pairwise_cons.mp hl
    unfold firsts
    rw [if_neg (hseen a mem_cons_self), ih ?_ hl]
    intro b hb hin
    rcases mem_cons.mp hin with he | hin
    · exact ha b hb he.symm
    · exact hseen b (mem_cons_of_mem _ hb) hin

section

def pushFirst (key : α → κ) (xs : List α) (x : α) : List α :=
  if xs.any (fun y => key y = key x) then xs else xs ++ [x]

variable (key)

theorem pushFirst_cases (xs : List α) (x : α) :
    (key x ∈ xs.map key ∧ pushFirst key xs x = xs) ∨
      key x ∉ xs.map key ∧ pushFirst key xs x = xs ++ [x] := by
  have hany : xs.any (fun y => key y = key x) = true ↔ key x ∈ xs.map key := by
    simp [any_eq_true]
  by_cases h : key x ∈ xs.map key
  · exact .inl ⟨h, by rw [pushFirst, if_pos (hany.mpr h)]⟩
  · exact .inr ⟨h, by rw [pushFirst, if_neg (fun hc => h (hany.mp hc))]⟩

theorem prefix_pushAll (xs ys : List α) : xs <+: ys.foldl (pushFirst key) xs := by
  induction ys generalizing xs with
  | nil => exact prefix_refl xs
  | cons y ys ih =>
    show xs <+: ys.foldl (pushFirst key) (pushFirst key xs y)
    rcases pushFirst_cases key xs y with ⟨-, h⟩ | ⟨-, h⟩
    · rw [h]
      exact ih xs
    · rw [h]
      exact (prefix_append xs [y]).trans (ih (xs ++ [y]))

theorem mem_keys_pushAll (xs ys : List α) (k : κ) :
    k ∈ (ys.foldl (pushFirst key) xs).map key ↔ k ∈ xs.map key ∨ k ∈ ys.map key := by
  induction ys generalizing xs with
  | nil => simp
  | cons y ys ih =>
    show k ∈ (ys.foldl (pushFirst key) (pushFirst key xs y)).map key ↔ _
    rw [ih, map_cons, mem_cons]
    rcases pushFirst_cases key xs y with ⟨hin, h⟩ | ⟨-, h⟩
    · rw [h]
      constructor
      · intro hk
        rcases hk with hk | hk
        · exact .inl hk
        · exact .inr (.inr hk)
      · intro hk
        rcases hk with hk | rfl | hk
        · exact .inl hk
        · exact .inl hin
        · exact .inr hk
    · rw [h, map_append, mem_append, map_singleton, mem_singleton, or_assoc]

theorem nodup_pushAll {xs : List α} (hxs : (xs.map key).Nodup) (ys : List α) :
    ((ys.foldl (pushFirst key) xs).map key).Nodup := by
  induction ys generalizing xs with
  | nil => exact hxs
  | cons y ys ih =>
    show ((ys.foldl (pushFirst key) (pushFirst key xs y)).map key).Nodup
    rcases pushFirst_cases key xs y with ⟨-, h⟩ | ⟨hnew, h⟩
    · rw [h]
      exact ih hxs
    · rw [h]
      refine ih ?_
      rw [map_append, map_singleton]
      refine nodup_append.mpr ⟨hxs, pairwise_singleton _ _, fun a ha b hb he => hnew ?_⟩
      rw [← mem_singleton.mp hb, ← he]
      exact ha

theorem ordered_pushAll (ys : List α) : ((ys.foldl (pushFirst key) []).map key).Pairwise
    fun a b => (ys.map key).idxOf a < (ys.map key).idxOf b := by
  induction ys using List.reverseRecOn with
  | nil => exact List.Pairwise.nil
  | append_singleton ys y ih =>
    have hm : ∀ k, k ∈ (ys.foldl (pushFirst key) []).map key ↔ k ∈ ys.map key := fun k => by
      rw [mem_keys_pushAll]
      simp
    have hidx : ∀ k ∈ (ys.foldl (pushFirst key) []).map key,
        ((ys ++ [y]).map key).idxOf k = (ys.map key).idxOf k := by
      intro k hk
      rw [map_append, idxOf_append_of_mem ((hm k).mp hk)]
    have hold : ((ys.foldl (pushFirst key) []).map key).Pairwise
        fun a b => ((ys ++ [y]).map key).idxOf a < ((ys ++ [y]).map key).idxOf b := by
      refine ih.imp_of_mem fun {a b} ha hb hlt => ?_
      rw [hidx a ha, hidx b hb]
      exact hlt
    rw [foldl_append]
    show ((pushFirst key (ys.foldl (pushFirst key) []) y).map key).Pairwise _
    rcases pushFirst_cases key (ys.foldl (pushFirst key) []) y with ⟨-, h⟩ | ⟨hnew, h⟩
    · rw [h]
      exact hold
    · have happ : (ys.foldl (pushFirst key) [] ++ [y]).map key =
          (ys.foldl (pushFirst key) []).map key ++ [key y] := by
        rw [map_append, map_singleton]
      rw [h, happ]
      refine pairwise_append.mpr ⟨hold, pairwise_singleton _ _, fun a ha b hb => ?_⟩
      have hl : ((ys ++ [y]).map key).idxOf (key y) = (ys.map key).length := by
        rw [map_append, idxOf_append_of_notMem (fun hk => hnew ((hm _).mpr hk))]
        simp
      rw [mem_singleton.mp hb, hidx a ha, hl]
      exact idxOf_lt_length_of_mem ((hm a).mp ha)

theorem pushAll_eq_self {xs ys : List α} (h : ∀ y ∈ ys, key y ∈ xs.map key) :
    ys.foldl (pushFirst key) xs = xs := by
  induction ys with
  | nil => rfl
  | cons y ys ih =>
    show ys.foldl (pushFirst key) (pushFirst key xs y) = xs
    rcases pushFirst_cases key xs y with ⟨-, hp⟩ | ⟨hnew, -⟩
    · rw [hp]
      exact ih fun z hz => h z (mem_cons_of_mem _ hz)
    · exact absurd (h y mem_cons_self) hnew

end

end RatKingdom.Lib
