/-
Lists in which a later row takes the place of an earlier one.

A row may have a key.  The loop keeps one row for every key, at the position of the first
row that had it and with the value of the last one.  So it keeps the order of the rows only
where no two lines are nested in each other (`coalesce_sorted_iff`).
-/
import Mathlib.Data.List.Induction
import Mathlib.Data.List.Nodup

namespace RatKingdom.Lib

open List

universe u v

section
variable {α : Type u} {κ : Type v} [DecidableEq κ] (key : α → Option κ)

structure Kept (α : Type u) (κ : Type v) where
  rows : List α := []
  positions : List (κ × Nat) := []

def Kept.add (s : Kept α κ) (x : α) : Kept α κ :=
  match key x with
  | none => { s with rows := s.rows ++ [x] }
  | some k =>
    match s.positions.lookup k with
    | some i => { s with rows := s.rows.set i x }
    | none => { rows := s.rows ++ [x], positions := (k, s.rows.length) :: s.positions }

def coalesce (xs : List α) : List α := (xs.foldl (Kept.add key) {}).rows

def openers (xs : List α) : List α :=
  xs.foldl (fun acc x =>
    if (key x).isSome && acc.any (fun y => key y = key x) then acc else acc ++ [x]) []

def lastOfLine (xs : List α) (x : α) : α :=
  xs.foldl (fun acc y => if (key x).isSome && key y = key x then y else acc) x

end

section
variable {α : Type u} {κ : Type v} [DecidableEq κ] {key : α → Option κ}

theorem openers_concat (xs : List α) (x : α) :
    openers key (xs ++ [x]) =
      if (key x).isSome && (openers key xs).any (fun y => key y = key x) then openers key xs
      else openers key xs ++ [x] := by
  rw [openers, foldl_concat]
  rfl

theorem lastOfLine_concat (xs : List α) (x y : α) :
    lastOfLine key (xs ++ [y]) x =
      if (key x).isSome && key y = key x then y else lastOfLine key xs x := by
  rw [lastOfLine, foldl_concat]
  rfl

variable {x : α}

theorem lastOfLine_plain (h : key x = none) (xs : List α) : lastOfLine key xs x = x := by
  induction xs using List.reverseRecOn with
  | nil => rfl
  | append_singleton xs y ih => rw [lastOfLine_concat, h, ih]; rfl

variable (key) in
theorem key_lastOfLine (xs : List α) (x : α) : key (lastOfLine key xs x) = key x := by
  induction xs using List.reverseRecOn with
  | nil => rfl
  | append_singleton xs y ih =>
    rw [lastOfLine_concat]
    split
    · rename_i h
      exact of_decide_eq_true (Bool.and_eq_true_iff.mp h).2
    · exact ih

variable (key) in
theorem lastOfLine_mem_or (xs : List α) (x : α) :
    lastOfLine key xs x = x ∨ lastOfLine key xs x ∈ xs := by
  induction xs using List.reverseRecOn with
  | nil => exact .inl rfl
  | append_singleton xs y ih =>
    rw [lastOfLine_concat]
    split
    · exact .inr (mem_concat_self)
    · rcases ih with h | h
      · exact .inl h
      · exact .inr (mem_append_left _ h)

variable {xs : List α}

theorem lastOfLine_mem (h : x ∈ xs) : lastOfLine key xs x ∈ xs := by
  rcases lastOfLine_mem_or key xs x with he | hm
  · rw [he]
    exact h
  · exact hm

theorem openers_sublist (xs : List α) : (openers key xs).Sublist xs := by
  induction xs using List.reverseRecOn with
  | nil => exact List.Sublist.slnil
  | append_singleton xs x ih =>
    rw [openers_concat]
    split
    · exact ih.trans (sublist_append_left xs [x])
    · exact ih.append (List.Sublist.refl _)

variable (key) in
theorem exists_opener (h : x ∈ xs) :
    x ∈ openers key xs ∨ (key x).isSome = true ∧ ∃ f ∈ openers key xs, key f = key x := by
  induction xs using List.reverseRecOn with
  | nil => cases h
  | append_singleton xs y ih =>
    have hsub : ∀ f ∈ openers key xs, f ∈ openers key (xs ++ [y]) := by
      intro f hf
      rw [openers_concat]
      split
      · exact hf
      · exact mem_append_left _ hf
    rcases mem_append.mp h with h | h
    · rcases ih h with hx | ⟨hk, f, hf, hfk⟩
      · exact .inl (hsub x hx)
      · exact .inr ⟨hk, f, hsub f hf, hfk⟩
    · obtain rfl : x = y := mem_singleton.mp h
      by_cases hc : ((key x).isSome && (openers key xs).any (fun y => key y = key x)) = true
      · obtain ⟨hk, hany⟩ := Bool.and_eq_true_iff.mp hc
        obtain ⟨f, hf, hfk⟩ := any_eq_true.mp hany
        exact .inr ⟨hk, f, hsub f hf, of_decide_eq_true hfk⟩
      · rw [openers_concat, if_neg hc]
        exact .inl (mem_concat_self)

variable (key) in
theorem openers_distinct (xs : List α) :
    (openers key xs).Pairwise fun a b => (key a).isSome = true → key b ≠ key a := by
  induction xs using List.reverseRecOn with
  | nil => exact List.Pairwise.nil
  | append_singleton xs x ih =>
    rw [openers_concat]
    split
    · exact ih
    · rename_i hc
      rw [pairwise_append]
      refine ⟨ih, pairwise_singleton _ _, fun a ha b hb hk he => hc ?_⟩
      rw [mem_singleton.mp hb] at he
      rw [Bool.and_eq_true, he]
      exact ⟨hk, any_eq_true.mpr ⟨a, ha, decide_eq_true rfl⟩⟩

theorem positions_spec (xs : List α) :
    (∀ k, (xs.foldl (Kept.add key) {}).positions.lookup k =
        (openers key xs).findIdx? fun y => key y = some k) ∧
      (xs.foldl (Kept.add key) {}).rows = (openers key xs).map (lastOfLine key xs) := by
  induction xs using List.reverseRecOn with
  | nil => exact ⟨fun k => rfl, rfl⟩
  | append_singleton xs x ih =>
    obtain ⟨hpos, hrows⟩ := ih
    rw [foldl_concat, openers_concat]
    generalize hs : xs.foldl (Kept.add key) {} = s at hpos hrows ⊢
    -- A row that opens a line changes no row before it.
    have hopen : (∀ y ∈ openers key xs, (key y).isSome = true → key x ≠ key y) →
        s.rows ++ [x] = (openers key xs ++ [x]).map (lastOfLine key (xs ++ [x])) := by
      intro hne
      rw [hrows, map_append, map_singleton]
      congr 1
      · apply map_congr_left
        intro y hy
        rw [lastOfLine_concat, if_neg]
        intro hc
        obtain ⟨hk, he⟩ := Bool.and_eq_true_iff.mp hc
        exact hne y hy hk (of_decide_eq_true he)
      · rw [lastOfLine_concat]
        by_cases hk : (key x).isSome = true
        · rw [hk, if_pos (by simp)]
        · rw [if_neg (by simp [hk]), lastOfLine_plain (by simpa using hk)]
    cases hk : key x with
    | none =>
      have hadd : Kept.add key s x = { s with rows := s.rows ++ [x] } := by
        simp only [Kept.add, hk]
      rw [hadd, if_neg (by simp)]
      refine ⟨fun k => ?_, hopen fun y _ hy he => ?_⟩
      · rw [hpos k, findIdx?_append]
        simp [hk]
      · rw [← he, hk] at hy
        cases hy
    | some k =>
      have hany : (openers key xs).any (fun y => key y = some k) =
          ((openers key xs).findIdx? fun y => key y = some k).isSome := by
        simp [findIdx?_isSome]
      cases hi : (openers key xs).findIdx? fun y => key y = some k with
      | none =>
        have hadd : Kept.add key s x =
            { rows := s.rows ++ [x], positions := (k, s.rows.length) :: s.positions } := by
          simp only [Kept.add, hk, hpos k, hi]
        rw [hany, hi, hadd, if_neg (by simp)]
        refine ⟨fun j => ?_, hopen fun y hy _ he => ?_⟩
        · rw [lookup_cons, findIdx?_append, ← hpos j]
          by_cases hj : j = k
          · subst hj
            simp [hpos j, hi, hk, hrows]
          · have hkj : ¬ k = j := fun h => hj h.symm
            have hbeq : (j == k) = false := beq_false_of_ne hj
            simp [hbeq, hkj, hk]
        · have hno := findIdx?_eq_none_iff.mp hi y hy
          rw [← he, hk] at hno
          simp at hno
      | some i =>
        have hadd : Kept.add key s x = { s with rows := s.rows.set i x } := by
          simp only [Kept.add, hk, hpos k, hi]
        rw [hany, hi, hadd, if_pos (by simp)]
        refine ⟨hpos, ?_⟩
        obtain ⟨hlt, hat, -⟩ := findIdx?_eq_some_iff_getElem.mp hi
        show s.rows.set i x = _
        rw [hrows]
        apply ext_getElem
        · simp
        · intro j hj hj'
          have hjl : j < (openers key xs).length := by simpa using hj'
          rw [getElem_set, getElem_map, getElem_map, lastOfLine_concat]
          by_cases hij : i = j
          · subst hij
            have hat' : key (openers key xs)[i] = some k := of_decide_eq_true hat
            rw [if_pos rfl, if_pos]
            simp [hat', hk]
          · rw [if_neg hij, if_neg]
            intro hc
            obtain ⟨hsome, he⟩ := Bool.and_eq_true_iff.mp hc
            have hej : key (openers key xs)[j] = some k := by
              rw [← hk]
              exact (of_decide_eq_true he).symm
            have hat' : key (openers key xs)[i] = some k := of_decide_eq_true hat
            rcases Nat.lt_or_gt_of_ne hij with h | h
            · exact pairwise_iff_getElem.mp (openers_distinct key xs) i j hlt hjl h
                (by rw [hat']; rfl) (by rw [hej, hat'])
            · exact pairwise_iff_getElem.mp (openers_distinct key xs) j i hjl hlt h
                (by rw [hej]; rfl) (by rw [hej, hat'])

theorem coalesce_eq (xs : List α) : coalesce key xs = (openers key xs).map (lastOfLine key xs) :=
  (positions_spec xs).2

theorem coalesce_subset (h : x ∈ coalesce key xs) : x ∈ xs := by
  rw [coalesce_eq] at h
  obtain ⟨f, hf, rfl⟩ := mem_map.mp h
  exact lastOfLine_mem ((openers_sublist xs).mem hf)

def SameLine (key : α → Option κ) (a b : α) : Prop := (key a).isSome = true ∧ key b = key a

instance (a b : α) : Decidable (SameLine key a b) := inferInstanceAs (Decidable (_ ∧ _))

/-- Between two rows of one line stands no other, unless its own line reaches beyond them. -/
def Unnested (key : α → Option κ) (pos : α → Nat) (xs : List α) : Prop :=
  ∀ a ∈ xs, ∀ b ∈ xs, SameLine key a b → ∀ e ∈ xs, pos a < pos e → pos e < pos b →
    ¬ SameLine key a e → ∃ e' ∈ xs, SameLine key e e' ∧ (pos e' < pos a ∨ pos b < pos e')

instance (pos : α → Nat) (xs : List α) : Decidable (Unnested key pos xs) :=
  inferInstanceAs (Decidable (∀ _ ∈ _, _))

variable {pos : α → Nat} {y : α}

theorem le_lastOfLine (hs : xs.Pairwise fun a b => pos a < pos b) (hk : (key x).isSome = true)
    (hy : y ∈ xs) (he : key y = key x) :
    pos y ≤ pos (lastOfLine key xs x) := by
  induction xs using List.reverseRecOn with
  | nil => cases hy
  | append_singleton xs z ih =>
    obtain ⟨hs', -, hlt⟩ := pairwise_append.mp hs
    rw [lastOfLine_concat]
    split
    · rcases mem_append.mp hy with hy | hy
      · exact Nat.le_of_lt (hlt y hy z (mem_singleton_self z))
      · exact Nat.le_of_eq (by rw [mem_singleton.mp hy])
    · rename_i hc
      rcases mem_append.mp hy with hy | hy
      · exact ih hs' hy
      · refine absurd ?_ hc
        rw [mem_singleton.mp hy] at he
        rw [hk, Bool.true_and]
        exact decide_eq_true he

theorem opener_le (hs : xs.Pairwise fun a b => pos a < pos b) {f : α} (hf : f ∈ openers key xs)
    (hk : (key f).isSome = true) (hy : y ∈ xs) (he : key y = key f) :
    pos f ≤ pos y := by
  induction xs using List.reverseRecOn with
  | nil => cases hy
  | append_singleton xs z ih =>
    obtain ⟨hs', -, hlt⟩ := pairwise_append.mp hs
    rw [openers_concat] at hf
    have hbefore : f ∈ openers key xs → pos f ≤ pos y := by
      intro hf
      rcases mem_append.mp hy with hy | hy
      · exact ih hs' hf hy
      · rw [mem_singleton.mp hy]
        exact Nat.le_of_lt (hlt f ((openers_sublist xs).mem hf) z (mem_singleton_self z))
    split at hf
    · exact hbefore hf
    · rename_i hc
      rcases mem_append.mp hf with hf | hf
      · exact hbefore hf
      · have hfz : f = z := mem_singleton.mp hf
        subst hfz
        rcases mem_append.mp hy with hy | hy
        · refine absurd ?_ hc
          rw [hk, Bool.true_and]
          rcases exists_opener key hy with hfirst | ⟨-, g, hg, hgk⟩
          · exact any_eq_true.mpr ⟨y, hfirst, decide_eq_true he⟩
          · exact any_eq_true.mpr ⟨g, hg, decide_eq_true (hgk.trans he)⟩
        · exact Nat.le_of_eq (by rw [mem_singleton.mp hy])

theorem eq_of_pos (hs : xs.Pairwise fun a b => pos a < pos b) (hx : x ∈ xs) (hy : y ∈ xs)
    (h : pos x = pos y) : x = y := by
  have hnodup : (xs.map pos).Nodup :=
    pairwise_map.mpr (hs.imp fun hlt => Nat.ne_of_lt hlt)
  exact inj_on_of_nodup_map hnodup hx hy h

variable (key) in
theorem exists_opened (hs : xs.Pairwise fun a b => pos a < pos b) (hx : x ∈ xs) :
    ∃ f ∈ openers key xs, pos f ≤ pos x ∧ pos x ≤ pos (lastOfLine key xs f) ∧
        (f = x ∧ lastOfLine key xs f = x ∨ SameLine key x f) := by
  rcases exists_opener key hx with hf | ⟨hk, f, hf, hfk⟩
  · by_cases hk : (key x).isSome = true
    · exact ⟨x, hf, Nat.le_refl _, le_lastOfLine hs hk hx rfl, .inr ⟨hk, rfl⟩⟩
    · have hplain : lastOfLine key xs x = x := lastOfLine_plain (by simpa using hk) xs
      exact ⟨x, hf, Nat.le_refl _, Nat.le_of_eq (by rw [hplain]), .inl ⟨rfl, hplain⟩⟩
  · have hkf : (key f).isSome = true := by rw [hfk, hk]
    exact ⟨f, hf, opener_le hs hf hkf hx hfk.symm, le_lastOfLine hs hkf hx hfk.symm, .inr ⟨hk, hfk⟩⟩

theorem coalesce_covers (hs : xs.Pairwise fun a b => pos a < pos b) (hx : x ∈ xs) :
    x ∈ coalesce key xs ∨ ∃ y ∈ coalesce key xs, SameLine key x y ∧ pos x < pos y := by
  obtain ⟨f, hf, -, hle, hcase⟩ := exists_opened key hs hx
  have hkept : lastOfLine key xs f ∈ coalesce key xs := by
    rw [coalesce_eq]
    exact mem_map_of_mem hf
  rcases hcase with ⟨-, hl⟩ | ⟨hk, hfk⟩
  · exact .inl (hl ▸ hkept)
  · rcases Nat.lt_or_eq_of_le hle with hlt | heq
    · exact .inr ⟨_, hkept, ⟨hk, by rw [key_lastOfLine key, hfk]⟩, hlt⟩
    · have hsame := eq_of_pos hs hx (lastOfLine_mem ((openers_sublist xs).mem hf)) heq
      exact .inl (hsame ▸ hkept)

variable (key) in
theorem openers_pairwise (hs : xs.Pairwise fun a b => pos a < pos b) :
    (openers key xs).Pairwise fun a b => pos a < pos b := hs.sublist (openers_sublist xs)

theorem openers_ordered {R : α → α → Prop} (hs : xs.Pairwise fun a b => pos a < pos b)
    (hR : (openers key xs).Pairwise R) {f g : α} (hf : f ∈ openers key xs) (hg : g ∈ openers key xs)
    (hlt : pos f < pos g) : R f g := by
  obtain ⟨i, hi, rfl⟩ := mem_iff_getElem.mp hf
  obtain ⟨j, hj, rfl⟩ := mem_iff_getElem.mp hg
  have hij : i < j := by
    by_contra hle
    rcases Nat.lt_or_eq_of_le (Nat.le_of_not_lt hle) with h | h
    · have := pairwise_iff_getElem.mp (openers_pairwise key hs) j i hj hi h
      omega
    · subst h
      omega
  exact pairwise_iff_getElem.mp hR i j hi hj hij

/-- The loop keeps the order of the rows exactly where no line is nested in another. -/
theorem coalesce_sorted_iff (hs : xs.Pairwise fun a b => pos a < pos b) :
    (coalesce key xs).Pairwise (fun a b => pos a < pos b) ↔ Unnested key pos xs := by
  rw [coalesce_eq, pairwise_map]
  constructor
  · intro hsorted a ha b hb ⟨hka, hkb⟩ e he hae heb hne
    obtain ⟨f, hf, hfa, -, hcase⟩ := exists_opened key hs ha
    have hfk : key f = key a := by
      rcases hcase with ⟨rfl, -⟩ | h
      · rfl
      · exact h.2
    have hbf : pos b ≤ pos (lastOfLine key xs f) :=
      le_lastOfLine hs (by rw [hfk, hka]) hb (hkb.trans hfk.symm)
    obtain ⟨g, hg, hge, heg, hgcase⟩ := exists_opened key hs he
    rcases hgcase with ⟨rfl, hl⟩ | ⟨hke, hgk⟩
    · have hlt := openers_ordered hs hsorted hf hg (by omega)
      rw [hl] at hlt
      omega
    · by_cases hga : pos g < pos a
      · exact ⟨g, (openers_sublist xs).mem hg, ⟨hke, hgk⟩, .inl hga⟩
      · have hfg : pos f ≠ pos g := by
          intro hpos
          have hsame := eq_of_pos hs ((openers_sublist xs).mem hf) ((openers_sublist xs).mem hg)
            hpos
          exact hne ⟨hka, by rw [← hgk, ← hsame, hfk]⟩
        have hlt := openers_ordered hs hsorted hf hg (by omega)
        exact ⟨lastOfLine key xs g, lastOfLine_mem ((openers_sublist xs).mem hg),
          ⟨hke, by rw [key_lastOfLine key, hgk]⟩, .inr (by omega)⟩
  · intro hun
    have hboth := (openers_pairwise key hs).and (openers_distinct key xs)
    refine hboth.imp_of_mem fun {a b} ha hb ⟨hlt, hdist⟩ => ?_
    have hm : ∀ {x}, x ∈ openers key xs → x ∈ xs := fun hx => (openers_sublist xs).mem hx
    by_cases hka : (key a).isSome = true
    · have hkb : key b ≠ key a := hdist hka
      have hne : pos (lastOfLine key xs a) ≠ pos b := by
        intro hpos
        have hsame := eq_of_pos hs (lastOfLine_mem (hm ha)) (hm hb) hpos
        exact hkb (by rw [← hsame, key_lastOfLine key])
      have hble : pos b ≤ pos (lastOfLine key xs b) := by
        by_cases hb' : (key b).isSome = true
        · exact le_lastOfLine hs hb' (hm hb) rfl
        · exact Nat.le_of_eq (by rw [lastOfLine_plain (by simpa using hb')])
      by_contra hcon
      obtain ⟨e', he', ⟨hkb', hke'⟩, hout⟩ := hun a (hm ha) (lastOfLine key xs a)
        (lastOfLine_mem (hm ha)) ⟨hka, key_lastOfLine key xs a⟩ b (hm hb) hlt (by omega)
        (fun h => hkb h.2)
      have hfirst := opener_le hs hb hkb' he' hke'
      have hl := le_lastOfLine hs hkb' he' hke'
      omega
    · rw [lastOfLine_plain (by simpa using hka)]
      by_cases hb' : (key b).isSome = true
      · exact Nat.lt_of_lt_of_le hlt (le_lastOfLine hs hb' (hm hb) rfl)
      · rw [lastOfLine_plain (by simpa using hb')]
        exact hlt

end

end RatKingdom.Lib
