/-
A register that takes in results one at a time, in whatever order they come.

A result says a set of facts.  A merge is refused where a fact of the one contradicts a fact
of the other, and says what both say where it is accepted; the first result is merged with
itself.  So the register says the union of what it accepted (`facts_registerAll`), which is
the same for every order of the same results (`facts_eq_of_mem_iff`).
-/
import Mathlib.Data.Set.Lattice

namespace RatKingdom.Lib

open List

universe u v w

section
variable {ρ : Type u} {ε : Type v} (merge : ρ → ρ → Except ε ρ)

def register (stored : Option ρ) (c : ρ) : Option ρ :=
  match merge (stored.getD c) c with
  | .ok r => some r
  | .error _ => stored

def registerAll (stored : Option ρ) (cs : List ρ) : Option ρ := cs.foldl (register merge) stored

end

section
variable {ρ : Type u} {ε : Type v} {merge : ρ → ρ → Except ε ρ}

theorem registerAll_append (stored : Option ρ) (cs ds : List ρ) :
    registerAll merge stored (cs ++ ds) = registerAll merge (registerAll merge stored cs) ds :=
  foldl_append

theorem register_ok {stored : Option ρ} {c r : ρ} (h : merge (stored.getD c) c = .ok r) :
    register merge stored c = some r := by
  rw [register, h]

variable (merge) in
theorem register_some (r c : ρ) :
    register merge (some r) c = some r ∨
      ∃ r', merge r c = .ok r' ∧ register merge (some r) c = some r' := by
  cases h : merge r c with
  | error e =>
    refine .inl ?_
    rw [register, Option.getD_some, h]
  | ok r' => exact .inr ⟨r', rfl, register_ok h⟩

variable (merge) in
theorem registerAll_extends {E : ρ → ρ → Prop} (refl : ∀ r, E r r)
    (trans : ∀ {a b c}, E a b → E b c → E a c) (hmerge : ∀ {r c r'}, merge r c = .ok r' → E r r')
    (r : ρ) (cs : List ρ) : ∃ r', registerAll merge (some r) cs = some r' ∧ E r r' := by
  induction cs generalizing r with
  | nil => exact ⟨r, rfl, refl r⟩
  | cons c cs ih =>
    show ∃ r', registerAll merge (register merge (some r) c) cs = some r' ∧ E r r'
    rcases register_some merge r c with h | ⟨m, hm, h⟩
    · rw [h]
      exact ih r
    · rw [h]
      obtain ⟨r', hr', hE⟩ := ih m
      exact ⟨r', hr', trans (hmerge hm) hE⟩

theorem registerAll_keeps {P : ρ → Prop} (hmerge : ∀ {r c r'}, merge r c = .ok r' → P r → P r')
    {r r' : ρ} {cs : List ρ} (hr : P r) (h : registerAll merge (some r) cs = some r') : P r' := by
  obtain ⟨m, hm, hP⟩ := registerAll_extends merge (E := fun a b => P a → P b) (fun _ hP => hP)
    (fun h h' hP => h' (h hP)) hmerge r cs
  rw [h] at hm
  cases hm
  exact hP hr

end

section
variable {F : Type w}

/-- No fact of the one contradicts a fact of the other. -/
def Consistent (Agree : F → F → Prop) (A B : Set F) : Prop := ∀ f ∈ A, ∀ g ∈ B, Agree f g

theorem consistent_union {Agree : F → F → Prop} {A B C : Set F} :
    Consistent Agree (A ∪ B) C ↔ Consistent Agree A C ∧ Consistent Agree B C := by
  constructor
  · intro h
    exact ⟨fun f hf => h f (.inl hf), fun f hf => h f (.inr hf)⟩
  · intro ⟨hA, hB⟩ f hf
    rcases hf with hf | hf
    · exact hA f hf
    · exact hB f hf

variable {ρ : Type u} {ε : Type v}

/-- A merge that accepts what does not contradict it, and then says both. -/
structure Merges (merge : ρ → ρ → Except ε ρ) (facts : ρ → Set F) (Agree : F → F → Prop) :
    Prop where
  sound : ∀ r, Consistent Agree (facts r) (facts r)
  accepts : ∀ r c, (∃ r', merge r c = .ok r') ↔ Consistent Agree (facts r) (facts c)
  join : ∀ r c r', merge r c = .ok r' → facts r' = facts r ∪ facts c

namespace Merges

variable {merge : ρ → ρ → Except ε ρ} {facts : ρ → Set F} {Agree : F → F → Prop}
  (h : Merges merge facts Agree)

include h

theorem register_none (c : ρ) :
    ∃ r, merge c c = .ok r ∧ register merge none c = some r ∧ facts r = facts c := by
  obtain ⟨r, hr⟩ := (h.accepts c c).mpr (h.sound c)
  refine ⟨r, hr, register_ok hr, ?_⟩
  rw [h.join c c r hr, Set.union_self]

variable {stored : Option ρ} {cs : List ρ}

theorem exists_registerAll (hfirst : (stored.or cs.head?).isSome = true) :
    ∃ r, registerAll merge stored cs = some r := by
  cases stored with
  | some m =>
    obtain ⟨r, hr, -⟩ := registerAll_extends merge (E := fun _ _ => True) (fun _ => True.intro)
      (fun _ _ => True.intro) (fun _ => True.intro) m cs
    exact ⟨r, hr⟩
  | none =>
    cases cs with
    | nil => cases hfirst
    | cons c cs =>
      obtain ⟨m, -, hm, -⟩ := h.register_none c
      obtain ⟨r, hr, -⟩ := registerAll_extends merge (E := fun _ _ => True) (fun _ => True.intro)
        (fun _ _ => True.intro) (fun _ => True.intro) m cs
      refine ⟨r, ?_⟩
      show registerAll merge (register merge none c) cs = some r
      rw [hm, hr]

variable {c r : ρ}

theorem register_consistent (hc : Consistent Agree (facts r) (facts c)) :
    ∃ r', register merge (some r) c = some r' ∧ facts r' = facts r ∪ facts c := by
  obtain ⟨r', hr'⟩ := (h.accepts r c).mpr hc
  exact ⟨r', register_ok hr', h.join r c r' hr'⟩

theorem register_inconsistent (hc : ¬ Consistent Agree (facts r) (facts c)) :
    register merge (some r) c = some r := by
  cases hm : merge r c with
  | error e => rw [register, Option.getD_some, hm]
  | ok r' => exact absurd ((h.accepts r c).mp ⟨r', hm⟩) hc

theorem facts_subset (r : ρ) (cs : List ρ) :
    ∃ r', registerAll merge (some r) cs = some r' ∧ facts r ⊆ facts r' := by
  have hmerge : ∀ {r c r'}, merge r c = .ok r' → facts r ⊆ facts r' := by
    intro r c r' hm
    rw [h.join r c r' hm]
    exact Set.subset_union_left
  exact registerAll_extends merge (E := fun a b => facts a ⊆ facts b) (fun _ => Set.Subset.rfl)
    (fun hab hbc => Set.Subset.trans hab hbc) hmerge r cs

/-- The register says what it said and what the results say that do not contradict it. -/
theorem facts_registerAll {r' : ρ} (hcs : ∀ c ∈ cs, ∀ d ∈ cs, Consistent Agree (facts c) (facts d))
    (hr : registerAll merge (some r) cs = some r') (f : F) :
    f ∈ facts r' ↔ f ∈ facts r ∨ ∃ c ∈ cs, Consistent Agree (facts r) (facts c) ∧ f ∈ facts c := by
  induction cs generalizing r with
  | nil =>
    cases hr
    simp
  | cons c cs ih =>
    have hrest : ∀ a ∈ cs, ∀ b ∈ cs, Consistent Agree (facts a) (facts b) :=
      fun a ha b hb => hcs a (mem_cons_of_mem _ ha) b (mem_cons_of_mem _ hb)
    have hr : registerAll merge (register merge (some r) c) cs = some r' := hr
    by_cases hc : Consistent Agree (facts r) (facts c)
    · obtain ⟨m, hm, hfacts⟩ := h.register_consistent hc
      rw [hm] at hr
      -- The other results agree with this one, so it changes nothing in what they meet.
      have hsame : ∀ d ∈ cs, Consistent Agree (facts m) (facts d) ↔
          Consistent Agree (facts r) (facts d) := by
        intro d hd
        rw [hfacts, consistent_union]
        exact and_iff_left (hcs c mem_cons_self d (mem_cons_of_mem _ hd))
      rw [ih hrest hr]
      constructor
      · intro hf
        rcases hf with hf | ⟨d, hd, hcons, hf⟩
        · rw [hfacts] at hf
          rcases hf with hf | hf
          · exact .inl hf
          · exact .inr ⟨c, mem_cons_self, hc, hf⟩
        · exact .inr ⟨d, mem_cons_of_mem _ hd, (hsame d hd).mp hcons, hf⟩
      · intro hf
        have hm' : f ∈ facts m ↔ f ∈ facts r ∨ f ∈ facts c := by
          rw [hfacts]
          rfl
        rcases hf with hf | ⟨d, hd, hcons, hf⟩
        · exact .inl (hm'.mpr (.inl hf))
        · rcases mem_cons.mp hd with rfl | hd
          · exact .inl (hm'.mpr (.inr hf))
          · exact .inr ⟨d, hd, (hsame d hd).mpr hcons, hf⟩
    · rw [h.register_inconsistent hc] at hr
      rw [ih hrest hr]
      constructor
      · intro hf
        rcases hf with hf | ⟨d, hd, hcons, hf⟩
        · exact .inl hf
        · exact .inr ⟨d, mem_cons_of_mem _ hd, hcons, hf⟩
      · intro hf
        rcases hf with hf | ⟨d, hd, hcons, hf⟩
        · exact .inl hf
        · rcases mem_cons.mp hd with rfl | hd
          · exact absurd hcons hc
          · exact .inr ⟨d, hd, hcons, hf⟩

theorem facts_eq_of_mem_iff {ds : List ρ} (hmem : ∀ c, c ∈ cs ↔ c ∈ ds)
    (hcs : ∀ c ∈ cs, ∀ d ∈ cs, Consistent Agree (facts c) (facts d)) {r' : ρ}
    (hr : registerAll merge stored cs = some r) (hr' : registerAll merge stored ds = some r') :
    facts r = facts r' := by
  have hds : ∀ c ∈ ds, ∀ d ∈ ds, Consistent Agree (facts c) (facts d) :=
    fun c hc d hd => hcs c ((hmem c).mpr hc) d ((hmem d).mpr hd)
  ext f
  cases stored with
  | some m =>
    rw [h.facts_registerAll hcs hr, h.facts_registerAll hds hr']
    simp only [hmem]
  | none =>
    -- Nothing is stored yet, so every result is accepted.
    have hfresh : ∀ {es : List ρ} {q : ρ},
        (∀ c ∈ es, ∀ d ∈ es, Consistent Agree (facts c) (facts d)) →
        registerAll merge none es = some q → (f ∈ facts q ↔ ∃ c ∈ es, f ∈ facts c) := by
      intro es q hes hq
      cases es with
      | nil => cases hq
      | cons e es =>
        obtain ⟨m, -, hm, hfacts⟩ := h.register_none e
        have hq' : registerAll merge (register merge none e) es = some q := hq
        rw [hm] at hq'
        rw [h.facts_registerAll (fun a ha b hb =>
          hes a (mem_cons_of_mem _ ha) b (mem_cons_of_mem _ hb)) hq', hfacts]
        constructor
        · intro hf
          rcases hf with hf | ⟨d, hd, -, hf⟩
          · exact ⟨e, mem_cons_self, hf⟩
          · exact ⟨d, mem_cons_of_mem _ hd, hf⟩
        · intro ⟨d, hd, hf⟩
          rcases mem_cons.mp hd with rfl | hd
          · exact .inl hf
          · exact .inr ⟨d, hd, hes e mem_cons_self d (mem_cons_of_mem _ hd), hf⟩
    rw [hfresh hcs hr, hfresh hds hr']
    simp only [hmem]

theorem accepted_subset {before after : List ρ} {m : ρ}
    (hm : merge ((registerAll merge stored before).getD c) c = .ok m)
    (hr : registerAll merge stored (before ++ c :: after) = some r) : facts c ⊆ facts r := by
  have hthen : registerAll merge (register merge (registerAll merge stored before) c) after =
      some r := by
    rw [registerAll_append] at hr
    exact hr
  rw [register_ok hm] at hthen
  obtain ⟨r', hr', hsub⟩ := h.facts_subset m after
  rw [hthen] at hr'
  cases hr'
  refine Set.Subset.trans ?_ hsub
  rw [h.join _ c m hm]
  exact Set.subset_union_right

theorem accepts_of_subset (hsub : facts c ⊆ facts r) : ∃ r', merge r c = .ok r' :=
  (h.accepts r c).mpr fun f hf g hg => h.sound r f hf g (hsub hg)

end Merges

end

end RatKingdom.Lib
