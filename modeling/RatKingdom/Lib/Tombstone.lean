/-
One item replicated by marks on append-and-compact logs.

Every site has a log of its own that only it writes, a mailbox keeps the copy of each
log its writer last delivered, and every site keeps the copies it last fetched.  The
author of the item puts a birth mark on its log; a site that finds the item gone puts a
death mark on its own.  Compaction drops the birth mark once a death mark is in sight,
and a death mark once no birth mark is.  `Fate` is what all sites together know of the
item, `Local`, `Exchange` and `Compact` are what a step may do to it, and `Tracked` is
the invariant: it survives compaction as long as the last death mark is dropped only
over an item that is dead everywhere.
-/
import Mathlib.Tactic.ByContra

namespace RatKingdom.Lib

universe u

/-- `passed` says that the author's export has gone past the item, `removed` that some
site has held the item and lost it. -/
structure Fate (ι : Type u) where
  live : ι → Prop
  held : ι → Prop
  passed : Prop
  birth : Prop
  birthRemote : Prop
  birthSeen : ι → Prop
  death : ι → Prop
  deathRemote : Prop
  deathSeen : ι → Prop
  removed : Prop

namespace Fate

variable {ι : Type u}

/-- A birth mark is in sight of `i`: on a copy it fetched, or on its own log. -/
def Sees (f : Fate ι) (a i : ι) : Prop := f.birthSeen i ∨ (i = a ∧ f.birth)

/-- A death mark is in sight of `i`. -/
def Knows (f : Fate ι) (i : ι) : Prop := f.death i ∨ f.deathSeen i

/-- No mark is anywhere, and only the author has ever held the item. -/
structure Unsent (f : Fate ι) (a : ι) : Prop where
  birth : ¬ f.birth
  birthRemote : ¬ f.birthRemote
  birthSeen : ∀ i, ¬ f.birthSeen i
  death : ∀ i, ¬ f.death i
  deathRemote : ¬ f.deathRemote
  deathSeen : ∀ i, ¬ f.deathSeen i
  live : ∀ i, i ≠ a → ¬ f.live i
  held : ∀ i, i ≠ a → ¬ f.held i

/-- The item is live nowhere, and no site but its author can see it born and not dead. -/
structure Dead (f : Fate ι) (a : ι) : Prop where
  live : ∀ i, ¬ f.live i
  birth : ¬ f.birth
  birthRemote : ¬ f.birthRemote
  offered : ∀ i, i ≠ a → f.birthSeen i → f.Knows i

/-- What a step of site `i` leaves alone. -/
structure Frame (i : ι) (f g : Fate ι) : Prop where
  live : ∀ j, j ≠ i → (g.live j ↔ f.live j)
  held : ∀ j, j ≠ i → (g.held j ↔ f.held j)
  birthSeen : ∀ j, j ≠ i → (g.birthSeen j ↔ f.birthSeen j)
  death : ∀ j, j ≠ i → (g.death j ↔ f.death j)
  deathSeen : ∀ j, j ≠ i → (g.deathSeen j ↔ f.deathSeen j)
  removed : g.removed → f.removed ∨ (g.held i ∧ ¬ g.live i)

/-- Site `i` works on what it stores: it may lose the item, and writes no mark. -/
structure Local (i : ι) (f g : Fate ι) : Prop extends Frame i f g where
  lost : g.live i → f.live i
  kept : f.held i ↔ g.held i
  passed : g.passed ↔ f.passed
  birth : g.birth ↔ f.birth
  birthRemote : g.birthRemote ↔ f.birthRemote
  seen : g.birthSeen i ↔ f.birthSeen i
  marks : g.death i ↔ f.death i
  deathRemote : g.deathRemote ↔ f.deathRemote
  marked : g.deathSeen i ↔ f.deathSeen i

/-- Site `i` exports its marks, fetches the copies in the mailbox or not, delivers its
own log or not, and then stores what it sees born and not dead and drops what it sees
dead. -/
structure Exchange (a i : ι) (f g : Fate ι) : Prop extends Frame i f g where
  birth : f.birth → g.birth
  exports : i = a → f.live a → ¬ f.passed → g.birth
  exported : g.birth → f.birth ∨ (i = a ∧ ¬ f.passed ∧ f.live a)
  passed : f.passed → g.passed
  passes : i = a → f.held a → g.passed
  passedBy : g.passed → f.passed ∨ i = a
  marks : f.death i → g.death i
  detects : f.Sees a i → ¬ f.Knows i → ¬ f.live i → f.held i → g.death i
  detected : g.death i → f.death i ∨ f.Sees a i
  fetched : ((g.birthSeen i ↔ f.birthSeen i) ∧ (g.deathSeen i ↔ f.deathSeen i)) ∨
    ((g.birthSeen i ↔ f.birthRemote) ∧ (g.deathSeen i ↔ f.deathRemote))
  delivered : g.birthRemote → f.birthRemote ∨ g.birth
  delivers : f.birthRemote → g.birth → g.birthRemote
  deathRemote : g.deathRemote → f.deathRemote ∨ g.death i
  kept : f.held i → g.held i
  stored : g.held i → f.held i ∨ (i ≠ a ∧ g.birthSeen i)
  arrived : g.live i → f.live i ∨ (i ≠ a ∧ g.birthSeen i ∧ g.held i)
  dropped : g.Knows i → ¬ g.live i

/-- Site `i` rewrites its own log. -/
structure Compact (a i : ι) (f g : Fate ι) : Prop extends Frame i f g where
  lives : g.live i ↔ f.live i
  holds : g.held i ↔ f.held i
  passed : g.passed ↔ f.passed
  birth : g.birth ↔ f.birth ∧ ¬ (i = a ∧ f.Knows a)
  birthRemote : g.birthRemote ↔ f.birthRemote
  seen : g.birthSeen i ↔ f.birthSeen i
  marks : g.death i ↔ f.death i ∧ f.Sees a i
  deathRemote : g.deathRemote ↔ f.deathRemote
  marked : g.deathSeen i ↔ f.deathSeen i

/-- A death mark `i` is about to drop is on another log too, or the item is dead. -/
def DropSafe (a i : ι) (f : Fate ι) : Prop :=
  f.death i → ¬ f.Sees a i → (∃ j, j ≠ i ∧ f.death j) ∨ f.Dead a

/-- Some log carries a death mark, or nothing is left to mark. -/
def Sealed (f : Fate ι) (a : ι) : Prop := (∃ j, f.death j) ∨ f.Dead a

structure Marks (f : Fate ι) (a : ι) : Prop where
  stage : f.Unsent a ∨ f.birth ∨ f.Sealed a
  marked : f.deathRemote ∨ (∃ i, f.deathSeen i) → f.Sealed a
  gone : ∀ i, f.Knows i → ¬ f.live i
  held : ∀ i, f.live i → f.held i
  exported : f.live a → ¬ f.passed ∨ f.birth
  unsent : ¬ f.passed → f.Unsent a
  seen : ∀ i, i ≠ a → f.held i → f.birth → f.birthSeen i
  remote : ∀ i, f.birthSeen i → f.birth → f.birthRemote

/-- Why a removed item stays away: its death is marked, or it was never sent, or a site
that lost it still sees its birth and will mark it. -/
def Doomed (f : Fate ι) (a : ι) : Prop :=
  f.Sealed a ∨ (f.Unsent a ∧ ¬ f.live a) ∨ ∃ i, f.held i ∧ ¬ f.live i ∧ f.Sees a i

structure Tracked (f : Fate ι) (a : ι) : Prop extends Marks f a where
  removed : f.removed → f.Doomed a

variable {f : Fate ι} {a i : ι}

theorem Marks.sealed_of_knows (h : f.Marks a) (hk : f.Knows i) : f.Sealed a := by
  rcases hk with hd | hs
  · exact .inl ⟨i, hd⟩
  · exact h.marked (.inr ⟨i, hs⟩)

theorem Marks.doomed_of_lost (h : f.Marks a) (hh : f.held i) (hl : ¬ f.live i) : f.Doomed a := by
  rcases h.stage with hu | hb | hs
  · by_cases hi : i = a
    · exact .inr (.inl ⟨hu, hi ▸ hl⟩)
    · exact absurd hh (hu.held i hi)
  · refine .inr (.inr ⟨i, hh, hl, ?_⟩)
    by_cases hi : i = a
    · exact .inr ⟨hi, hb⟩
    · exact .inl (h.seen i hi hh hb)
  · exact .inl hs

variable {g : Fate ι}

theorem Tracked.step (h : f.Tracked a) (hf : Frame i f g) (hm : g.Marks a)
    (hd : f.Doomed a → g.Doomed a) : g.Tracked a := by
  refine ⟨hm, fun hr => ?_⟩
  rcases hf.removed hr with hr | ⟨hh, hl⟩
  · exact hd (h.removed hr)
  · exact hm.doomed_of_lost hh hl

theorem iff_each {p q : ι → Prop} (hi : p i ↔ q i) (h : ∀ j, j ≠ i → (p j ↔ q j)) (j : ι) :
    p j ↔ q j := by
  by_cases hj : j = i
  · subst hj
    exact hi
  · exact h j hj

/-- No site gains the item or a mark of it. -/
structure Fewer (f g : Fate ι) : Prop where
  live : ∀ j, g.live j → f.live j
  held : ∀ j, g.held j ↔ f.held j
  passed : g.passed ↔ f.passed
  birth : g.birth → f.birth
  birthRemote : g.birthRemote ↔ f.birthRemote
  birthSeen : ∀ j, g.birthSeen j ↔ f.birthSeen j
  death : ∀ j, g.death j → f.death j
  deathRemote : g.deathRemote ↔ f.deathRemote
  deathSeen : ∀ j, g.deathSeen j ↔ f.deathSeen j

section Fewer
variable {f g : Fate ι} {a i : ι} (hs : Fewer f g)

include hs

theorem Fewer.knows (j : ι) (hk : g.Knows j) : f.Knows j :=
  hk.imp (hs.death j) (hs.deathSeen j).mp

theorem Fewer.unsent (h : f.Unsent a) : g.Unsent a :=
  { birth := fun hb => h.birth (hs.birth hb)
    birthRemote := fun hb => h.birthRemote (hs.birthRemote.mp hb)
    birthSeen := fun j hb => h.birthSeen j ((hs.birthSeen j).mp hb)
    death := fun j hd => h.death j (hs.death j hd)
    deathRemote := fun hd => h.deathRemote (hs.deathRemote.mp hd)
    deathSeen := fun j hd => h.deathSeen j ((hs.deathSeen j).mp hd)
    live := fun j hj hl => h.live j hj (hs.live j hl)
    held := fun j hj hh => h.held j hj ((hs.held j).mp hh) }

theorem Fewer.dead (hk : ∀ j, f.birthSeen j → f.Knows j → g.Knows j) (h : f.Dead a) :
    g.Dead a := by
  refine ⟨fun j hl => h.live j (hs.live j hl), fun hb => h.birth (hs.birth hb),
    fun hb => h.birthRemote (hs.birthRemote.mp hb), fun j hj hb => ?_⟩
  have hv : f.birthSeen j := (hs.birthSeen j).mp hb
  exact hk j hv (h.offered j hj hv)

/-- The invariant survives a step without a new mark that keeps the item sealed, and drops
the birth mark only of a sealed item that its author has lost. -/
theorem Fewer.tracked (hf : Frame i f g) (hsealed : f.Sealed a → g.Sealed a)
    (hbirth : f.birth → g.birth ∨ g.Sealed a) (hlive : f.live a → f.birth → g.birth)
    (h : f.Tracked a) : g.Tracked a := by
  refine h.step hf ?_ ?_
  · constructor
    · rcases h.stage with hu | hb | hd
      · exact .inl (hs.unsent hu)
      · exact .inr (hbirth hb)
      · exact .inr (.inr (hsealed hd))
    · intro hm
      refine hsealed (h.marked (hm.imp hs.deathRemote.mp fun hm => ?_))
      obtain ⟨j, hj⟩ := hm
      exact ⟨j, (hs.deathSeen j).mp hj⟩
    · exact fun j hk hl => h.gone j (hs.knows j hk) (hs.live j hl)
    · exact fun j hl => (hs.held j).mpr (h.held j (hs.live j hl))
    · intro hl
      have hl' := hs.live a hl
      exact (h.exported hl').imp (mt hs.passed.mp) (hlive hl')
    · exact fun hp => hs.unsent (h.unsent (mt hs.passed.mpr hp))
    · intro j hj hh hb
      exact (hs.birthSeen j).mpr (h.seen j hj ((hs.held j).mp hh) (hs.birth hb))
    · intro j hj hb
      exact hs.birthRemote.mpr (h.remote j ((hs.birthSeen j).mp hj) (hs.birth hb))
  · intro hd
    rcases hd with hd | ⟨hu, hl⟩ | ⟨j, hh, hl, hv⟩
    · exact .inl (hsealed hd)
    · exact .inr (.inl ⟨hs.unsent hu, mt (hs.live a) hl⟩)
    · have hlost : g.held j ∧ ¬ g.live j := ⟨(hs.held j).mpr hh, mt (hs.live j) hl⟩
      rcases hv with hv | ⟨hj, hb⟩
      · exact .inr (.inr ⟨j, hlost.1, hlost.2, .inl ((hs.birthSeen j).mpr hv)⟩)
      · rcases hbirth hb with hb | hd
        · exact .inr (.inr ⟨j, hlost.1, hlost.2, .inr ⟨hj, hb⟩⟩)
        · exact .inl hd

end Fewer

section Local
variable {f g : Fate ι} {a i : ι} (hs : Local i f g)

include hs

theorem Local.death_iff : ∀ j, g.death j ↔ f.death j := iff_each hs.marks hs.death

theorem Local.fewer : Fewer f g where
  live j hl := by
    by_cases hj : j = i
    · subst hj
      exact hs.lost hl
    · exact (hs.live j hj).mp hl
  held := iff_each hs.kept.symm hs.held
  passed := hs.passed
  birth := hs.birth.mp
  birthRemote := hs.birthRemote
  birthSeen := iff_each hs.seen hs.birthSeen
  death j := (hs.death_iff j).mp
  deathRemote := hs.deathRemote
  deathSeen := iff_each hs.marked hs.deathSeen

theorem Local.sealed (h : f.Sealed a) : g.Sealed a := by
  rcases h with ⟨j, hd⟩ | hd
  · exact .inl ⟨j, (hs.death_iff j).mpr hd⟩
  · refine .inr (hs.fewer.dead (fun j _ hk => ?_) hd)
    exact hk.imp (hs.death_iff j).mpr (hs.fewer.deathSeen j).mpr

theorem Local.tracked (h : f.Tracked a) : g.Tracked a :=
  hs.fewer.tracked hs.toFrame hs.sealed (fun hb => .inl (hs.birth.mpr hb))
    (fun _ => hs.birth.mpr) h

end Local

section Exchange
variable {f g : Fate ι} {a i : ι} (hs : Exchange a i f g)

include hs

theorem Exchange.death_mono (j : ι) (hd : f.death j) : g.death j := by
  by_cases hj : j = i
  · subst hj
    exact hs.marks hd
  · exact (hs.death j hj).mpr hd

theorem Exchange.birthSeen_cases (j : ι) (hb : g.birthSeen j) : f.birthSeen j ∨ f.birthRemote := by
  by_cases hj : j = i
  · subst hj
    rcases hs.fetched with ⟨hb', -⟩ | ⟨hb', -⟩
    · exact .inl (hb'.mp hb)
    · exact .inr (hb'.mp hb)
  · exact .inl ((hs.birthSeen j hj).mp hb)

theorem Exchange.deathSeen_cases (j : ι) (hd : g.deathSeen j) : f.deathSeen j ∨ f.deathRemote := by
  by_cases hj : j = i
  · subst hj
    rcases hs.fetched with ⟨-, hd'⟩ | ⟨-, hd'⟩
    · exact .inl (hd'.mp hd)
    · exact .inr (hd'.mp hd)
  · exact .inl ((hs.deathSeen j hj).mp hd)

theorem Exchange.unsent (h : f.Unsent a) (hb : ¬ g.birth) : g.Unsent a := by
  have hseen : ∀ j, ¬ g.birthSeen j := fun j hj =>
    (hs.birthSeen_cases j hj).elim (h.birthSeen j) h.birthRemote
  have hmine : ¬ g.death i := by
    intro hd
    rcases hs.detected hd with hd | hv | ⟨-, hb'⟩
    · exact h.death i hd
    · exact h.birthSeen i hv
    · exact h.birth hb'
  refine ⟨hb, ?_, hseen, ?_, ?_, ?_, ?_, ?_⟩
  · exact fun hr => (hs.delivered hr).elim h.birthRemote hb
  · intro j hd
    by_cases hj : j = i
    · exact hmine (hj ▸ hd)
    · exact h.death j ((hs.death j hj).mp hd)
  · exact fun hr => (hs.deathRemote hr).elim h.deathRemote hmine
  · exact fun j hd => (hs.deathSeen_cases j hd).elim (h.deathSeen j) h.deathRemote
  · intro j hj hl
    by_cases hji : j = i
    · subst hji
      rcases hs.arrived hl with hl | ⟨-, hv, -⟩
      · exact h.live j hj hl
      · exact hseen j hv
    · exact h.live j hj ((hs.live j hji).mp hl)
  · intro j hj hh
    by_cases hji : j = i
    · subst hji
      rcases hs.stored hh with hh | ⟨-, hv⟩
      · exact h.held j hj hh
      · exact hseen j hv
    · exact h.held j hj ((hs.held j hji).mp hh)

theorem Exchange.dead (h : f.Dead a) : g.Dead a := by
  have hoff : ∀ j, j ≠ a → g.birthSeen j → g.Knows j := by
    intro j hj hv
    by_cases hji : j = i
    · subst hji
      rcases hs.fetched with ⟨hb, hd⟩ | ⟨hb, -⟩
      · exact (h.offered j hj (hb.mp hv)).imp hs.marks hd.mpr
      · exact absurd (hb.mp hv) h.birthRemote
    · have hk := h.offered j hj ((hs.birthSeen j hji).mp hv)
      exact hk.imp (hs.death j hji).mpr (hs.deathSeen j hji).mpr
  have hbirth : ¬ g.birth := by
    intro hb
    rcases hs.exported hb with hb | ⟨-, -, hl⟩
    · exact h.birth hb
    · exact h.live a hl
  refine ⟨?_, hbirth, fun hr => (hs.delivered hr).elim h.birthRemote hbirth, hoff⟩
  intro j hl
  by_cases hji : j = i
  · subst hji
    rcases hs.arrived hl with hl' | ⟨hj, hv, -⟩
    · exact h.live j hl'
    · exact hs.dropped (hoff j hj hv) hl
  · exact h.live j ((hs.live j hji).mp hl)

theorem Exchange.sealed (h : f.Sealed a) : g.Sealed a := by
  rcases h with ⟨j, hd⟩ | hd
  · exact .inl ⟨j, hs.death_mono j hd⟩
  · exact .inr (hs.dead hd)

theorem Exchange.marks_step (h : f.Marks a) : g.Marks a := by
  -- A birth mark written now is the first trace of the item anywhere.
  have hnew : g.birth → f.birth ∨ f.Unsent a := fun hb =>
    (hs.exported hb).imp_right fun hn => h.unsent hn.2.1
  have hremote : ∀ j, g.birthSeen j → g.birth → g.birthRemote := by
    intro j hv hb
    rcases hnew hb with hb' | hu
    · refine hs.delivers ?_ hb
      exact (hs.birthSeen_cases j hv).elim (fun hv => h.remote j hv hb') id
    · exact ((hs.birthSeen_cases j hv).elim (hu.birthSeen j) hu.birthRemote).elim
  constructor
  · rcases h.stage with hu | hb | hd
    · by_cases hb : g.birth
      · exact .inr (.inl hb)
      · exact .inl (hs.unsent hu hb)
    · exact .inr (.inl (hs.birth hb))
    · exact .inr (.inr (hs.sealed hd))
  · intro hm
    rcases hm with hr | ⟨j, hj⟩
    · rcases hs.deathRemote hr with hr | hd
      · exact hs.sealed (h.marked (.inl hr))
      · exact .inl ⟨i, hd⟩
    · rcases hs.deathSeen_cases j hj with hj | hr
      · exact hs.sealed (h.marked (.inr ⟨j, hj⟩))
      · exact hs.sealed (h.marked (.inl hr))
  · intro j hk
    by_cases hj : j = i
    · subst hj
      exact hs.dropped hk
    · rw [hs.live j hj]
      exact h.gone j (hk.imp (hs.death j hj).mp (hs.deathSeen j hj).mp)
  · intro j hl
    by_cases hj : j = i
    · subst hj
      rcases hs.arrived hl with hl | ⟨-, -, hh⟩
      · exact hs.kept (h.held j hl)
      · exact hh
    · exact (hs.held j hj).mpr (h.held j ((hs.live j hj).mp hl))
  · intro hl
    by_cases hi : a = i
    · subst hi
      have hl' : f.live a := (hs.arrived hl).resolve_right fun hn => hn.1 rfl
      by_cases hp : f.passed
      · exact .inr (hs.birth ((h.exported hl').resolve_left fun hn => hn hp))
      · exact .inr (hs.exports rfl hl' hp)
    · refine (h.exported ((hs.live a hi).mp hl)).imp (fun hp hg => ?_) hs.birth
      exact (hs.passedBy hg).elim hp (fun he => hi he.symm)
  · intro hp
    refine hs.unsent (h.unsent (mt hs.passed hp)) fun hb => ?_
    rcases hs.exported hb with hb | ⟨hi, -, hl⟩
    · exact (h.unsent (mt hs.passed hp)).birth hb
    · exact hp (hs.passes hi (h.held a hl))
  · intro j hj hh hb
    by_cases hji : j = i
    · subst hji
      rcases hs.stored hh with hh | ⟨-, hv⟩
      · rcases hnew hb with hb' | hu
        · have hv := h.seen j hj hh hb'
          rcases hs.fetched with ⟨he, -⟩ | ⟨he, -⟩
          · exact he.mpr hv
          · exact he.mpr (h.remote j hv hb')
        · exact absurd hh (hu.held j hj)
      · exact hv
    · have hh' := (hs.held j hji).mp hh
      rcases hnew hb with hb' | hu
      · exact (hs.birthSeen j hji).mpr (h.seen j hj hh' hb')
      · exact absurd hh' (hu.held j hj)
  · exact hremote

theorem Exchange.live_author (hl : g.live a) : f.live a := by
  by_cases hi : a = i
  · subst hi
    exact (hs.arrived hl).resolve_right fun hn => hn.1 rfl
  · exact (hs.live a hi).mp hl

theorem Exchange.doomed (h : f.Marks a) (hd : f.Doomed a) : g.Doomed a := by
  rcases hd with hd | ⟨hu, hl⟩ | ⟨j, hh, hl, hv⟩
  · exact .inl (hs.sealed hd)
  · refine .inr (.inl ⟨hs.unsent hu fun hb => ?_, fun hg => ?_⟩)
    · rcases hs.exported hb with hb | ⟨-, -, hl'⟩
      · exact hu.birth hb
      · exact hl hl'
    · exact hl (hs.live_author hg)
  · by_cases hj : j = i
    · subst hj
      by_cases hk : f.Knows j
      · exact .inl (hs.sealed (h.sealed_of_knows hk))
      · exact .inl (.inl ⟨j, hs.detects hv hk hl hh⟩)
    · refine .inr (.inr ⟨j, (hs.held j hj).mpr hh, mt (hs.live j hj).mp hl, ?_⟩)
      exact hv.imp (hs.birthSeen j hj).mpr fun hb => ⟨hb.1, hs.birth hb.2⟩

theorem Exchange.tracked (h : f.Tracked a) : g.Tracked a :=
  h.step hs.toFrame (hs.marks_step h.toMarks) (hs.doomed h.toMarks)

end Exchange

section Compact
variable {f g : Fate ι} {a i : ι} (hs : Compact a i f g)

include hs

theorem Compact.live_iff : ∀ j, g.live j ↔ f.live j := iff_each hs.lives hs.live

theorem Compact.fewer : Fewer f g where
  live j := (hs.live_iff j).mp
  held := iff_each hs.holds hs.held
  passed := hs.passed
  birth hb := (hs.birth.mp hb).1
  birthRemote := hs.birthRemote
  birthSeen := iff_each hs.seen hs.birthSeen
  death j hd := by
    by_cases hj : j = i
    · subst hj
      exact (hs.marks.mp hd).1
    · exact (hs.death j hj).mp hd
  deathRemote := hs.deathRemote
  deathSeen := iff_each hs.marked hs.deathSeen

theorem Compact.death_of_sees (j : ι) (hd : f.death j) (hv : f.Sees a j) : g.death j := by
  by_cases hj : j = i
  · subst hj
    exact hs.marks.mpr ⟨hd, hv⟩
  · exact (hs.death j hj).mpr hd

theorem Compact.dead (h : f.Dead a) : g.Dead a := by
  refine hs.fewer.dead (fun j hv hk => hk.imp (fun hd => ?_) (hs.fewer.deathSeen j).mpr) h
  exact hs.death_of_sees j hd (.inl hv)

theorem Compact.sealed (hg : DropSafe a i f) (h : f.Sealed a) : g.Sealed a := by
  rcases h with ⟨j, hd⟩ | hd
  · by_cases hj : j = i
    · subst hj
      by_cases hv : f.Sees a j
      · exact .inl ⟨j, hs.marks.mpr ⟨hd, hv⟩⟩
      · rcases hg hd hv with ⟨m, hm, hd'⟩ | hdead
        · exact .inl ⟨m, (hs.death m hm).mpr hd'⟩
        · exact .inr (hs.dead hdead)
    · exact .inl ⟨j, (hs.death j hj).mpr hd⟩
  · exact .inr (hs.dead hd)

theorem Compact.birth_or_sealed (hg : DropSafe a i f) (h : f.Marks a) (hb : f.birth) :
    g.birth ∨ g.Sealed a := by
  by_cases hk : i = a ∧ f.Knows a
  · exact .inr (hs.sealed hg (h.sealed_of_knows hk.2))
  · exact .inl (hs.birth.mpr ⟨hb, hk⟩)

theorem Compact.tracked (hg : DropSafe a i f) (h : f.Tracked a) : g.Tracked a := by
  refine hs.fewer.tracked hs.toFrame (hs.sealed hg) (hs.birth_or_sealed hg h.toMarks) ?_ h
  exact fun hl hb => hs.birth.mpr ⟨hb, fun hk => h.gone a hk.2 hl⟩

end Compact

/-! ## An item nobody removes

A site marks an item dead only when it sees it born and has lost it.  An item that no
site ever gives up is therefore never marked, whatever compaction does to the marks of
other items. -/

/-- The item is live at its author and wherever its birth was seen, and no mark of its
death is anywhere. -/
structure Standing (f : Fate ι) (a : ι) : Prop where
  live : f.live a
  unmarked : ∀ i, ¬ f.death i
  undelivered : ¬ f.deathRemote
  unseen : ∀ i, ¬ f.deathSeen i
  stored : ∀ i, i ≠ a → f.birthSeen i → f.live i

theorem Standing.live_of_sees (h : f.Standing a) (hv : f.Sees a i) : f.live i := by
  by_cases hi : i = a
  · exact hi ▸ h.live
  · exact h.stored i hi (hv.resolve_right fun hb => hi hb.1)

theorem Standing.work (h : f.Standing a) (hs : Local i f g) (hl : f.live i → g.live i) :
    g.Standing a := by
  have hlive : ∀ j, f.live j → g.live j := by
    intro j hj
    by_cases hji : j = i
    · subst hji
      exact hl hj
    · exact (hs.live j hji).mpr hj
  refine ⟨hlive a h.live, fun j hd => ?_, fun hd => ?_, fun j hd => ?_, fun j hj hb => ?_⟩
  · exact h.unmarked j ((hs.death_iff j).mp hd)
  · exact h.undelivered (hs.deathRemote.mp hd)
  · exact h.unseen j ((hs.fewer.deathSeen j).mp hd)
  · exact hlive j (h.stored j hj ((hs.fewer.birthSeen j).mp hb))

/-- An exchange in which the site marks only what it has lost, drops only what it knows
dead, and stores what it sees born and does not know dead. -/
structure Exchange.Careful (a i : ι) (f g : Fate ι) : Prop where
  lost : g.death i → f.death i ∨ ¬ f.live i
  keeps : f.live i → ¬ g.Knows i → g.live i
  stores : i ≠ a → g.birthSeen i → ¬ g.Knows i → g.live i

theorem Standing.exchange (h : f.Standing a) (hs : Exchange a i f g)
    (hc : Exchange.Careful a i f g) : g.Standing a := by
  have hmine : ¬ g.death i := by
    intro hd
    have hv := (hs.detected hd).resolve_left (h.unmarked i)
    exact ((hc.lost hd).resolve_left (h.unmarked i)) (h.live_of_sees hv)
  have hseen : ∀ j, ¬ g.deathSeen j :=
    fun j hd => (hs.deathSeen_cases j hd).elim (h.unseen j) h.undelivered
  have hknows : ¬ g.Knows i := fun hk => hk.elim hmine (hseen i)
  refine ⟨?_, fun j hd => ?_, fun hd => ?_, hseen, fun j hj hb => ?_⟩
  · by_cases hi : a = i
    · subst hi
      exact hc.keeps h.live hknows
    · exact (hs.live a hi).mpr h.live
  · by_cases hj : j = i
    · exact hmine (hj ▸ hd)
    · exact h.unmarked j ((hs.death j hj).mp hd)
  · exact (hs.deathRemote hd).elim h.undelivered hmine
  · by_cases hji : j = i
    · subst hji
      exact hc.stores hj hb hknows
    · exact (hs.live j hji).mpr (h.stored j hj ((hs.birthSeen j hji).mp hb))

theorem Standing.compact (h : f.Standing a) (hs : Compact a i f g) : g.Standing a := by
  refine ⟨(hs.live_iff a).mpr h.live, fun j hd => ?_, fun hd => ?_, fun j hd => ?_, fun j hj hb => ?_⟩
  · exact h.unmarked j (hs.fewer.death j hd)
  · exact h.undelivered (hs.deathRemote.mp hd)
  · exact h.unseen j ((hs.fewer.deathSeen j).mp hd)
  · exact (hs.live_iff j).mpr (h.stored j hj ((hs.fewer.birthSeen j).mp hb))

/-- Nothing is left to export, to fetch, to store or to drop. -/
structure Quiet (f : Fate ι) (a : ι) : Prop where
  exports : f.live a → f.passed
  stores : ∀ i, f.Sees a i → ¬ f.Knows i → f.live i
  births : ∀ i, f.birth → f.Sees a i
  deaths : ∀ i j, f.death j → f.Knows i

theorem Tracked.not_live_of_sealed (h : f.Tracked a) (hq : f.Quiet a) (hd : f.Sealed a) (i : ι) :
    ¬ f.live i := by
  rcases hd with ⟨j, hd⟩ | hd
  · exact h.gone i (hq.deaths i j hd)
  · exact hd.live i

theorem Tracked.agree {j : ι} (h : f.Tracked a) (hq : f.Quiet a) (hl : f.live i) : f.live j := by
  have hn : ¬ f.Sealed a := fun hd => h.not_live_of_sealed hq hd i hl
  rcases h.stage with hu | hb | hd
  · -- The item never left its author, yet the export has gone past it.
    by_cases hi : i = a
    · subst hi
      rcases h.exported hl with hp | hb
      · exact absurd (hq.exports hl) hp
      · exact absurd hb hu.birth
    · exact absurd hl (hu.live i hi)
  · exact hq.stores j (hq.births j hb) fun hk => hn (h.sealed_of_knows hk)
  · exact absurd hd hn

theorem Tracked.not_live_of_removed (h : f.Tracked a) (hq : f.Quiet a) (hr : f.removed) (i : ι) :
    ¬ f.live i := by
  rcases h.removed hr with hd | ⟨hu, hl⟩ | ⟨j, -, hl, hv⟩
  · exact h.not_live_of_sealed hq hd i
  · by_cases hi : i = a
    · exact hi ▸ hl
    · exact hu.live i hi
  · have hk : f.Knows j := by
      by_contra hk
      exact hl (hq.stores j hv hk)
    exact h.not_live_of_sealed hq (h.sealed_of_knows hk) i

end Fate

end RatKingdom.Lib
