/-
Keeping the leader of each key.

An element leads a list when none with its key ranks before it, and `leaders` keeps the
elements that lead, with all those that have no key.  Whether an element leads depends on
the list's members alone, so the leaders do not depend on an order; and a member that
loses loses to a leader, so the losers may be dropped before two lists are put together
as well as after.
-/
import Mathlib.Data.List.MinMax
import Mathlib.Data.List.Perm.Basic

namespace RatKingdom.Lib

open List

universe u v w

variable {α : Type u} {κ : Type v} {ρ : Type w} [DecidableEq κ] [LinearOrder ρ]
  {key : α → Option κ} {rank : α → ρ} {l l' : List α} {a : α}

def Leads (key : α → Option κ) (rank : α → ρ) (l : List α) (a : α) : Prop :=
  ∀ b ∈ l, key b = key a → key a ≠ none → rank a ≤ rank b

instance : Decidable (Leads key rank l a) :=
  inferInstanceAs (Decidable (∀ b ∈ l, key b = key a → key a ≠ none → rank a ≤ rank b))

def leaders (key : α → Option κ) (rank : α → ρ) (l : List α) : List α :=
  l.filter fun a => decide (Leads key rank l a)

theorem mem_leaders : a ∈ leaders key rank l ↔ a ∈ l ∧ Leads key rank l a := by
  unfold leaders
  rw [mem_filter, decide_eq_true_iff]

omit [DecidableEq κ] in
theorem leads_mono (h : ∀ b ∈ l', b ∈ l) (ha : Leads key rank l a) : Leads key rank l' a :=
  fun b hb => ha b (h b hb)

theorem exists_leader (key : α → Option κ) (rank : α → ρ) (ha : a ∈ l) :
    ∃ w ∈ leaders key rank l, key w = key a ∧ rank w ≤ rank a := by
  have hm : a ∈ l.filter fun b => key b = key a := mem_filter.mpr ⟨ha, decide_eq_true rfl⟩
  cases hmin : argmin rank (l.filter fun b => key b = key a) with
  | none =>
    rw [argmin_eq_none.mp hmin] at hm
    exact absurd hm not_mem_nil
  | some w =>
    obtain ⟨hw, hwk⟩ := mem_filter.mp (argmin_mem hmin)
    have hwk : key w = key a := of_decide_eq_true hwk
    refine ⟨w, mem_leaders.mpr ⟨hw, fun b hb hbk _ => ?_⟩, hwk, le_of_mem_argmin hm hmin⟩
    exact le_of_mem_argmin (mem_filter.mpr ⟨hb, decide_eq_true (hbk.trans hwk)⟩) hmin

theorem leaders_idem : leaders key rank (leaders key rank l) = leaders key rank l := by
  refine filter_eq_self.mpr fun a ha => decide_eq_true ?_
  exact leads_mono (fun b hb => (mem_leaders.mp hb).1) (mem_leaders.mp ha).2

theorem leaders_perm (h : l.Perm l') : (leaders key rank l).Perm (leaders key rank l') := by
  have hcongr : ∀ a ∈ l, decide (Leads key rank l a) = decide (Leads key rank l' a) :=
    fun a _ => decide_eq_decide.mpr
      ⟨leads_mono fun _ => h.mem_iff.mpr, leads_mono fun _ => h.mem_iff.mp⟩
  unfold leaders
  rw [filter_congr hcongr]
  exact h.filter _

/-- What leads two lists together is what leads their leaders together. -/
theorem leads_union {u v : List α} (hu : ∀ b, b ∈ u ↔ b ∈ l ∨ b ∈ l')
    (hv : ∀ b, b ∈ v ↔ b ∈ leaders key rank l ∨ b ∈ leaders key rank l') :
    Leads key rank v a ↔ Leads key rank u a := by
  constructor
  · intro h b hb hbk ha
    rcases (hu b).mp hb with hb | hb
    · obtain ⟨w, hw, hwk, hle⟩ := exists_leader key rank hb
      exact (h w ((hv w).mpr (.inl hw)) (hwk.trans hbk) ha).trans hle
    · obtain ⟨w, hw, hwk, hle⟩ := exists_leader key rank hb
      exact (h w ((hv w).mpr (.inr hw)) (hwk.trans hbk) ha).trans hle
  · refine leads_mono fun b hb => (hu b).mpr ?_
    exact ((hv b).mp hb).imp (fun h => (mem_leaders.mp h).1) fun h => (mem_leaders.mp h).1

theorem mem_leaders_union {u v : List α} (hu : ∀ b, b ∈ u ↔ b ∈ l ∨ b ∈ l')
    (hv : ∀ b, b ∈ v ↔ b ∈ leaders key rank l ∨ b ∈ leaders key rank l') :
    a ∈ leaders key rank u ↔ a ∈ leaders key rank v := by
  rw [mem_leaders, mem_leaders, leads_union hu hv]
  refine and_congr_left fun ha => ?_
  rw [hu, hv, mem_leaders, mem_leaders]
  have hl : Leads key rank l a := leads_mono (fun b hb => (hu b).mpr (.inl hb)) ha
  have hl' : Leads key rank l' a := leads_mono (fun b hb => (hu b).mpr (.inr hb)) ha
  rw [and_iff_left hl, and_iff_left hl']

theorem leaders_append : leaders key rank (l ++ l') =
    leaders key rank (leaders key rank l ++ leaders key rank l') := by
  have hpart : ∀ m, (∀ b ∈ m, b ∈ l ++ l') →
      m.filter (fun a => decide (Leads key rank (l ++ l') a)) = (leaders key rank m).filter fun a =>
          decide (Leads key rank (leaders key rank l ++ leaders key rank l') a) := by
    intro m hm
    unfold leaders
    rw [filter_filter]
    refine filter_congr fun a _ => ?_
    rw [← Bool.decide_and, decide_eq_decide]
    have hboth : Leads key rank (leaders key rank l ++ leaders key rank l') a ↔
        Leads key rank (l ++ l') a := leads_union (fun b => mem_append) fun b => mem_append
    exact ⟨fun h => ⟨hboth.mpr h, leads_mono hm h⟩, fun h => hboth.mp h.1⟩
  conv_lhs => unfold leaders
  rw [filter_append, hpart l fun b hb => mem_append_left _ hb,
    hpart l' fun b hb => mem_append_right _ hb, ← filter_append]
  rfl

end RatKingdom.Lib
