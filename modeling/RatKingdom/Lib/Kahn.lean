/-
Ordering a finite graph, and following its arcs to a cycle.

`kahn` takes a node whose predecessors have all been taken, turn after turn.  The nodes it
never takes are those on a cycle or behind one (`Taken.mem_iff`).  `dfs` follows the arcs from a
node.  It ends with a cycle it has closed, or no cycle is downstream of the node
(`dfs_error`, `dfs_ok`).
-/
import Mathlib.Data.Set.Finite.List
import RatKingdom.Lib.Attempt
import RatKingdom.Lib.Reach

namespace RatKingdom.Lib

open Relation List

universe u v

section
variable {α : Type u} {R : α → α → Prop} {a b : α}

/-- Some cycle leads to the node, or the node is on one. -/
def Downstream (R : α → α → Prop) (b : α) : Prop := ∃ c, TransGen R c c ∧ ReflTransGen R c b

/-- The node leads to some cycle, or is on one. -/
def Upstream (R : α → α → Prop) (a : α) : Prop := ∃ c, ReflTransGen R a c ∧ TransGen R c c

structure Closed (R : α → α → Prop) (path : List α) : Prop where
  ends : ∃ a mid, path = a :: (mid ++ [a])
  walk : path.IsChain R

theorem transGen_of_isChain {mid : List α} (h : (a :: (mid ++ [b])).IsChain R) :
    TransGen R a b := by
  induction mid generalizing a with
  | nil => exact .single (isChain_cons_cons.mp h).1
  | cons c mid ih => exact .head (isChain_cons_cons.mp h).1 (ih (isChain_cons_cons.mp h).2)

theorem Closed.cycle {path : List α} (h : Closed R path) : ∃ a ∈ path, TransGen R a a := by
  obtain ⟨a, mid, rfl⟩ := h.ends
  exact ⟨a, mem_cons_self, transGen_of_isChain h.walk⟩

theorem not_transGen_self_of_acc (h : Acc R a) : ¬ TransGen R a a := by
  induction h with
  | intro a _ ih =>
    intro hc
    obtain ⟨b, hab, hba⟩ := TransGen.tail'_iff.mp hc
    exact ih b hba (.head' hba hab)

theorem acc_of_reflTransGen (h : Acc R b) (hab : ReflTransGen R a b) : Acc R a := by
  induction hab with
  | refl => exact h
  | tail _ hbc ih => exact ih (h.inv hbc)

theorem not_downstream_of_acc (h : Acc R b) : ¬ Downstream R b := by
  rintro ⟨c, hc, hcb⟩
  exact not_transGen_self_of_acc (acc_of_reflTransGen h hcb) hc

theorem not_upstream_of_acc (h : Acc (flip R) a) : ¬ Upstream R a := by
  rintro ⟨c, hac, hc⟩
  have hac : ReflTransGen (flip R) c a := reflTransGen_swap.mp hac
  exact not_transGen_self_of_acc (acc_of_reflTransGen h hac) (transGen_swap.mp hc)

theorem downstream_of_closed {S : List α} (hS : ∀ b ∈ S, ∃ a ∈ S, R a b) (hb : b ∈ S) :
    Downstream R b := by
  by_contra hno
  let V := {x // x ∈ S ∧ ReflTransGen R x b}
  have hfin : Finite V :=
    Set.Finite.subset (finite_toSet S) (fun x (hx : x ∈ S ∧ _) => hx.1)
  let before : V → V → Prop := fun x y => TransGen R x.1 y.1
  have htrans : IsTrans V before := ⟨fun _ _ _ => .trans⟩
  have hirrefl : Std.Irrefl before := ⟨fun x hx => hno ⟨x.1, hx, x.2.2⟩⟩
  obtain ⟨⟨x, hxS, hxb⟩, -, hmin⟩ :=
    (Finite.wellFounded_of_trans_of_irrefl before).has_min Set.univ ⟨⟨b, hb, .refl⟩, trivial⟩
  obtain ⟨a, haS, hax⟩ := hS x hxS
  exact hmin ⟨a, haS, .head hax hxb⟩ trivial (.single hax)

end

section
variable {α : Type u} [LinearOrder α]

def insertSet (a : α) (l : List α) : List α := if a ∈ l then l else l.orderedInsert (· ≤ ·) a

def sortedSet (l : List α) : List α := l.foldr insertSet []

/-- The predecessors each node waits for, counted, and the nodes that wait for none. -/
structure Waiting (α : Type u) where
  degree : α → Nat
  ready : List α

def Waiting.release (w : Waiting α) (b : α) : Waiting α :=
  let degree := Function.update w.degree b (w.degree b - 1)
  { degree, ready := if degree b = 0 then insertSet b w.ready else w.ready }

def kahn (next : α → List α) : Nat → Waiting α → List α → List α
  | 0, _, order => order
  | fuel + 1, w, order =>
    match w.ready with
    | [] => order
    | a :: ready => kahn next fuel ((next a).foldl .release { w with ready }) (order ++ [a])

variable {l : List α} {a b : α} {w : Waiting α}

@[simp] theorem mem_insertSet : b ∈ insertSet a l ↔ b = a ∨ b ∈ l := by
  unfold insertSet
  split
  · rename_i ha
    exact ⟨.inr, fun h => h.elim (fun h => h ▸ ha) id⟩
  · exact mem_orderedInsert _

theorem sorted_insertSet (h : l.Pairwise (· < ·)) : (insertSet a l).Pairwise (· < ·) := by
  unfold insertSet
  split
  · exact h
  · rename_i ha
    have hle : (l.orderedInsert (· ≤ ·) a).Pairwise (· ≤ ·) :=
      List.Pairwise.orderedInsert a l (h.imp le_of_lt)
    have hne : (l.orderedInsert (· ≤ ·) a).Nodup :=
      (perm_orderedInsert (· ≤ ·) a l).nodup_iff.mpr (nodup_cons.mpr ⟨ha, h.imp ne_of_lt⟩)
    exact hle.imp₂ (fun _ _ hle hne => lt_of_le_of_ne hle hne) hne

@[simp] theorem mem_sortedSet : b ∈ sortedSet l ↔ b ∈ l := by
  induction l with
  | nil => rfl
  | cons a l ih => simp [sortedSet, ← ih]

theorem sorted_sortedSet (l : List α) : (sortedSet l).Pairwise (· < ·) := by
  induction l with
  | nil => exact .nil
  | cons a l ih => exact sorted_insertSet ih

theorem nodup_of_sorted (h : l.Pairwise (· < ·)) : l.Nodup := h.imp ne_of_lt

theorem find?_least {p : α → Bool} (hl : l.Pairwise (· < ·)) (h : l.find? p = some a) :
    (a ∈ l ∧ p a) ∧ ∀ b ∈ l, p b → a ≤ b := by
  obtain ⟨ha, l₁, l₂, rfl, hbefore⟩ := find?_eq_some_iff_append.mp h
  refine ⟨⟨by simp, ha⟩, fun b hb hpb => ?_⟩
  rcases mem_append.mp hb with hb | hb
  · exact absurd hpb (by simpa using hbefore b hb)
  · rcases mem_cons.mp hb with rfl | hb
    · exact le_refl b
    · exact le_of_lt (rel_of_pairwise_cons (pairwise_append.mp hl).2.1 hb)

theorem release_degree (w : Waiting α) (a b : α) :
    (w.release a).degree b = if b = a then w.degree a - 1 else w.degree b :=
  Function.update_apply ..

theorem mem_release : b ∈ (w.release a).ready ↔ b ∈ w.ready ∨ (b = a ∧ w.degree a - 1 = 0) := by
  unfold Waiting.release
  dsimp only
  rw [Function.update_self]
  split <;> rename_i hz <;> simp [hz, or_comm]

theorem sorted_release (h : w.ready.Pairwise (· < ·)) : (w.release a).ready.Pairwise (· < ·) := by
  unfold Waiting.release
  dsimp only
  split
  · exact sorted_insertSet h
  · exact h

theorem foldl_release_degree (hl : l.Nodup) (b : α) :
    (l.foldl .release w).degree b = if b ∈ l then w.degree b - 1 else w.degree b := by
  induction l generalizing w with
  | nil => rfl
  | cons a l ih =>
    rw [foldl_cons, ih hl.of_cons, release_degree]
    by_cases hba : b = a
    · subst hba
      rw [if_neg hl.notMem, if_pos rfl, if_pos mem_cons_self]
    · simp [hba]

theorem mem_foldl_release (hl : l.Nodup) :
    b ∈ (l.foldl .release w).ready ↔ b ∈ w.ready ∨ (b ∈ l ∧ w.degree b - 1 = 0) := by
  induction l generalizing w with
  | nil => simp
  | cons a l ih =>
    rw [foldl_cons, ih hl.of_cons, mem_release, release_degree, mem_cons]
    by_cases hba : b = a
    · subst hba
      simp [hl.notMem]
    · simp [hba]

theorem sorted_foldl_release (h : w.ready.Pairwise (· < ·)) :
    (l.foldl .release w).ready.Pairwise (· < ·) := by
  induction l generalizing w with
  | nil => exact h
  | cons a l ih => exact ih (sorted_release h)

/-- The predecessors of a node that have not been taken. -/
def waits (next : α → List α) (ids order : List α) (b : α) : List α :=
  ids.filter fun a => b ∈ next a ∧ a ∉ order

structure Graph (next : α → List α) (ids : List α) : Prop where
  nodup : ids.Nodup
  once : ∀ a, (next a).Nodup
  inside : ∀ a b, b ∈ next a → a ∈ ids ∧ b ∈ ids

structure Taken (next : α → List α) (ids : List α) (w : Waiting α) (order : List α) : Prop where
  nodup : order.Nodup
  inside : ∀ b ∈ order, b ∈ ids
  before : ∀ l b r, order = l ++ b :: r → ∀ a, b ∈ next a → a ∈ l
  degree : ∀ b, w.degree b = (waits next ids order b).length
  sorted : w.ready.Pairwise (· < ·)
  ready : ∀ b, b ∈ w.ready ↔ b ∈ ids ∧ b ∉ order ∧ waits next ids order b = []

variable {next : α → List α} {ids order : List α} {ready : List α}

theorem waits_eq_nil (hg : Graph next ids) :
    waits next ids order b = [] ↔ ∀ a, b ∈ next a → a ∈ order := by
  simp only [waits, filter_eq_nil_iff, decide_eq_true_eq, not_and, not_not]
  exact ⟨fun h a hab => h a (hg.inside a b hab).1 hab, fun h a _ => h a⟩

theorem waits_append (hg : Graph next ids) (order : List α) (a b : α) :
    waits next ids (order ++ [a]) b = (waits next ids order b).erase a := by
  have hn : (waits next ids order b).Nodup := hg.nodup.filter _
  rw [hn.erase_eq_filter]
  unfold waits
  rw [filter_filter]
  refine filter_congr fun c _ => ?_
  simp only [mem_append, mem_singleton, not_or, Bool.decide_and]
  grind

theorem Taken.step (hg : Graph next ids) (h : Taken next ids w order) (hr : w.ready = a :: ready) :
    Taken next ids ((next a).foldl .release { w with ready }) (order ++ [a]) := by
  obtain ⟨haids, haorder, hn⟩ := (h.ready a).mp (hr ▸ mem_cons_self)
  have hsorted : (a :: ready).Pairwise (· < ·) := hr ▸ h.sorted
  have hpreds := (waits_eq_nil hg).mp hn
  have hwaits : ∀ b, a ∈ waits next ids order b ↔ b ∈ next a := by
    intro b
    simp [waits, haids, haorder]
  have hlength : ∀ b, (waits next ids (order ++ [a]) b).length =
      if b ∈ next a then (waits next ids order b).length - 1
        else (waits next ids order b).length := by
    intro b
    rw [waits_append hg, length_erase]
    simp only [hwaits]
  refine ⟨?_, ?_, ?_, ?_, ?_, ?_⟩
  · exact nodup_append.mpr ⟨h.nodup, nodup_singleton a, fun x hx y hy hxy =>
      haorder (mem_singleton.mp hy ▸ hxy ▸ hx)⟩
  · intro b hb
    rcases mem_append.mp hb with hb | hb
    · exact h.inside b hb
    · exact mem_singleton.mp hb ▸ haids
  · intro l b r heq c hcb
    rcases eq_nil_or_concat r with rfl | ⟨r', x, rfl⟩
    · obtain ⟨rfl, hab⟩ := append_inj' heq rfl
      cases hab
      exact hpreds c hcb
    · have heq : order ++ [a] = (l ++ b :: r') ++ [x] := by simpa using heq
      exact h.before l b r' (append_inj' heq rfl).1 c hcb
  · intro b
    rw [foldl_release_degree (hg.once a), hlength, h.degree]
  · exact sorted_foldl_release hsorted.of_cons
  · intro b
    rw [mem_foldl_release (hg.once a), h.degree, ← length_eq_zero_iff, hlength]
    have hrest : b ∈ ready ↔ b ≠ a ∧ b ∈ ids ∧ b ∉ order ∧ waits next ids order b = [] := by
      rw [← h.ready b, hr, mem_cons]
      have hnot : a ∉ ready := (nodup_of_sorted hsorted).notMem
      grind
    rw [hrest]
    by_cases hab : b ∈ next a
    · -- The node has waited for this one, so it has not been taken and is another.
      have hwait := ne_nil_of_mem ((hwaits b).mpr hab)
      have hba : b ≠ a := fun heq => hwait (heq ▸ hn)
      have hborder : b ∉ order := by
        intro hb
        obtain ⟨l, r, heq⟩ := append_of_mem hb
        exact haorder (heq ▸ mem_append_left _ (h.before l b r heq a hab))
      simp [hab, hwait, hba, hborder, (hg.inside a b hab).2]
    · simp [hab, length_eq_zero_iff]
      grind

theorem Taken.run (hg : Graph next ids) {fuel : Nat} (h : Taken next ids w order)
    (hfuel : ids.length < order.length + fuel) :
    ∃ w', w'.ready = [] ∧ Taken next ids w' (kahn next fuel w order) := by
  induction fuel generalizing w order with
  | zero =>
    have hle := (subperm_of_subset h.nodup h.inside).length_le
    omega
  | succ fuel ih =>
    unfold kahn
    split
    · exact ⟨w, ‹_›, h⟩
    · rename_i a ready hr
      apply ih (h.step hg hr)
      rw [length_append, length_singleton]
      omega

theorem Taken.acc (h : Taken next ids w order) (hb : b ∈ order) : Acc (Arc next) b := by
  obtain ⟨l, r, heq⟩ := append_of_mem hb
  clear hb
  induction hn : l.length using Nat.strong_induction_on generalizing l b r with
  | _ n ih =>
    refine ⟨_, fun a hab => ?_⟩
    obtain ⟨l', r', rfl⟩ := append_of_mem (h.before l b r heq a hab)
    exact ih l'.length (by simp at hn; omega) l' (r' ++ b :: r) (by simp [heq]) rfl

theorem Taken.mem_iff (hg : Graph next ids) (h : Taken next ids w order) (hr : w.ready = []) :
    b ∈ order ↔ b ∈ ids ∧ ¬ Downstream (Arc next) b := by
  constructor
  · exact fun hb => ⟨h.inside b hb, not_downstream_of_acc (h.acc hb)⟩
  · rintro ⟨hids, hb⟩
    by_contra hleft
    refine hb (downstream_of_closed (S := ids.filter (· ∉ order)) ?_ (by simp [hids, hleft]))
    intro c hc
    obtain ⟨hcids, hcleft⟩ : c ∈ ids ∧ c ∉ order := by simpa using hc
    by_contra hn
    refine not_mem_nil (hr ▸ (h.ready c).mpr ⟨hcids, hcleft, (waits_eq_nil hg).mpr ?_⟩)
    intro a hac
    by_contra ha
    exact hn ⟨a, by simp [(hg.inside a c hac).1, ha], hac⟩

end

section
variable {α σ ε : Type u} {f : σ → α → Except ε σ} {l : List α} {s s' : σ}

theorem foldlM_error {e : ε} (h : l.foldlM f s = .error e) : ∃ a ∈ l, ∃ s', f s' a = .error e := by
  induction l generalizing s with
  | nil => cases h
  | cons a l ih =>
    rw [foldlM_cons] at h
    rcases bind_error_iff.mp h with h | ⟨s', -, h⟩
    · exact ⟨a, mem_cons_self, s, h⟩
    · obtain ⟨c, hc, s'', hs⟩ := ih h
      exact ⟨c, mem_cons_of_mem _ hc, s'', hs⟩

theorem foldlM_ok {I : σ → Prop} {Q : α → Prop}
    (hstep : ∀ a ∈ l, ∀ s s', I s → f s a = .ok s' → I s' ∧ Q a) (hs : I s)
    (h : l.foldlM f s = .ok s') : I s' ∧ ∀ a ∈ l, Q a := by
  induction l generalizing s with
  | nil =>
    cases h
    exact ⟨hs, fun _ ha => absurd ha not_mem_nil⟩
  | cons a l ih =>
    rw [foldlM_cons] at h
    obtain ⟨t, ht, h⟩ := bind_ok_iff.mp h
    obtain ⟨hI, hQ⟩ := hstep a mem_cons_self s t hs ht
    obtain ⟨hI', hall⟩ := ih (fun c hc => hstep c (mem_cons_of_mem _ hc)) hI h
    exact ⟨hI', forall_mem_cons.mpr ⟨hQ, hall⟩⟩

end

section
variable {α : Type u} [DecidableEq α]

/-- The cycle that the walk from the end of `stack` to `node` closes, or the nodes seen. -/
def dfs (next : α → List α) : Nat → List α → List α → α → Except (List α) (List α)
  | 0, _, seen, _ => .ok seen
  | fuel + 1, stack, seen, node =>
    if node ∈ stack then .error (stack.drop (stack.idxOf node) ++ [node])
    else if node ∈ seen then .ok seen
    else (next node).foldlM (dfs next fuel (stack ++ [node])) (node :: seen)

variable {next : α → List α} {ids stack seen seen' : List α} {start node : α} {fuel : Nat}

theorem dfs_error {path : List α} (hwalk : (stack ++ [node]).IsChain (Arc next))
    (hahead : ∀ b ∈ stack ++ [node], ReflTransGen (Arc next) start b)
    (h : dfs next fuel stack seen node = .error path) :
    Closed (Arc next) path ∧ ∀ b ∈ path, ReflTransGen (Arc next) start b := by
  induction fuel generalizing stack seen node with
  | zero => cases h
  | succ fuel ih =>
    unfold dfs at h
    split at h
    · rename_i hm
      cases h
      have hsuffix : stack.drop (stack.idxOf node) ++ [node] <:+ stack ++ [node] :=
        (suffix_append_inj_of_length_eq rfl).mpr ⟨drop_suffix _ _, rfl⟩
      refine ⟨⟨⟨node, stack.drop (stack.idxOf node + 1), ?_⟩, hwalk.suffix hsuffix⟩,
        fun b hb => hahead b (hsuffix.subset hb)⟩
      rw [drop_eq_getElem_cons (idxOf_lt_length_of_mem hm), getElem_idxOf]
      rfl
    · split at h
      · cases h
      · obtain ⟨b, hb, seen', h⟩ := foldlM_error h
        refine ih ?_ ?_ h
        · rw [append_assoc]
          exact isChain_append_cons_cons.mpr ⟨hwalk, hb, isChain_singleton b⟩
        · intro c hc
          rcases mem_append.mp hc with hc | hc
          · exact hahead c hc
          · rw [mem_singleton.mp hc]
            exact (hahead node (by simp)).tail hb

def Cleared (next : α → List α) (stack seen : List α) : Prop :=
  ∀ b ∈ seen, b ∈ stack ∨ Acc (flip (Arc next)) b

theorem dfs_ok (hin : ∀ a, ∀ b ∈ next a, b ∈ ids) (hstack : stack.Nodup)
    (hsub : ∀ b ∈ stack, b ∈ ids) (hnode : node ∈ ids) (hfuel : ids.length < stack.length + fuel)
    (hc : Cleared next stack seen) (h : dfs next fuel stack seen node = .ok seen') :
    Cleared next stack seen' ∧ Acc (flip (Arc next)) node := by
  induction fuel generalizing stack seen seen' node with
  | zero =>
    have hle := (subperm_of_subset hstack hsub).length_le
    omega
  | succ fuel ih =>
    unfold dfs at h
    split at h
    · cases h
    · rename_i hfresh
      split at h
      · rename_i hm
        cases h
        exact ⟨hc, (hc node hm).resolve_left hfresh⟩
      · have hnew : Cleared next (stack ++ [node]) (node :: seen) := by
          refine forall_mem_cons.mpr ⟨?_, fun b hb => (hc b hb).imp_left (mem_append_left _)⟩
          exact .inl (by simp)
        obtain ⟨hdone, hacc⟩ := foldlM_ok (fun b hb s s' hs hf => ih
          (nodup_append.mpr ⟨hstack, nodup_singleton node, by grind⟩)
          (by grind) (hin node b hb) (by simp; omega) hs hf) hnew h
        have hnode' : Acc (flip (Arc next)) node := ⟨_, fun b hb => hacc b hb⟩
        refine ⟨fun b hb => ?_, hnode'⟩
        rcases hdone b hb with hb | hb
        · rcases mem_append.mp hb with hb | hb
          · exact .inl hb
          · exact .inr (mem_singleton.mp hb ▸ hnode')
        · exact .inr hb

end

end RatKingdom.Lib
