/-
Journals of revisions.

What changes is written again under its key with a higher revision, and a reader keeps the
newest entry of every key.  In a journal whose entries either open a key or follow the newest
entry of theirs, a new entry takes the place of the one it follows and no other.
-/
import RatKingdom.Lib.First

namespace RatKingdom.Lib

open List

universe u v

section
variable {α : Type u}

def maxByKey (key : α → Int) (l : List α) : Option α :=
  l.foldl (fun best a =>
    match best with
    | none => some a
    | some b => if key b ≤ key a then some a else some b) none

theorem mem_of_maxByKey {key : α → Int} {l : List α} {a : α} (h : maxByKey key l = some a) :
    a ∈ l := by
  have hfold : ∀ (l : List α) (best : Option α) (a : α), l.foldl (fun best a =>
        Option.elim best (some a) fun b => if key b ≤ key a then some a else some b) best =
        some a → best = some a ∨ a ∈ l := by
    intro l
    induction l with
    | nil =>
      intro best a hbest
      exact .inl hbest
    | cons x rest ih =>
      intro best a hbest
      rw [foldl_cons] at hbest
      cases ih _ a hbest with
      | inr hm => exact .inr (mem_cons_of_mem _ hm)
      | inl hhead =>
        cases best with
        | none =>
          cases hhead
          exact .inr mem_cons_self
        | some b =>
          simp only [Option.elim_some] at hhead
          split at hhead
          · cases hhead
            exact .inr mem_cons_self
          · exact .inl hhead
  have hsame : maxByKey key l = l.foldl (fun best a =>
      Option.elim best (some a) fun b => if key b ≤ key a then some a else some b) none := by
    unfold maxByKey
    congr 1
    funext best a
    cases best with
    | none | some b => rfl
  rw [hsame] at h
  cases hfold l none a h with
  | inl hn => cases hn
  | inr hm => exact hm

def dedupByKey (key : α → Int) (l : List α) : List α :=
  l.foldl (fun kept a => if kept.getLast?.any fun b => key b = key a then kept else kept ++ [a]) []

theorem filter_key_of_mem {β : Type v} [DecidableEq β] {key : α → β} {l : List α} {a : α}
    (hnodup : (l.map key).Nodup) (ha : a ∈ l) : (l.filter fun b => key b = key a) = [a] := by
  induction l with
  | nil => cases ha
  | cons x rest ih =>
    rw [map_cons, nodup_cons] at hnodup
    cases mem_cons.mp ha with
    | inl hhead =>
      have hn : (rest.filter fun b => key b = key a) = [] := by
        rw [filter_eq_nil_iff]
        intro b hb hkey
        apply hnodup.1
        rw [← hhead, ← of_decide_eq_true hkey]
        exact mem_map_of_mem hb
      rw [← hhead, filter_cons_of_pos (by simp), hn]
    | inr hrest =>
      have hne : key x ≠ key a := by
        intro heq
        apply hnodup.1
        rw [heq]
        exact mem_map_of_mem hrest
      rw [filter_cons_of_neg (by simp [hne])]
      exact ih hnodup.2 hrest

end

section
variable {ε : Type u} {κ : Type v} [DecidableEq κ] (key : ε → κ) (revision : ε → Nat)

def keepLatest (latest : List ε) (e : ε) : List ε :=
  match latest.find? fun o => key o = key e with
  | none => latest ++ [e]
  | some prior =>
    if revision prior < revision e then latest.map fun o => if key o = key e then e else o
    else latest

def latest (journal : List ε) : List ε := journal.foldl (keepLatest key revision) []

inductive Chained (opens : ε → Prop) (follows : ε → ε → Prop) : List ε → Prop
  | nil : Chained opens follows []
  | opened {journal : List ε} {e : ε} (hj : Chained opens follows journal)
      (hnew : ∀ o ∈ journal, key o ≠ key e) (he : opens e) :
      Chained opens follows (journal ++ [e])
  | moved {journal : List ε} {o e : ε} (hj : Chained opens follows journal)
      (ho : o ∈ latest key revision journal) (hkey : key e = key o)
      (hrevision : revision e = revision o + 1) (he : follows o e) :
      Chained opens follows (journal ++ [e])

variable {key revision}

theorem latest_append (journal : List ε) (e : ε) :
    latest key revision (journal ++ [e]) = keepLatest key revision (latest key revision journal) e := by
  unfold latest
  rw [foldl_append]
  rfl

theorem keepLatest_new {l : List ε} {e : ε} (h : ∀ o ∈ l, key o ≠ key e) :
    keepLatest key revision l e = l ++ [e] := by
  have hn : l.find? (fun o => key o = key e) = none := by
    rw [find?_eq_none]
    intro o ho
    simp [h o ho]
  unfold keepLatest
  rw [hn]

theorem keepLatest_next {l : List ε} {o e : ε} (hnodup : (l.map key).Nodup) (ho : o ∈ l)
    (hkey : key e = key o) (hrevision : revision e = revision o + 1) :
    keepLatest key revision l e = l.map fun x => if key x = key e then e else x := by
  have hfind : l.find? (fun x => key x = key e) = some o := find?_key hnodup ho hkey.symm
  unfold keepLatest
  rw [hfind]
  dsimp only
  rw [if_pos (by omega)]

theorem keepLatest_keys {l : List ε} {e : ε} :
    (l.map fun x => if key x = key e then e else x).map key = l.map key := by
  rw [map_map]
  apply map_congr_left
  intro x _
  by_cases hx : key x = key e
  · simp [hx]
  · simp [hx]

variable {opens : ε → Prop} {follows : ε → ε → Prop} {journal : List ε}

theorem mem_of_latest {o : ε} (h : o ∈ latest key revision journal) : o ∈ journal := by
  have hfold : ∀ (journal l : List ε), o ∈ journal.foldl (keepLatest key revision) l →
      o ∈ l ∨ o ∈ journal := by
    intro journal
    induction journal with
    | nil =>
      intro l hl
      exact .inl hl
    | cons e rest ih =>
      intro l hl
      rw [foldl_cons] at hl
      cases ih _ hl with
      | inr hm => exact .inr (mem_cons_of_mem _ hm)
      | inl hkept =>
        unfold keepLatest at hkept
        split at hkept
        · cases mem_append.mp hkept with
          | inl hold => exact .inl hold
          | inr hnew =>
            rw [mem_singleton.mp hnew]
            exact .inr mem_cons_self
        · split at hkept
          · obtain ⟨x, hx, hxo⟩ := mem_map.mp hkept
            split at hxo
            · rw [← hxo]
              exact .inr mem_cons_self
            · rw [← hxo]
              exact .inl hx
          · exact .inl hkept
  cases hfold journal [] h with
  | inl hnil => cases hnil
  | inr hm => exact hm

theorem Chained.nodup (h : Chained key revision opens follows journal) :
    ((latest key revision journal).map key).Nodup := by
  induction h with
  | nil => exact nodup_nil
  | opened hj hnew he ih =>
    rename_i journal e
    have hfresh : ∀ o ∈ latest key revision journal, key o ≠ key e :=
      fun o ho => hnew o (mem_of_latest ho)
    rw [latest_append, keepLatest_new hfresh, map_append, nodup_append]
    refine ⟨ih, nodup_singleton _, ?_⟩
    intro k hk k' hk'
    obtain ⟨o, ho, rfl⟩ := mem_map.mp hk
    rw [mem_singleton.mp hk']
    exact hfresh o ho
  | moved hj ho hkey hrevision he ih =>
    rw [latest_append, keepLatest_next ih ho hkey hrevision, keepLatest_keys]
    exact ih

theorem Chained.eq_of_key (h : Chained key revision opens follows journal) {o o' : ε}
    (ho : o ∈ latest key revision journal) (ho' : o' ∈ latest key revision journal)
    (hkey : key o = key o') : o = o' :=
  inj_on_of_nodup_map h.nodup ho ho' hkey

theorem Chained.exists_latest (h : Chained key revision opens follows journal) {o : ε}
    (ho : o ∈ journal) : ∃ o' ∈ latest key revision journal, key o' = key o := by
  induction h with
  | nil => cases ho
  | opened hj hnew he ih =>
    rename_i journal e
    have hfresh : ∀ o ∈ latest key revision journal, key o ≠ key e :=
      fun o ho => hnew o (mem_of_latest ho)
    rw [latest_append, keepLatest_new hfresh]
    cases mem_append.mp ho with
    | inl hold =>
      obtain ⟨o', ho', hkey⟩ := ih hold
      exact ⟨o', mem_append_left _ ho', hkey⟩
    | inr hl => exact ⟨o, mem_append_right _ hl, rfl⟩
  | moved hj hprior hkey hrevision he ih =>
    rename_i journal prior e
    rw [latest_append, keepLatest_next hj.nodup hprior hkey hrevision]
    have hkept : ∀ o' ∈ latest key revision journal, ∃ x ∈ (latest key revision journal).map
        (fun x => if key x = key e then e else x), key x = key o' := by
      intro o' ho'
      refine ⟨_, mem_map_of_mem ho', ?_⟩
      by_cases hx : key o' = key e
      · rw [if_pos hx, hx]
      · rw [if_neg hx]
    cases mem_append.mp ho with
    | inl hold =>
      obtain ⟨o', ho', hkey'⟩ := ih hold
      obtain ⟨x, hx, hxk⟩ := hkept o' ho'
      exact ⟨x, hx, hxk.trans hkey'⟩
    | inr hl =>
      obtain ⟨x, hx, hxk⟩ := hkept prior hprior
      refine ⟨x, hx, ?_⟩
      rw [mem_singleton.mp hl, hxk, hkey]

theorem mem_opened {e x : ε} (hnew : ∀ o ∈ latest key revision journal, key o ≠ key e) :
    x ∈ latest key revision (journal ++ [e]) ↔ x ∈ latest key revision journal ∨ x = e := by
  rw [latest_append, keepLatest_new hnew, mem_append, mem_singleton]

theorem Chained.mem_moved (h : Chained key revision opens follows journal) {o e x : ε}
    (ho : o ∈ latest key revision journal) (hkey : key e = key o)
    (hrevision : revision e = revision o + 1) :
    x ∈ latest key revision (journal ++ [e]) ↔
      (x ∈ latest key revision journal ∧ x ≠ o) ∨ x = e := by
  rw [latest_append, keepLatest_next h.nodup ho hkey hrevision, mem_map]
  constructor
  · intro hx
    obtain ⟨y, hy, hyx⟩ := hx
    split at hyx
    · exact .inr hyx.symm
    · rename_i hne
      rw [← hyx]
      refine .inl ⟨hy, ?_⟩
      intro heq
      rw [heq] at hne
      exact hne hkey.symm
  · intro hx
    cases hx with
    | inl hold =>
      refine ⟨x, hold.1, if_neg ?_⟩
      intro hkx
      exact hold.2 (h.eq_of_key hold.1 ho (hkx.trans hkey))
    | inr hnew => exact ⟨o, ho, by rw [if_pos hkey.symm, hnew]⟩

theorem Chained.fresh_iff (h : Chained key revision opens follows journal) {k : κ} :
    (∀ o ∈ journal, key o ≠ k) ↔ ∀ o ∈ latest key revision journal, key o ≠ k := by
  constructor
  · intro hall o ho
    exact hall o (mem_of_latest ho)
  · intro hall o ho
    obtain ⟨o', ho', hkey⟩ := h.exists_latest ho
    rw [← hkey]
    exact hall o' ho'

theorem Chained.mono {follows' : ε → ε → Prop} (h : Chained key revision opens follows journal)
    (hmono : ∀ o e, follows o e → follows' o e) : Chained key revision opens follows' journal := by
  induction h with
  | nil => exact .nil
  | opened hj hnew he ih => exact ih.opened hnew he
  | moved hj ho hkey hrevision he ih => exact ih.moved ho hkey hrevision (hmono _ _ he)

/-- Reading only the entries of one kind, when a key never changes its kind. -/
theorem Chained.filter (h : Chained key revision opens follows journal) {p : ε → Bool}
    (hkind : ∀ o e, follows o e → p e = p o) :
    Chained key revision opens follows (journal.filter p) ∧
      ∀ x, x ∈ latest key revision (journal.filter p) ↔
        x ∈ latest key revision journal ∧ p x = true := by
  induction h with
  | nil =>
    refine ⟨.nil, fun x => ?_⟩
    constructor
    · nofun
    · intro hx
      cases hx.1
  | opened hj hnew he ih =>
    rename_i journal e
    obtain ⟨hchained, hm⟩ := ih
    have hfresh : ∀ o ∈ latest key revision journal, key o ≠ key e :=
      fun o ho => hnew o (mem_of_latest ho)
    rw [filter_append]
    cases hp : p e with
    | true =>
      have hfiltered : ∀ o ∈ journal.filter p, key o ≠ key e :=
        fun o ho => hnew o (mem_filter.mp ho).1
      rw [filter_cons_of_pos hp, filter_nil]
      refine ⟨hchained.opened hfiltered he, fun x => ?_⟩
      rw [mem_opened fun o ho => hfiltered o (mem_of_latest ho), mem_opened hfresh, hm]
      constructor
      · intro hx
        cases hx with
        | inl hold => exact ⟨.inl hold.1, hold.2⟩
        | inr heq => exact ⟨.inr heq, heq ▸ hp⟩
      · intro hx
        cases hx.1 with
        | inl hold => exact .inl ⟨hold, hx.2⟩
        | inr heq => exact .inr heq
    | false =>
      have hno : ¬ p e = true := by
        rw [hp]
        exact Bool.false_ne_true
      rw [filter_cons_of_neg hno, filter_nil, append_nil]
      refine ⟨hchained, fun x => ?_⟩
      rw [mem_opened hfresh, hm]
      constructor
      · intro hx
        exact ⟨.inl hx.1, hx.2⟩
      · intro hx
        cases hx.1 with
        | inl hold => exact ⟨hold, hx.2⟩
        | inr heq => exact absurd (heq ▸ hx.2) hno
  | moved hj ho hkey hrevision he ih =>
    rename_i journal o e
    obtain ⟨hchained, hm⟩ := ih
    have hsame : p e = p o := hkind o e he
    rw [filter_append]
    cases hp : p e with
    | true =>
      have hfiltered : o ∈ latest key revision (journal.filter p) :=
        (hm o).mpr ⟨ho, hsame.symm.trans hp⟩
      rw [filter_cons_of_pos hp, filter_nil]
      refine ⟨hchained.moved hfiltered hkey hrevision he, fun x => ?_⟩
      rw [hchained.mem_moved hfiltered hkey hrevision, hj.mem_moved ho hkey hrevision, hm]
      constructor
      · intro hx
        cases hx with
        | inl hold => exact ⟨.inl ⟨hold.1.1, hold.2⟩, hold.1.2⟩
        | inr heq => exact ⟨.inr heq, heq ▸ hp⟩
      · intro hx
        cases hx.1 with
        | inl hold => exact .inl ⟨⟨hold.1, hx.2⟩, hold.2⟩
        | inr heq => exact .inr heq
    | false =>
      have hno : ¬ p e = true := by
        rw [hp]
        exact Bool.false_ne_true
      rw [filter_cons_of_neg hno, filter_nil, append_nil]
      refine ⟨hchained, fun x => ?_⟩
      rw [hj.mem_moved ho hkey hrevision, hm]
      constructor
      · intro hx
        refine ⟨.inl ⟨hx.1, ?_⟩, hx.2⟩
        intro heq
        rw [heq, ← hsame] at hx
        exact hno hx.2
      · intro hx
        cases hx.1 with
        | inl hold => exact ⟨hold.1, hx.2⟩
        | inr heq => exact absurd (heq ▸ hx.2) hno

end

end RatKingdom.Lib
