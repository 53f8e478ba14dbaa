/-
Filling the holes of a template, one kind after another.

A template is text with holes in it, and a hole is spelled as the key of its kind.  `scan`
reads a text as a template, and a replacement fills what `scan` finds of its key.  The
replacements of several keys, one after another, keep to the holes exactly if each key is
found nowhere else at its turn (`finds_iff`): not in the text beside the holes, not in what
an earlier turn has filled in, and not across the two.
-/
import Mathlib.Data.List.Infix
import Mathlib.Logic.Function.Basic

namespace RatKingdom.Lib

open List

universe u

inductive Piece (κ : Type u) where
  | char (c : Char)
  | hole (k : κ)
  deriving DecidableEq

section
variable {α : Type u} [DecidableEq α]

/-- The replacement of `key` once `skip` more elements have gone by. -/
def replaceFrom (key value : List α) : Nat → List α → List α
  | _, [] => []
  | skip + 1, _ :: text => replaceFrom key value skip text
  | 0, c :: text =>
    if key <+: c :: text then value ++ replaceFrom key value (key.length - 1) text
    else c :: replaceFrom key value 0 text

/-- `str::replace`: every occurrence from the left that does not overlap the one before. -/
def replaceAll (key value text : List α) : List α := replaceFrom key value 0 text

end

/-- What an occurrence of a key leaves of the text it begins in. -/
theorem drop_of_starts {α : Type u} {key text : List α} {c : α} (hne : key ≠ [])
    (h : key <+: c :: text) :
    c :: text = key ++ text.drop (key.length - 1) := by
  obtain ⟨rest, hrest⟩ := h
  obtain ⟨d, w, rfl⟩ := exists_cons_of_ne_nil hne
  obtain ⟨rfl, rfl⟩ := List.cons.inj hrest
  simp

section
variable {κ : Type u}

def fill (σ : κ → List Char) : List (Piece κ) → List Char
  | [] => []
  | .char c :: ps => c :: fill σ ps
  | .hole k :: ps => σ k ++ fill σ ps

/-- A text as a template, once `skip` more characters have gone by. -/
def scanFrom (key : κ → List Char) (ks : List κ) : Nat → List Char → List (Piece κ)
  | _, [] => []
  | skip + 1, _ :: text => scanFrom key ks skip text
  | 0, c :: text =>
    match ks.find? fun k => key k <+: c :: text with
    | some k => .hole k :: scanFrom key ks ((key k).length - 1) text
    | none => .char c :: scanFrom key ks 0 text

def scan (key : κ → List Char) (ks : List κ) (text : List Char) : List (Piece κ) :=
  scanFrom key ks 0 text

variable {key : κ → List Char} {ks : List κ} {k : κ} {ps : List (Piece κ)} {v text rest : List Char}

theorem fill_append (σ : κ → List Char) (ps qs : List (Piece κ)) :
    fill σ (ps ++ qs) = fill σ ps ++ fill σ qs := by
  induction ps with
  | nil => rfl
  | cons p ps ih => cases p <;> simp [fill, ih]

theorem fill_map_char (σ : κ → List Char) (v : List Char) : fill σ (v.map .char) = v := by
  induction v with
  | nil => rfl
  | cons c v ih => simp [fill, ih]

theorem fill_congr {σ τ : κ → List Char} (h : ∀ k, .hole k ∈ ps → σ k = τ k) :
    fill σ ps = fill τ ps := by
  induction ps with
  | nil => rfl
  | cons p ps ih =>
    have hrest := ih fun k hk => h k (mem_cons_of_mem _ hk)
    cases p with
    | char c => simp [fill, hrest]
    | hole k => simp [fill, hrest, h k mem_cons_self]

theorem fill_scanFrom (hne : ∀ k ∈ ks, key k ≠ []) (skip : Nat) (text : List Char) :
    fill key (scanFrom key ks skip text) = text.drop skip := by
  induction text generalizing skip with
  | nil => cases skip <;> rfl
  | cons c text ih =>
    cases skip with
    | succ skip => exact ih skip
    | zero =>
      unfold scanFrom
      cases hf : ks.find? fun k => key k <+: c :: text with
      | none => simp [fill, ih]
      | some k =>
        have hk : key k <+: c :: text := by simpa using find?_some hf
        simp only [fill, ih, drop_zero]
        exact (drop_of_starts (hne k (mem_of_find?_eq_some hf)) hk).symm

theorem fill_scan (hne : ∀ k ∈ ks, key k ≠ []) (text : List Char) :
    fill key (scan key ks text) = text := fill_scanFrom hne 0 text

theorem mem_scanFrom {skip : Nat} (h : .hole k ∈ scanFrom key ks skip text) : k ∈ ks := by
  induction text generalizing skip with
  | nil => cases skip <;> cases h
  | cons c text ih =>
    cases skip with
    | succ skip => exact ih h
    | zero =>
      unfold scanFrom at h
      split at h
      · rename_i j hj
        rcases mem_cons.mp h with h | h
        · cases h
          exact mem_of_find?_eq_some hj
        · exact ih h
      · rcases mem_cons.mp h with h | h
        · cases h
        · exact ih h

theorem scanFrom_length (past text : List Char) :
    scanFrom key ks past.length (past ++ text) = scanFrom key ks 0 text := by
  induction past with
  | nil => rfl
  | cons c past ih => exact ih

theorem scan_cons (key : κ → List Char) (k : κ) (c : Char) (text : List Char) :
    scan key [k] (c :: text) =
      if key k <+: c :: text then .hole k :: scanFrom key [k] ((key k).length - 1) text
      else .char c :: scan key [k] text := by
  by_cases h : key k <+: c :: text
  · simp [scan, scanFrom, find?, h]
  · simp [scan, scanFrom, find?, h]

theorem scan_key (hne : key k ≠ []) :
    scan key [k] (key k ++ text) = .hole k :: scan key [k] text := by
  obtain ⟨c, w, hw⟩ := exists_cons_of_ne_nil hne
  have hpre : key k <+: c :: (w ++ text) := ⟨text, by rw [hw, cons_append]⟩
  rw [hw, cons_append, scan_cons, if_pos hpre, hw, length_cons, Nat.add_sub_cancel, scanFrom_length]
  rfl

/-- A replacement fills what `scan` finds. -/
theorem replaceAll_eq (v : List Char) (text : List Char) :
    replaceAll (key k) v text = fill (fun _ => v) (scan key [k] text) := by
  have hfrom : ∀ skip, replaceFrom (key k) v skip text =
      fill (fun _ => v) (scanFrom key [k] skip text) := by
    induction text with
    | nil => intro skip; cases skip <;> rfl
    | cons c text ih =>
      intro skip
      cases skip with
      | succ skip => exact ih skip
      | zero =>
        by_cases h : key k <+: c :: text
        · simp [replaceFrom, scanFrom, find?, h, fill, ih]
        · simp [replaceFrom, scanFrom, find?, h, fill, ih]
  exact hfrom 0

/-- `key` begins nowhere in the text, with `rest` after it. -/
def Unfound (key rest : List Char) : List Char → Prop
  | [] => True
  | c :: text => ¬ key <+: c :: (text ++ rest) ∧ Unfound key rest text

theorem scan_append_iff {qs : List (Piece κ)} :
    scan key [k] (text ++ rest) = text.map .char ++ qs ↔
      Unfound (key k) rest text ∧ scan key [k] rest = qs := by
  induction text with
  | nil => simp [Unfound]
  | cons c text ih =>
    rw [cons_append, scan_cons, map_cons, cons_append, Unfound]
    by_cases h : key k <+: c :: (text ++ rest)
    · simp [h]
    · simp [h, ih]

variable [DecidableEq κ]

/-- In the text of a template, the key of `k` begins only where a hole of `k` stands. -/
def Unmixed (key : κ → List Char) (k : κ) : List (Piece κ) → Prop
  | [] => True
  | .char c :: ps => ¬ key k <+: c :: fill key ps ∧ Unmixed key k ps
  | .hole j :: ps => (j = k ∨ Unfound (key k) (fill key ps) (key j)) ∧ Unmixed key k ps

def spellOut (key : κ → List Char) (k : κ) : List (Piece κ) → List (Piece κ)
  | [] => []
  | .char c :: ps => .char c :: spellOut key k ps
  | .hole j :: ps => (if j = k then [.hole k] else (key j).map .char) ++ spellOut key k ps

def put (k : κ) (qs : List (Piece κ)) : List (Piece κ) → List (Piece κ)
  | [] => []
  | .char c :: ps => .char c :: put k qs ps
  | .hole j :: ps => (if j = k then qs else [.hole j]) ++ put k qs ps

theorem scan_eq_iff (hne : key k ≠ []) :
    scan key [k] (fill key ps) = spellOut key k ps ↔ Unmixed key k ps := by
  induction ps with
  | nil => exact ⟨fun _ => trivial, fun _ => rfl⟩
  | cons p ps ih =>
    cases p with
    | char c =>
      rw [fill, scan_cons, spellOut, Unmixed]
      by_cases h : key k <+: c :: fill key ps
      · simp [h]
      · simp [h, ih]
    | hole j =>
      rw [fill, spellOut, Unmixed]
      by_cases hj : j = k
      · subst hj
        rw [scan_key hne]
        simp [ih]
      · rw [if_neg hj, scan_append_iff, ih]
        simp [hj]

theorem fill_spellOut (k : κ) (v : List Char) (ps : List (Piece κ)) :
    fill (fun _ => v) (spellOut key k ps) = fill (Function.update key k v) ps := by
  induction ps with
  | nil => rfl
  | cons p ps ih =>
    cases p with
    | char c => simp [spellOut, fill, ih]
    | hole j =>
      by_cases hj : j = k
      · subst hj
        simp [spellOut, fill, ih]
      · simp [spellOut, fill, fill_append, fill_map_char, ih, hj]

theorem fill_put (σ : κ → List Char) (k : κ) (qs ps : List (Piece κ)) :
    fill σ (put k qs ps) = fill (Function.update σ k (fill σ qs)) ps := by
  induction ps with
  | nil => rfl
  | cons p ps ih =>
    cases p with
    | char c => simp [put, fill, ih]
    | hole j =>
      by_cases hj : j = k
      · subst hj
        simp [put, fill, fill_append, ih]
      · simp [put, fill, ih, hj]

theorem replaceAll_fill (hne : key k ≠ []) (h : Unmixed key k ps) (qs : List (Piece κ)) :
    replaceAll (key k) (fill key qs) (fill key ps) = fill key (put k qs ps) := by
  rw [replaceAll_eq, (scan_eq_iff hne).mpr h, fill_spellOut, fill_put]

/-- The occurrences of a key in the text beside the holes, made holes. -/
def mark (key : κ → List Char) (k : κ) (ps : List (Piece κ)) : List (Piece κ) :=
  replaceAll ((key k).map .char) [.hole k] ps

theorem fill_mark (hne : key k ≠ []) (ps : List (Piece κ)) :
    fill key (mark key k ps) = fill key ps := by
  have hfrom : ∀ skip, fill key (replaceFrom ((key k).map .char) [.hole k] skip ps) =
      fill key (ps.drop skip) := by
    induction ps with
    | nil => intro skip; cases skip <;> rfl
    | cons p ps ih =>
      intro skip
      cases skip with
      | succ skip => exact ih skip
      | zero =>
        unfold replaceFrom
        split
        · rename_i h
          rw [drop_zero, drop_of_starts (by simpa using hne) h, fill_append, fill_append, ih,
            fill_map_char]
          exact congrArg (· ++ _) (append_nil _)
        · have hrest := ih 0
          cases p <;> simp [fill, hrest]
  exact hfrom 0

/-! ### One turn after another

A turn fills the holes of one kind with pieces; `ready` gives the holes a turn is to find,
in the template that the turns before it have left. -/

section
variable (key : κ → List Char) (ready : κ → List (Piece κ) → List (Piece κ))

/-- Each turn finds in the text what it is to find. -/
def Finds : List (κ × List (Piece κ)) → List (Piece κ) → List Char → Prop
  | [], _, _ => True
  | t :: turns, ps, text => scan key [t.1] text = spellOut key t.1 (ready t.1 ps) ∧
      Finds turns (put t.1 t.2 (ready t.1 ps)) (replaceAll (key t.1) (fill key t.2) text)

/-- At its turn, each key begins only where a hole of it stands. -/
def InTurn : List (κ × List (Piece κ)) → List (Piece κ) → Prop
  | [], _ => True
  | t :: turns, ps => Unmixed key t.1 (ready t.1 ps) ∧ InTurn turns (put t.1 t.2 (ready t.1 ps))

def laid (turns : List (κ × List (Piece κ))) (ps : List (Piece κ)) : List (Piece κ) :=
  turns.foldl (fun ps t => put t.1 t.2 (ready t.1 ps)) ps

end

variable {ready : κ → List (Piece κ) → List (Piece κ)} {turns : List (κ × List (Piece κ))}

section
variable (h : ∀ t ∈ turns, key t.1 ≠ [] ∧ ∀ ps, fill key (ready t.1 ps) = fill key ps)
include h

theorem finds_iff : Finds key ready turns ps (fill key ps) ↔ InTurn key ready turns ps := by
  induction turns generalizing ps with
  | nil => exact .rfl
  | cons t turns ih =>
    obtain ⟨hne, hready⟩ := h t mem_cons_self
    rw [Finds, InTurn, ← hready ps, scan_eq_iff hne]
    exact and_congr_right fun hu => by
      rw [replaceAll_fill hne hu, ih fun u hu => h u (mem_cons_of_mem _ hu)]

theorem replaceAll_turns (hturn : InTurn key ready turns ps) :
    turns.foldl (fun text t => replaceAll (key t.1) (fill key t.2) text) (fill key ps) =
      fill key (laid ready turns ps) := by
  induction turns generalizing ps with
  | nil => rfl
  | cons t turns ih =>
    obtain ⟨hne, hready⟩ := h t mem_cons_self
    rw [foldl_cons, ← hready ps, replaceAll_fill hne hturn.1,
      ih (fun u hu => h u (mem_cons_of_mem _ hu)) hturn.2]
    rfl

end

/-- With the template's own holes filled with text, whatever the order of the turns. -/
theorem fill_laid {σ : κ → List Char} {order : List κ} :
    fill key (laid (fun _ ps => ps) (order.map fun k => (k, (σ k).map .char)) ps) =
      fill (fun k => if k ∈ order then σ k else key k) ps := by
  induction order generalizing ps with
  | nil => simp [laid]
  | cons k order ih =>
    have hlaid : laid (fun _ ps => ps) ((k :: order).map fun k => (k, (σ k).map .char)) ps =
        laid (fun _ ps => ps) (order.map fun k => (k, (σ k).map .char))
          (put k ((σ k).map .char) ps) := rfl
    rw [hlaid, ih, fill_put, fill_map_char]
    refine fill_congr fun j _ => ?_
    by_cases hj : j = k
    · subst hj
      simp
    · simp [hj]

/-- Replacements in turn are one substitution in the text as it was read at first. -/
theorem foldl_replaceAll (hne : ∀ k, key k ≠ []) {σ : κ → List Char} {order : List κ}
    (horder : ∀ k ∈ ks, k ∈ order)
    (h : InTurn key (fun _ ps => ps) (order.map fun k => (k, (σ k).map .char)) (scan key ks text)) :
    order.foldl (fun out k => replaceAll (key k) (σ k) out) text = fill σ (scan key ks text) := by
  have hfold := replaceAll_turns (fun t _ => ⟨hne t.1, fun _ => rfl⟩) h
  simp only [foldl_map, fill_map_char] at hfold
  rw [fill_scan fun k _ => hne k, fill_laid] at hfold
  rw [hfold]
  exact fill_congr fun k hk => if_pos (horder k (mem_scanFrom hk))

instance Unfound.decidable (key rest : List Char) : DecidablePred (Unfound key rest)
  | [] => isTrue trivial
  | c :: text =>
    have := Unfound.decidable key rest text
    inferInstanceAs (Decidable (¬ key <+: c :: (text ++ rest) ∧ Unfound key rest text))

instance Unmixed.decidable (key : κ → List Char) (k : κ) : DecidablePred (Unmixed key k)
  | [] => isTrue trivial
  | .char c :: ps =>
    have := Unmixed.decidable key k ps
    inferInstanceAs (Decidable (¬ key k <+: c :: fill key ps ∧ Unmixed key k ps))
  | .hole j :: ps =>
    have := Unmixed.decidable key k ps
    inferInstanceAs (Decidable ((j = k ∨ Unfound (key k) (fill key ps) (key j)) ∧ Unmixed key k ps))

instance InTurn.decidable (key : κ → List Char) (ready : κ → List (Piece κ) → List (Piece κ)) :
    (turns : List (κ × List (Piece κ))) → (ps : List (Piece κ)) → Decidable (InTurn key ready turns ps)
  | [], _ => isTrue trivial
  | t :: turns, ps =>
    have := InTurn.decidable key ready turns (put t.1 t.2 (ready t.1 ps))
    inferInstanceAs (Decidable (_ ∧ _))

end

def braced (name : List Char) : List Char := '{' :: '{' :: (name ++ ['}', '}'])

end RatKingdom.Lib
