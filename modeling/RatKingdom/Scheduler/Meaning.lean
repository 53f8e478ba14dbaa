/-
What a cron expression means, and when the parser gives it that meaning.

The grammar is a relation between texts and items, the meaning of an item a progression of
values.  A parsed expression matches the instants its pointed reading names, in which `a/1` is
the single value `a`: the parser does not tell a step of one from no step.  With the loop that
leaves `u32` this is all that keeps `Cron::parse` from the meaning (`parse_faithful_iff`).
-/
import Mathlib.Data.List.Forall2
import RatKingdom.Lib.Attempt
import RatKingdom.Scheduler.Cron

namespace RatKingdom.Cron

/-- The values a field allows. -/
abbrev Allowed := Vector Bool

open Core Lib List

inductive Body where
  | star
  | lone (a : Nat)
  | range (a b : Nat)
  deriving DecidableEq

structure Item where
  body : Body
  step : Option Nat
  deriving DecidableEq

inductive SpellsBody : List Char → Body → Prop where
  | star : SpellsBody ['*'] .star
  | lone {t : List Char} {a : Nat} (h : parseU32 t = some a) : SpellsBody t (.lone a)
  | range {s t : List Char} {a b : Nat} (hs : parseU32 s = some a) (ht : parseU32 t = some b) :
    SpellsBody (s ++ '-' :: t) (.range a b)

inductive SpellsItem : List Char → Item → Prop where
  | plain {t : List Char} {b : Body} (h : SpellsBody t b) : SpellsItem t ⟨b, none⟩
  | stepped {t s : List Char} {b : Body} {n : Nat} (h : SpellsBody t b)
    (hs : parseU32 s = some n) : SpellsItem (t ++ '/' :: s) ⟨b, some n⟩

namespace Item

def first (min : Nat) (i : Item) : Nat :=
  match i.body with
  | .star => min
  | .lone a => a
  | .range a _ => a

def last (max : Nat) (i : Item) : Nat :=
  match i.body, i.step with
  | .star, _ => max
  | .lone a, none => a
  | .lone _, some _ => max
  | .range _ b, _ => b

def stride (i : Item) : Nat := i.step.getD 1

structure InRange (min max : Nat) (i : Item) : Prop where
  first : min ≤ i.first min
  ordered : i.first min ≤ i.last max
  last : i.last max ≤ max
  stride : 0 < i.stride

def Denotes (min max : Nat) (i : Item) (v : Nat) : Prop :=
  i.first min ≤ v ∧ v ≤ i.last max ∧ i.stride ∣ v - i.first min

/-- The sum that ends the progression is no `u32`. -/
def Overruns (min max : Nat) (i : Item) : Prop := 2 ^ 32 ≤ past (i.first min) (i.last max) i.stride

/-- The item with `a/1` read as `a`. -/
def pointed : Item → Item
  | ⟨.lone a, some 1⟩ => ⟨.lone a, none⟩
  | i => i

end Item

/-- A text between commas is an item of a field. -/
def ReadsItem (min max : Nat) (t : List Char) (i : Item) : Prop :=
  SpellsItem t i ∧ i.InRange min max

def ReadsField (min max : Nat) (t : List Char) (items : List Item) : Prop :=
  List.Forall₂ (ReadsItem min max) (t.splitOn ',') items

structure Expression where
  minutes : List Item
  hours : List Item
  doms : List Item
  months : List Item
  dows : List Item

open Expression

def fields (expr : String) : List (List Char) :=
  splitWhitespace ((expandMacro (trimmed expr.toList)).getD (trimmed expr.toList))

def Reads (expr : String) (e : Expression) : Prop :=
  ∃ m h dom mon dow, fields expr = [m, h, dom, mon, dow] ∧ ReadsField 0 59 m e.minutes ∧
    ReadsField 0 23 h e.hours ∧ ReadsField 1 31 dom e.doms ∧ ReadsField 1 12 mon e.months ∧
    ReadsField 0 7 dow e.dows

def Named (min max : Nat) (items : List Item) (v : Nat) : Prop := ∃ i ∈ items, i.Denotes min max v

namespace Expression

/-- The field is not literally `*`. -/
def restricted (items : List Item) : Bool := decide (items ≠ [⟨.star, none⟩])

def DayRule (e : Expression) (t : DateTime) : Prop :=
  let dom := Named 1 31 e.doms t.day.val
  let dow := ∃ v, Named 0 7 e.dows v ∧ v % 7 = t.weekday.val
  match restricted e.doms, restricted e.dows with
  | true, true => dom ∨ dow
  | true, false => dom
  | false, true => dow
  | false, false => True

def OnDate (e : Expression) (t : DateTime) : Prop := Named 1 12 e.months t.month.val ∧ e.DayRule t

def Holds (e : Expression) (t : DateTime) : Prop :=
  Named 0 59 e.minutes t.minute.val ∧ Named 0 23 e.hours t.hour.val ∧ e.OnDate t

def pointed (e : Expression) : Expression :=
  { minutes := e.minutes.map Item.pointed
    hours := e.hours.map Item.pointed
    doms := e.doms.map Item.pointed
    months := e.months.map Item.pointed
    dows := e.dows.map Item.pointed }

/-- Reading `a/1` as `a` loses no minute, hour or date, or there was no date to lose. -/
def NothingLost (e : Expression) : Prop :=
  (∀ t, ¬ e.OnDate t) ∨ (∀ v, Named 0 59 e.minutes v → Named 0 59 e.pointed.minutes v) ∧
      (∀ v, Named 0 23 e.hours v → Named 0 23 e.pointed.hours v) ∧
      ∀ t, e.OnDate t → e.pointed.OnDate t

end Expression

/-- An expression is read without overflow, accepted when it is in the language, and then
matches the instants it means. -/
structure Faithful (expr : String) : Prop where
  computes : parse expr ≠ .error .overflow
  accepts : (∃ c, parse expr = .ok c) ↔ ∃ e, Reads expr e
  denotes : ∀ c e, parse expr = .ok c → Reads expr e → ∀ t, c.matches t = true ↔ e.Holds t

/-- An item of the text, with the bounds of its field. -/
structure Cell where
  min : Nat
  max : Nat
  text : List Char

def Cell.Fine (c : Cell) : Prop := ∃ i, ReadsItem c.min c.max c.text i ∧ ¬ i.Overruns c.min c.max

def Cell.Overruns (c : Cell) : Prop := ∃ i, ReadsItem c.min c.max c.text i ∧ i.Overruns c.min c.max

def cellsOf (min max : Nat) (t : List Char) : List Cell := (t.splitOn ',').map (Cell.mk min max)

def cells : List (List Char) → List Cell
  | [m, h, dom, mon, dow] =>
    cellsOf 0 59 m ++ cellsOf 0 23 h ++ cellsOf 1 31 dom ++ cellsOf 1 12 mon ++ cellsOf 0 7 dow
  | _ => []

def Reaches (l : List Cell) : Prop :=
  ∃ pre c suf, l = pre ++ c :: suf ∧ (∀ d ∈ pre, d.Fine) ∧ c.Overruns

section
variable {min max : Nat} {spec t : List Char} {b : Body} {i : Item}

theorem SpellsBody.chars (h : SpellsBody t b) : t ≠ [] ∧ '/' ∉ t := by
  cases h with
  | star => exact ⟨cons_ne_nil _ _, by decide⟩
  | lone h => exact ⟨(parseU32_chars h).1, not_mem_of_parseU32 h (by decide) (by decide)⟩
  | range hs ht =>
    have hs' := not_mem_of_parseU32 hs (c := '/') (by decide) (by decide)
    have ht' := not_mem_of_parseU32 ht (c := '/') (by decide) (by decide)
    refine ⟨by simp, fun h => ?_⟩
    rcases mem_append.mp h with h | h
    · exact hs' h
    · rcases mem_cons.mp h with h | h
      · exact absurd h (by decide)
      · exact ht' h

theorem SpellsItem.ne_nil (h : SpellsItem t i) : t ≠ [] := by
  cases h with
  | plain h => exact h.chars.1
  | stepped h hs => simp

theorem parseStep_plain (h : SpellsBody t b) : parseStep spec t = .ok (t, ⟨1, Nat.one_pos⟩) := by
  unfold parseStep
  rw [splitOnce_none_iff.mpr h.chars.2]

theorem parseStep_stepped {s : List Char} {n : Nat} (h : SpellsBody t b)
    (hs : parseU32 s = some n) (hn : 0 < n) :
    parseStep spec (t ++ '/' :: s) = .ok (t, ⟨n, hn⟩) := by
  unfold parseStep
  rw [splitOnce_some_iff.mpr ⟨rfl, h.chars.2⟩]
  simp only [hs, dif_pos hn]

theorem parseStep_cases (spec part : List Char) :
    (∃ e, parseStep spec part = .error (.refused e)) ∨
      ∃ r step st, parseStep spec part = .ok (r, step) ∧ (st : Option Nat).getD 1 = step.val ∧
        (∀ c ∈ r, c ∈ part) ∧ ∀ b, SpellsBody r b → SpellsItem part ⟨b, st⟩ := by
  unfold parseStep
  cases hsplit : splitOnce '/' part with
  | none =>
    exact .inr ⟨part, ⟨1, Nat.one_pos⟩, none, rfl, rfl, fun _ hc => hc, fun b hb => .plain hb⟩
  | some p =>
    obtain ⟨r, s⟩ := p
    dsimp only
    cases hs : parseU32 s with
    | none => exact .inl ⟨_, rfl⟩
    | some n =>
      by_cases hn : 0 < n
      · simp only [dif_pos hn]
        have hpart := (splitOnce_some_iff.mp hsplit).1
        refine .inr ⟨r, ⟨n, hn⟩, some n, rfl, rfl, fun c hc => ?_, fun b hb => ?_⟩
        · rw [hpart]
          exact mem_append_left _ hc
        · rw [hpart]
          exact .stepped hb hs
      · simp only [dif_neg hn]
        exact .inl ⟨_, rfl⟩

theorem parseNum_of_spells {a : Nat} (h : parseU32 t = some a) (hs : Solid t) :
    parseNum t spec = .ok a := by
  unfold parseNum
  rw [hs.trimmed, h]

theorem parseBounds_of_spells (spec : List Char) (min max : Nat) (h : SpellsBody t b)
    (hs : Solid t) (st : Option Nat) (hpos : 0 < st.getD 1) :
    parseBounds spec t (st.getD 1) min max =
      .ok ((⟨b, st⟩ : Item).first min, (⟨b, st⟩ : Item).pointed.last max) := by
  unfold parseBounds
  cases h with
  | star => rfl
  | @lone _ a h =>
    have hstar : t ≠ ['*'] := by
      intro ht
      exact not_mem_of_parseU32 h (c := '*') (by decide) (by decide) (ht ▸ mem_singleton_self _)
    have hdash : '-' ∉ t := not_mem_of_parseU32 h (by decide) (by decide)
    rw [if_neg hstar, splitOnce_none_iff.mpr hdash]
    simp only [parseNum_of_spells h hs]
    cases st with
    | none => rfl
    | some n =>
      by_cases hn : n = 1
      · subst hn
        rfl
      · have hn' : 1 < (some n).getD 1 := by
          have : 0 < n := hpos
          show 1 < n
          omega
        have hpointed : (⟨.lone a, some n⟩ : Item).pointed = ⟨.lone a, some n⟩ := by
          unfold Item.pointed
          split
          · rename_i heq
            cases heq
            exact absurd rfl hn
          · rfl
        show (if 1 < (some n).getD 1 then _ else _) = _
        rw [if_pos hn', hpointed]
        rfl
  | @range u v a b hu hv =>
    have hstar : u ++ '-' :: v ≠ ['*'] := by
      intro ht
      have hm : '-' ∈ u ++ '-' :: v := by simp
      rw [ht] at hm
      exact absurd hm (by decide)
    have hdash : '-' ∉ u := not_mem_of_parseU32 hu (by decide) (by decide)
    rw [if_neg hstar, splitOnce_some_iff.mpr ⟨rfl, hdash⟩]
    have hsu : Solid u := fun c hc => hs c (mem_append_left _ hc)
    have hsv : Solid v := fun c hc => hs c (mem_append_right _ (mem_cons_of_mem _ hc))
    simp only [parseNum_of_spells hu hsu, parseNum_of_spells hv hsv]
    rfl

theorem parseNum_cases (s field : List Char) (hs : Solid s) :
    (∃ e, parseNum s field = .error (.refused e)) ∨ ∃ a, parseU32 s = some a := by
  unfold parseNum
  rw [hs.trimmed]
  cases h : parseU32 s with
  | none => exact .inl ⟨_, rfl⟩
  | some a => exact .inr ⟨a, rfl⟩

theorem parseBounds_cases (spec : List Char) (step min max : Nat) (hs : Solid t) :
    (∃ e, parseBounds spec t step min max = .error (.refused e)) ∨ ∃ b, SpellsBody t b := by
  unfold parseBounds
  by_cases hstar : t = ['*']
  · exact .inr ⟨.star, hstar ▸ .star⟩
  · rw [if_neg hstar]
    cases hsplit : splitOnce '-' t with
    | none =>
      rcases parseNum_cases t spec hs with ⟨e, he⟩ | ⟨a, ha⟩
      · exact .inl ⟨e, by simp only [he]; rfl⟩
      · exact .inr ⟨.lone a, .lone ha⟩
    | some p =>
      obtain ⟨u, v⟩ := p
      obtain ⟨ht, -⟩ := splitOnce_some_iff.mp hsplit
      have hsu : Solid u := fun c hc => hs c (ht ▸ mem_append_left _ hc)
      have hsv : Solid v :=
        fun c hc => hs c (ht ▸ mem_append_right _ (mem_cons_of_mem _ hc))
      rcases parseNum_cases u spec hsu with ⟨e, he⟩ | ⟨a, ha⟩
      · exact .inl ⟨e, by simp only [he]; rfl⟩
      · rcases parseNum_cases v spec hsv with ⟨e, he⟩ | ⟨b, hb⟩
        · exact .inl ⟨e, by simp only [parseNum_of_spells ha hsu, he]; rfl⟩
        · exact .inr ⟨.range a b, ht ▸ .range ha hb⟩

theorem pointed_cases (i : Item) :
    i.pointed = i ∨ ∃ a, i = ⟨.lone a, some 1⟩ ∧ i.pointed = ⟨.lone a, none⟩ := by
  unfold Item.pointed
  split
  · exact .inr ⟨_, rfl, rfl⟩
  · exact .inl rfl

@[simp] theorem pointed_first (i : Item) (min : Nat) : i.pointed.first min = i.first min := by
  rcases pointed_cases i with h | ⟨a, hi, h⟩
  · rw [h]
  · rw [h, hi]
    rfl

@[simp] theorem pointed_stride (i : Item) : i.pointed.stride = i.stride := by
  rcases pointed_cases i with h | ⟨a, hi, h⟩
  · rw [h]
  · rw [h, hi]
    rfl

theorem Item.InRange.pointed (h : i.InRange min max) : i.pointed.InRange min max := by
  rcases pointed_cases i with hp | ⟨a, rfl, hp⟩
  · rw [hp]
    exact h
  · rw [hp]
    exact ⟨h.first, Nat.le_refl a, Nat.le_trans h.ordered h.last, Nat.one_pos⟩

theorem past_one {lo hi : Nat} (h : lo ≤ hi) : past lo hi 1 = hi + 1 := by
  unfold past
  omega

theorem pointed_overruns (h : i.InRange min max) (hmax : max + 1 < 2 ^ 32) :
    i.pointed.Overruns min max ↔ i.Overruns min max := by
  rcases pointed_cases i with hp | ⟨a, rfl, hp⟩
  · rw [hp]
  · have ha : a ≤ max := h.ordered
    show 2 ^ 32 ≤ past a a 1 ↔ 2 ^ 32 ≤ past a max 1
    rw [past_one (Nat.le_refl a), past_one ha]
    omega

variable {v : Nat}

theorem Item.Denotes.of_pointed (h : i.InRange min max) (hv : i.pointed.Denotes min max v) :
    i.Denotes min max v := by
  rcases pointed_cases i with hp | ⟨a, rfl, hp⟩
  · rwa [hp] at hv
  · rw [hp] at hv
    obtain ⟨hlow, hhigh, -⟩ := hv
    exact ⟨hlow, Nat.le_trans hhigh h.ordered, Nat.one_dvd _⟩

theorem parsePart_of_reads {set : Allowed (max + 1)} (h : ReadsItem min max t i) (hs : Solid t) :
    parsePart spec min max set t =
      fill set (i.first min) (i.pointed.last max) ⟨i.stride, h.2.stride⟩ := by
  obtain ⟨hspell, hrange⟩ := h
  have hbounds : ¬ (i.first min < min ∨ max < i.pointed.last max ∨
      i.pointed.last max < i.first min) := by
    have hp := hrange.pointed
    have hfirst := hrange.first
    have hl := hp.last
    have hordered := hp.ordered
    rw [pointed_first] at hordered
    omega
  unfold parsePart
  rw [hs.trimmed]
  simp only [if_neg hspell.ne_nil]
  cases hspell with
  | @plain _ b hb =>
    simp only [parseStep_plain hb]
    show (parseBounds spec t ((none : Option Nat).getD 1) min max >>= _) = _
    rw [parseBounds_of_spells spec min max hb hs none Nat.one_pos]
    show (if _ then _ else _) = _
    rw [if_neg hbounds]
    rfl
  | @stepped u v b n hb hv =>
    have hsu : Solid u := fun c hc => hs c (mem_append_left _ hc)
    have hn : 0 < n := hrange.stride
    simp only [parseStep_stepped hb hv hn]
    show (parseBounds spec u ((some n).getD 1) min max >>= _) = _
    rw [parseBounds_of_spells spec min max hb hsu (some n) hn]
    show (if _ then _ else _) = _
    rw [if_neg hbounds]
    rfl

theorem parsePart_cases (min max : Nat) (spec : List Char) (set : Allowed (max + 1)) (hs : Solid t) :
    (∃ e, parsePart spec min max set t = .error (.refused e)) ∨ ∃ i, ReadsItem min max t i := by
  unfold parsePart
  rw [hs.trimmed]
  by_cases hnil : t = []
  · exact .inl ⟨.emptyItem spec, by simp only [if_pos hnil]; rfl⟩
  simp only [if_neg hnil]
  rcases parseStep_cases spec t with ⟨e, he⟩ | ⟨r, step, st, hstep, hst, hm, hspell⟩
  · exact .inl ⟨e, by rw [he]; rfl⟩
  have hsr : Solid r := fun c hc => hs c (hm c hc)
  have hpos : 0 < st.getD 1 := hst ▸ step.property
  rcases parseBounds_cases spec step.val min max hsr with ⟨e, he⟩ | ⟨b, hb⟩
  · exact .inl ⟨e, by rw [hstep]; show (parseBounds spec r step.val min max >>= _) = _; rw [he]; rfl⟩
  have hbounds := parseBounds_of_spells spec min max hb hsr st hpos
  rw [hst] at hbounds
  by_cases hout : (⟨b, st⟩ : Item).first min < min ∨ max < (⟨b, st⟩ : Item).pointed.last max ∨
      (⟨b, st⟩ : Item).pointed.last max < (⟨b, st⟩ : Item).first min
  · refine .inl ⟨.outOfRange spec ((⟨b, st⟩ : Item).first min)
      ((⟨b, st⟩ : Item).pointed.last max) min max, ?_⟩
    rw [hstep]
    show (parseBounds spec r step.val min max >>= _) = _
    rw [hbounds]
    show (if _ then _ else _) = _
    rw [if_pos hout]
    rfl
  · refine .inr ⟨⟨b, st⟩, hspell b hb, ?_⟩
    push Not at hout
    obtain ⟨hfirst, hl, hordered⟩ := hout
    rcases pointed_cases ⟨b, st⟩ with hp | ⟨a, hi, hp⟩
    · rw [hp] at hl hordered
      exact ⟨hfirst, hordered, hl, hpos⟩
    · rw [hp] at hl
      rw [hi] at hfirst ⊢
      exact ⟨hfirst, hl, Nat.le_refl max, Nat.one_pos⟩

theorem parsePart_overflow {set : Allowed (max + 1)} (hmax : max + 1 < 2 ^ 32)
    (h : ReadsItem min max t i) (hs : Solid t) (ho : i.Overruns min max) :
    parsePart spec min max set t = .error .overflow := by
  have hp := (pointed_overruns h.2 hmax).mpr ho
  have hordered := h.2.pointed.ordered
  rw [parsePart_of_reads h hs]
  rw [Item.Overruns, pointed_first, pointed_stride] at hp
  rw [pointed_first] at hordered
  exact fill_overflow hordered hp

theorem parsePart_ok (spec : List Char) (set : Allowed (max + 1)) (hmax : max + 1 < 2 ^ 32)
    (h : ReadsItem min max t i) (hs : Solid t) (ho : ¬ i.Overruns min max) :
    ∃ set', parsePart spec min max set t = .ok set' ∧ ∀ v : Fin (max + 1), set'.get v = true ↔
      set.get v = true ∨ i.pointed.Denotes min max v.val := by
  have hp : ¬ i.pointed.Overruns min max := fun hp => ho ((pointed_overruns h.2 hmax).mp hp)
  rw [Item.Overruns, pointed_first, pointed_stride] at hp
  rw [parsePart_of_reads h hs]
  obtain ⟨set', hset', hm⟩ := fill_ok set ⟨i.stride, h.2.stride⟩ fun _ => Nat.lt_of_not_le hp
  refine ⟨set', hset', fun v => ?_⟩
  rw [hm v, Item.Denotes, pointed_first, pointed_stride]

theorem not_reaches_nil : ¬ Reaches [] := by
  rintro ⟨pre, c, suf, h, -, -⟩
  exact absurd h.symm (by simp)

theorem reaches_cons {c : Cell} {l : List Cell} :
    Reaches (c :: l) ↔ c.Overruns ∨ c.Fine ∧ Reaches l := by
  constructor
  · rintro ⟨pre, d, suf, h, hfine, hover⟩
    cases pre with
    | nil =>
      cases h
      exact .inl hover
    | cons c' pre =>
      cases h
      exact .inr ⟨hfine c mem_cons_self, pre, d, suf, rfl,
        fun d' hd' => hfine d' (mem_cons_of_mem _ hd'), hover⟩
  · rintro (hover | ⟨hc, pre, d, suf, rfl, hfine, hover⟩)
    · exact ⟨[], c, l, rfl, fun d hd => absurd hd not_mem_nil, hover⟩
    · exact ⟨c :: pre, d, suf, rfl, forall_mem_cons.mpr ⟨hc, hfine⟩, hover⟩

theorem reaches_append {l l' : List Cell} :
    Reaches (l ++ l') ↔ Reaches l ∨ (∀ c ∈ l, c.Fine) ∧ Reaches l' := by
  induction l with
  | nil => simp [not_reaches_nil]
  | cons c l ih =>
    rw [cons_append, reaches_cons, reaches_cons, ih, forall_mem_cons, and_or_left,
      or_assoc, and_assoc]

section
variable {parts : List (List Char)} {items : List Item} {set : Allowed (max + 1)}

theorem foldParts_ok (spec : List Char) (set : Allowed (max + 1)) (hmax : max + 1 < 2 ^ 32)
    (h : List.Forall₂ (ReadsItem min max) parts items)
    (hs : ∀ p ∈ parts, Solid p) (ho : ∀ i ∈ items, ¬ i.Overruns min max) :
    ∃ set', parts.foldlM (parsePart spec min max) set = .ok set' ∧
      ∀ v : Fin (max + 1), set'.get v = true ↔
        set.get v = true ∨ Named min max (items.map Item.pointed) v.val := by
  induction h generalizing set with
  | nil => exact ⟨set, rfl, fun v => by simp [Named]⟩
  | @cons p i parts items hp hrest ih =>
    obtain ⟨set₁, h₁, hmem₁⟩ := parsePart_ok spec set hmax hp
      (hs p mem_cons_self) (ho i mem_cons_self)
    obtain ⟨set₂, h₂, hmem₂⟩ := ih set₁ (fun q hq => hs q (mem_cons_of_mem _ hq))
      fun j hj => ho j (mem_cons_of_mem _ hj)
    refine ⟨set₂, ?_, fun v => ?_⟩
    · rw [foldlM_cons, h₁]
      exact h₂
    · rw [hmem₂ v, hmem₁ v, or_assoc]
      simp [Named]

theorem foldParts_overflow_iff (spec : List Char) (set : Allowed (max + 1))
    (hmax : max + 1 < 2 ^ 32) (hs : ∀ p ∈ parts, Solid p) :
    parts.foldlM (parsePart spec min max) set = .error .overflow ↔
      Reaches (parts.map (Cell.mk min max)) := by
  induction parts generalizing set with
  | nil =>
    refine iff_of_false (fun h => ?_) not_reaches_nil
    cases h
  | cons p parts ih =>
    have hp := hs p mem_cons_self
    have ih' := fun set₁ => ih set₁ fun q hq => hs q (mem_cons_of_mem _ hq)
    rw [foldlM_cons, map_cons, reaches_cons]
    by_cases hover : (Cell.mk min max p).Overruns
    · obtain ⟨i, hi, ho⟩ := hover
      rw [parsePart_overflow hmax hi hp ho]
      exact iff_of_true rfl (.inl ⟨i, hi, ho⟩)
    · rcases parsePart_cases min max spec set hp with ⟨e, he⟩ | ⟨i, hi⟩
      · rw [he]
        refine iff_of_false (fun h => ?_) ?_
        · cases h
        · rintro (h | ⟨⟨i, hi, ho⟩, -⟩)
          · exact hover h
          · obtain ⟨set', hset', -⟩ := parsePart_ok spec set hmax hi hp ho
            rw [he] at hset'
            cases hset'
      · have ho : ¬ i.Overruns min max := fun ho => hover ⟨i, hi, ho⟩
        obtain ⟨set', hset', -⟩ := parsePart_ok spec set hmax hi hp ho
        rw [hset']
        show parts.foldlM (parsePart spec min max) set' = _ ↔ _
        rw [ih' set']
        exact ⟨fun h => .inr ⟨⟨i, hi, ho⟩, h⟩, fun h => h.elim (absurd · hover) And.right⟩

theorem foldParts_reads {set' : Allowed (max + 1)} (hs : ∀ p ∈ parts, Solid p)
    (h : parts.foldlM (parsePart spec min max) set = .ok set') :
    ∃ items, List.Forall₂ (ReadsItem min max) parts items := by
  induction parts generalizing set with
  | nil => exact ⟨[], .nil⟩
  | cons p parts ih =>
    rw [foldlM_cons] at h
    rcases parsePart_cases min max spec set (hs p mem_cons_self) with
      ⟨e, he⟩ | ⟨i, hi⟩
    · rw [he] at h
      cases h
    · cases hp : parsePart spec min max set p with
      | error e =>
        rw [hp] at h
        cases h
      | ok set₁ =>
        rw [hp] at h
        obtain ⟨items, hitems⟩ := ih (fun q hq => hs q (mem_cons_of_mem _ hq)) h
        exact ⟨i :: items, .cons hi hitems⟩

theorem fine_iff : (∀ c ∈ parts.map (Cell.mk min max), c.Fine) ↔
    ∃ items, List.Forall₂ (ReadsItem min max) parts items ∧ ∀ i ∈ items, ¬ i.Overruns min max := by
  induction parts with
  | nil => simp
  | cons p parts ih =>
    rw [map_cons, forall_mem_cons, ih]
    constructor
    · rintro ⟨⟨i, hi, ho⟩, items, hitems, hfine⟩
      exact ⟨i :: items, .cons hi hitems, forall_mem_cons.mpr ⟨ho, hfine⟩⟩
    · rintro ⟨items, hitems, hfine⟩
      cases hitems with
      | cons hi hrest =>
        obtain ⟨ho, hfine⟩ := forall_mem_cons.mp hfine
        exact ⟨⟨_, hi, ho⟩, _, hrest, hfine⟩

theorem fine_or_reaches (h : List.Forall₂ (ReadsItem min max) parts items) :
    (∀ i ∈ items, ¬ i.Overruns min max) ∨ Reaches (parts.map (Cell.mk min max)) := by
  induction h with
  | nil => exact .inl fun i hi => absurd hi not_mem_nil
  | @cons p i parts items hp hrest ih =>
    rw [map_cons, reaches_cons]
    by_cases ho : i.Overruns min max
    · exact .inr (.inl ⟨i, hp, ho⟩)
    · rcases ih with ih | ih
      · exact .inl (forall_mem_cons.mpr ⟨ho, ih⟩)
      · exact .inr (.inr ⟨⟨i, hp, ho⟩, ih⟩)

end

variable {items : List Item}

theorem inRange_of_reads (h : ReadsField min max t items) : ∀ i ∈ items, i.InRange min max := by
  unfold ReadsField at h
  generalize t.splitOn ',' = parts at h
  induction h with
  | nil => exact fun i hi => absurd hi not_mem_nil
  | cons hp hrest ih => exact forall_mem_cons.mpr ⟨hp.2, ih⟩

theorem Named.le (hv : Named min max items v) (h : ∀ i ∈ items, i.InRange min max) : v ≤ max := by
  obtain ⟨i, hi, -, hl, -⟩ := hv
  exact Nat.le_trans hl (h i hi).last

theorem Named.of_pointed (hv : Named min max (items.map Item.pointed) v)
    (h : ∀ i ∈ items, i.InRange min max) :
    Named min max items v := by
  obtain ⟨j, hj, hv⟩ := hv
  obtain ⟨i, hi, rfl⟩ := mem_map.mp hj
  exact ⟨i, hi, hv.of_pointed (h i hi)⟩

theorem named_of_reads (h : ReadsField min max t items) : ∃ v, Named min max items v := by
  have hrange := inRange_of_reads h
  cases items with
  | nil => exact absurd (forall₂_nil_right_iff.mp h) (splitOn_ne_nil _ _)
  | cons i items =>
    have hi := hrange i mem_cons_self
    exact ⟨i.first min, i, mem_cons_self, Nat.le_refl _, hi.ordered, by simp⟩

theorem parseField_eq (hs : Solid t) (hne : t ≠ []) :
    parseField t min max =
      ((t.splitOn ',').foldlM (parsePart t min max) (Vector.replicate (max + 1) false)).map
        fun set => (set, decide (t ≠ ['*'])) := by
  unfold parseField
  rw [hs.trimmed]
  simp only [if_neg hne]
  cases (t.splitOn ',').foldlM (parsePart t min max) (.replicate (max + 1) false) with
  | error e | ok set => rfl

theorem parseField_overflow_iff (hmax : max + 1 < 2 ^ 32) (hs : Solid t) (hne : t ≠ []) :
    parseField t min max = .error .overflow ↔ Reaches (cellsOf min max t) := by
  rw [cellsOf, ← foldParts_overflow_iff t
    (.replicate (max + 1) false) hmax fun p hp => hs.of_mem_splitOn hp,
    parseField_eq hs hne]
  cases (t.splitOn ',').foldlM (parsePart t min max) (.replicate (max + 1) false) with
  | error e =>
    show Except.error e = Except.error Fault.overflow ↔ Except.error e = Except.error Fault.overflow
    simp
  | ok set =>
    refine iff_of_false (fun h => ?_) fun h => ?_
    · cases h
    · cases h

theorem spells_star (h : SpellsItem t i) : t = ['*'] ↔ i = ⟨.star, none⟩ := by
  constructor
  · intro ht
    cases h with
    | plain hb =>
      cases hb with
      | star => rfl
      | lone h =>
        rw [ht] at h
        exact absurd mem_cons_self (not_mem_of_parseU32 h (by decide) (by decide))
      | @range u v a b hu hv =>
        have hdash : '-' ∈ u ++ '-' :: v := by simp
        rw [ht] at hdash
        exact absurd hdash (by decide)
    | @stepped u v b n hb hv =>
      have hslash : '/' ∈ u ++ '/' :: v := by simp
      rw [ht] at hslash
      exact absurd hslash (by decide)
  · rintro rfl
    cases h with
    | plain hb =>
      cases hb
      rfl

theorem restricted_of_reads (h : ReadsField min max t items) :
    decide (t ≠ ['*']) = restricted items := by
  have hiff : t = ['*'] ↔ items = [⟨.star, none⟩] := by
    unfold ReadsField at h
    constructor
    · intro ht
      have hsplit : t.splitOn ',' = [['*']] := by
        rw [ht]
        exact splitOn_eq_singleton (by decide)
      rw [hsplit] at h
      obtain ⟨i, rest, hi, hrest, hitems⟩ := forall₂_cons_left_iff.mp h
      rw [forall₂_nil_left_iff.mp hrest, (spells_star hi.1).mp rfl] at hitems
      exact hitems
    · intro hitems
      rw [hitems] at h
      obtain ⟨p, rest, hp, hrest, hsplit⟩ := forall₂_cons_right_iff.mp h
      rw [forall₂_nil_right_iff.mp hrest, (spells_star hp.1).mpr rfl] at hsplit
      have hjoin : [','].intercalate (t.splitOn ',') = t := intercalate_splitOn ','
      rw [hsplit] at hjoin
      exact hjoin.symm
  exact decide_eq_decide.mpr (not_congr hiff)

theorem parseField_ok (hmax : max + 1 < 2 ^ 32) (hs : Solid t) (hne : t ≠ [])
    (h : ReadsField min max t items) :
    parseField t min max = .error .overflow ∨
      ∃ set, parseField t min max = .ok (set, restricted items) ∧
        ∀ v : Fin (max + 1), set.get v = true ↔ Named min max (items.map Item.pointed) v.val := by
  rcases fine_or_reaches h with hfine | hreaches
  · obtain ⟨set, hset, hm⟩ := foldParts_ok t (.replicate (max + 1) false)
      hmax h (fun p hp => hs.of_mem_splitOn hp) hfine
    refine .inr ⟨set, ?_, fun v => ?_⟩
    · rw [parseField_eq hs hne, hset, ← restricted_of_reads h]
      rfl
    · have hfalse : (Vector.replicate (max + 1) false).get v = false := Vector.getElem_replicate _
      rw [hm v, hfalse, or_iff_right Bool.false_ne_true]
  · exact .inl ((parseField_overflow_iff hmax hs hne).mpr hreaches)

theorem parseField_reads (hs : Solid t) (hne : t ≠ []) {r : Allowed (max + 1) × Bool}
    (h : parseField t min max = .ok r) : ∃ items, ReadsField min max t items := by
  rw [parseField_eq hs hne] at h
  cases hfold : (t.splitOn ',').foldlM (parsePart t min max) (.replicate (max + 1) false) with
  | error e =>
    rw [hfold] at h
    cases h
  | ok set => exact foldParts_reads (fun p hp => hs.of_mem_splitOn hp) hfold

end

theorem get_foldDows (set : Allowed 8) (w : Fin 7) :
    (foldDows set).get w = true ↔ ∃ v : Fin 8, set.get v = true ∧ v.val % 7 = w.val := by
  have hfold : ∀ (l : List (Fin 8)) (dows : Allowed 7),
      (l.foldl (fun dows i => if set.get i then dows.setIfInBounds (i.val % 7) true else dows)
        dows).get w = true ↔ dows.get w = true ∨ ∃ v ∈ l, set.get v = true ∧ v.val % 7 = w.val := by
    intro l
    induction l with
    | nil => simp
    | cons v l ih =>
      intro dows
      rw [foldl_cons, ih]
      by_cases hv : set.get v = true
      · rw [if_pos hv, get_setIfInBounds]
        simp only [mem_cons, exists_eq_or_imp, hv, true_and]
        tauto
      · rw [if_neg hv]
        simp [hv]
  have hfalse : (Vector.replicate 7 false).get w = false := Vector.getElem_replicate _
  unfold foldDows
  rw [hfold, hfalse, or_iff_right Bool.false_ne_true]
  simp

def Word (t : List Char) : Prop := Solid t ∧ t ≠ []

theorem parseField_fine_iff {min max : Nat} {t : List Char} (hmax : max + 1 < 2 ^ 32)
    (ht : Word t) : (∃ r, parseField t min max = .ok r) ↔ ∀ c ∈ cellsOf min max t, c.Fine := by
  rw [cellsOf, fine_iff]
  constructor
  · rintro ⟨r, hr⟩
    obtain ⟨items, hitems⟩ := parseField_reads ht.1 ht.2 hr
    refine ⟨items, hitems, ?_⟩
    rcases fine_or_reaches hitems with hfine | hreaches
    · exact hfine
    · rw [(parseField_overflow_iff hmax ht.1 ht.2).mpr hreaches] at hr
      cases hr
  · rintro ⟨items, hitems, hfine⟩
    obtain ⟨set, hset, -⟩ := foldParts_ok t (.replicate (max + 1) false)
      hmax hitems (fun p hp => ht.1.of_mem_splitOn hp) hfine
    refine ⟨(set, decide (t ≠ ['*'])), ?_⟩
    rw [parseField_eq ht.1 ht.2, hset]
    rfl

theorem field_overflow_iff {min max : Nat} {t : List Char} {γ : Type} {P : Prop}
    {g : Allowed (max + 1) × Bool → Except Fault γ} (hmax : max + 1 < 2 ^ 32) (ht : Word t)
    (hg : ∀ r, g r = .error .overflow ↔ P) : (parseField t min max >>= g) = .error .overflow ↔
      Reaches (cellsOf min max t) ∨ (∀ c ∈ cellsOf min max t, c.Fine) ∧ P := by
  rw [bind_error_iff, parseField_overflow_iff hmax ht.1 ht.2, ← parseField_fine_iff hmax ht]
  simp only [hg, exists_and_right]

theorem parseFields_overflow_iff (expr : List Char) {fs : List (List Char)}
    (hs : ∀ t ∈ fs, Word t) : parseFields expr fs = .error .overflow ↔ Reaches (cells fs) := by
  match fs with
  | [m, h, dom, mon, dow] =>
    simp only [forall_mem_cons] at hs
    obtain ⟨hm, hh, hdom, hmon, hdow, -⟩ := hs
    have hend : ∀ {P : Prop}, (P ↔ P ∨ (∀ c ∈ cellsOf 0 7 dow, c.Fine) ∧ False) := by
      intro P
      rw [and_false, or_false]
    unfold parseFields cells
    simp only [append_assoc, reaches_append]
    rw [hend (P := Reaches (cellsOf 0 7 dow))]
    refine field_overflow_iff (by decide) hm fun rm => ?_
    refine field_overflow_iff (by decide) hh fun rh => ?_
    refine field_overflow_iff (by decide) hdom fun rdom => ?_
    refine field_overflow_iff (by decide) hmon fun rmon => ?_
    refine field_overflow_iff (by decide) hdow fun rdow => ?_
    exact iff_of_false (by rintro ⟨⟩) not_false
  | [] | [_] | [_, _] | [_, _, _] | [_, _, _, _] | _ :: _ :: _ :: _ :: _ :: _ :: _ =>
    exact iff_of_false (by rintro ⟨⟩) not_reaches_nil

theorem words (expr : String) : ∀ t ∈ fields expr, Word t :=
  fun _ ht => solid_of_mem_splitWhitespace ht

theorem parse_overflow_iff (expr : String) :
    parse expr = .error .overflow ↔ Reaches (cells (fields expr)) :=
  parseFields_overflow_iff (trimmed expr.toList) (words expr)

variable {expr : String}

theorem parse_reads {c : Cron} (h : parse expr = .ok c) : ∃ e, Reads expr e := by
  have hwords := words expr
  have hparse : parseFields (trimmed expr.toList) (fields expr) = .ok c := h
  unfold Reads
  match hf : fields expr with
  | [m, h, dom, mon, dow] =>
    rw [hf] at hwords hparse
    simp only [forall_mem_cons] at hwords
    obtain ⟨hm, hh, hdom, hmon, hdow, -⟩ := hwords
    obtain ⟨rm, hrm, hparse⟩ := bind_ok_iff.mp hparse
    obtain ⟨rh, hrh, hparse⟩ := bind_ok_iff.mp hparse
    obtain ⟨rdom, hrdom, hparse⟩ := bind_ok_iff.mp hparse
    obtain ⟨rmon, hrmon, hparse⟩ := bind_ok_iff.mp hparse
    obtain ⟨rdow, hrdow, -⟩ := bind_ok_iff.mp hparse
    obtain ⟨minutes, hminutes⟩ := parseField_reads hm.1 hm.2 hrm
    obtain ⟨hours, hhours⟩ := parseField_reads hh.1 hh.2 hrh
    obtain ⟨doms, hdoms⟩ := parseField_reads hdom.1 hdom.2 hrdom
    obtain ⟨months, hmonths⟩ := parseField_reads hmon.1 hmon.2 hrmon
    obtain ⟨dows, hdows⟩ := parseField_reads hdow.1 hdow.2 hrdow
    exact ⟨⟨minutes, hours, doms, months, dows⟩, m, h, dom, mon, dow, rfl, hminutes, hhours, hdoms,
      hmonths, hdows⟩
  | [] | [_] | [_, _] | [_, _, _] | [_, _, _, _] | _ :: _ :: _ :: _ :: _ :: _ :: _ =>
    rw [hf] at hparse; cases hparse

theorem restricted_pointed (items : List Item) :
    restricted (items.map Item.pointed) = restricted items := by
  have hstar : ∀ i : Item, i.pointed = ⟨.star, none⟩ ↔ i = ⟨.star, none⟩ := by
    intro i
    rcases pointed_cases i with h | ⟨a, rfl, h⟩
    · rw [h]
    · rw [h]
      simp
  apply decide_eq_decide.mpr
  apply not_congr
  match items with
  | [] => simp
  | [i] => simp [hstar]
  | i :: j :: rest => simp

variable {e : Expression}

theorem matches_iff {c : Cron}
    (hm : ∀ v : Fin 60, c.minutes.get v = true ↔ Named 0 59 e.pointed.minutes v.val)
    (hh : ∀ v : Fin 24, c.hours.get v = true ↔ Named 0 23 e.pointed.hours v.val)
    (hdom : ∀ v : Fin 32, c.doms.get v = true ↔ Named 1 31 e.pointed.doms v.val)
    (hmon : ∀ v : Fin 13, c.months.get v = true ↔ Named 1 12 e.pointed.months v.val)
    (hdow : ∀ w : Fin 7, c.dows.get w = true ↔ ∃ v, Named 0 7 e.pointed.dows v ∧ v % 7 = w.val)
    (hrdom : c.domRestricted = restricted e.doms)
    (hrdow : c.dowRestricted = restricted e.dows) (t : DateTime) :
    c.matches t = true ↔ e.pointed.Holds t := by
  have hrule : e.pointed.DayRule t ↔ (match c.domRestricted, c.dowRestricted with
        | true, true => c.doms.get t.day || c.dows.get t.weekday
        | true, false => c.doms.get t.day
        | false, true => c.dows.get t.weekday
        | false, false => true) = true := by
    unfold Expression.DayRule
    simp only [pointed, restricted_pointed, ← hrdom, ← hrdow]
    simp only [pointed] at hdom hdow
    cases c.domRestricted with
    | true =>
      cases c.dowRestricted with
      | true => simp only [Bool.or_eq_true, hdom, hdow]
      | false => simp only [hdom]
    | false =>
      cases c.dowRestricted with
      | true => simp only [hdow]
      | false => simp
  unfold Cron.matches Expression.Holds Expression.OnDate
  rw [hrule, ← hm, ← hh, ← hmon]
  cases c.minutes.get t.minute <;> cases c.hours.get t.hour <;> cases c.months.get t.month <;>
    simp <;> rfl

theorem parse_of_reads (h : Reads expr e) :
    parse expr = .error .overflow ∨
      ∃ c, parse expr = .ok c ∧ ∀ t, c.matches t = true ↔ e.pointed.Holds t := by
  obtain ⟨m, h, dom, mon, dow, hf, hminutes, hhours, hdoms, hmonths, hdows⟩ := h
  have hwords := words expr
  have hparse : parse expr = parseFields (trimmed expr.toList) (fields expr) := rfl
  rw [hf] at hwords hparse
  simp only [forall_mem_cons] at hwords
  obtain ⟨hm, hh, hdom, hmon, hdow, -⟩ := hwords
  rw [hparse]
  -- A field that overflows ends the reading, whatever stands behind it.
  rcases parseField_ok (by decide) hm.1 hm.2 hminutes with ho | ⟨sm, hsm, mem_m⟩
  · exact .inl (bind_error_iff.mpr (.inl ho))
  rcases parseField_ok (by decide) hh.1 hh.2 hhours with ho | ⟨sh, hsh, mem_h⟩
  · exact .inl (bind_error_iff.mpr (.inr ⟨_, hsm, bind_error_iff.mpr (.inl ho)⟩))
  rcases parseField_ok (by decide) hdom.1 hdom.2 hdoms with ho | ⟨sdom, hsdom, mem_dom⟩
  · exact .inl (bind_error_iff.mpr (.inr ⟨_, hsm, bind_error_iff.mpr (.inr ⟨_, hsh,
      bind_error_iff.mpr (.inl ho)⟩)⟩))
  rcases parseField_ok (by decide) hmon.1 hmon.2 hmonths with ho | ⟨smon, hsmon, mem_mon⟩
  · exact .inl (bind_error_iff.mpr (.inr ⟨_, hsm, bind_error_iff.mpr (.inr ⟨_, hsh,
      bind_error_iff.mpr (.inr ⟨_, hsdom, bind_error_iff.mpr (.inl ho)⟩)⟩)⟩))
  rcases parseField_ok (by decide) hdow.1 hdow.2 hdows with ho | ⟨sdow, hsdow, mem_dow⟩
  · exact .inl (bind_error_iff.mpr (.inr ⟨_, hsm, bind_error_iff.mpr (.inr ⟨_, hsh,
      bind_error_iff.mpr (.inr ⟨_, hsdom, bind_error_iff.mpr (.inr ⟨_, hsmon,
        bind_error_iff.mpr (.inl ho)⟩)⟩)⟩)⟩))
  refine .inr ⟨_, bind_ok_iff.mpr ⟨_, hsm, bind_ok_iff.mpr ⟨_, hsh, bind_ok_iff.mpr ⟨_, hsdom,
    bind_ok_iff.mpr ⟨_, hsmon, bind_ok_iff.mpr ⟨_, hsdow, rfl⟩⟩⟩⟩⟩, ?_⟩
  refine matches_iff mem_m mem_h mem_dom mem_mon (fun w => ?_) rfl rfl
  rw [get_foldDows]
  constructor
  · rintro ⟨v, hv, hw⟩
    exact ⟨v.val, (mem_dow v).mp hv, hw⟩
  · rintro ⟨v, hv, hw⟩
    have hrange : ∀ i ∈ e.pointed.dows, i.InRange 0 7 := by
      intro j hj
      obtain ⟨i, hi, rfl⟩ := mem_map.mp hj
      exact (inRange_of_reads hdows i hi).pointed
    have hlt : v < 8 := Nat.lt_succ_of_le (hv.le hrange)
    exact ⟨⟨v, hlt⟩, (mem_dow ⟨v, hlt⟩).mpr hv, hw⟩

theorem mem_loadCrons {schedules : List (Schedules.Loaded × String)}
    {parsed : List (Schedules.Loaded × Schedules.Cron)} (h : loadCrons schedules = .ok parsed)
    {l : Schedules.Loaded} {cron : Schedules.Cron} (hl : (l, cron) ∈ parsed) :
    ∃ text e, (l, text) ∈ schedules ∧ Reads text e ∧ ∀ minute, cron minute = true ↔
      e.pointed.Holds (minute * 60 * DateTime.nanosPerSecond) := by
  induction schedules generalizing parsed with
  | nil =>
    cases h
    exact absurd hl not_mem_nil
  | cons s rest ih =>
    obtain ⟨l', text⟩ := s
    unfold loadCrons at h
    cases hp : parse text with
    | error f =>
      cases f with
      | overflow => simp [hp] at h
      | refused e =>
        simp only [hp] at h
        obtain ⟨text', e, hm, hr⟩ := ih h hl
        exact ⟨text', e, mem_cons_of_mem _ hm, hr⟩
    | ok c =>
      simp only [hp] at h
      cases hrest : loadCrons rest with
      | error f =>
        rw [hrest] at h
        cases h
      | ok parsed' =>
        rw [hrest] at h
        cases h
        rcases mem_cons.mp hl with heq | hl
        · cases heq
          obtain ⟨e, he⟩ := parse_reads hp
          rcases parse_of_reads he with hover | ⟨c', hc', hmatches⟩
          · rw [hp] at hover
            cases hover
          · rw [hp] at hc'
            cases hc'
            exact ⟨text, e, mem_cons_self, he, fun minute => hmatches _⟩
        · obtain ⟨text', e, hm, hr⟩ := ih hrest hl
          exact ⟨text', e, mem_cons_of_mem _ hm, hr⟩

theorem onDate_withClock (e : Expression) (t : DateTime) (h : Fin 24) (m : Fin 60) :
    e.OnDate (t.withClock h m) ↔ e.OnDate t := by
  unfold Expression.OnDate Expression.DayRule
  rw [DateTime.month_withClock, DateTime.day_withClock, DateTime.weekday_withClock]

theorem holds_of_pointed (hr : Reads expr e) {t : DateTime} (h : e.pointed.Holds t) :
    e.Holds t := by
  obtain ⟨m, h', dom, mon, dow, -, hminutes, hhours, hdoms, hmonths, hdows⟩ := hr
  obtain ⟨hm, hh, hmon, hrule⟩ := h
  refine ⟨hm.of_pointed (inRange_of_reads hminutes), hh.of_pointed (inRange_of_reads hhours),
    hmon.of_pointed (inRange_of_reads hmonths), ?_⟩
  have hdom : Named 1 31 e.pointed.doms t.day.val → Named 1 31 e.doms t.day.val :=
    fun h => h.of_pointed (inRange_of_reads hdoms)
  have hdow : (∃ v, Named 0 7 e.pointed.dows v ∧ v % 7 = t.weekday.val) →
      ∃ v, Named 0 7 e.dows v ∧ v % 7 = t.weekday.val := by
    rintro ⟨v, hv, hw⟩
    exact ⟨v, hv.of_pointed (inRange_of_reads hdows), hw⟩
  unfold Expression.DayRule at hrule ⊢
  have hrdom : restricted e.pointed.doms = restricted e.doms :=
    restricted_pointed e.doms
  have hrdow : restricted e.pointed.dows = restricted e.dows :=
    restricted_pointed e.dows
  split
  · simp_all only
    exact hrule.imp hdom hdow
  · simp_all only
  · simp_all only
  · trivial

theorem nothingLost_iff (hr : Reads expr e) :
    (∀ t, e.pointed.Holds t ↔ e.Holds t) ↔ e.NothingLost := by
  constructor
  · intro hsame
    by_cases hdate : ∃ t, e.OnDate t
    · obtain ⟨t₀, ht₀⟩ := hdate
      obtain ⟨m, h, dom, mon, dow, -, hminutes, hhours, -, -, -⟩ := hr
      obtain ⟨v₀, hv₀⟩ := named_of_reads hminutes
      obtain ⟨w₀, hw₀⟩ := named_of_reads hhours
      have hpick : ∀ t v w, e.OnDate t → Named 0 59 e.minutes v → Named 0 23 e.hours w →
          Named 0 59 e.pointed.minutes v ∧ Named 0 23 e.pointed.hours w ∧ e.pointed.OnDate t := by
        intro t v w ht hv hw
        have hv' : v < 60 := Nat.lt_succ_of_le (hv.le (inRange_of_reads hminutes))
        have hw' : w < 24 := Nat.lt_succ_of_le (hw.le (inRange_of_reads hhours))
        have hholds : e.Holds (t.withClock ⟨w, hw'⟩ ⟨v, hv'⟩) := by
          refine ⟨?_, ?_, (onDate_withClock e t _ _).mpr ht⟩
          · rw [DateTime.minute_withClock]
            exact hv
          · rw [DateTime.hour_withClock]
            exact hw
        obtain ⟨hm, hh, hd⟩ := (hsame _).mpr hholds
        rw [DateTime.minute_withClock] at hm
        rw [DateTime.hour_withClock] at hh
        exact ⟨hm, hh, (onDate_withClock e.pointed t _ _).mp hd⟩
      refine .inr ⟨fun v hv => ?_, fun w hw => ?_, fun t ht => ?_⟩
      · exact (hpick t₀ v w₀ ht₀ hv hw₀).1
      · exact (hpick t₀ v₀ w ht₀ hv₀ hw).2.1
      · exact (hpick t v₀ w₀ ht hv₀ hw₀).2.2
    · exact .inl fun t ht => hdate ⟨t, ht⟩
  · intro hlost t
    refine ⟨holds_of_pointed hr, fun h => ?_⟩
    rcases hlost with hn | ⟨hm, hh, hd⟩
    · exact absurd h.2.2 (hn t)
    · exact ⟨hm _ h.1, hh _ h.2.1, hd t h.2.2⟩

/-- An expression is read as it is meant exactly when no item that overruns is reached and
nothing is lost by reading `a/1` as `a`. -/
theorem parse_faithful_iff (expr : String) :
    Faithful expr ↔ ¬ Reaches (cells (fields expr)) ∧ ∀ e, Reads expr e → e.NothingLost := by
  constructor
  · intro h
    refine ⟨fun hreaches => h.computes ((parse_overflow_iff expr).mpr hreaches), fun e he => ?_⟩
    rcases parse_of_reads he with hover | ⟨c, hc, hmatches⟩
    · exact absurd hover h.computes
    · refine (nothingLost_iff he).mp fun t => ?_
      rw [← hmatches t]
      exact h.denotes c e hc he t
  · rintro ⟨hreaches, hlost⟩
    have hcomputes : parse expr ≠ .error .overflow :=
      fun h => hreaches ((parse_overflow_iff expr).mp h)
    refine ⟨hcomputes, ⟨fun ⟨c, hc⟩ => parse_reads hc, fun ⟨e, he⟩ => ?_⟩, fun c e hc he t => ?_⟩
    · rcases parse_of_reads he with hover | ⟨c, hc, -⟩
      · exact absurd hover hcomputes
      · exact ⟨c, hc⟩
    · rcases parse_of_reads he with hover | ⟨c', hc', hmatches⟩
      · exact absurd hover hcomputes
      · rw [hc'] at hc
        cases hc
        rw [hmatches t]
        exact (nothingLost_iff he).mpr (hlost e he) t

/-- `5/1` names the minutes from 5 on and is read as minute 5. -/
theorem not_faithful_step_one : ¬ Faithful "5/1 * * * *" := by
  intro h
  have hstar : ∀ {min max : Nat}, min ≤ max → ReadsField min max ['*'] [⟨.star, none⟩] := by
    intro min max hle
    exact .cons ⟨.plain .star, Nat.le_refl _, hle, Nat.le_refl _, Nat.one_pos⟩ .nil
  have hfive : ReadsField 0 59 ['5', '/', '1'] [⟨.lone 5, some 1⟩] := by
    have hspell : SpellsItem (['5'] ++ '/' :: ['1']) ⟨.lone 5, some 1⟩ :=
      .stepped (.lone (by decide)) (by decide)
    exact .cons ⟨hspell, by decide, by decide, by decide, by decide⟩ .nil
  have hreads : Reads "5/1 * * * *"
      ⟨[⟨.lone 5, some 1⟩], [⟨.star, none⟩], [⟨.star, none⟩], [⟨.star, none⟩], [⟨.star, none⟩]⟩ :=
    ⟨_, _, _, _, _, by decide, hfive, hstar (by decide), hstar (by decide), hstar (by decide),
      hstar (by decide)⟩
  rcases parse_of_reads hreads with hover | ⟨c, hc, hmatches⟩
  · exact h.computes hover
  · -- Six minutes past midnight, on the first day.
    have hmonth : (DateTime.month 360000000000).val = 1 := by decide
    have hholds : Expression.Holds ⟨[⟨.lone 5, some 1⟩], [⟨.star, none⟩], [⟨.star, none⟩],
        [⟨.star, none⟩], [⟨.star, none⟩]⟩ 360000000000 := by
      refine ⟨⟨_, mem_cons_self, ?_⟩, ⟨_, mem_cons_self, ?_⟩, ⟨_, mem_cons_self, ?_⟩, trivial⟩
      · exact ⟨by decide, by decide, Nat.one_dvd _⟩
      · exact ⟨by decide, by decide, Nat.one_dvd _⟩
      · rw [hmonth]
        exact ⟨by decide, by decide, Nat.one_dvd _⟩
    obtain ⟨⟨i, hi, hlow, hhigh, -⟩, -⟩ := (hmatches _).mp ((h.denotes c _ hc hreads _).mpr hholds)
    rw [mem_singleton.mp hi] at hhigh
    exact absurd hhigh (by decide)

end RatKingdom.Cron
