/-
What a payload search finds.

A payload search is a substring test on the compact JSON text.  For the text of one field,
`"key":"x"`, the theorem of this file is `contains_field`: in a flat object it is found only
at the field `key`.  Quotes inside a text are escaped, so the search cannot match inside a
value, and a value's closing quote is followed by `,` or `}` where a key's is followed by `:`.
What the search says about the field's own text depends on the escapes in it.
-/
import Mathlib.Data.List.TakeWhile
import RatKingdom.Core.Text

namespace RatKingdom.Core

open List

def escaped (s : String) : List Char := s.toList.flatMap escapeChar

def Plain (l : List Char) : Prop := ∀ c ∈ l, escapeChar c = [c]

instance decidablePlain (l : List Char) : Decidable (Plain l) :=
  List.decidableBAll (fun c => escapeChar c = [c]) l

theorem quoteText_toList (s : String) : (quoteText s).toList = '"' :: (escaped s ++ ['"']) := by
  simp [quoteText, escaped]

theorem hexDigit_ne_quote : ∀ n, n < 16 → hexDigit n ≠ '"' := by
  decide

/-- A character stands for itself, is an escaped quote, or becomes a backslash and something
without quotes. -/
theorem escapeChar_cases (c : Char) :
    (escapeChar c = [c] ∧ c ≠ '"' ∧ c ≠ '\\') ∨ escapeChar c = ['\\', '"'] ∨
      ∃ e, escapeChar c = '\\' :: e ∧ '"' ∉ e := by
  unfold escapeChar
  split
  · exact .inr (.inl rfl)
  rename_i hquote
  split
  · exact .inr (.inr ⟨_, rfl, by decide⟩)
  rename_i hslash
  split
  · exact .inr (.inr ⟨_, rfl, by decide⟩)
  split
  · exact .inr (.inr ⟨_, rfl, by decide⟩)
  split
  · exact .inr (.inr ⟨_, rfl, by decide⟩)
  split
  · exact .inr (.inr ⟨_, rfl, by decide⟩)
  split
  · exact .inr (.inr ⟨_, rfl, by decide⟩)
  split
  · rename_i hlow
    refine .inr (.inr ⟨_, rfl, ?_⟩)
    have hhigh := hexDigit_ne_quote (c.toNat / 16) (by omega)
    have hrest := hexDigit_ne_quote (c.toNat % 16) (by omega)
    simp only [mem_cons, not_mem_nil, or_false, not_or]
    exact ⟨by decide, by decide, by decide, hhigh.symm, hrest.symm⟩
  · exact .inl ⟨rfl, hquote, hslash⟩

namespace Plain

variable {l : List Char}

theorem no_quote (h : Plain l) : '"' ∉ l := fun hq => absurd (h _ hq) (by decide)

theorem no_slash (h : Plain l) : '\\' ∉ l := fun hs => absurd (h _ hs) (by decide)

theorem flatMap_eq (h : Plain l) : l.flatMap escapeChar = l := by
  induction l with
  | nil => rfl
  | cons c l ih =>
    rw [flatMap_cons, h c mem_cons_self,
      ih fun d hd => h d (mem_cons_of_mem _ hd), singleton_append]

theorem of_flatMap {k : List Char} (h : l.flatMap escapeChar = k) (hk : '\\' ∉ k) : Plain l := by
  intro c hc
  rcases escapeChar_cases c with ⟨he, -, -⟩ | he | ⟨e, he, -⟩
  · exact he
  all_goals exact absurd (h ▸ mem_flatMap.mpr ⟨c, hc, he ▸ mem_cons_self⟩) hk

end Plain

theorem escaped_prefix {k rest rest' : List Char} (hk : Plain k) {l : List Char}
    (h : k ++ '"' :: rest' <+: l.flatMap escapeChar ++ '"' :: rest) :
    l.flatMap escapeChar = k ∧ rest' <+: rest := by
  induction l generalizing k with
  | nil =>
    cases k with
    | nil => exact ⟨rfl, (cons_prefix_cons.mp h).2⟩
    | cons c k =>
      have hc := (cons_prefix_cons.mp h).1
      exact absurd (hc ▸ mem_cons_self) hk.no_quote
  | cons c l ih =>
    rw [flatMap_cons, append_assoc] at h
    have hslash : ∀ e : List Char, ¬ k ++ '"' :: rest' <+: '\\' :: e := by
      intro e h
      cases k with
      | nil => exact absurd (cons_prefix_cons.mp h).1 (by decide)
      | cons d k => exact hk.no_slash ((cons_prefix_cons.mp h).1 ▸ mem_cons_self)
    rcases escapeChar_cases c with ⟨he, hq, -⟩ | he | ⟨e, he, -⟩
    · rw [he, singleton_append] at h
      cases k with
      | nil => exact absurd (cons_prefix_cons.mp h).1.symm hq
      | cons d k =>
        obtain ⟨rfl, htail⟩ := cons_prefix_cons.mp h
        obtain ⟨hl, hrest⟩ := ih (fun c hc => hk c (mem_cons_of_mem _ hc)) htail
        rw [flatMap_cons, he, hl, singleton_append]
        exact ⟨rfl, hrest⟩
    all_goals
      rw [he] at h
      exact absurd h (hslash _)

/-- The name of a field: plain, and not beginning like what follows a closing quote. -/
structure Word (k : List Char) : Prop where
  plain : Plain k
  head : ∃ a rest, k = a :: rest ∧ a ≠ ':' ∧ a ≠ ',' ∧ a ≠ '\x7d'

def fieldText (k r : List Char) : List Char := '"' :: (k ++ '"' :: ':' :: r)

variable {k r rest : List Char}

theorem infix_skip {n e t : List Char} (he : '"' ∉ e) (h : '"' :: n <:+: e ++ t) :
    '"' :: n <:+: t := by
  induction e with
  | nil => exact h
  | cons c e ih =>
    rcases infix_cons_iff.mp h with h | h
    · exact absurd ((cons_prefix_cons.mp h).1 ▸ mem_cons_self) he
    · exact ih (fun hc => he (mem_cons_of_mem _ hc)) h

variable {c : Char}

theorem Word.not_closing (hk : Word k) (hc : c = ':' ∨ c = ',' ∨ c = '\x7d') :
    ¬ fieldText k r <+: '"' :: c :: rest := by
  obtain ⟨a, k', rfl, hcolon, hcomma, hbrace⟩ := hk.head
  intro h
  have ha := (cons_prefix_cons.mp (cons_prefix_cons.mp h).2).1
  rcases hc with rfl | rfl | rfl
  · exact hcolon ha
  · exact hcomma ha
  · exact hbrace ha

theorem Word.not_value (hk : Word k) (hc : c = ',' ∨ c = '\x7d') (l : List Char) :
    ¬ fieldText k r <+: '"' :: (l.flatMap escapeChar ++ '"' :: c :: rest) := by
  intro h
  have hcolon := (cons_prefix_cons.mp ( escaped_prefix hk.plain (cons_prefix_cons.mp h).2).2).1
  rcases hc with rfl | rfl
  all_goals exact absurd hcolon (by decide)

theorem text_skip (hk : Word k) (hc : c = ',' ∨ c = '\x7d') {l : List Char}
    (h : fieldText k r <:+: l.flatMap escapeChar ++ '"' :: c :: rest) :
    fieldText k r <:+: c :: rest := by
  induction l with
  | nil =>
    rcases infix_cons_iff.mp h with h | h
    · exact absurd h (hk.not_closing (.inr hc))
    · exact h
  | cons d l ih =>
    rw [flatMap_cons, append_assoc] at h
    rcases escapeChar_cases d with ⟨he, hq, -⟩ | he | ⟨e, he, hq⟩
    · rw [he] at h
      exact ih (infix_skip (by simpa using hq.symm) h)
    · rw [he] at h
      have h : fieldText k r <:+: '"' :: (l.flatMap escapeChar ++ '"' :: c :: rest) :=
        infix_skip (e := ['\\']) (by decide) h
      rcases infix_cons_iff.mp h with h | h
      · exact absurd h (hk.not_value hc l)
      · exact ih h
    · rw [he] at h
      refine ih (infix_skip (e := '\\' :: e) ?_ h)
      simpa using hq

def Value.Scalar : Value → Prop
  | .null => True
  | .bool _ => True
  | .number (.int _) => True
  | .string _ => True
  | _ => False

theorem quote_notin_int (i : Int) : '"' ∉ (toString i).toList := by
  have hnat : ∀ n : Nat, '"' ∉ n.repr.toList := by
    intro n h
    rw [Nat.toList_repr] at h
    exact absurd (Nat.isDigit_of_mem_toDigits (by decide) (by decide) h) (by decide)
  rw [Int.toString_eq_repr, Int.repr_eq_if]
  split
  · exact hnat _
  · rw [String.toList_append, mem_append, not_or]
    exact ⟨by decide, hnat _⟩

theorem Value.Scalar.cases {v : Value} (hv : v.Scalar) :
    '"' ∉ v.toText.toList ∨ ∃ s, v = .string s := by
  cases v with
  | null => exact .inl (by decide)
  | bool b =>
    cases b with
    | true | false => exact .inl (by decide)
  | number n =>
    cases n with
    | int i => exact .inl (quote_notin_int i)
    | float text => exact hv.elim
  | string s => exact .inr ⟨s, rfl⟩
  | array items | object fields => exact hv.elim

theorem value_skip (hk : Word k) (hc : c = ',' ∨ c = '\x7d') {v : Value}
    (hv : v.Scalar) (h : fieldText k r <:+: v.toText.toList ++ c :: rest) :
    fieldText k r <:+: c :: rest := by
  rcases hv.cases with hq | ⟨s, rfl⟩
  · exact infix_skip hq h
  · rw [Value.toText, quoteText_toList, cons_append, append_assoc] at h
    rcases infix_cons_iff.mp h with h | h
    · exact absurd h (hk.not_value hc s.toList)
    · exact text_skip hk hc h

theorem field_match (hk : Word k) (hc : c = ',' ∨ c = '\x7d') {name : List Char}
    (hn : Plain name) {v : Value} (hv : v.Scalar)
    (h : fieldText k r <:+: '"' :: (name ++ '"' :: ':' :: (v.toText.toList ++ c :: rest))) :
    (name = k ∧ r <+: v.toText.toList ++ c :: rest) ∨ fieldText k r <:+: c :: rest := by
  rcases infix_cons_iff.mp h with h | h
  · have hpre := (cons_prefix_cons.mp h).2
    rw [← hn.flatMap_eq] at hpre
    obtain ⟨hnk, hr⟩ := escaped_prefix hk.plain hpre
    rw [hn.flatMap_eq] at hnk
    exact .inl ⟨hnk, (cons_prefix_cons.mp hr).2⟩
  · have h : fieldText k r <:+: '"' :: ':' :: (v.toText.toList ++ c :: rest) :=
      infix_skip hn.no_quote h
    rcases infix_cons_iff.mp h with h | h
    · exact absurd h (hk.not_closing (.inl rfl))
    · exact .inr (value_skip hk hc hv (infix_skip (e := [':']) (by decide) h))

def Flat (fields : List (String × Value)) : Prop := ∀ f ∈ fields, Plain f.1.toList ∧ f.2.Scalar

theorem fields_match (hk : Word k) {fields : List (String × Value)} (hf : Flat fields)
    (h : fieldText k r <:+: (fieldsText fields).toList ++ ['\x7d']) :
    ∃ f ∈ fields, f.1.toList = k ∧
      ∃ c rest, (c = ',' ∨ c = '\x7d') ∧ r <+: f.2.toText.toList ++ c :: rest := by
  induction fields with
  | nil => exact absurd (infix_skip (e := ['\x7d']) (t := []) (by decide) h) (by simp)
  | cons f fields ih =>
    obtain ⟨name, v⟩ := f
    obtain ⟨hname, hv⟩ := hf _ mem_cons_self
    have hquote : (quoteText name).toList = '"' :: (name.toList ++ ['"']) := by
      rw [quoteText_toList, escaped, hname.flatMap_eq]
    cases fields with
    | nil =>
      simp only [fieldsText, String.toList_append, hquote, append_assoc, cons_append,
        nil_append] at h
      rcases field_match hk (.inr rfl) hname hv h with ⟨hn, hr⟩ | h
      · exact ⟨_, mem_cons_self, hn, _, _, .inr rfl, hr⟩
      · exact absurd (infix_skip (e := ['\x7d']) (t := []) (by decide) h) (by simp)
    | cons g fields =>
      simp only [fieldsText, String.toList_append, hquote, append_assoc, cons_append,
        nil_append] at h
      rcases field_match hk (.inl rfl) hname hv h with ⟨hn, hr⟩ | h
      · exact ⟨_, mem_cons_self, hn, _, _, .inl rfl, hr⟩
      · obtain ⟨f, hm, hfk⟩ := ih (fun f hf' => hf f (mem_cons_of_mem _ hf'))
          (infix_skip (e := [',']) (by decide) h)
        exact ⟨f, mem_cons_of_mem _ hm, hfk⟩

def fieldSearch (key x : String) : String := "\"" ++ key ++ "\":\"" ++ x ++ "\""

theorem fieldSearch_toList (key x : String) :
    (fieldSearch key x).toList = fieldText key.toList ('"' :: (x.toList ++ ['"'])) := by
  simp [fieldSearch, fieldText]

variable {fields : List (String × Value)} {key x : String}

theorem object_toText (fields : List (String × Value)) :
    (Value.object fields).toText = "\x7b" ++ fieldsText fields ++ "\x7d" := by
  rw [Value.toText]

theorem contains_field (hk : Word key.toList) (hf : Flat fields)
    (h : containsText (Value.object fields).toText (fieldSearch key x) = true) :
    ∃ s rest, (key, Value.string s) ∈ fields ∧ x.toList ++ ['"'] <+: escaped s ++ '"' :: rest := by
  have h := of_decide_eq_true h
  rw [fieldSearch_toList, object_toText, String.toList_append, String.toList_append,
    append_assoc] at h
  obtain ⟨⟨name, v⟩, hm, hn, c, rest, hc, hr⟩ :=
    fields_match hk hf (infix_skip (e := ['\x7b']) (by decide) h)
  cases String.toList_injective hn
  rcases (hf _ hm).2.cases with hq | ⟨s, rfl⟩
  · -- without quotes the value's text cannot begin as searched
    cases ht : v.toText.toList with
    | nil =>
      rw [ht] at hr
      rcases hc with rfl | rfl
      all_goals exact absurd (cons_prefix_cons.mp hr).1 (by decide)
    | cons d t =>
      rw [ht] at hr hq
      exact absurd ((cons_prefix_cons.mp hr).1 ▸ mem_cons_self) hq
  · refine ⟨s, c :: rest, hm, ?_⟩
    rw [Value.toText, quoteText_toList, cons_append, append_assoc] at hr
    exact (cons_prefix_cons.mp hr).2

theorem takeWhile_of_prefix {s : List Char} (hs : '"' ∉ s) {x rest : List Char}
    (h : x ++ ['"'] <+: s ++ '"' :: rest) : x.takeWhile (· ≠ '"') = s := by
  induction s generalizing x with
  | nil =>
    cases x with
    | nil => rfl
    | cons c x =>
      rw [(cons_prefix_cons.mp h).1]
      exact takeWhile_cons_of_neg (by decide)
  | cons c s ih =>
    cases x with
    | nil => exact absurd ((cons_prefix_cons.mp h).1 ▸ mem_cons_self) hs
    | cons d x =>
      obtain ⟨rfl, htail⟩ := cons_prefix_cons.mp h
      have hd : d ≠ '"' := fun he => hs (he ▸ mem_cons_self)
      rw [takeWhile_cons_of_pos (by simpa using hd), ih (fun hq => hs (mem_cons_of_mem _ hq)) htail]

theorem contains_field_plain {s : String} (hk : Word key.toList) (hf : Flat fields)
    (hone : ∀ v, (key, v) ∈ fields → v = .string s) (hs : Plain s.toList)
    (h : containsText (Value.object fields).toText (fieldSearch key x) = true) :
    x.toList.takeWhile (· ≠ '"') = s.toList := by
  obtain ⟨s', rest, hm, hpre⟩ := contains_field hk hf h
  cases hone _ hm
  unfold escaped at hpre
  rw [hs.flatMap_eq] at hpre
  exact takeWhile_of_prefix hs.no_quote hpre

theorem infix_fieldsText {f : String × Value} (hm : f ∈ fields) :
    (quoteText f.1 ++ ":" ++ f.2.toText).toList <:+: (fieldsText fields).toList := by
  induction fields with
  | nil => cases hm
  | cons g fields ih =>
    obtain ⟨name, v⟩ := g
    cases fields with
    | nil =>
      rw [mem_singleton.mp hm, fieldsText]
    | cons g fields =>
      have htail : (fieldsText ((name, v) :: g :: fields)).toList =
          (quoteText name ++ ":" ++ v.toText).toList ++ ',' :: (fieldsText (g :: fields)).toList := by
        rw [fieldsText]
        simp only [String.toList_append, append_assoc]
        rfl
      rw [htail]
      rcases mem_cons.mp hm with rfl | hm
      · exact (prefix_append _ _).isInfix
      · exact ((ih hm).trans (suffix_cons _ _).isInfix).trans (suffix_append _ _).isInfix

theorem mem_of_getStr {v : Value} {key x : String} (h : v.getStr key = some x) :
    ∃ fields, v = .object fields ∧ (key, Value.string x) ∈ fields := by
  obtain ⟨w, hw, hstr⟩ := Option.bind_eq_some_iff.mp h
  have hw' : w = .string x := by
    cases w with
    | string s =>
      cases hstr
      rfl
    | _ => cases hstr
  cases v with
  | object fields =>
    obtain ⟨f, hf, rfl⟩ := Option.map_eq_some_iff.mp hw
    have hkey : f.1 = key := by simpa using find?_some hf
    exact ⟨fields, rfl, hkey ▸ hw' ▸ mem_of_find?_eq_some hf⟩
  | _ => cases hw

theorem contains_of_field (hk : Plain key.toList) (hx : Plain x.toList)
    (hm : (key, Value.string x) ∈ fields) :
    containsText (Value.object fields).toText (fieldSearch key x) = true := by
  apply decide_eq_true
  have htext : (quoteText key ++ ":" ++ (Value.string x).toText).toList =
      (fieldSearch key x).toList := by
    rw [fieldSearch_toList, Value.toText]
    simp [quoteText_toList, escaped, hk.flatMap_eq, hx.flatMap_eq, fieldText]
  have hfields := infix_fieldsText hm
  dsimp only at hfields
  rw [htext] at hfields
  rw [object_toText, String.toList_append, String.toList_append]
  exact hfields.trans ((suffix_append _ _).isInfix.trans (prefix_append _ _).isInfix)

theorem contains_field_iff {s : String} (hk : Word key.toList) (hf : Flat fields)
    (hm : (key, Value.string s) ∈ fields) (hone : ∀ v, (key, v) ∈ fields → v = .string s)
    (hs : Plain s.toList) (hx : Plain x.toList) :
    containsText (Value.object fields).toText (fieldSearch key x) = true ↔ s = x := by
  constructor
  · intro h
    have hall : x.toList.takeWhile (· ≠ '"') = x.toList :=
      takeWhile_eq_self_iff.mpr fun c hc =>
        decide_eq_true fun he => hx.no_quote (he ▸ hc)
    have htake := contains_field_plain hk hf hone hs h
    rw [hall] at htake
    exact (String.toList_injective htake).symm
  · rintro rfl
    exact contains_of_field hk.plain hs hm

end RatKingdom.Core
