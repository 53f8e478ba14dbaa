/-
What the keyed patterns find in any payload.

`Pattern::for_commit` and its siblings search the payload's text for `"key":"x"`.  Such a text
stands exactly where a field is written, at any depth, whose name is the key or ends in a quote
and the key, and whose value is written on as `x` and a quote (`contains_iff_written`).  So a
pattern means equality of the top-level field exactly where no other field is written so and
the text looked for needs no escape (`keyed_iff`).
-/
import RatKingdom.Core.Search
import RatKingdom.Core.Ulid

namespace RatKingdom.Core

open List

/-- A float is written in digits, with a sign, a point and an exponent. -/
def Number.Decimal : Number → Prop
  | .int _ => True
  | .float text => ∀ c ∈ text.toList, c.isDigit = true ∨ c ∈ ['+', '-', '.', 'e']

mutual
def Value.Decimal : Value → Prop
  | .null => True
  | .bool _ => True
  | .number n => n.Decimal
  | .string _ => True
  | .array items => itemsDecimal items
  | .object fields => fieldsDecimal fields

def itemsDecimal : List Value → Prop
  | [] => True
  | v :: items => v.Decimal ∧ itemsDecimal items

def fieldsDecimal : List (String × Value) → Prop
  | [] => True
  | (_, v) :: fields => v.Decimal ∧ fieldsDecimal fields
end

def moreItems : List Value → List Char
  | [] => []
  | items => ',' :: (itemsText items).toList

def moreFields : List (String × Value) → List Char
  | [] => []
  | fields => ',' :: (fieldsText fields).toList

/-- A field of a document, and the text behind its value. -/
structure Site where
  name : String
  value : Value
  after : List Char

mutual
def sites : Value → List Char → List Site
  | .null, _ => []
  | .bool _, _ => []
  | .number _, _ => []
  | .string _, _ => []
  | .array items, after => itemSites items (']' :: after)
  | .object fields, after => fieldSites fields ('\x7d' :: after)

def itemSites : List Value → List Char → List Site
  | [], _ => []
  | v :: items, after => sites v (moreItems items ++ after) ++ itemSites items after

def fieldSites : List (String × Value) → List Char → List Site
  | [], _ => []
  | (name, v) :: fields, after =>
    { name, value := v, after := moreFields fields ++ after } ::
      (sites v (moreFields fields ++ after) ++ fieldSites fields after)
end

/-- The name of a field that follows no closing quote. -/
structure KeyWord (k : List Char) : Prop extends Word k where
  bracket : ∀ rest, k ≠ ']' :: rest

/-- What may be written behind a value. -/
def Stops (l : List Char) : Prop := ∀ c rest, l = c :: rest → c = ',' ∨ c = ']' ∨ c = '\x7d'

variable {k r : List Char}

theorem fieldText_skip {e t : List Char} (he : '"' ∉ e) :
    fieldText k r <:+: e ++ t ↔ fieldText k r <:+: t :=
  ⟨infix_skip he, fun h => h.trans (suffix_append e t).isInfix⟩

theorem fieldText_skip_cons {c : Char} {t : List Char} (hc : '"' ≠ c) :
    fieldText k r <:+: c :: t ↔ fieldText k r <:+: t :=
  fieldText_skip (e := [c]) (by simpa using hc)

theorem eq_quote_of_escape {c : Char} (h : escapeChar c = ['\\', '"']) : c = '"' := by
  by_contra hc
  rw [escapeChar, if_neg hc] at h
  split_ifs at h with hslash
  · exact absurd h (by decide)
  · exact absurd h (by decide)
  · exact absurd h (by decide)
  · exact absurd h (by decide)
  · exact absurd h (by decide)
  · exact absurd h (by decide)
  all_goals exact absurd (congrArg List.length h) (by simp)

variable {after : List Char}

theorem KeyWord.not_at_close (hk : KeyWord k) (ha : Stops after ∨ ∃ rest, after = ':' :: rest) :
    ¬ fieldText k r <+: '"' :: after := by
  intro h
  have htail := (cons_prefix_cons.mp h).2
  obtain ⟨a, k', rfl, hcolon, hcomma, hbrace⟩ := hk.head
  cases after with
  | nil => exact absurd (prefix_nil.mp htail) (by simp)
  | cons c rest =>
    have hac : a = c := (cons_prefix_cons.mp htail).1
    rcases ha with ha | ⟨rest', ha⟩
    · rcases ha c rest rfl with hc | hc | hc
      · exact hcomma (hac.trans hc)
      · exact hk.bracket k' (by rw [hac, hc])
      · exact hbrace (hac.trans hc)
    · cases ha
      exact hcolon hac

theorem KeyWord.at_open (hk : KeyWord k) (l after : List Char) :
    fieldText k r <+: '"' :: (l.flatMap escapeChar ++ '"' :: after) ↔ k = l ∧ ':' :: r <+: after := by
  constructor
  · intro h
    obtain ⟨hl, hr⟩ := escaped_prefix hk.plain (cons_prefix_cons.mp h).2
    have hplain := Plain.of_flatMap hl hk.plain.no_slash
    rw [hplain.flatMap_eq] at hl
    exact ⟨hl.symm, hr⟩
  · rintro ⟨rfl, hr⟩
    rw [hk.plain.flatMap_eq]
    obtain ⟨t, rfl⟩ := hr
    exact ⟨t, by simp [fieldText]⟩

theorem KeyWord.inside (hk : KeyWord k) (ha : Stops after ∨ ∃ rest, after = ':' :: rest)
    (l : List Char) :
    fieldText k r <:+: l.flatMap escapeChar ++ '"' :: after ↔
      ('"' :: k <:+ l ∧ ':' :: r <+: after) ∨ fieldText k r <:+: after := by
  induction l with
  | nil =>
    rw [flatMap_nil, nil_append, infix_cons_iff, or_iff_right (hk.not_at_close ha)]
    simp
  | cons d l ih =>
    rw [flatMap_cons, append_assoc, suffix_cons_iff]
    rcases escapeChar_cases d with ⟨he, hq, -⟩ | he | ⟨e, he, hq⟩
    · have hd : '"' :: k ≠ d :: l := fun h => hq (List.cons.inj h).1.symm
      rw [he, fieldText_skip (by simpa using hq.symm), or_iff_right hd]
      exact ih
    · have hd := eq_quote_of_escape he
      subst hd
      show fieldText k r <:+: '\\' :: '"' :: (l.flatMap escapeChar ++ '"' :: after) ↔ _
      rw [fieldText_skip_cons (by decide), infix_cons_iff, hk.at_open, ih, cons_inj_right,
        or_and_right, or_assoc]
    · have hd : '"' :: k ≠ d :: l := by
        intro h
        rw [← (List.cons.inj h).1] at he
        have hm : '"' ∈ escapeChar '"' := by decide
        rw [he] at hm
        rcases mem_cons.mp hm with hm | hm
        · exact absurd hm (by decide)
        · exact hq hm
      rw [he, fieldText_skip (by simpa using hq), or_iff_right hd]
      exact ih

theorem KeyWord.text (hk : KeyWord k) {after : List Char}
    (ha : Stops after ∨ ∃ rest, after = ':' :: rest) (s : String) :
    fieldText k r <:+: (quoteText s).toList ++ after ↔
      ('"' :: k <:+ '"' :: s.toList ∧ ':' :: r <+: after) ∨ fieldText k r <:+: after := by
  rw [quoteText_toList, cons_append, append_assoc, escaped]
  show fieldText k r <:+: '"' :: (s.toList.flatMap escapeChar ++ '"' :: after) ↔ _
  rw [infix_cons_iff, hk.at_open, hk.inside ha, suffix_cons_iff, cons_inj_right,
    or_and_right, or_assoc]

/-- The site of a field searched for, its value written on as `r`. -/
def Hit (k r : List Char) (s : Site) : Prop :=
  '"' :: k <:+ '"' :: s.name.toList ∧ r <+: s.value.toText.toList ++ s.after

theorem itemsText_cons (v : Value) (items : List Value) :
    (itemsText (v :: items)).toList = v.toText.toList ++ moreItems items := by
  cases items with
  | nil => simp [itemsText, moreItems]
  | cons w items =>
    rw [itemsText]
    simp [moreItems]

theorem fieldsText_cons (name : String) (v : Value) (fields : List (String × Value)) :
    (fieldsText ((name, v) :: fields)).toList =
      (quoteText name).toList ++ ':' :: (v.toText.toList ++ moreFields fields) := by
  cases fields with
  | nil => simp [fieldsText, moreFields]
  | cons f fields =>
    rw [fieldsText]
    simp [moreFields]

theorem stops_more {items : List Value} (ha : Stops after) : Stops (moreItems items ++ after) := by
  cases items with
  | nil => exact ha
  | cons v items =>
    intro c rest h
    exact .inl (List.cons.inj h).1.symm

theorem stops_moreFields {fields : List (String × Value)} (ha : Stops after) :
    Stops (moreFields fields ++ after) := by
  cases fields with
  | nil => exact ha
  | cons f fields =>
    intro c rest h
    exact .inl (List.cons.inj h).1.symm

theorem infix_moreItems (items : List Value) (after : List Char) :
    fieldText k r <:+: moreItems items ++ after ↔
      fieldText k r <:+: (itemsText items).toList ++ after := by
  cases items with
  | nil => exact .rfl
  | cons v items => exact fieldText_skip_cons (by decide)

theorem infix_moreFields (fields : List (String × Value)) (after : List Char) :
    fieldText k r <:+: moreFields fields ++ after ↔
      fieldText k r <:+: (fieldsText fields).toList ++ after := by
  cases fields with
  | nil => exact .rfl
  | cons f fields => exact fieldText_skip_cons (by decide)

theorem Number.Decimal.no_quote {n : Number} (h : n.Decimal) : '"' ∉ n.toText.toList := by
  cases n with
  | int i => exact quote_notin_int i
  | float text =>
    intro hq
    rcases h '"' hq with hd | hd
    · exact absurd hd (by decide)
    · exact absurd hd (by decide)

mutual
/-- A field searched for begins at one of the sites of a value, or behind the value. -/
theorem value_sites (hk : KeyWord k) : ∀ (v : Value) (after : List Char), v.Decimal →
    Stops after → (fieldText k r <:+: v.toText.toList ++ after ↔
      (∃ s ∈ sites v after, Hit k r s) ∨ fieldText k r <:+: after)
  | .null, after, _, _ => by
    rw [Value.toText, fieldText_skip (by decide)]
    simp [sites]
  | .bool b, after, _, _ => by
    have hq : '"' ∉ (Value.bool b).toText.toList := by cases b <;> decide
    rw [fieldText_skip hq]
    simp [sites]
  | .number n, after, hd, _ => by
    rw [Value.toText, fieldText_skip (Number.Decimal.no_quote hd)]
    simp [sites]
  | .string s, after, _, ha => by
    have hcolon : ¬ ':' :: r <+: after := by
      intro h
      cases after with
      | nil => exact absurd (prefix_nil.mp h) (by simp)
      | cons c rest =>
        have hc := (cons_prefix_cons.mp h).1
        rcases ha c rest rfl with h' | h' | h'
        all_goals exact absurd (hc.trans h') (by decide)
    rw [Value.toText, hk.text (.inl ha)]
    simp [sites, hcolon]
  | .array items, after, hd, ha => by
    have ha' : Stops (']' :: after) := fun c rest h => .inr (.inl (List.cons.inj h).1.symm)
    have htext : (Value.array items).toText.toList ++ after =
        '[' :: ((itemsText items).toList ++ ']' :: after) := by
      rw [Value.toText]
      simp
    rw [htext, fieldText_skip_cons (by decide), items_sites hk items (']' :: after) hd ha',
      fieldText_skip_cons (by decide)]
    rfl
  | .object fields, after, hd, ha => by
    have ha' : Stops ('\x7d' :: after) := fun c rest h => .inr (.inr (List.cons.inj h).1.symm)
    have htext : (Value.object fields).toText.toList ++ after =
        '\x7b' :: ((fieldsText fields).toList ++ '\x7d' :: after) := by
      rw [Value.toText]
      simp
    rw [htext, fieldText_skip_cons (by decide), fields_sites hk fields ('\x7d' :: after) hd ha',
      fieldText_skip_cons (by decide)]
    rfl

theorem items_sites (hk : KeyWord k) : ∀ (items : List Value) (after : List Char),
    itemsDecimal items → Stops after → (fieldText k r <:+: (itemsText items).toList ++ after ↔
      (∃ s ∈ itemSites items after, Hit k r s) ∨ fieldText k r <:+: after)
  | [], after, _, _ => by simp [itemsText, itemSites]
  | v :: items, after, hd, ha => by
    rw [itemsText_cons, append_assoc, value_sites hk v _ hd.1 (stops_more ha), infix_moreItems,
      items_sites hk items after hd.2 ha]
    simp only [itemSites, mem_append, or_and_right, exists_or, or_assoc]

theorem fields_sites (hk : KeyWord k) : ∀ (fields : List (String × Value)) (after : List Char),
    fieldsDecimal fields → Stops after → (fieldText k r <:+: (fieldsText fields).toList ++ after ↔
      (∃ s ∈ fieldSites fields after, Hit k r s) ∨ fieldText k r <:+: after)
  | [], after, _, _ => by simp [fieldsText, fieldSites]
  | (name, v) :: fields, after, hd, ha => by
    have hcolon : ∀ t : List Char, ':' :: r <+: ':' :: t ↔ r <+: t := fun t => by
      rw [cons_prefix_cons, and_iff_right rfl]
    rw [fieldsText_cons, append_assoc, cons_append, append_assoc,
      hk.text (.inr ⟨_, rfl⟩), hcolon, fieldText_skip_cons (by decide),
      value_sites hk v _ hd.1 (stops_moreFields ha), infix_moreFields,
      fields_sites hk fields after hd.2 ha]
    simp only [fieldSites, mem_cons, mem_append, or_and_right, exists_or, or_assoc, exists_eq_left]
    rfl
end

def Site.Proper (s : Site) : Prop := s.value.Decimal ∧ Stops s.after

mutual
theorem sites_proper : ∀ (v : Value) (after : List Char), v.Decimal → Stops after →
    ∀ s ∈ sites v after, s.Proper
  | .null, _, _, _ | .bool _, _, _, _ | .number _, _, _, _ | .string _, _, _, _ => by simp [sites]
  | .array items, after, hd, _ =>
    itemSites_proper items (']' :: after) hd fun _ _ h => .inr (.inl (List.cons.inj h).1.symm)
  | .object fields, after, hd, _ =>
    fieldSites_proper fields ('\x7d' :: after) hd fun _ _ h => .inr (.inr (List.cons.inj h).1.symm)

theorem itemSites_proper : ∀ (items : List Value) (after : List Char), itemsDecimal items →
    Stops after → ∀ s ∈ itemSites items after, s.Proper
  | [], _, _, _ => by simp [itemSites]
  | v :: items, after, hd, ha => by
    exact forall_mem_append.mpr
      ⟨sites_proper v _ hd.1 (stops_more ha), itemSites_proper items after hd.2 ha⟩

theorem fieldSites_proper : ∀ (fields : List (String × Value)) (after : List Char),
    fieldsDecimal fields → Stops after → ∀ s ∈ fieldSites fields after, s.Proper
  | [], _, _, _ => by simp [fieldSites]
  | (name, v) :: fields, after, hd, ha => by
    intro s hs
    rcases mem_cons.mp hs with rfl | hs
    · exact ⟨hd.1, stops_moreFields ha⟩
    · rcases mem_append.mp hs with hs | hs
      · exact sites_proper v _ hd.1 (stops_moreFields ha) s hs
      · exact fieldSites_proper fields after hd.2 ha s hs
end

variable {v : Value}

theorem quote_prefix_iff {x : List Char} (hd : v.Decimal) (ha : Stops after) :
    '"' :: x <+: v.toText.toList ++ after ↔
      ∃ text, v = .string text ∧ x <+: escaped text ++ '"' :: after := by
  have hno : ∀ t : List Char, '"' ∉ t → ¬ '"' :: x <+: t ++ after := by
    intro t ht h
    cases t with
    | nil =>
      cases after with
      | nil => exact absurd (prefix_nil.mp h) (by simp)
      | cons c rest =>
        have hc := (cons_prefix_cons.mp h).1
        rcases ha c rest rfl with h' | h' | h'
        all_goals exact absurd (hc.trans h') (by decide)
    | cons c t => exact ht ((cons_prefix_cons.mp h).1 ▸ mem_cons_self)
  have hhead : ∀ (c : Char) (t : List Char), '"' ≠ c → ¬ '"' :: x <+: c :: t :=
    fun c t hc h => hc (cons_prefix_cons.mp h).1
  cases v with
  | null => exact iff_of_false (hno _ (by decide)) (by simp)
  | bool b => exact iff_of_false (hno _ (by cases b <;> decide)) (by simp)
  | number n =>
    exact iff_of_false (hno _ (Number.Decimal.no_quote hd)) (by simp)
  | string s =>
    rw [Value.toText, quoteText_toList, cons_append, append_assoc, cons_prefix_cons]
    simp
  | array items =>
    rw [Value.toText, String.toList_append, String.toList_append, append_assoc, append_assoc]
    exact iff_of_false (hhead '[' _ (by decide)) (by simp)
  | object fields =>
    rw [object_toText, String.toList_append, String.toList_append, append_assoc, append_assoc]
    exact iff_of_false (hhead '\x7b' _ (by decide)) (by simp)

/-- A field at any depth, named as searched or with a quote before, is written as searched. -/
def Written (v : Value) (key x : String) : Prop :=
  ∃ s ∈ sites v [], '"' :: key.toList <:+ '"' :: s.name.toList ∧
    ∃ text, s.value = .string text ∧ x.toList ++ ['"'] <+: escaped text ++ '"' :: s.after

variable {key : String}

theorem contains_iff_written (hk : KeyWord key.toList) (hd : v.Decimal) (x : String) :
    containsText v.toText (fieldSearch key x) = true ↔ Written v key x := by
  have hstop : Stops [] := nofun
  have hsites := value_sites (r := '"' :: (x.toList ++ ['"'])) hk v [] hd hstop
  rw [append_nil, ← fieldSearch_toList] at hsites
  have hnil : ¬ (fieldSearch key x).toList <:+: [] := by
    rw [fieldSearch_toList]
    exact fun h => absurd (infix_nil.mp h) (by simp [fieldText])
  rw [or_iff_left hnil] at hsites
  unfold containsText Written
  rw [decide_eq_true_eq, hsites]
  refine exists_congr fun s => and_congr_right fun hs => and_congr_right fun _ => ?_
  have hproper := sites_proper v [] hd hstop s hs
  exact quote_prefix_iff hproper.1 hproper.2

def Pattern.forSpawn (category : Category) (identity : String) (spawn : RecordId) : Pattern :=
  { category := some category, identity := some identity
    payloadSearch := some ("\"spawn\":\"" ++ spawn.toText ++ "\"") }

def Pattern.forWorkflowInstance (category : Category) (identity instanceId : String) : Pattern :=
  { category := some category, identity := some identity
    payloadSearch := some ("\"instance\":\"" ++ instanceId ++ "\"") }

def Pattern.forCommit (category : Category) (identity branch sha : String) : Pattern :=
  { category := some category, identity := some identity
    payloadSearch := some ("\"head_sha\":\"" ++ sha ++ "\"")
    payloadSearchAnd := some ("\"branch\":\"" ++ branch ++ "\"") }

/-- A pattern matches what is addressed to it with the texts in its top-level fields. -/
def Means (p : Pattern) (category : Category) (identity : String) (keys : List (String × String))
    (t : Tuple) : Prop :=
  p.matches t = true ↔ t.category = category ∧ t.identity = identity ∧
    ∀ f ∈ keys, t.payload.getStr f.1 = some f.2

/-- What is written as searched stands in the top-level fields, and a text that stands there
needs no escape, or is written as searched elsewhere. -/
def Exact (v : Value) (keys : List (String × String)) : Prop :=
  ((∀ f ∈ keys, Written v f.1 f.2) → ∀ f ∈ keys, v.getStr f.1 = some f.2) ∧
    ((∀ f ∈ keys, v.getStr f.1 = some f.2) → ∀ f ∈ keys, Plain f.2.toList ∨ Written v f.1 f.2)

theorem top_site {fields : List (String × Value)} {f : String × Value} (hf : f ∈ fields)
    (after : List Char) : ∃ s ∈ fieldSites fields after, s.name = f.1 ∧ s.value = f.2 := by
  induction fields with
  | nil => cases hf
  | cons g fields ih =>
    rcases mem_cons.mp hf with rfl | hf
    · exact ⟨_, mem_cons_self, rfl, rfl⟩
    · obtain ⟨s, hs, hn⟩ := ih hf
      exact ⟨s, mem_cons_of_mem _ (mem_append_right _ hs), hn⟩

theorem written_of_getStr {x : String} (hx : Plain x.toList) (h : v.getStr key = some x) :
    Written v key x := by
  obtain ⟨fields, rfl, hf⟩ := mem_of_getStr h
  obtain ⟨s, hs, hn, hvalue⟩ := top_site hf ['\x7d']
  refine ⟨s, hs, ?_, x, hvalue, ?_⟩
  · rw [hn]
  · rw [escaped, hx.flatMap_eq]
    exact ⟨s.after, by simp⟩

theorem crockfordDigit_mem (d : Nat) : crockfordDigit d ∈ crockford := by
  unfold crockfordDigit
  rw [getD_eq_getElem?_getD]
  cases h : crockford[d]? with
  | none => decide
  | some c => exact mem_of_getElem? h

theorem plain_spawn (spawn : RecordId) : Plain spawn.toText.toList := by
  have hdigits : (crockford.all fun c => decide (escapeChar c = [c])) = true := by decide
  have hdigit : ∀ c ∈ crockford, escapeChar c = [c] := fun c hc =>
    of_decide_eq_true (all_eq_true.mp hdigits c hc)
  have hall : ∀ width n, Plain (Lib.digits 32 crockfordDigit width n) := by
    intro width
    induction width with
    | zero => exact fun n c hc => absurd hc not_mem_nil
    | succ width ih =>
      intro n
      exact forall_mem_cons.mpr ⟨hdigit _ (crockfordDigit_mem _), ih _⟩
  rw [RecordId.toText, String.toList_ofList]
  exact hall 26 spawn

theorem means_iff {p : Pattern} {category : Category} {identity : String}
    {keys : List (String × String)} {t : Tuple}
    (hp : p.matches t = true ↔ t.category = category ∧ t.identity = identity ∧
      ∀ f ∈ keys, Written t.payload f.1 f.2) :
    Means p category identity keys t ↔
      (t.category = category → t.identity = identity → Exact t.payload keys) := by
  have hplain : (∀ f ∈ keys, t.payload.getStr f.1 = some f.2) →
      (∀ f ∈ keys, Plain f.2.toList ∨ Written t.payload f.1 f.2) →
      ∀ f ∈ keys, Written t.payload f.1 f.2 := by
    intro htop hor f hf
    rcases hor f hf with h | h
    · exact written_of_getStr h (htop f hf)
    · exact h
  unfold Means Exact
  rw [hp]
  constructor
  · intro h hc hi
    exact ⟨fun hw => (h.mp ⟨hc, hi, hw⟩).2.2, fun ht f hf => .inr ((h.mpr ⟨hc, hi, ht⟩).2.2 f hf)⟩
  · intro h
    constructor
    · intro ⟨hc, hi, hw⟩
      exact ⟨hc, hi, (h hc hi).1 hw⟩
    · intro ⟨hc, hi, ht⟩
      exact ⟨hc, hi, hplain ht ((h hc hi).2 ht)⟩

section
variable (category : Category) (identity : String) (t : Tuple)

theorem forCommit_matches (branch sha : String) :
    (Pattern.forCommit category identity branch sha).matches t = true ↔
      t.category = category ∧ t.identity = identity ∧
        containsText t.payload.toText (fieldSearch "head_sha" sha) = true ∧
        containsText t.payload.toText (fieldSearch "branch" branch) = true := by
  simp [Pattern.matches, Pattern.forCommit, admits, admitsText, fieldSearch]

theorem forWorkflowInstance_matches (instanceId : String) :
    (Pattern.forWorkflowInstance category identity instanceId).matches t = true ↔
      t.category = category ∧ t.identity = identity ∧
        containsText t.payload.toText (fieldSearch "instance" instanceId) = true := by
  simp [Pattern.matches, Pattern.forWorkflowInstance, admits, admitsText, fieldSearch]

theorem forSpawn_matches (spawn : RecordId) :
    (Pattern.forSpawn category identity spawn).matches t = true ↔
      t.category = category ∧ t.identity = identity ∧
        containsText t.payload.toText (fieldSearch "spawn" spawn.toText) = true := by
  simp [Pattern.matches, Pattern.forSpawn, admits, admitsText, fieldSearch]

end

theorem keyWord_spawn : KeyWord "spawn".toList :=
  { plain := by decide, head := ⟨'s', _, rfl, by decide⟩, bracket := fun _ h => by cases h }

theorem keyWord_instance : KeyWord "instance".toList :=
  { plain := by decide, head := ⟨'i', _, rfl, by decide⟩, bracket := fun _ h => by cases h }

theorem keyWord_branch : KeyWord "branch".toList :=
  { plain := by decide, head := ⟨'b', _, rfl, by decide⟩, bracket := fun _ h => by cases h }

theorem keyWord_headSha : KeyWord "head_sha".toList :=
  { plain := by decide, head := ⟨'h', _, rfl, by decide⟩, bracket := fun _ h => by cases h }

/-- The keyed patterns mean equality of top-level fields exactly where the payload is exact for
their keys. -/
theorem keyed_iff (t : Tuple) (hd : t.payload.Decimal) (category : Category)
    (identity branch sha instanceId : String) (spawn : RecordId) :
    (Means (Pattern.forCommit category identity branch sha) category identity
        [("branch", branch), ("head_sha", sha)] t ↔
      (t.category = category → t.identity = identity →
        Exact t.payload [("branch", branch), ("head_sha", sha)])) ∧
    (Means (Pattern.forWorkflowInstance category identity instanceId) category identity
        [("instance", instanceId)] t ↔
      (t.category = category → t.identity = identity →
        Exact t.payload [("instance", instanceId)])) ∧
    (Means (Pattern.forSpawn category identity spawn) category identity
        [("spawn", spawn.toText)] t ↔
      (t.category = category → t.identity = identity → Written t.payload "spawn" spawn.toText →
          t.payload.getStr "spawn" = some spawn.toText)) := by
  have hspawn : Exact t.payload [("spawn", spawn.toText)] ↔
      (Written t.payload "spawn" spawn.toText → t.payload.getStr "spawn" = some spawn.toText) := by
    unfold Exact
    simp only [mem_singleton, forall_eq]
    exact and_iff_left fun _ => .inl (plain_spawn spawn)
  refine ⟨means_iff ?_, means_iff ?_, ?_⟩
  · have hbranch := contains_iff_written keyWord_branch hd branch
    have hsha := contains_iff_written keyWord_headSha hd sha
    rw [forCommit_matches, forall_mem_cons, forall_mem_singleton, ← hbranch, ← hsha]
    exact and_congr_right fun _ => and_congr_right fun _ => and_comm
  · have hinstance := contains_iff_written keyWord_instance hd instanceId
    rw [forWorkflowInstance_matches, forall_mem_singleton, ← hinstance]
  · have hwritten := contains_iff_written keyWord_spawn hd spawn.toText
    rw [← hspawn]
    refine means_iff ?_
    rw [forSpawn_matches, forall_mem_singleton, ← hwritten]

def review (payload : Value) : Tuple := Tuple.new 1 0 .artifact "rat" "review" "Whisker" payload

theorem keyed_iff_review :
    (Value.object [("branch", .string "rat/basil"), ("head_sha", .string "c0ffee")]).Decimal ∧
      (Means (Pattern.forCommit .artifact "review" "rat/basil" "c0ffee") .artifact "review"
          [("branch", "rat/basil"), ("head_sha", "c0ffee")]
          (review (.object [("branch", .string "rat/basil"), ("head_sha", .string "c0ffee")])) ↔
        (Category.artifact = .artifact → "review" = "review" →
          Exact (.object [("branch", .string "rat/basil"), ("head_sha", .string "c0ffee")])
            [("branch", "rat/basil"), ("head_sha", "c0ffee")])) :=
  ⟨⟨trivial, trivial, trivial⟩,
    (keyed_iff (review (.object [("branch", .string "rat/basil"), ("head_sha", .string "c0ffee")]))
      ⟨trivial, trivial, trivial⟩ .artifact "review" "rat/basil" "c0ffee" "wf-aaa" 1).1⟩

/-- A nested field is taken for the top-level one. -/
theorem not_means_nested : ¬ Means (Pattern.forCommit .artifact "review" "rat/basil" "c0ffee")
    .artifact "review" [("branch", "rat/basil"), ("head_sha", "c0ffee")]
    (review (.object [("entry", .object
      [("branch", .string "rat/basil"), ("head_sha", .string "c0ffee")])])) := by
  intro h
  have hmatch : (Pattern.forCommit .artifact "review" "rat/basil" "c0ffee").matches
      (review (.object [("entry", .object
        [("branch", .string "rat/basil"), ("head_sha", .string "c0ffee")])])) = true := by
    decide
  have htop := (h.mp hmatch).2.2 ("branch", "rat/basil") mem_cons_self
  exact absurd htop (by decide)

end RatKingdom.Core
