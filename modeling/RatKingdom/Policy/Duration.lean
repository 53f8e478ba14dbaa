/-
Duration texts of a repository policy.

`validate_duration_str` accepts a text when the policy is activated, and
`duration_str_to_secs` reads what it accepted.  `parse_duration` reads the same text when a
gate runs.  The first asks for digits alone and does not multiply, the last takes a sign and
refuses a number of seconds that no `u64` holds: that is where they part.
-/
import RatKingdom.Core.Text

namespace RatKingdom.Policy

open Core

def parseU64 (s : List Char) : Option Nat := parseUInt 64 s

def checkedMul (a b : Nat) : Option Nat := if a * b < 2 ^ 64 then some (a * b) else none

def splitUnit (s : List Char) : List Char × Nat :=
  match s.getLast? with
  | some 's' => (s.dropLast, 1)
  | some 'm' => (s.dropLast, 60)
  | some 'h' => (s.dropLast, 3600)
  | _ => (s, 1)

/-- `validate_duration_str`.  `debug` quotes a text as `{:?}` does. -/
def validateDurationStr (debug : String → String) (name value : String) : Except String Unit :=
  let invalid := name ++ " must be a duration like \"60m\", \"90s\", or \"1h\" (got " ++
    debug value ++ ")"
  let digits := (splitUnit (trim value).toList).1
  if digits = [] ∨ digits.all Char.isDigit = false then .error invalid
  else
    match parseU64 digits with
    | some _ => .ok ()
    | none => .error invalid

/-- `duration_str_to_secs`.  It is `none` where the product leaves `u64`: a build with
overflow checks panics there, one without them wraps. -/
def durationStrToSecs (value : String) : Option Nat :=
  let split := splitUnit (trim value).toList
  checkedMul ((parseU64 split.1).getD 0) split.2

def parseDuration (s : String) : Except String Nat :=
  let invalid := "invalid duration: " ++ trim s
  let split := splitUnit (trim s).toList
  match parseU64 split.1 with
  | none => .error invalid
  | some n =>
    match checkedMul n split.2 with
    | some seconds => .ok seconds
    | none => .error invalid

/-- The three functions agree on a text. -/
structure OneMeaning (debug : String → String) (name value : String) : Prop where
  accepts : validateDurationStr debug name value = .ok () ↔ ∃ n, parseDuration value = .ok n
  seconds : validateDurationStr debug name value = .ok () →
    ∃ n, parseDuration value = .ok n ∧ durationStrToSecs value = some n

/-- A number of digits is all that stands in front of the unit. -/
def Digits (s : List Char) : Prop := s ≠ [] ∧ s.all Char.isDigit = true

/-- A plus sign stands in front of a number whose seconds a `u64` holds. -/
def Signed (s : List Char) (unit : Nat) : Prop :=
  ∃ digits, s = '+' :: digits ∧ Digits digits ∧ decimal digits < 2 ^ 64 ∧
    decimal digits * unit < 2 ^ 64

/-- A `u64` holds the number, and not its seconds. -/
def Overflows (s : List Char) (unit : Nat) : Prop :=
  Digits s ∧ decimal s < 2 ^ 64 ∧ 2 ^ 64 ≤ decimal s * unit

section
variable {s : List Char} {a b n : Nat}

theorem checkedMul_some (h : a * b < 2 ^ 64) : checkedMul a b = some (a * b) := if_pos h

theorem checkedMul_none (h : ¬ a * b < 2 ^ 64) : checkedMul a b = none := if_neg h

theorem parseU64_eq_some : parseU64 s = some n ↔
    (unsigned s ≠ [] ∧ (unsigned s).all Char.isDigit ∧ decimal (unsigned s) < 2 ^ 64) ∧
      decimal (unsigned s) = n := by
  simp only [parseU64, parseUInt, Option.ite_none_right_eq_some, Option.some.injEq]

theorem unsigned_eq (h : ¬ ∃ digits, s = '+' :: digits) : unsigned s = s := by
  unfold unsigned
  split
  · rename_i digits
    exact absurd ⟨digits, rfl⟩ h
  · rfl

theorem unsigned_of_digits (h : Digits s) : unsigned s = s := by
  apply unsigned_eq
  rintro ⟨digits, rfl⟩
  exact absurd (List.all_eq_true.mp h.2 '+' List.mem_cons_self) (by decide)

theorem parseU64_of_digits (h : Digits s) :
    parseU64 s = if decimal s < 2 ^ 64 then some (decimal s) else none := by
  unfold parseU64 parseUInt
  rw [unsigned_of_digits h]
  simp only [h.1, h.2, ne_eq, not_false_eq_true, true_and]

theorem digits_or_signed (h : parseU64 s = some n) :
    Digits s ∨ ∃ digits, s = '+' :: digits ∧ Digits digits ∧ decimal digits = n := by
  obtain ⟨⟨hne, hall, -⟩, hn⟩ := parseU64_eq_some.mp h
  by_cases hsign : ∃ digits, s = '+' :: digits
  · obtain ⟨digits, rfl⟩ := hsign
    exact .inr ⟨digits, rfl, ⟨hne, hall⟩, hn⟩
  · rw [unsigned_eq hsign] at hne hall
    exact .inl ⟨hne, hall⟩

end

section
variable (debug : String → String) (name value : String)

/-- Validation accepts the numbers a `u64` holds. -/
theorem validateDurationStr_ok :
    validateDurationStr debug name value = .ok () ↔ Digits (splitUnit (trim value).toList).1 ∧
        decimal (splitUnit (trim value).toList).1 < 2 ^ 64 := by
  unfold validateDurationStr
  dsimp only
  by_cases hd : Digits (splitUnit (trim value).toList).1
  · rw [if_neg (by simp [hd.1, hd.2]), parseU64_of_digits hd]
    by_cases hlt : decimal (splitUnit (trim value).toList).1 < 2 ^ 64
    · rw [if_pos hlt]
      simp only [hd, hlt, and_self]
    · rw [if_neg hlt]
      simp only [hlt, and_false, reduceCtorEq]
  · rw [if_pos (by simpa [Digits, Decidable.imp_iff_not_or] using hd)]
    simp only [hd, false_and, reduceCtorEq]

/-- `parse_duration` accepts what parses and has its seconds in a `u64`. -/
theorem parseDuration_ok {n : Nat} :
    parseDuration value = .ok n ↔ ∃ m, parseU64 (splitUnit (trim value).toList).1 = some m ∧
        m * (splitUnit (trim value).toList).2 < 2 ^ 64 ∧
        m * (splitUnit (trim value).toList).2 = n := by
  unfold parseDuration
  dsimp only
  cases hparse : parseU64 (splitUnit (trim value).toList).1 with
  | none => simp
  | some m =>
    by_cases hlt : m * (splitUnit (trim value).toList).2 < 2 ^ 64
    · simp only [checkedMul_some hlt, Except.ok.injEq, Option.some.injEq, exists_eq_left']
      exact (and_iff_right hlt).symm
    · simp only [checkedMul_none hlt, reduceCtorEq, Option.some.injEq, exists_eq_left', false_iff]
      exact fun h => hlt h.1

theorem one_meaning_iff :
    OneMeaning debug name value ↔
      ¬ Signed (splitUnit (trim value).toList).1 (splitUnit (trim value).toList).2 ∧
        ¬ Overflows (splitUnit (trim value).toList).1 (splitUnit (trim value).toList).2 := by
  generalize hs : (splitUnit (trim value).toList).1 = s
  generalize hu : (splitUnit (trim value).toList).2 = unit
  have hvalid : validateDurationStr debug name value = .ok () ↔ Digits s ∧ decimal s < 2 ^ 64 := by
    rw [validateDurationStr_ok, hs]
  have hparse : ∀ n, parseDuration value = .ok n ↔
      ∃ m, parseU64 s = some m ∧ m * unit < 2 ^ 64 ∧ m * unit = n := by
    intro n
    rw [parseDuration_ok, hs, hu]
  constructor
  · intro h
    refine ⟨?_, ?_⟩
    · -- A sign is taken by `parse_duration` alone.
      rintro ⟨digits, rfl, hdigits, hlt, hseconds⟩
      have hsigned : parseU64 ('+' :: digits) = some (decimal digits) :=
        parseU64_eq_some.mpr ⟨⟨hdigits.1, hdigits.2, hlt⟩, rfl⟩
      have hplus := hvalid.mp (h.accepts.mpr ⟨_, (hparse _).mpr ⟨_, hsigned, hseconds, rfl⟩⟩)
      exact absurd (List.all_eq_true.mp hplus.1.2 '+' List.mem_cons_self) (by decide)
    · -- Too many seconds pass the validation alone.
      rintro ⟨hdigits, hlt, hover⟩
      obtain ⟨n, hn⟩ := h.accepts.mp (hvalid.mpr ⟨hdigits, hlt⟩)
      obtain ⟨m, hm, hseconds, -⟩ := (hparse n).mp hn
      rw [parseU64_of_digits hdigits, if_pos hlt] at hm
      rw [← Option.some.inj hm] at hseconds
      omega
  · rintro ⟨hsign, hover⟩
    have hread : Digits s → decimal s < 2 ^ 64 →
        parseU64 s = some (decimal s) ∧ decimal s * unit < 2 ^ 64 := by
      intro hdigits hlt
      refine ⟨by rw [parseU64_of_digits hdigits, if_pos hlt], ?_⟩
      by_contra hge
      exact hover ⟨hdigits, hlt, Nat.le_of_not_lt hge⟩
    refine ⟨⟨fun hv => ?_, ?_⟩, fun hv => ?_⟩
    · obtain ⟨hdigits, hlt⟩ := hvalid.mp hv
      obtain ⟨hm, hseconds⟩ := hread hdigits hlt
      exact ⟨_, (hparse _).mpr ⟨_, hm, hseconds, rfl⟩⟩
    · rintro ⟨n, hn⟩
      obtain ⟨m, hm, hseconds, -⟩ := (hparse n).mp hn
      have hlt : m < 2 ^ 64 := by
        obtain ⟨⟨-, -, hlt⟩, rfl⟩ := parseU64_eq_some.mp hm
        exact hlt
      rcases digits_or_signed hm with hdigits | ⟨digits, rfl, hdigits, rfl⟩
      · refine hvalid.mpr ⟨hdigits, ?_⟩
        obtain ⟨⟨-, -, hlt⟩, -⟩ := parseU64_eq_some.mp hm
        rwa [unsigned_of_digits hdigits] at hlt
      · exact absurd ⟨digits, rfl, hdigits, hlt, hseconds⟩ hsign
    · obtain ⟨hdigits, hlt⟩ := hvalid.mp hv
      obtain ⟨hm, hseconds⟩ := hread hdigits hlt
      refine ⟨_, (hparse _).mpr ⟨_, hm, hseconds, rfl⟩, ?_⟩
      unfold durationStrToSecs
      dsimp only
      rw [hs, hu, hm]
      exact checkedMul_some hseconds

end

theorem sign_passes_at_run_time :
    ¬ OneMeaning (fun s => "\"" ++ s ++ "\"") "repo.landing.gateTimeout" "+5m" := by
  intro h
  have hparse : parseDuration "+5m" = .ok 300 := by decide +kernel
  have hvalid := h.accepts.mpr ⟨300, hparse⟩
  revert hvalid
  decide +kernel

end RatKingdom.Policy
