/-
The cron expressions of the scheduler: the parser and the test of an instant.

A field is read item by item into an allow-set.  The loop that fills the set adds the step to
the last value before it looks at the end of the range, so a large step can leave `u32`
(`Fault.overflow`); every other input is accepted or refused with a message.
-/
import RatKingdom.Scheduler.Cycle

namespace RatKingdom
namespace Core
namespace DateTime

def dayNumber (t : DateTime) : Int := t / nanosPerSecond / secondsPerDay

def secondOfDay (t : DateTime) : Int := t / nanosPerSecond % secondsPerDay

theorem dayOfYear_le {doe y : Int} (h0 : 0 ≤ doe) (h1 : doe < 146097)
    (hy : y = (doe - doe / 1460 + doe / 36524 - doe / 146096) / 365) :
    0 ≤ doe - (365 * y + y / 4 - y / 100) ∧ doe - (365 * y + y / 4 - y / 100) ≤ 365 := by
  by_cases hl : doe = 146096
  · subst hl
    subst hy
    decide
  have hc : doe / 146096 = 0 := by omega
  rw [hc] at hy
  have hquarter : y / 4 ≤ doe / 1460 := by omega
  have hquarter' : doe / 1460 ≤ y / 4 + 1 := by omega
  have hcentury : y / 100 = doe / 36524 := by omega
  omega

theorem civilFromDays_bounds (day : Int) :
    (1 ≤ (civilFromDays day).2.1 ∧ (civilFromDays day).2.1 ≤ 12) ∧
      1 ≤ (civilFromDays day).2.2 ∧ (civilFromDays day).2.2 ≤ 31 := by
  have hlow : 0 ≤ (day + 719468) % 146097 := by omega
  have hhigh : (day + 719468) % 146097 < 146097 := by omega
  have hyear := dayOfYear_le hlow hhigh rfl
  simp only [civilFromDays]
  generalize (day + 719468) % 146097 - (365 * (((day + 719468) % 146097 -
    (day + 719468) % 146097 / 1460 + (day + 719468) % 146097 / 36524 -
    (day + 719468) % 146097 / 146096) / 365) + ((day + 719468) % 146097 -
    (day + 719468) % 146097 / 1460 + (day + 719468) % 146097 / 36524 -
    (day + 719468) % 146097 / 146096) / 365 / 4 - ((day + 719468) % 146097 -
    (day + 719468) % 146097 / 1460 + (day + 719468) % 146097 / 36524 -
    (day + 719468) % 146097 / 146096) / 365 / 100) = doy at hyear ⊢
  refine ⟨?_, by omega, by omega⟩
  split
  · omega
  · omega

def minute (t : DateTime) : Fin 60 := ⟨(secondOfDay t / 60 % 60).toNat, by omega⟩

def hour (t : DateTime) : Fin 24 :=
  ⟨(secondOfDay t / 3600).toNat, by unfold secondOfDay secondsPerDay; omega⟩

def day (t : DateTime) : Fin 32 :=
  ⟨(civilFromDays (dayNumber t)).2.2.toNat, by have h := civilFromDays_bounds (dayNumber t); omega⟩

def month (t : DateTime) : Fin 13 :=
  ⟨(civilFromDays (dayNumber t)).2.1.toNat, by have h := civilFromDays_bounds (dayNumber t); omega⟩

/-- `weekday().num_days_from_sunday()`. -/
def weekday (t : DateTime) : Fin 7 := ⟨((dayNumber t + 4) % 7).toNat, by omega⟩

section
variable (t : DateTime) (h : Fin 24) (m : Fin 60)
include h

def withClock : DateTime :=
  (dayNumber t * secondsPerDay + h.val * 3600 + m.val * 60) * nanosPerSecond

theorem seconds_withClock :
    withClock t h m / nanosPerSecond = dayNumber t * secondsPerDay + h.val * 3600 + m.val * 60 :=
  Int.mul_ediv_cancel _ (by decide)

@[simp] theorem dayNumber_withClock : dayNumber (withClock t h m) = dayNumber t := by
  have hh := h.isLt
  have hm := m.isLt
  have hday : (dayNumber t * 86400 + (h.val : Int) * 3600 + (m.val : Int) * 60) / 86400 =
      dayNumber t := by
    omega
  rw [dayNumber, seconds_withClock]
  exact hday

theorem secondOfDay_withClock : secondOfDay (withClock t h m) = h.val * 3600 + m.val * 60 := by
  have hh := h.isLt
  have hm := m.isLt
  have hsecond : (dayNumber t * 86400 + (h.val : Int) * 3600 + (m.val : Int) * 60) % 86400 =
      h.val * 3600 + m.val * 60 := by
    omega
  rw [secondOfDay, seconds_withClock]
  exact hsecond

@[simp] theorem hour_withClock : hour (withClock t h m) = h := by
  have hm := m.isLt
  apply Fin.ext
  show (secondOfDay (withClock t h m) / 3600).toNat = h.val
  rw [secondOfDay_withClock]
  omega

@[simp] theorem minute_withClock : minute (withClock t h m) = m := by
  have hm := m.isLt
  apply Fin.ext
  show (secondOfDay (withClock t h m) / 60 % 60).toNat = m.val
  rw [secondOfDay_withClock]
  omega

@[simp] theorem day_withClock : day (withClock t h m) = day t := by
  apply Fin.ext
  show (civilFromDays (dayNumber (withClock t h m))).2.2.toNat = _
  rw [dayNumber_withClock]
  rfl

@[simp] theorem month_withClock : month (withClock t h m) = month t := by
  apply Fin.ext
  show (civilFromDays (dayNumber (withClock t h m))).2.1.toNat = _
  rw [dayNumber_withClock]
  rfl

@[simp] theorem weekday_withClock : weekday (withClock t h m) = weekday t := by
  apply Fin.ext
  show ((dayNumber (withClock t h m) + 4) % 7).toNat = _
  rw [dayNumber_withClock]
  rfl

end

end DateTime
end Core

open Core

/-- A parsed cron expression: one allow-set per field. -/
structure Cron where
  minutes : Vector Bool 60
  hours : Vector Bool 24
  /-- Indexed by the day of the month; index 0 is unused. -/
  doms : Vector Bool 32
  /-- Indexed by the month; index 0 is unused. -/
  months : Vector Bool 13
  /-- Indexed by the day of the week, 0 for Sunday. -/
  dows : Vector Bool 7
  domRestricted : Bool
  dowRestricted : Bool

namespace Cron

/-- What an expression is refused for. -/
inductive CronError where
  | fields (found : Nat) (expr : List Char)
  | emptyField
  | emptyItem (spec : List Char)
  | badStep (s spec : List Char)
  | zeroStep (spec : List Char)
  | outOfRange (spec : List Char) (lo hi min max : Nat)
  | badNumber (s field : List Char)
  deriving DecidableEq

/-- The message of a refusal.  `debug` quotes a text as `{:?}` does. -/
def CronError.message (debug : List Char → String) : CronError → String
  | .fields found expr =>
    "expected 5 cron fields (or an @macro), got " ++ toString found ++ ": " ++ debug expr
  | .emptyField => "empty cron field"
  | .emptyItem spec => "empty item in cron field " ++ debug spec
  | .badStep s spec => "bad step " ++ debug s ++ " in cron field " ++ debug spec
  | .zeroStep spec => "zero step in cron field " ++ debug spec
  | .outOfRange spec lo hi min max =>
    "cron field " ++ debug spec ++ " value " ++ toString lo ++ "-" ++ toString hi ++
      " out of range " ++ toString min ++ "-" ++ toString max
  | .badNumber s field => "bad number " ++ debug s ++ " in cron field " ++ debug field

inductive Fault where
  | refused (e : CronError)
  /-- A sum that no `u32` holds. -/
  | overflow
  deriving DecidableEq

def splitWhitespace (s : List Char) : List (List Char) :=
  (s.splitOnP isWhitespace).filter fun w => !w.isEmpty

def splitOnce (c : Char) : List Char → Option (List Char × List Char)
  | [] => none
  | d :: s => if d = c then some ([], s) else (splitOnce c s).map fun p => (d :: p.1, p.2)

def parseU32 (s : List Char) : Option Nat := parseUInt 32 s

/-- Expand a `@macro` to its 5-field equivalent, or `none` if it is not a macro. -/
def expandMacro (expr : List Char) : Option (List Char) :=
  if expr = "@yearly".toList ∨ expr = "@annually".toList then some "0 0 1 1 *".toList
  else if expr = "@monthly".toList then some "0 0 1 * *".toList
  else if expr = "@weekly".toList then some "0 0 * * 0".toList
  else if expr = "@daily".toList ∨ expr = "@midnight".toList then some "0 0 * * *".toList
  else if expr = "@hourly".toList then some "0 * * * *".toList
  else none

def parseNum (s field : List Char) : Except Fault Nat :=
  match parseU32 (trimmed s) with
  | some n => .ok n
  | none => .error (.refused (.badNumber s field))

def parseStep (spec part : List Char) : Except Fault (List Char × {n : Nat // 0 < n}) :=
  match splitOnce '/' part with
  | some (r, s) =>
    match parseU32 s with
    | none => .error (.refused (.badStep s spec))
    | some step =>
      if h : 0 < step then .ok (r, ⟨step, h⟩) else .error (.refused (.zeroStep spec))
  | none => .ok (part, ⟨1, Nat.one_pos⟩)

/-- Range bounds.  A lone value is widened by a step, which `a/1` does not look like. -/
def parseBounds (spec rangePart : List Char) (step min max : Nat) : Except Fault (Nat × Nat) :=
  if rangePart = ['*'] then .ok (min, max)
  else match splitOnce '-' rangePart with
    | some (a, b) => do
      let lo ← parseNum a spec
      let hi ← parseNum b spec
      return (lo, hi)
    | none => do
      let v ← parseNum rangePart spec
      if 1 < step then return (v, max) else return (v, v)

def fill {n : Nat} (set : Vector Bool n) (i hi : Nat) (step : {k : Nat // 0 < k}) :
    Except Fault (Vector Bool n) :=
  if i ≤ hi then
    if i + step.val < 2 ^ 32 then fill (set.setIfInBounds i true) (i + step.val) hi step
    else .error .overflow
  else .ok set
termination_by hi + 1 - i
decreasing_by
  have := step.property
  omega

def parsePart (spec : List Char) (min max : Nat) (set : Vector Bool (max + 1)) (part : List Char) :
    Except Fault (Vector Bool (max + 1)) := do
  let part := trimmed part
  if part = [] then throw (.refused (.emptyItem spec))
  let (rangePart, step) ← parseStep spec part
  let (lo, hi) ← parseBounds spec rangePart step.val min max
  if lo < min ∨ max < hi ∨ hi < lo then throw (.refused (.outOfRange spec lo hi min max))
  fill set lo hi step

def parseField (spec : List Char) (min max : Nat) :
    Except Fault (Vector Bool (max + 1) × Bool) := do
  let spec := trimmed spec
  if spec = [] then throw (.refused .emptyField)
  let set ← (spec.splitOn ',').foldlM (parsePart spec min max) (Vector.replicate (max + 1) false)
  return (set, decide (spec ≠ ['*']))

def foldDows (set : Vector Bool 8) : Vector Bool 7 :=
  (List.finRange 8).foldl
    (fun dows i => if set.get i then dows.setIfInBounds (i.val % 7) true else dows)
    (Vector.replicate 7 false)

def parseFields (expr : List Char) : List (List Char) → Except Fault Cron
  | [m, h, dom, mon, dow] => do
    let (minutes, _) ← parseField m 0 59
    let (hours, _) ← parseField h 0 23
    let (doms, domRestricted) ← parseField dom 1 31
    let (months, _) ← parseField mon 1 12
    -- Day-of-week accepts 0 to 7 on input.
    let (dows, dowRestricted) ← parseField dow 0 7
    return { minutes, hours, doms, months, dows := foldDows dows, domRestricted, dowRestricted }
  | fields => .error (.refused (.fields fields.length expr))

def parse (expr : String) : Except Fault Cron :=
  let expr := trimmed expr.toList
  parseFields expr (splitWhitespace ((expandMacro expr).getD expr))

end Cron

def Cron.matches (c : Cron) (dt : DateTime) : Bool :=
  if !c.minutes.get dt.minute || !c.hours.get dt.hour || !c.months.get dt.month then false
  else
    let domOk := c.doms.get dt.day
    let dowOk := c.dows.get dt.weekday
    match c.domRestricted, c.dowRestricted with
    | true, true => domOk || dowOk
    | true, false => domOk
    | false, true => dowOk
    | false, false => true

def Cron.onMinutes (c : Cron) : Schedules.Cron :=
  fun minute => c.matches (minute * 60 * DateTime.nanosPerSecond)

namespace Cron

def loadCrons : List (Schedules.Loaded × String) →
    Except Fault (List (Schedules.Loaded × Schedules.Cron))
  | [] => .ok []
  | (loaded, cron) :: rest =>
    match parse cron with
    | .ok c => (loadCrons rest).map fun parsed => (loaded, c.onMinutes) :: parsed
    | .error (.refused _) => loadCrons rest
    | .error .overflow => .error .overflow

variable {c : Char} {s : List Char}

theorem splitOnce_some_iff {a b : List Char} :
    splitOnce c s = some (a, b) ↔ s = a ++ c :: b ∧ c ∉ a := by
  induction s generalizing a with
  | nil => simp [splitOnce]
  | cons d s ih =>
    by_cases hd : d = c
    · subst hd
      rw [splitOnce, if_pos rfl]
      constructor
      · intro h
        cases h
        exact ⟨rfl, List.not_mem_nil⟩
      · rintro ⟨hs, ha⟩
        cases a with
        | nil =>
          cases hs
          rfl
        | cons e a =>
          cases hs
          exact absurd List.mem_cons_self ha
    · rw [splitOnce, if_neg hd, Option.map_eq_some_iff]
      constructor
      · rintro ⟨p, hp, he⟩
        cases he
        obtain ⟨hs, ha⟩ := ih.mp hp
        refine ⟨by rw [hs, List.cons_append], fun h => ?_⟩
        rcases List.mem_cons.mp h with h | h
        · exact hd h.symm
        · exact ha h
      · rintro ⟨hs, ha⟩
        cases a with
        | nil =>
          cases hs
          exact absurd rfl hd
        | cons e a =>
          cases hs
          exact ⟨(a, b), ih.mpr ⟨rfl, fun h => ha (List.mem_cons_of_mem _ h)⟩, rfl⟩

theorem splitOnce_none_iff : splitOnce c s = none ↔ c ∉ s := by
  induction s with
  | nil => simp [splitOnce]
  | cons d s ih =>
    by_cases hd : d = c
    · simp [splitOnce, hd]
    · have hd' : c ≠ d := fun h => hd h.symm
      simp [splitOnce, hd, hd', ih]

variable {w : List Char}

theorem mem_splitOnP {p : Char → Bool} (hw : w ∈ s.splitOnP p) : ∀ c ∈ w, c ∈ s ∧ p c = false := by
  induction s generalizing w with
  | nil =>
    rw [List.splitOnP_nil, List.mem_singleton] at hw
    subst hw
    intro c hc
    cases hc
  | cons d s ih =>
    rw [List.splitOnP_cons_eq_if_modifyHead] at hw
    split at hw
    · rcases List.mem_cons.mp hw with rfl | hw
      · nofun
      · intro c hc
        exact ⟨List.mem_cons_of_mem _ (ih hw c hc).1, (ih hw c hc).2⟩
    · rename_i hd
      cases hs : s.splitOnP p with
      | nil => exact absurd hs (List.splitOnP_ne_nil p s)
      | cons v ws =>
        rw [hs, List.modifyHead_cons] at hw
        intro c hc
        rcases List.mem_cons.mp hw with rfl | hw
        · rcases List.mem_cons.mp hc with rfl | hc
          · exact ⟨List.mem_cons_self, Bool.eq_false_iff.mpr hd⟩
          · have hv := ih (hs ▸ List.mem_cons_self) c hc
            exact ⟨List.mem_cons_of_mem _ hv.1, hv.2⟩
        · have hv := ih (hs ▸ List.mem_cons_of_mem _ hw) c hc
          exact ⟨List.mem_cons_of_mem _ hv.1, hv.2⟩

/-- No character is a blank. -/
def Solid (s : List Char) : Prop := ∀ c ∈ s, isWhitespace c = false

theorem solid_of_mem_splitWhitespace (hw : w ∈ splitWhitespace s) : Solid w ∧ w ≠ [] := by
  obtain ⟨hm, hne⟩ := List.mem_filter.mp hw
  exact ⟨fun c hc => (mem_splitOnP hm c hc).2, by simpa using hne⟩

theorem Solid.of_mem_splitOn (hs : Solid s) (hw : w ∈ s.splitOn ',') : Solid w := by
  rw [List.splitOn_eq_splitOnP] at hw
  exact fun c hc => hs c (mem_splitOnP hw c hc).1

theorem Solid.trimmed (hs : Solid s) : trimmed s = s := by
  have hdrop : ∀ l : List Char, Solid l → l.dropWhile isWhitespace = l := by
    intro l hl
    cases l with
    | nil => rfl
    | cons c l =>
      rw [List.dropWhile_cons_of_neg (by rw [hl c List.mem_cons_self]; exact Bool.false_ne_true)]
  rw [Core.trimmed, hdrop s hs, hdrop s.reverse fun c hc => hs c (List.mem_reverse.mp hc),
    List.reverse_reverse]

theorem mem_unsigned (hc : c ∈ s) : c = '+' ∨ c ∈ unsigned s := by
  unfold unsigned
  split
  · rcases List.mem_cons.mp hc with hc | hc
    · exact .inl hc
    · exact .inr hc
  · exact .inr hc

variable {n : Nat}

theorem parseU32_chars (h : parseU32 s = some n) :
    s ≠ [] ∧ ∀ c ∈ s, c = '+' ∨ c.isDigit = true := by
  unfold parseU32 parseUInt at h
  split at h
  · rename_i hgood
    obtain ⟨hne, hall, -⟩ := hgood
    refine ⟨fun hs => hne (by rw [hs]; rfl), fun c hc => ?_⟩
    exact (mem_unsigned hc).imp_right (List.all_eq_true.mp hall c)
  · cases h

theorem not_mem_of_parseU32 (h : parseU32 s = some n) (hplus : c ≠ '+')
    (hdigit : c.isDigit = false) : c ∉ s := by
  intro hc
  rcases (parseU32_chars h).2 c hc with hc | hc
  · exact hplus hc
  · rw [hdigit] at hc
    cases hc

/-- The first value of the progression from `i` past `hi`. -/
def past (i hi step : Nat) : Nat := i + ((hi - i) / step + 1) * step

variable {hi i step : Nat}

theorem past_step (hs : 0 < step) (h : i + step ≤ hi) :
    past (i + step) hi step = past i hi step := by
  have hdiv : (hi - i) / step = (hi - (i + step)) / step + 1 := by
    rw [show hi - i = hi - (i + step) + step by omega, Nat.add_div_right _ hs]
  unfold past
  simp only [hdiv, Nat.add_mul, Nat.one_mul]
  omega

theorem past_last (h : hi < i + step) (hle : i ≤ hi) : past i hi step = i + step := by
  unfold past
  rw [Nat.div_eq_of_lt (by omega)]
  omega

theorem lt_past (hs : 0 < step) (hle : i ≤ hi) : hi < past i hi step := by
  unfold past
  have hmod := Nat.mod_lt (hi - i) hs
  have hdiv := Nat.div_add_mod (hi - i) step
  rw [Nat.add_mul, Nat.mul_comm _ step]
  omega

theorem fill_overflow {set : Vector Bool n} {step : {k : Nat // 0 < k}} (hle : i ≤ hi)
    (h : 2 ^ 32 ≤ past i hi step.val) : fill set i hi step = .error .overflow := by
  fun_induction fill set i hi step with
  | case1 set i _ hsum ih =>
    rcases Nat.lt_or_ge hi (i + step.val) with hl | hnext
    · rw [past_last hl hle] at h
      omega
    · exact ih hnext (past_step step.property hnext ▸ h)
  | case2 => rfl
  | case3 set i hgt => exact absurd hle hgt

theorem get_setIfInBounds (set : Vector Bool n) (i : Nat) (v : Fin n) :
    (set.setIfInBounds i true).get v = true ↔ v.val = i ∨ set.get v = true := by
  show (set.setIfInBounds i true)[v.val] = true ↔ v.val = i ∨ set[v.val] = true
  rw [Vector.getElem_setIfInBounds]
  split
  · rename_i heq
    exact iff_of_true rfl (.inl heq.symm)
  · rename_i hne
    exact (or_iff_right fun heq => hne heq.symm).symm

/-- Any other adds the values of the progression to the set. -/
theorem fill_ok (set : Vector Bool n) (step : {k : Nat // 0 < k})
    (h : i ≤ hi → past i hi step.val < 2 ^ 32) :
    ∃ set', fill set i hi step = .ok set' ∧ ∀ v : Fin n, set'.get v = true ↔
      set.get v = true ∨ (i ≤ v.val ∧ v.val ≤ hi ∧ step.val ∣ v.val - i) := by
  fun_induction fill set i hi step with
  | case1 set i hle hsum ih =>
    have hrest : i + step.val ≤ hi → past (i + step.val) hi step.val < 2 ^ 32 :=
      fun hnext => past_step step.property hnext ▸ h hle
    obtain ⟨set', hset', hm⟩ := ih hrest
    refine ⟨set', hset', fun v => ?_⟩
    rw [hm v, get_setIfInBounds]
    constructor
    · intro hv
      rcases hv with (hv | hv) | ⟨hlow, hhigh, hdvd⟩
      · exact .inr ⟨by omega, by omega, by rw [hv, Nat.sub_self]; exact Nat.dvd_zero _⟩
      · exact .inl hv
      · refine .inr ⟨by omega, hhigh, ?_⟩
        have hsub : v.val - i = v.val - (i + step.val) + step.val := by omega
        rw [hsub]
        exact Nat.dvd_add hdvd (Nat.dvd_refl _)
    · intro hv
      rcases hv with hv | ⟨hlow, hhigh, hdvd⟩
      · exact .inl (.inr hv)
      · rcases Nat.eq_or_lt_of_le hlow with heq | hlt
        · exact .inl (.inl heq.symm)
        · have hge : step.val ≤ v.val - i := Nat.le_of_dvd (by omega) hdvd
          refine .inr ⟨by omega, hhigh, ?_⟩
          have hsub : v.val - (i + step.val) = v.val - i - step.val := by omega
          rw [hsub]
          exact Nat.dvd_sub hdvd (Nat.dvd_refl _)
  | case2 set i hle hsum =>
    have hl : hi < i + step.val ∨ i + step.val ≤ hi := Nat.lt_or_ge _ _
    have hpast := h hle
    rcases hl with hl | hnext
    · rw [past_last hl hle] at hpast
      exact absurd hpast hsum
    · rw [← past_step step.property hnext] at hpast
      have hlt := lt_past step.property hnext
      omega
  | case3 set i hgt =>
    refine ⟨set, rfl, fun v => ?_⟩
    rw [or_iff_left]
    rintro ⟨hlow, hhigh, -⟩
    omega

end Cron
end RatKingdom
