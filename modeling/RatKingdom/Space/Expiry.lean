/-
The order of rendered instants.

Expiry compares instants as the text of `to_rfc3339`.  Up to the second the text has fixed
places, written from the most significant on, and the date grows with the day number
(`ordinal_lt`).  After it stand the zone or a point and one to three groups of three digits,
and the zone, whose `+` is below the point and below every digit: so what is left out at
the end of a fraction counts as zeros.
-/
import Mathlib.Data.String.Basic
import RatKingdom.Lib.Digits
import RatKingdom.Scheduler.Cron
import RatKingdom.Space.Store

namespace RatKingdom
namespace Core
namespace DateTime

open Lib List

/-- The date as a number: a year of twelve months of thirty-two days. -/
def ordinal (day : Int) : Int :=
  (12 * (civilFromDays day).1 + (civilFromDays day).2.1) * 32 + (civilFromDays day).2.2

def yearOfEra (doe : Int) : Int := (doe - doe / 1460 + doe / 36524 - doe / 146096) / 365

def dayOfYear (doe : Int) : Int :=
  doe - (365 * yearOfEra doe + yearOfEra doe / 4 - yearOfEra doe / 100)

theorem dayOfYear_bounds {doe : Int} (h0 : 0 ≤ doe) (h1 : doe < 146097) :
    0 ≤ dayOfYear doe ∧ dayOfYear doe ≤ 365 :=
  dayOfYear_le h0 h1 rfl

def marchDay (doy : Int) : Int :=
  (5 * doy + 2) / 153 * 32 + (doy - (153 * ((5 * doy + 2) / 153) + 2) / 5 + 1)

theorem ordinal_eq (day : Int) : ordinal day =
    (12 * (yearOfEra ((day + 719468) % 146097) + (day + 719468) / 146097 * 400) + 3) * 32 +
      marchDay (dayOfYear ((day + 719468) % 146097)) := by
  have hbounds : 0 ≤ dayOfYear ((day + 719468) % 146097) ∧
      dayOfYear ((day + 719468) % 146097) ≤ 365 := dayOfYear_bounds (by omega) (by omega)
  have hmonth : 0 ≤ (5 * dayOfYear ((day + 719468) % 146097) + 2) / 153 ∧
      (5 * dayOfYear ((day + 719468) % 146097) + 2) / 153 ≤ 11 := by omega
  unfold ordinal marchDay
  unfold dayOfYear yearOfEra at *
  unfold civilFromDays
  dsimp only
  generalize (day + 719468) % 146097 = doe at *
  generalize (day + 719468) / 146097 = era at *
  generalize (doe - doe / 1460 + doe / 36524 - doe / 146096) / 365 = yoe at *
  generalize doe - (365 * yoe + yoe / 4 - yoe / 100) = doy at *
  generalize (5 * doy + 2) / 153 = mp at *
  split <;> split <;> omega

theorem yearOfEra_mono {a b : Int} (h0 : 0 ≤ a) (h : a ≤ b) (hb : b < 146097) :
    0 ≤ yearOfEra a ∧ yearOfEra a ≤ yearOfEra b ∧ yearOfEra b ≤ 399 := by
  unfold yearOfEra
  omega

theorem marchDay_lt {a b : Int} (h : a < b) : marchDay a < marchDay b := by
  unfold marchDay
  have hmonth : (5 * a + 2) / 153 ≤ (5 * b + 2) / 153 := by omega
  generalize (5 * a + 2) / 153 = m at *
  generalize (5 * b + 2) / 153 = n at *
  rcases Int.lt_or_eq_of_le hmonth with hlt | rfl
  · omega
  · omega

theorem ordinal_lt {a b : Int} (h : a < b) : ordinal a < ordinal b := by
  rw [ordinal_eq, ordinal_eq]
  have hera : (a + 719468) / 146097 ≤ (b + 719468) / 146097 := by omega
  have hadoe : 0 ≤ (a + 719468) % 146097 ∧ (a + 719468) % 146097 < 146097 := by omega
  have hbdoe : 0 ≤ (b + 719468) % 146097 ∧ (b + 719468) % 146097 < 146097 := by omega
  have hsame : (a + 719468) / 146097 = (b + 719468) / 146097 →
      (a + 719468) % 146097 < (b + 719468) % 146097 := by omega
  generalize (a + 719468) / 146097 = era at *
  generalize (b + 719468) / 146097 = era' at *
  generalize (a + 719468) % 146097 = doe at *
  generalize (b + 719468) % 146097 = doe' at *
  have hday := dayOfYear_bounds hadoe.1 hadoe.2
  have hday' := dayOfYear_bounds hbdoe.1 hbdoe.2
  have hin : marchDay (dayOfYear doe) < 384 := by
    unfold marchDay
    omega
  have hin' : 0 < marchDay (dayOfYear doe') := by
    have hmonth : 0 ≤ (5 * dayOfYear doe' + 2) / 153 := by omega
    unfold marchDay
    omega
  rcases Int.lt_or_eq_of_le hera with hlt | rfl
  · have hy := yearOfEra_mono hadoe.1 (Int.le_refl _) hadoe.2
    have hy' := yearOfEra_mono hbdoe.1 (Int.le_refl _) hbdoe.2
    omega
  · have hdoe := hsame rfl
    have hy := yearOfEra_mono hadoe.1 (Int.le_of_lt hdoe) hbdoe.2
    rcases Int.lt_or_eq_of_le hy.2.1 with hlt | heq
    · omega
    · have hlt : dayOfYear doe < dayOfYear doe' := by
        unfold dayOfYear
        omega
      have hmarch := marchDay_lt hlt
      omega

theorem digits_append {v w n : Nat} (hn : n < 10 ^ (v + w)) :
    digits 10 Nat.digitChar (v + w) n =
      digits 10 Nat.digitChar v (n / 10 ^ w) ++ digits 10 Nat.digitChar w (n % 10 ^ w) := by
  induction v generalizing n with
  | zero =>
    rw [Nat.zero_add] at hn ⊢
    rw [Nat.mod_eq_of_lt hn]
    rfl
  | succ v ih =>
    have hpos : 0 < 10 ^ (v + w) := Nat.pow_pos (by decide)
    rw [Nat.succ_add, digits, ih (Nat.mod_lt n hpos), digits, cons_append,
      Nat.div_div_eq_div_mul, Nat.pow_add, Nat.mul_comm (10 ^ v), Nat.mod_mul_right_div_self,
      Nat.mod_mul_right_mod]

theorem digitChar_lt : ∀ a b, a < b → b < 10 → Nat.digitChar a < Nat.digitChar b := by
  have h : ∀ b < 10, ∀ a < b, Nat.digitChar a < Nat.digitChar b := by decide
  exact fun a b hab hb => h b hb a hab

theorem digits_succ {w n : Nat} (hn : n < 10 ^ (w + 1)) : digits 10 Nat.digitChar (w + 1) n =
    digits 10 Nat.digitChar w (n / 10) ++ [Nat.digitChar (n % 10)] := by
  rw [digits_append hn, Nat.pow_one]
  simp [digits]

theorem padLeft_eq {width n : Nat} (hn : n < 10 ^ (width + 1)) :
    (padLeft (width + 1) n).toList = digits 10 Nat.digitChar (width + 1) n := by
  have hpad : ∀ w m, (padLeft w m).toList =
      replicate (w - (Nat.toDigits 10 m).length) '0' ++ Nat.toDigits 10 m := by
    intro w m
    unfold padLeft
    rw [String.toList_append, String.toList_ofList]
    show replicate (w - (Nat.repr m).length) '0' ++ (Nat.repr m).toList = _
    unfold Nat.repr
    rw [String.toList_ofList, String.length_ofList]
  induction width generalizing n with
  | zero =>
    rw [hpad, Nat.toDigits_of_lt_base (by omega)]
    simp [digits]
  | succ width ih =>
    have hrest : n / 10 < 10 ^ (width + 1) := by
      rw [Nat.pow_succ] at hn
      omega
    rw [digits_succ hn, ← ih hrest, hpad, hpad, Nat.toDigits_eq_if (by decide)]
    split
    · rename_i hlt
      rw [Nat.div_eq_of_lt hlt, Nat.toDigits_zero, Nat.mod_eq_of_lt hlt]
      simp [replicate_succ']
    · rw [length_append, length_singleton, Nat.add_sub_add_right, append_assoc]

theorem append_lt {a b x y : List Char} (hlen : a.length = b.length) (h : a < b) :
    a ++ x < b ++ y := by
  induction a generalizing b with
  | nil =>
    cases b with
    | nil => exact absurd h (lt_irrefl _)
    | cons => cases hlen
  | cons c a ih =>
    cases b with
    | nil => cases hlen
    | cons d b =>
      rw [cons_append, cons_append, cons_lt_cons_iff]
      rw [cons_lt_cons_iff] at h
      exact h.imp id fun h => ⟨h.1, ih (Nat.succ.inj hlen) h.2⟩

/-- Texts that start with numbers in one width compare by them first. -/
theorem digits_append_lt {w m n : Nat} {x y : List Char} (hm : m < 10 ^ w) (hn : n < 10 ^ w)
    (h : m < n ∨ m = n ∧ x < y) :
    digits 10 Nat.digitChar w m ++ x < digits 10 Nat.digitChar w n ++ y := by
  rcases h with h | ⟨rfl, h⟩
  · apply append_lt
    · rw [length_digits, length_digits]
    · exact (digits_lt_iff digitChar_lt hm hn).mpr h
  · exact append_left_lt h

def zone : List Char := "+00:00".toList

/-- `k` groups of three digits, up to the last that is not zero, and the zone. -/
def groups : Nat → Nat → List Char
  | 0, _ => zone
  | k + 1, n =>
    if n = 0 then zone else digits 10 Nat.digitChar 3 (n / 1000 ^ k) ++ groups k (n % 1000 ^ k)

theorem zone_lt_digits {w n : Nat} (hw : w ≠ 0) (hn : n < 10 ^ w) (x : List Char) :
    zone < digits 10 Nat.digitChar w n ++ x := by
  obtain ⟨w, rfl⟩ := Nat.exists_eq_succ_of_ne_zero hw
  have hdigit : ∀ d < 10, '+' < Nat.digitChar d := by decide
  exact cons_lt_cons_iff.mpr (.inl (hdigit _ (top_digit_lt hn)))

theorem groups_lt {k m n : Nat} (h : m < n) (hn : n < 1000 ^ k) : groups k m < groups k n := by
  induction k generalizing m n with
  | zero =>
    rw [Nat.pow_zero] at hn
    omega
  | succ k ih =>
    have hpos : 0 < 1000 ^ k := Nat.pow_pos (by decide)
    have htop : ∀ {a : Nat}, a < 1000 ^ (k + 1) → a / 1000 ^ k < 10 ^ 3 := fun h =>
      Nat.div_lt_of_lt_mul (by rwa [Nat.pow_succ] at h)
    unfold groups
    rw [if_neg (by omega : n ≠ 0)]
    split
    · exact zone_lt_digits (by decide) (htop hn) _
    · refine digits_append_lt (htop (h.trans hn)) (htop hn) ?_
      rcases Nat.lt_or_eq_of_le (Nat.div_le_div_right (c := 1000 ^ k) h.le) with hlt | heq
      · exact .inl hlt
      · refine .inr ⟨heq, ih ?_ (Nat.mod_lt _ hpos)⟩
        have hm := Nat.div_add_mod m (1000 ^ k)
        have hn := Nat.div_add_mod n (1000 ^ k)
        rw [heq] at hm
        omega

theorem fractionText_eq {n : Nat} (hn : n < 1000000000) : (fractionText n).toList ++ zone =
    if n = 0 then zone else '.' :: groups 3 n := by
  have hzero : ∀ k, groups k 0 = zone := by
    intro k
    cases k <;> rfl
  have hpoint : ∀ w m, m < 10 ^ (w + 1) → ("." ++ padLeft (w + 1) m).toList =
      '.' :: digits 10 Nat.digitChar (w + 1) m := by
    intro w m hm
    rw [String.toList_append, padLeft_eq hm]
    rfl
  unfold fractionText
  split
  · rfl
  · rename_i h0
    have hthird : groups 3 n = digits 10 Nat.digitChar 3 (n / 1000000) ++ groups 2 (n % 1000000) :=
      if_neg h0
    rw [hthird]
    split
    · rename_i h6
      rw [hpoint 2 _ (by omega), h6, hzero]
      rfl
    · rename_i h6
      have hsecond : groups 2 (n % 1000000) = digits 10 Nat.digitChar 3 (n % 1000000 / 1000) ++
          groups 1 (n % 1000000 % 1000) := if_neg h6
      rw [hsecond]
      split
      · rename_i h3
        have h3 : n % 1000000 % 1000 = 0 := by omega
        have htop : n / 1000 / 10 ^ 3 = n / 1000000 := by omega
        have hlow : n / 1000 % 10 ^ 3 = n % 1000000 / 1000 := by omega
        rw [hpoint 5 _ (by omega), h3, hzero, digits_append (v := 3) (w := 3) (by omega), htop,
          hlow, cons_append, append_assoc]
      · rename_i h3
        have h3 : n % 1000000 % 1000 ≠ 0 := by omega
        have hfirst : groups 1 (n % 1000000 % 1000) =
            digits 10 Nat.digitChar 3 (n % 1000000 % 1000 / 1) ++ zone := if_neg h3
        rw [hpoint 8 _ (by omega), hfirst, digits_append (v := 3) (w := 6) (by omega),
          digits_append (v := 3) (w := 3) (by omega), Nat.div_one, cons_append, append_assoc,
          append_assoc]
        rfl

theorem fraction_lt {m n : Nat} (h : m < n) (hn : n < 1000000000) :
    (fractionText m).toList ++ zone < (fractionText n).toList ++ zone := by
  rw [fractionText_eq (h.trans hn), fractionText_eq hn, if_neg (by omega : n ≠ 0)]
  split
  · exact cons_lt_cons_iff.mpr (.inl (by decide))
  · exact cons_lt_cons_iff.mpr (.inr ⟨rfl, groups_lt h hn⟩)

def date (t : DateTime) : Int × Int × Int := civilFromDays (dayNumber t)

def clock (t : DateTime) : Nat := (secondOfDay t).toNat

def FourDigits (t : DateTime) : Prop := 0 ≤ (date t).1 ∧ (date t).1 ≤ 9999

/-- What an instant is rendered from: its date, its time of day and its fraction. -/
def layout (y m d hour minute second : Nat) (fraction : List Char) : List Char :=
  digits 10 Nat.digitChar 4 y ++ '-' :: (digits 10 Nat.digitChar 2 m ++ '-' ::
    (digits 10 Nat.digitChar 2 d ++ 'T' :: (digits 10 Nat.digitChar 2 hour ++ ':' ::
      (digits 10 Nat.digitChar 2 minute ++ ':' :: (digits 10 Nat.digitChar 2 second ++ fraction)))))

theorem layout_lt {y m d h i s y' m' d' h' i' s' : Nat} {f f' : List Char}
    (hy : y < 10000 ∧ m < 100 ∧ d < 100 ∧ h < 100 ∧ i < 100 ∧ s < 100)
    (hy' : y' < 10000 ∧ m' < 100 ∧ d' < 100 ∧ h' < 100 ∧ i' < 100 ∧ s' < 100)
    (hlt : y < y' ∨ y = y' ∧ (m < m' ∨ m = m' ∧ (d < d' ∨ d = d' ∧ (h < h' ∨ h = h' ∧
      (i < i' ∨ i = i' ∧ (s < s' ∨ s = s' ∧ f < f')))))) :
    layout y m d h i s f < layout y' m' d' h' i' s' f' := by
  obtain ⟨by_, bm, bd, bh, bi, bs⟩ := hy
  obtain ⟨by', bm', bd', bh', bi', bs'⟩ := hy'
  have hsep : ∀ {c : Char} {x x' : List Char}, x < x' → c :: x < c :: x' := fun h =>
    cons_lt_cons_iff.mpr (.inr ⟨rfl, h⟩)
  refine digits_append_lt by_ by' (hlt.imp_right (And.imp_right fun hlt => hsep ?_))
  refine digits_append_lt bm bm' (hlt.imp_right (And.imp_right fun hlt => hsep ?_))
  refine digits_append_lt bd bd' (hlt.imp_right (And.imp_right fun hlt => hsep ?_))
  refine digits_append_lt bh bh' (hlt.imp_right (And.imp_right fun hlt => hsep ?_))
  refine digits_append_lt bi bi' (hlt.imp_right (And.imp_right fun hlt => hsep ?_))
  exact digits_append_lt bs bs' hlt

theorem toRfc3339_toList {t : DateTime} (h : FourDigits t) : (toRfc3339 t).toList =
    layout (date t).1.toNat (date t).2.1.toNat (date t).2.2.toNat (clock t / 3600)
      (clock t / 60 % 60) (clock t % 60)
      ((fractionText (t % nanosPerSecond).toNat).toList ++ zone) := by
  obtain ⟨⟨-, hm⟩, -, hd⟩ := civilFromDays_bounds (dayNumber t)
  have hclock : clock t < 86400 := by
    unfold clock secondOfDay secondsPerDay
    omega
  have hyear : (yearText (date t).1).toList = digits 10 Nat.digitChar 4 (date t).1.toNat := by
    unfold yearText
    rw [if_pos (show 0 ≤ (date t).1 ∧ (date t).1 ≤ 9999 from h), padLeft_eq]
    have hyear := h.2
    omega
  show (yearText (date t).1 ++ "-" ++ padLeft 2 (date t).2.1.toNat ++ "-" ++
    padLeft 2 (date t).2.2.toNat ++ "T" ++ padLeft 2 (clock t / 3600) ++ ":" ++
    padLeft 2 (clock t / 60 % 60) ++ ":" ++ padLeft 2 (clock t % 60) ++
    fractionText (t % nanosPerSecond).toNat ++ "+00:00").toList = _
  simp only [String.toList_append, append_assoc]
  rw [hyear, padLeft_eq (by unfold date; omega), padLeft_eq (by unfold date; omega),
    padLeft_eq (by omega), padLeft_eq (by omega), padLeft_eq (by omega)]
  rfl

theorem toRfc3339_lt {t u : DateTime} (ht : FourDigits t) (hu : FourDigits u) (h : t < u) :
    toRfc3339 t < toRfc3339 u := by
  rw [String.lt_iff_toList_lt, toRfc3339_toList ht, toRfc3339_toList hu]
  obtain ⟨⟨hm0, hm⟩, hd0, hd⟩ := civilFromDays_bounds (dayNumber t)
  obtain ⟨⟨hm0', hm'⟩, hd0', hd'⟩ := civilFromDays_bounds (dayNumber u)
  have hyear := ht
  have hyear' := hu
  have hclock : clock t < 86400 ∧ clock u < 86400 := by
    unfold clock secondOfDay secondsPerDay
    omega
  have hnanos : (t % nanosPerSecond).toNat < (u % nanosPerSecond).toNat →
      (fractionText (t % nanosPerSecond).toNat).toList ++ zone <
        (fractionText (u % nanosPerSecond).toNat).toList ++ zone :=
    fun h => fraction_lt h (by unfold nanosPerSecond; omega)
  have hsplit : dayNumber t < dayNumber u ∨ dayNumber t = dayNumber u ∧
      (clock t < clock u ∨ clock t = clock u ∧
        (t % nanosPerSecond).toNat < (u % nanosPerSecond).toNat) := by
    have hlt : @LT.lt Int Int.instLTInt t u := h
    unfold clock secondOfDay dayNumber secondsPerDay nanosPerSecond
    omega
  unfold FourDigits date at *
  refine layout_lt (by omega) (by omega) ?_
  rcases hsplit with hday | ⟨hday, hclk | ⟨hclk, hfrac⟩⟩
  · have hord := ordinal_lt hday
    unfold ordinal at hord
    have hdate : (civilFromDays (dayNumber t)).1.toNat < (civilFromDays (dayNumber u)).1.toNat ∨
        (civilFromDays (dayNumber t)).1.toNat = (civilFromDays (dayNumber u)).1.toNat ∧
          ((civilFromDays (dayNumber t)).2.1.toNat < (civilFromDays (dayNumber u)).2.1.toNat ∨
            (civilFromDays (dayNumber t)).2.1.toNat = (civilFromDays (dayNumber u)).2.1.toNat ∧
              (civilFromDays (dayNumber t)).2.2.toNat <
                (civilFromDays (dayNumber u)).2.2.toNat) := by
      omega
    exact hdate.imp_right (And.imp_right (Or.imp_right (And.imp_right .inl)))
  · rw [hday]
    refine .inr ⟨rfl, .inr ⟨rfl, .inr ⟨rfl, ?_⟩⟩⟩
    have htime : clock t / 3600 < clock u / 3600 ∨ clock t / 3600 = clock u / 3600 ∧
        (clock t / 60 % 60 < clock u / 60 % 60 ∨ clock t / 60 % 60 = clock u / 60 % 60 ∧
          clock t % 60 < clock u % 60) := by
      omega
    exact htime.imp_right (And.imp_right (Or.imp_right (And.imp_right .inl)))
  · rw [hday, hclk]
    exact .inr ⟨rfl, .inr ⟨rfl, .inr ⟨rfl, .inr ⟨rfl, .inr ⟨rfl, .inr ⟨rfl, hnanos hfrac⟩⟩⟩⟩⟩⟩

theorem toRfc3339_lt_iff {t u : DateTime} (ht : FourDigits t) (hu : FourDigits u) :
    toRfc3339 t < toRfc3339 u ↔ t < u := by
  refine ⟨fun h => ?_, toRfc3339_lt ht hu⟩
  rcases lt_trichotomy t u with hlt | rfl | hgt
  · exact hlt
  · exact absurd h (lt_irrefl _)
  · exact absurd (toRfc3339_lt hu ht hgt) (lt_asymm h)

end DateTime
end Core

namespace Space

open Core List

theorem expired_iff {now : DateTime} {t : Tuple} (hnow : now.FourDigits)
    (ht : ∀ e, t.expiresAt = some e → e.FourDigits) :
    Store.expired now t = true ↔ ∃ e, t.expiresAt = some e ∧ e < now := by
  unfold Store.expired
  cases he : t.expiresAt with
  | none => simp
  | some e =>
    dsimp only
    rw [decide_eq_true_iff, DateTime.toRfc3339_lt_iff (ht e he) hnow]
    simp

/-- Collection removes, and counts, the tuples that expire before `now`. -/
theorem deleteExpired_chronological (s : Store) (now : DateTime) (hnow : now.FourDigits)
    (hs : ∀ r ∈ s.rows, ∀ e, r.tuple.expiresAt = some e → e.FourDigits) :
    Store.deleteExpired s now =
      ({ s with rows := s.rows.filter fun r => !r.tuple.expiresAt.any (· < now) },
        s.rows.countP fun r => r.tuple.expiresAt.any (· < now)) := by
  have hrow : ∀ r ∈ s.rows, Store.expired now r.tuple = r.tuple.expiresAt.any (· < now) := by
    intro r hr
    rw [Bool.eq_iff_iff, expired_iff hnow (hs r hr)]
    cases r.tuple.expiresAt <;> simp
  unfold Store.deleteExpired
  rw [filter_congr fun r hr => congrArg (!·) (hrow r hr),
    countP_congr fun r hr => Bool.eq_iff_iff.mp (hrow r hr)]

/-- A trail that ran out half a second before `now`, beside one that lasts to the second. -/
def twoTrails : Store :=
  let trail : RecordId → DateTime → Row := fun id e =>
    ⟨id, { Tuple.new id 0 .message "repo" "trail" "rat" .null with expiresAt := some e }⟩
  { Store.empty with rows := [trail 1 1500000000, trail 2 2000000000] }

theorem deleteExpired_chronological_fractions :
    Store.deleteExpired twoTrails 2000000000 = ({ twoTrails with
          rows := twoTrails.rows.filter fun r => !r.tuple.expiresAt.any (· < 2000000000) },
        twoTrails.rows.countP fun r => r.tuple.expiresAt.any (· < 2000000000)) := by
  refine deleteExpired_chronological twoTrails 2000000000 ⟨by decide, by decide⟩ ?_
  intro r hr e he
  unfold twoTrails at hr
  rcases mem_cons.mp hr with rfl | hr
  · cases he
    exact ⟨by decide, by decide⟩
  · rw [mem_singleton.mp hr] at he
    cases he
    exact ⟨by decide, by decide⟩

end Space
end RatKingdom
