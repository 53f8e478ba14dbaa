/-
Percent-decoding to a fixed point.

One pass walks the bytes of a text and builds a text of characters, each byte outside an
escape being pushed as the character of its number.  A byte of a multi-byte character so
comes back as a character of two bytes: a pass at least doubles what is not ASCII
(`wide_decoded`), and what a pass leaves alone is ASCII.
-/
import Mathlib.Data.List.Basic

namespace RatKingdom.Core
namespace Percent

open List

def asBytes (s : List Char) : List UInt8 := s.flatMap String.utf8EncodeChar

def maxPasses : Nat := 8

def maxNormalizedBytes : Nat := 4096

def hexValue (byte : UInt8) : Option Nat :=
  let n := byte.toNat
  if 48 ≤ n ∧ n ≤ 57 then some (n - 48)
  else if 97 ≤ n ∧ n ≤ 102 then some (n - 97 + 10)
  else if 65 ≤ n ∧ n ≤ 70 then some (n - 65 + 10)
  else none

/-- The byte that `%` and two hex digits stand for. -/
def escapeValue (byte high low : UInt8) : Option Nat :=
  if byte = 37 then do
    let h ← hexValue high
    let l ← hexValue low
    some (h * 16 + l)
  else none

def cased (lowercase : Bool) (c : Char) : Char := if lowercase then c.toLower else c

def percentDecodeAsciiOnceBounded (lowercase : Bool) :
    List UInt8 → Nat → Option (List Char)
  | [], _ => some []
  | byte :: high :: low :: rest, len =>
    if maxNormalizedBytes ≤ len then none
    else
      match escapeValue byte high low with
      | some value =>
        let decoded := cased lowercase (Char.ofNat value)
        (percentDecodeAsciiOnceBounded lowercase rest (len + decoded.utf8Size)).map (decoded :: ·)
      | none =>
        let character := cased lowercase (Char.ofNat byte.toNat)
        (percentDecodeAsciiOnceBounded lowercase (high :: low :: rest)
          (len + character.utf8Size)).map (character :: ·)
  | byte :: rest, len =>
    if maxNormalizedBytes ≤ len then none
    else
      let character := cased lowercase (Char.ofNat byte.toNat)
      (percentDecodeAsciiOnceBounded lowercase rest (len + character.utf8Size)).map (character :: ·)

/-- What is left of the loop with `passes` passes to go, the check after it included. -/
def fixedPointPasses (lowercase : Bool) : Nat → List Char → Option (List Char)
  | 0, current =>
    match percentDecodeAsciiOnceBounded lowercase (asBytes current) 0 with
    | none => none
    | some next => if next = current then some current else none
  | passes + 1, current =>
    match percentDecodeAsciiOnceBounded lowercase (asBytes current) 0 with
    | none => none
    | some next => if next = current then some next else fixedPointPasses lowercase passes next

def percentDecodeAsciiFixedPointWithCase (value : List Char) (lowercase : Bool) :
    Option (List Char) :=
  fixedPointPasses lowercase maxPasses (value.map (cased lowercase))

def wide (c : Char) : Bool := decide (128 ≤ c.toNat)

def wideByte (byte : UInt8) : Bool := decide (128 ≤ byte.toNat)

theorem toNat_ofNat_byte {n : Nat} (h : n < 256) : (Char.ofNat n).toNat = n := by
  have hv : n.isValidChar := .inl (by omega)
  rw [Char.ofNat, dif_pos hv]
  rfl

theorem toLower_toNat (c : Char) :
    (c.toLower = c ∧ ¬ (65 ≤ c.toNat ∧ c.toNat ≤ 90)) ∨
      (65 ≤ c.toNat ∧ c.toNat ≤ 90 ∧ c.toLower.toNat = c.toNat + 32) := by
  unfold Char.toLower
  split
  · rename_i h
    have h65 : 65 ≤ c.toNat := UInt32.le_iff_toNat_le.mp h.1
    have h90 : c.toNat ≤ 90 := UInt32.le_iff_toNat_le.mp h.2
    refine .inr ⟨h65, h90, ?_⟩
    show (c.val + ('a'.val - 'A'.val)).toNat = c.val.toNat + 32
    rw [UInt32.toNat_add]
    exact Nat.mod_eq_of_lt (Nat.lt_of_le_of_lt (Nat.add_le_add_right h90 32) (by decide))
  · rename_i h
    exact .inl ⟨rfl, fun hb => h ⟨UInt32.le_iff_toNat_le.mpr hb.1, UInt32.le_iff_toNat_le.mpr hb.2⟩⟩

variable (lowercase : Bool)

theorem cased_idem (c : Char) : cased lowercase (cased lowercase c) = cased lowercase c := by
  unfold cased
  split
  · rcases toLower_toNat c with ⟨h, -⟩ | ⟨h65, h90, hn⟩
    · rw [h, h]
    · exact ((toLower_toNat c.toLower).resolve_right fun h => by omega).1
  · rfl

theorem wide_cased (c : Char) : wide (cased lowercase c) = wide c := by
  unfold cased
  split
  · rcases toLower_toNat c with ⟨h, -⟩ | ⟨h65, h90, hn⟩
    · rw [h]
    · unfold wide
      rw [hn, decide_eq_decide]
      omega
  · rfl

theorem cased_eq_percent {c : Char} (h : (cased lowercase c).toNat = 37) : c = '%' := by
  have hc : c.toNat = 37 := by
    unfold cased at h
    split at h
    · rcases toLower_toNat c with ⟨he, -⟩ | ⟨h65, h90, hn⟩
      · rwa [he] at h
      · omega
    · exact h
  rw [← Char.ofNat_toNat c, hc]

theorem utf8Size_of_narrow {c : Char} (h : wide c = false) : c.utf8Size = 1 := by
  have hlt : ¬ 128 ≤ c.toNat := of_decide_eq_false h
  exact if_pos (UInt32.le_iff_toNat_le.mpr (by
    show c.toNat ≤ 127
    omega))

theorem encode_of_narrow {c : Char} (h : wide c = false) :
    String.utf8EncodeChar c = [UInt8.ofNat c.toNat] := by
  have hlt : ¬ 128 ≤ c.toNat := of_decide_eq_false h
  exact if_pos (show c.toNat ≤ 127 by omega)

/-- A character that is not ASCII has two bytes or more, none of them ASCII. -/
theorem encode_of_wide {c : Char} (h : wide c = true) :
    2 ≤ (String.utf8EncodeChar c).countP wideByte := by
  have hle : 128 ≤ c.toNat := of_decide_eq_true h
  have hb : ∀ a m k : Nat, m ≤ 64 → 0 < m → 128 ≤ k → m + k ≤ 256 →
      wideByte (UInt8.ofNat (a % m + k)) = true := by
    intro a m k hm hpos hk hsum
    have hmod := Nat.mod_lt a hpos
    apply decide_eq_true
    rw [UInt8.toNat_ofNat', Nat.mod_eq_of_lt (by omega)]
    omega
  have h6 : ∀ a, wideByte (UInt8.ofNat (a % 64 + 128)) = true := fun a =>
    hb a _ _ (by decide) (by decide) (by decide) (by decide)
  have h5 : ∀ a, wideByte (UInt8.ofNat (a % 32 + 192)) = true := fun a =>
    hb a _ _ (by decide) (by decide) (by decide) (by decide)
  have h4 : ∀ a, wideByte (UInt8.ofNat (a % 16 + 224)) = true := fun a =>
    hb a _ _ (by decide) (by decide) (by decide) (by decide)
  have h3 : ∀ a, wideByte (UInt8.ofNat (a % 8 + 240)) = true := fun a =>
    hb a _ _ (by decide) (by decide) (by decide) (by decide)
  unfold String.utf8EncodeChar
  dsimp only
  rw [if_neg (show ¬ c.val.toNat ≤ 127 from Nat.not_le.mpr hle)]
  split
  · simp only [countP_cons, countP_nil, h6, h5, if_true]
    decide
  · split
    · simp only [countP_cons, countP_nil, h6, h4, if_true]
      decide
    · simp only [countP_cons, countP_nil, h6, h3, if_true]
      decide

theorem wide_asBytes (s : List Char) : 2 * s.countP wide ≤ (asBytes s).countP wideByte := by
  unfold asBytes
  induction s with
  | nil => exact Nat.le_refl _
  | cons c s ih =>
    rw [countP_cons, flatMap_cons, countP_append]
    by_cases hc : wide c = true
    · have hw := encode_of_wide hc
      rw [if_pos hc]
      omega
    · rw [if_neg hc]
      omega

variable {lowercase} {bytes : List UInt8} {s r : List Char} {len : Nat}

theorem narrow_of_hexValue {byte : UInt8} {n : Nat} (h : hexValue byte = some n) :
    wideByte byte = false := by
  apply decide_eq_false
  unfold hexValue at h
  dsimp only at h
  split at h
  · omega
  · split at h
    · omega
    · split at h
      · omega
      · cases h

theorem wide_ofNat (byte : UInt8) : wide (Char.ofNat byte.toNat) = wideByte byte := by
  unfold wide wideByte
  rw [toNat_ofNat_byte byte.toNat_lt]

/-- A byte that is not ASCII is in no escape, and is pushed as a character that is not. -/
theorem wide_decoded (h : percentDecodeAsciiOnceBounded lowercase bytes len = some r) :
    bytes.countP wideByte ≤ r.countP wide := by
  fun_induction percentDecodeAsciiOnceBounded lowercase bytes len generalizing r with
  | case1 => exact Nat.zero_le _
  | case2 => cases h
  | case3 byte high low rest len hlen value hv character =>
    rename_i ih
    obtain ⟨r', hr, rfl⟩ := Option.map_eq_some_iff.mp h
    unfold escapeValue at hv
    obtain ⟨hbyte, hv⟩ := Option.ite_none_right_eq_some.mp hv
    obtain ⟨a, ha, hv⟩ := Option.bind_eq_some_iff.mp hv
    obtain ⟨b, hb, -⟩ := Option.bind_eq_some_iff.mp hv
    have hnarrow : wideByte byte = false := by
      rw [hbyte]
      rfl
    simp only [countP_cons, hnarrow, narrow_of_hexValue ha, narrow_of_hexValue hb,
      Bool.false_eq_true, if_false]
    exact Nat.le_trans (ih hr) (Nat.le_add_right _ _)
  | case5 => cases h
  | case4 | case6 =>
    rename_i ih
    obtain ⟨r', hr, rfl⟩ := Option.map_eq_some_iff.mp h
    have hpart := ih hr
    rw [countP_cons, countP_cons (l := r'), wide_cased, wide_ofNat]
    omega

theorem cased_decoded (h : percentDecodeAsciiOnceBounded lowercase bytes len = some r) :
    r.map (cased lowercase) = r := by
  fun_induction percentDecodeAsciiOnceBounded lowercase bytes len generalizing r with
  | case1 =>
    cases h
    rfl
  | case2 => cases h
  | case5 => cases h
  | case3 | case4 | case6 =>
    rename_i ih
    obtain ⟨r', hr, rfl⟩ := Option.map_eq_some_iff.mp h
    rw [map_cons, cased_idem, ih hr]

/-- A pass over ASCII without escapes, within the bound. -/
theorem decoded_of_plain (hplain : ∀ b ∈ bytes, b ≠ 37) (hnarrow : ∀ b ∈ bytes, wideByte b = false)
    (hlen : len + bytes.length ≤ maxNormalizedBytes) :
    percentDecodeAsciiOnceBounded lowercase bytes len =
      some (bytes.map fun b => cased lowercase (Char.ofNat b.toNat)) := by
  have hsize : ∀ {b : UInt8}, wideByte b = false →
      (cased lowercase (Char.ofNat b.toNat)).utf8Size = 1 := fun h =>
    utf8Size_of_narrow (by rw [wide_cased, wide_ofNat, h])
  fun_induction percentDecodeAsciiOnceBounded lowercase bytes len with
  | case1 => rfl
  | case2 | case5 =>
    rw [length_cons] at hlen
    omega
  | case3 byte high low rest len _ value hv =>
    unfold escapeValue at hv
    rw [if_neg (hplain byte mem_cons_self)] at hv
    cases hv
  | case4 | case6 =>
    rename_i ih
    rw [length_cons] at hlen
    rw [ih (fun b hb => hplain b (mem_cons_of_mem _ hb))
      (fun b hb => hnarrow b (mem_cons_of_mem _ hb))
      (by rw [hsize (hnarrow _ mem_cons_self)]; omega)]
    rfl

theorem narrow_of_fixed (h : percentDecodeAsciiOnceBounded lowercase (asBytes s) 0 = some s) :
    ∀ c ∈ s, wide c = false := by
  have hgrow := Nat.le_trans (wide_asBytes s) (wide_decoded h)
  have hzero : s.countP wide = 0 := by omega
  exact fun c hc => Bool.eq_false_iff.mpr (countP_eq_zero.mp hzero c hc)

/-- A decoded text is what the next pass would give, and the text it came from was ASCII. -/
theorem fixedPointPasses_spec {passes : Nat} (h : fixedPointPasses lowercase passes s = some r) :
    percentDecodeAsciiOnceBounded lowercase (asBytes r) 0 = some r ∧ ∀ c ∈ s, wide c = false := by
  induction passes generalizing s with
  | zero =>
    unfold fixedPointPasses at h
    split at h
    · cases h
    · rename_i next hnext
      split at h
      · rename_i heq
        cases h
        rw [heq] at hnext
        exact ⟨hnext, narrow_of_fixed hnext⟩
      · cases h
  | succ passes ih =>
    unfold fixedPointPasses at h
    split at h
    · cases h
    · rename_i next hnext
      split at h
      · rename_i heq
        cases h
        rw [heq] at hnext ⊢
        exact ⟨hnext, narrow_of_fixed hnext⟩
      · obtain ⟨hfixed, hnarrow⟩ := ih h
        refine ⟨hfixed, fun c hc => Bool.eq_false_iff.mpr fun hwide => ?_⟩
        -- what is not ASCII stays so, in a byte of each character
        have hgrow := Nat.le_trans (wide_asBytes s) (wide_decoded hnext)
        have hzero : next.countP wide = 0 :=
          countP_eq_zero.mpr fun c hc => by rw [hnarrow c hc]; exact Bool.false_ne_true
        have hpos : 0 < s.countP wide := countP_pos_iff.mpr ⟨c, hc, hwide⟩
        omega

theorem fixedPointPasses_of_fixed {passes : Nat}
    (h : percentDecodeAsciiOnceBounded lowercase (asBytes r) 0 = some r) :
    fixedPointPasses lowercase passes r = some r := by
  cases passes <;> simp [fixedPointPasses, h]

theorem decode_idempotent (lowercase : Bool) (s r : List Char)
    (h : percentDecodeAsciiFixedPointWithCase s lowercase = some r) :
    percentDecodeAsciiFixedPointWithCase r lowercase = some r := by
  have hfixed := (fixedPointPasses_spec h).1
  unfold percentDecodeAsciiFixedPointWithCase
  rw [cased_decoded hfixed]
  exact fixedPointPasses_of_fixed hfixed

theorem asBytes_of_narrow (h : ∀ c ∈ s, wide c = false) :
    asBytes s = s.map fun c => UInt8.ofNat c.toNat := by
  unfold asBytes
  induction s with
  | nil => rfl
  | cons c s ih =>
    rw [flatMap_cons, encode_of_narrow (h c mem_cons_self),
      ih fun c hc => h c (mem_cons_of_mem _ hc)]
    rfl

theorem decode_of_narrow (hnarrow : ∀ c ∈ s, wide c = false) (hplain : '%' ∉ s)
    (hlen : (asBytes s).length ≤ maxNormalizedBytes) :
    percentDecodeAsciiFixedPointWithCase s lowercase = some (s.map (cased lowercase)) := by
  have hlow : ∀ c ∈ s.map (cased lowercase), wide c = false := by
    intro c hc
    obtain ⟨d, hd, rfl⟩ := mem_map.mp hc
    rw [wide_cased, hnarrow d hd]
  have hbyte : ∀ c : Char, wide c = false → (UInt8.ofNat c.toNat).toNat = c.toNat := by
    intro c hc
    have hlt : ¬ 128 ≤ c.toNat := of_decide_eq_false hc
    rw [UInt8.toNat_ofNat', Nat.mod_eq_of_lt (by omega)]
  refine fixedPointPasses_of_fixed ?_
  rw [asBytes_of_narrow hlow, decoded_of_plain]
  · rw [map_map, map_map]
    refine congrArg some (map_congr_left fun c hc => ?_)
    simp only [Function.comp_apply]
    rw [hbyte _ (by rw [wide_cased, hnarrow c hc]), Char.ofNat_toNat, cased_idem]
  · intro b hb
    obtain ⟨c, hc, rfl⟩ := mem_map.mp hb
    obtain ⟨d, hd, rfl⟩ := mem_map.mp hc
    intro he
    have hn : (cased lowercase d).toNat = 37 := by
      rw [← hbyte _ (hlow _ hc), he]
      rfl
    rw [cased_eq_percent lowercase hn] at hd
    exact hplain hd
  · intro b hb
    obtain ⟨c, hc, rfl⟩ := mem_map.mp hb
    unfold wideByte
    rw [hbyte c (hlow c hc)]
    exact hlow c hc
  · rw [asBytes_of_narrow hnarrow, length_map] at hlen
    simpa using hlen

/-- A text without escapes comes back, or its lowercase does, just when it is ASCII; and
what is decoded decodes to itself. -/
theorem decode_plain_iff (s : List Char) (lowercase : Bool) (hlen : (asBytes s).length ≤ 4095)
    (hplain : '%' ∉ s) :
    (percentDecodeAsciiFixedPointWithCase s lowercase = some (s.map (cased lowercase)) ↔
        ∀ c ∈ s, c.toNat < 128) ∧
      ∀ s r, percentDecodeAsciiFixedPointWithCase s lowercase = some r →
        percentDecodeAsciiFixedPointWithCase r lowercase = some r := by
  have hnarrow : ∀ c : Char, wide c = false ↔ c.toNat < 128 := by
    intro c
    unfold wide
    rw [decide_eq_false_iff_not, Nat.not_le]
  refine ⟨⟨fun h c hc => ?_, fun h => ?_⟩, decode_idempotent lowercase⟩
  · have hc := (fixedPointPasses_spec h).2 _ (mem_map_of_mem hc)
    rwa [wide_cased, hnarrow] at hc
  · exact decode_of_narrow (fun c hc => (hnarrow c).mpr (h c hc)) hplain (Nat.le_succ_of_le hlen)

theorem decode_plain_iff_disk_full :
    (percentDecodeAsciiFixedPointWithCase "Disk full".toList true = some "disk full".toList ↔
        ∀ c ∈ "Disk full".toList, c.toNat < 128) ∧
      ∀ s r, percentDecodeAsciiFixedPointWithCase s true = some r →
        percentDecodeAsciiFixedPointWithCase r true = some r :=
  decode_plain_iff "Disk full".toList true (by decide) (by decide)

/-- Text that is not ASCII is rejected as undecodable. -/
theorem accented_text_rejected :
    (asBytes ['é']).length ≤ 4095 ∧ '%' ∉ ['é'] ∧
      percentDecodeAsciiFixedPointWithCase ['é'] false = none := by
  refine ⟨by decide, by decide, ?_⟩
  cases h : percentDecodeAsciiFixedPointWithCase ['é'] false with
  | none => rfl
  | some r => exact absurd ((fixedPointPasses_spec h).2 'é' mem_cons_self) (by decide)

end Percent
end RatKingdom.Core
