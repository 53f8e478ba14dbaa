/-
Reading proquints back.

A syllable packs sixteen bits into five letters, and `decode` folds the syllables of a
spelling into one number, most significant first.  `words_succ` is the same fold seen
from the encoder, the last syllable split off, so that both directions of the round trip
go by induction on the word count.
-/
import RatKingdom.Tickets.Graph

namespace RatKingdom.Tickets
namespace Proquint

open Lib List

inductive ProquintError where
  | wrongWordCount (expected found : Nat)
  | wrongWordLength (word : List Char)
  | badCharacter (word : List Char) (position : Nat) (ch : Char)

def letterValue (letters : List Char) (ch : Char) (word : List Char) (position : Nat) :
    Except ProquintError Nat :=
  if ch ∈ letters then .ok (letters.idxOf ch) else .error (.badCharacter word position ch)

def consonantValue (ch : Char) (word : List Char) (position : Nat) : Except ProquintError Nat :=
  letterValue consonants ch word position

def vowelValue (ch : Char) (word : List Char) (position : Nat) : Except ProquintError Nat :=
  letterValue vowels ch word position

def decodeU16 : List Char → Except ProquintError Nat
  | [a, b, c, d, e] => do
    let word := [a, b, c, d, e]
    let c1 ← consonantValue a word 0
    let v1 ← vowelValue b word 1
    let c2 ← consonantValue c word 2
    let v2 ← vowelValue d word 3
    let c3 ← consonantValue e word 4
    .ok (c1 <<< 12 ||| v1 <<< 10 ||| c2 <<< 6 ||| v2 <<< 4 ||| c3)
  | word => .error (.wrongWordLength word)

/-- One round of the loop in `decode`, over a `u64`. -/
def decodePart (value : Nat) (part : List Char) : Except ProquintError Nat := do
  let low ← decodeU16 part
  .ok (value <<< 16 % 2 ^ 64 ||| low)

def decode (s : String) (words : Nat) : Except ProquintError Nat :=
  let parts := s.toList.splitOn '-'
  if parts.length ≠ words then .error (.wrongWordCount words parts.length)
  else parts.foldlM decodePart 0

variable {position n : Nat}

theorem letterValue_ok_iff {letters word : List Char} {ch : Char} :
    letterValue letters ch word position = .ok n ↔ ch ∈ letters ∧ letters.idxOf ch = n := by
  unfold letterValue
  split <;> simp_all

theorem consonantValue_getD (word : List Char) (position : Nat) :
    ∀ n < 16, consonantValue (consonants.getD n 'b') word position = .ok n := by
  intro n hn
  refine letterValue_ok_iff.mpr ?_
  revert n
  decide

theorem vowelValue_getD (word : List Char) (position : Nat) :
    ∀ n < 4, vowelValue (vowels.getD n 'a') word position = .ok n := by
  intro n hn
  refine letterValue_ok_iff.mpr ?_
  revert n
  decide

variable {word : List Char}

theorem consonantValue_ok {ch : Char} (h : consonantValue ch word position = .ok n) :
    n < 16 ∧ consonants.getD n 'b' = ch := by
  obtain ⟨hm, rfl⟩ := letterValue_ok_iff.mp h
  refine ⟨idxOf_lt_length_iff.mpr hm, ?_⟩
  rw [getD_eq_getElem?_getD, getElem?_idxOf hm, Option.getD_some]

theorem vowelValue_ok {ch : Char} (h : vowelValue ch word position = .ok n) :
    n < 4 ∧ vowels.getD n 'a' = ch := by
  obtain ⟨hm, rfl⟩ := letterValue_ok_iff.mp h
  refine ⟨idxOf_lt_length_iff.mpr hm, ?_⟩
  rw [getD_eq_getElem?_getD, getElem?_idxOf hm, Option.getD_some]

theorem shift_or {a b s k : Nat} (hb : b < 2 ^ s) :
    a <<< (s + k) ||| b <<< k = (a * 2 ^ s + b) <<< k := by
  rw [Nat.shiftLeft_add, ← Nat.shiftLeft_or_distrib, ← Nat.shiftLeft_add_eq_or_of_lt hb,
    Nat.shiftLeft_eq a]

/-- The fields do not overlap, so the bitwise or adds them. -/
theorem pack_eq {c1 v1 c2 v2 c3 : Nat} (h1 : v1 < 4) (h2 : c2 < 16) (h3 : v2 < 4) (h4 : c3 < 16) :
    c1 <<< 12 ||| v1 <<< 10 ||| c2 <<< 6 ||| v2 <<< 4 ||| c3 =
      c1 * 2 ^ 12 + v1 * 2 ^ 10 + c2 * 2 ^ 6 + v2 * 2 ^ 4 + c3 := by
  have e1 : c1 <<< 12 ||| v1 <<< 10 = (c1 * 4 + v1) <<< 10 := shift_or (s := 2) (k := 10) h1
  have e2 : (c1 * 4 + v1) <<< 10 ||| c2 <<< 6 = ((c1 * 4 + v1) * 16 + c2) <<< 6 :=
      shift_or (s := 4) (k := 6) h2
  have e3 : ((c1 * 4 + v1) * 16 + c2) <<< 6 ||| v2 <<< 4 =
      (((c1 * 4 + v1) * 16 + c2) * 4 + v2) <<< 4 := shift_or (s := 2) (k := 4) h3
  rw [e1, e2, e3, ← Nat.shiftLeft_add_eq_or_of_lt (by omega), Nat.shiftLeft_eq]
  omega

theorem decodeU16_encodeU16 {v : Nat} (hv : v < 2 ^ 16) : decodeU16 (encodeU16 v) = .ok v := by
  have h16 : ∀ n, n % 16 < 16 := fun n => Nat.mod_lt n (by decide)
  have h4 : ∀ n, n % 4 < 4 := fun n => Nat.mod_lt n (by decide)
  unfold encodeU16 decodeU16
  dsimp only
  rw [consonantValue_getD _ _ _ (h16 _), vowelValue_getD _ _ _ (h4 _),
    consonantValue_getD _ _ _ (h16 _), vowelValue_getD _ _ _ (h4 _),
    consonantValue_getD _ _ _ (h16 _)]
  show Except.ok _ = _
  rw [pack_eq (h4 _) (h16 _) (h4 _) (h16 _)]
  congr 1
  omega

theorem decodeU16_ok {v : Nat} (h : decodeU16 word = .ok v) : v < 2 ^ 16 ∧ encodeU16 v = word := by
  unfold decodeU16 at h
  split at h
  · obtain ⟨c1, h1, h⟩ := bind_ok_iff.mp h
    obtain ⟨v1, h2, h⟩ := bind_ok_iff.mp h
    obtain ⟨c2, h3, h⟩ := bind_ok_iff.mp h
    obtain ⟨v2, h4, h⟩ := bind_ok_iff.mp h
    obtain ⟨c3, h5, hv⟩ := bind_ok_iff.mp h
    obtain ⟨b1, rfl⟩ := consonantValue_ok h1
    obtain ⟨b2, rfl⟩ := vowelValue_ok h2
    obtain ⟨b3, rfl⟩ := consonantValue_ok h3
    obtain ⟨b4, rfl⟩ := vowelValue_ok h4
    obtain ⟨b5, rfl⟩ := consonantValue_ok h5
    cases hv
    rw [pack_eq b2 b3 b4 b5]
    refine ⟨by omega, ?_⟩
    unfold encodeU16
    congr <;> omega
  · cases h

def words (value w : Nat) : List (List Char) :=
  (List.range w).map fun i => encodeU16 (value / 2 ^ (16 * (w - 1 - i)) % 2 ^ 16)

theorem words_succ (value w : Nat) :
    words value (w + 1) = words (value / 2 ^ 16) w ++ [encodeU16 (value % 2 ^ 16)] := by
  unfold words
  rw [range_succ, map_append, map_singleton, Nat.add_sub_cancel, Nat.sub_self, Nat.mul_zero,
    Nat.pow_zero, Nat.div_one]
  congr 1
  apply map_congr_left
  intro i hi
  have hlt : i < w := mem_range.mp hi
  have hshift : 16 * (w - i) = 16 + 16 * (w - 1 - i) := by omega
  rw [hshift, Nat.pow_add, Nat.div_div_eq_div_mul]

theorem encode_eq (value w : Nat) :
    encode value w = String.ofList (['-'].intercalate (words value w)) := rfl

/-- Within four words the shift loses nothing. -/
theorem shift_eq {u low w : Nat} (hw : w + 1 ≤ 4) (hu : u < 2 ^ (16 * w)) (hlow : low < 2 ^ 16) :
    u <<< 16 % 2 ^ 64 ||| low = u * 2 ^ 16 + low ∧ u * 2 ^ 16 + low < 2 ^ (16 * (w + 1)) := by
  have hpow : 2 ^ (16 * (w + 1)) = 2 ^ (16 * w) * 2 ^ 16 := Nat.pow_add 2 (16 * w) 16
  have hmax : 2 ^ (16 * (w + 1)) ≤ 2 ^ 64 := by
    apply Nat.pow_le_pow_right (by decide)
    omega
  have hlt : u * 2 ^ 16 + low < 2 ^ (16 * (w + 1)) := by omega
  have hmod : u * 2 ^ 16 % 2 ^ 64 = u * 2 ^ 16 :=
    Nat.mod_eq_of_lt (((Nat.le_add_right _ low).trans_lt hlt).trans_le hmax)
  refine ⟨?_, hlt⟩
  rw [Nat.shiftLeft_eq, hmod, ← Nat.shiftLeft_eq, ← Nat.shiftLeft_add_eq_or_of_lt hlow,
    Nat.shiftLeft_eq]

theorem fold_words {w : Nat} (value : Nat) (hw : w ≤ 4) :
    (words value w).foldlM decodePart 0 = .ok (value % 2 ^ (16 * w)) := by
  induction w generalizing value with
  | zero => simp [words, Nat.mod_one, pure, Except.pure]
  | succ w ih =>
    have hlow : value % 2 ^ 16 < 2 ^ 16 := Nat.mod_lt _ (by decide)
    have hhigh : value / 2 ^ 16 % 2 ^ (16 * w) < 2 ^ (16 * w) :=
      Nat.mod_lt _ (Nat.two_pow_pos _)
    have hpart : decodePart (value / 2 ^ 16 % 2 ^ (16 * w)) (encodeU16 (value % 2 ^ 16)) =
        .ok (value % 2 ^ (16 * (w + 1))) := by
      unfold decodePart
      rw [decodeU16_encodeU16 hlow]
      show Except.ok _ = _
      rw [(shift_eq hw hhigh hlow).1, Nat.mul_succ, Nat.add_comm (16 * w), Nat.pow_add,
        Nat.mod_mul, Nat.add_comm, Nat.mul_comm]
    rw [words_succ, foldlM_append, ih _ (by omega)]
    show (decodePart _ _ >>= fun value => [].foldlM decodePart value) = _
    rw [hpart]
    rfl

theorem words_fold {parts : List (List Char)} {v : Nat} (hw : parts.length ≤ 4)
    (h : parts.foldlM decodePart 0 = .ok v) :
    v < 2 ^ (16 * parts.length) ∧ words v parts.length = parts := by
  induction parts using reverseRecOn generalizing v with
  | nil =>
    cases h
    exact ⟨by decide, rfl⟩
  | append_singleton init last ih =>
    rw [length_append, length_singleton] at hw ⊢
    rw [foldlM_append] at h
    obtain ⟨u, hu, h⟩ := bind_ok_iff.mp h
    rw [foldlM_cons] at h
    obtain ⟨v', hv, h⟩ := bind_ok_iff.mp h
    cases h
    obtain ⟨low, hl, hv⟩ := bind_ok_iff.mp hv
    cases hv
    obtain ⟨hbound, hwords⟩ := ih (by omega) hu
    obtain ⟨hlow, hlast⟩ := decodeU16_ok hl
    obtain ⟨heq, hlt⟩ := shift_eq hw hbound hlow
    rw [heq]
    refine ⟨hlt, ?_⟩
    have hdiv : (u * 2 ^ 16 + low) / 2 ^ 16 = u := by omega
    have hmod : (u * 2 ^ 16 + low) % 2 ^ 16 = low := by omega
    rw [words_succ, hdiv, hmod, hwords, hlast]

theorem decode_encode {w : Nat} (value : Nat) (h1 : 1 ≤ w) (h4 : w ≤ 4) :
    decode (encode value w) w = .ok (value % 2 ^ (16 * w)) := by
  unfold decode
  rw [splitOn_encode value (by omega)]
  simp only [length_map, length_range, ne_eq, not_true_eq_false, if_false]
  exact fold_words value h4

theorem encode_decode {s : String} {w v : Nat} (h4 : w ≤ 4) (h : decode s w = .ok v) :
    v < 2 ^ (16 * w) ∧ encode v w = s := by
  unfold decode at h
  dsimp only at h
  split at h
  · cases h
  · rename_i hlen
    rw [not_not] at hlen
    subst hlen
    obtain ⟨hlt, hwords⟩ := words_fold h4 h
    refine ⟨hlt, ?_⟩
    rw [encode_eq, hwords, intercalate_splitOn, String.ofList_toList]

/-- Decoding inverts encoding, and accepts nothing but what the encoder prints. -/
theorem codec_round_trip (w : Nat) (h1 : 1 ≤ w) (h4 : w ≤ 4) :
    (∀ value < 2 ^ 64, decode (encode value w) w = .ok (value % 2 ^ (16 * w))) ∧
      ∀ s v, decode s w = .ok v → v < 2 ^ (16 * w) ∧ encode v w = s :=
  ⟨fun value _ => decode_encode value h1 h4, fun _ _ h => encode_decode h4 h⟩

theorem codec_round_trip_two :
    (∀ value < 2 ^ 64, decode (encode value 2) 2 = .ok (value % 2 ^ (16 * 2))) ∧
      ∀ s v, decode s 2 = .ok v → v < 2 ^ (16 * 2) ∧ encode v 2 = s :=
  codec_round_trip 2 (by decide) (by decide)

example : encode 0x7f000001 2 = "lusab-babad" := by decide

end Proquint
end RatKingdom.Tickets
