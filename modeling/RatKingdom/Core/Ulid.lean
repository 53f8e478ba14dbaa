/-
Record ids as text.

A ULID is written in 26 digits of Crockford's base 32.  The digits stand in the order of
their characters, so the texts compare as the 128-bit numbers they encode
(`RecordId.toText_lt_iff`), and a text reads back as its number.
-/
import Mathlib.Data.String.Basic
import RatKingdom.Core.Tuple
import RatKingdom.Lib.Digits

namespace RatKingdom.Core

def crockford : List Char := "0123456789ABCDEFGHJKMNPQRSTVWXYZ".toList

def crockfordDigit (d : Nat) : Char := crockford.getD d '0'

def readCrockford (c : Char) : Option Nat := crockford.findIdx? fun d => d = c.toUpper

namespace RecordId

/-- The ids are 128 bits wide. -/
def Valid (id : RecordId) : Prop := id < 2 ^ 128
deriving Decidable

def toText (id : RecordId) : String := String.ofList (Lib.digits 32 crockfordDigit 26 id)

/-- The digits are shifted into 128 bits, so those of a larger number are cut off. -/
def ofText (s : String) : Option RecordId :=
  if s.length = 26 then (Lib.value 32 readCrockford s.toList).map fun id => id % 2 ^ 128
  else none

theorem crockfordDigit_lt : ∀ b, b < 32 → ∀ a, a < b → crockfordDigit a < crockfordDigit b := by
  decide

theorem readCrockford_digit : ∀ d, d < 32 → readCrockford (crockfordDigit d) = some d := by
  decide

theorem Valid.width {id : RecordId} (h : Valid id) : id < 32 ^ 26 := by
  have hpow : (2 : Nat) ^ 128 ≤ 32 ^ 26 := by decide
  exact Nat.lt_of_lt_of_le h hpow

theorem toText_lt_iff {a b : RecordId} (ha : Valid a) (hb : Valid b) :
    toText a < toText b ↔ a < b := by
  show (String.ofList _).toList < (String.ofList _).toList ↔ a < b
  rw [String.toList_ofList, String.toList_ofList]
  exact Lib.digits_lt_iff (fun a b hab hb => crockfordDigit_lt b hb a hab) ha.width hb.width

theorem toText_le_iff {a b : RecordId} (ha : Valid a) (hb : Valid b) :
    toText a ≤ toText b ↔ a ≤ b := by
  rw [← not_lt, toText_lt_iff hb ha, not_lt]

theorem ofText_toText {id : RecordId} (h : Valid id) : ofText (toText id) = some id := by
  have hlen : (toText id).length = 26 := by simp [toText]
  have hval : Lib.value 32 readCrockford (toText id).toList = some id := by
    rw [toText, String.toList_ofList]
    exact Lib.value_digits readCrockford_digit h.width
  rw [ofText, if_pos hlen, hval, Option.map_some, Nat.mod_eq_of_lt h]

end RecordId

end RatKingdom.Core
