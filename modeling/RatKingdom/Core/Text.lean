/-
The two texts the tuple store keeps in its columns: a payload as compact JSON and
an instant as RFC 3339.

Payload search and TTL collection both compare these texts rather than the values
behind them, so they are written out here character by character.
-/
import Mathlib.Algebra.Group.Nat.Defs
import Mathlib.Data.List.Infix

namespace RatKingdom.Core

/-- A JSON number.  A finite double is given by the shortest decimal text the
serializer prints for it. -/
inductive Number where
  | int (i : Int)
  | float (text : String)
  deriving DecidableEq

/-- `serde_json::Value`.  The fields of an object stand in key order, the order its
sorted map iterates in. -/
inductive Value where
  | null
  | bool (b : Bool)
  | number (n : Number)
  | string (s : String)
  | array (items : List Value)
  | object (fields : List (String × Value))

namespace Value

/-- `Value::get` with a key: the field of an object, nothing otherwise. -/
def get : Value → String → Option Value
  | .object fields, key => (fields.find? fun f => f.1 = key).map Prod.snd
  | _, _ => none

def asStr : Value → Option String
  | .string s => some s
  | _ => none

def asBool : Value → Option Bool
  | .bool b => some b
  | _ => none

def getStr (v : Value) (key : String) : Option String := (v.get key).bind asStr

end Value

def Number.toText : Number → String
  | .int i => toString i
  | .float text => text

def hexDigit (n : Nat) : Char := if n < 10 then Char.ofNat (48 + n) else Char.ofNat (87 + n)

/-- The escape of one character inside a JSON string: the two-character escapes,
`\u00XX` for the other control characters, and the character itself otherwise. -/
def escapeChar (c : Char) : List Char :=
  if c = '"' then ['\\', '"']
  else if c = '\\' then ['\\', '\\']
  else if c.toNat = 8 then ['\\', 'b']
  else if c.toNat = 9 then ['\\', 't']
  else if c.toNat = 10 then ['\\', 'n']
  else if c.toNat = 12 then ['\\', 'f']
  else if c.toNat = 13 then ['\\', 'r']
  else if c.toNat < 32 then
    ['\\', 'u', '0', '0', hexDigit (c.toNat / 16), hexDigit (c.toNat % 16)]
  else [c]

def quoteText (s : String) : String := "\"" ++ String.ofList (s.toList.flatMap escapeChar) ++ "\""

mutual
/-- `Value::to_string`: the compact serialization. -/
def Value.toText : Value → String
  | .null => "null"
  | .bool b => if b then "true" else "false"
  | .number n => n.toText
  | .string s => quoteText s
  | .array items => "[" ++ itemsText items ++ "]"
  | .object fields => "\x7b" ++ fieldsText fields ++ "\x7d"

def itemsText : List Value → String
  | [] => ""
  | [v] => v.toText
  | v :: w :: rest => v.toText ++ "," ++ itemsText (w :: rest)

def fieldsText : List (String × Value) → String
  | [] => ""
  | [(k, v)] => quoteText k ++ ":" ++ v.toText
  | (k, v) :: f :: rest => quoteText k ++ ":" ++ v.toText ++ "," ++ fieldsText (f :: rest)
end

mutual
/-- The doubles in a value. -/
def Value.doubles : Value → List String
  | .number (.float text) => [text]
  | .array items => itemsDoubles items
  | .object fields => fieldsDoubles fields
  | _ => []

def itemsDoubles : List Value → List String
  | [] => []
  | v :: rest => v.doubles ++ itemsDoubles rest

def fieldsDoubles : List (String × Value) → List String
  | [] => []
  | (_, v) :: rest => v.doubles ++ fieldsDoubles rest
end

mutual
/-- The value parsed from the text of another, where `reads` parses a double. -/
def Value.reread (reads : String → String) : Value → Value
  | .number (.float text) => .number (.float (reads text))
  | .array items => .array (itemsReread reads items)
  | .object fields => .object (fieldsReread reads fields)
  | v => v

def itemsReread (reads : String → String) : List Value → List Value
  | [] => []
  | v :: rest => v.reread reads :: itemsReread reads rest

def fieldsReread (reads : String → String) : List (String × Value) → List (String × Value)
  | [] => []
  | (k, v) :: rest => (k, v.reread reads) :: fieldsReread reads rest
end

mutual
theorem Value.reread_eq {reads : String → String} (v : Value) (h : ∀ d ∈ v.doubles, reads d = d) :
    v.reread reads = v := by
  cases v with
  | number n =>
    cases n with
    | int i => rfl
    | float text => simp only [Value.reread, h text (List.mem_singleton.mpr rfl)]
  | array items => rw [Value.reread, itemsReread_eq items h]
  | object fields => rw [Value.reread, fieldsReread_eq fields h]
  | _ => rfl

theorem itemsReread_eq {reads : String → String} (items : List Value)
    (h : ∀ d ∈ itemsDoubles items, reads d = d) : itemsReread reads items = items := by
  cases items with
  | nil => rfl
  | cons v rest =>
    rw [itemsReread, v.reread_eq fun d hd => h d (List.mem_append_left _ hd),
      itemsReread_eq rest fun d hd => h d (List.mem_append_right _ hd)]

theorem fieldsReread_eq {reads : String → String} (fields : List (String × Value))
    (h : ∀ d ∈ fieldsDoubles fields, reads d = d) : fieldsReread reads fields = fields := by
  cases fields with
  | nil => rfl
  | cons f rest =>
    rw [fieldsReread, f.2.reread_eq fun d hd => h d (List.mem_append_left _ hd),
      fieldsReread_eq rest fun d hd => h d (List.mem_append_right _ hd)]
end

/-- `str::contains`, the literal substring test. -/
def containsText (hay needle : String) : Bool := decide (needle.toList <:+: hay.toList)

example : containsText (Value.object [("agent", .string "Whisker")]).toText "\"Whisker\"" = true := by
  decide

def isWhitespace (c : Char) : Bool :=
  let n := c.toNat
  (9 ≤ n && n ≤ 13) || n = 0x20 || n = 0x85 || n = 0xA0 || n = 0x1680 ||
    (0x2000 ≤ n && n ≤ 0x200A) || n = 0x2028 || n = 0x2029 || n = 0x202F || n = 0x205F ||
    n = 0x3000

/-- `str::trim`. -/
def trimmed (s : List Char) : List Char :=
  ((s.dropWhile isWhitespace).reverse.dropWhile isWhitespace).reverse

def trim (s : String) : String := String.ofList (trimmed s.toList)

def decimal (digits : List Char) : Nat := digits.foldl (fun n c => 10 * n + (c.toNat - 48)) 0

def unsigned : List Char → List Char
  | '+' :: digits => digits
  | digits => digits

/-- `str::parse` of an unsigned number of so many bits. -/
def parseUInt (bits : Nat) (s : List Char) : Option Nat :=
  if unsigned s ≠ [] ∧ (unsigned s).all Char.isDigit ∧ decimal (unsigned s) < 2 ^ bits then
    some (decimal (unsigned s))
  else none

/-- `DateTime<Utc>`: nanoseconds since the Unix epoch. -/
abbrev DateTime := Int

namespace DateTime

def nanosPerSecond : Int := 1000000000

def secondsPerDay : Int := 86400

/-- The proleptic Gregorian date of a day number counted from the epoch, as
`(year, month, day)`. -/
def civilFromDays (day : Int) : Int × Int × Int :=
  let z := day + 719468
  let era := z / 146097
  let doe := z % 146097
  let yoe := (doe - doe / 1460 + doe / 36524 - doe / 146096) / 365
  let doy := doe - (365 * yoe + yoe / 4 - yoe / 100)
  let mp := (5 * doy + 2) / 153
  let d := doy - (153 * mp + 2) / 5 + 1
  let m := if mp < 10 then mp + 3 else mp - 9
  (yoe + era * 400 + (if m ≤ 2 then 1 else 0), m, d)

def padLeft (width n : Nat) : String :=
  let digits := toString n
  String.ofList (List.replicate (width - digits.length) '0') ++ digits

def yearText (year : Int) : String :=
  if 0 ≤ year ∧ year ≤ 9999 then padLeft 4 year.toNat
  else (if year < 0 then "-" else "+") ++ padLeft 4 year.natAbs

def fractionText (nanos : Nat) : String :=
  if nanos = 0 then ""
  else if nanos % 1000000 = 0 then "." ++ padLeft 3 (nanos / 1000000)
  else if nanos % 1000 = 0 then "." ++ padLeft 6 (nanos / 1000)
  else "." ++ padLeft 9 nanos

def toRfc3339 (t : DateTime) : String :=
  let seconds := t / nanosPerSecond
  let date := civilFromDays (seconds / secondsPerDay)
  let clock := (seconds % secondsPerDay).toNat
  yearText date.1 ++ "-" ++ padLeft 2 date.2.1.toNat ++ "-" ++ padLeft 2 date.2.2.toNat ++ "T" ++
    padLeft 2 (clock / 3600) ++ ":" ++ padLeft 2 (clock / 60 % 60) ++ ":" ++
    padLeft 2 (clock % 60) ++ fractionText (t % nanosPerSecond).toNat ++ "+00:00"

example : toRfc3339 1700000000250000000 = "2023-11-14T22:13:20.250+00:00" := by decide

end DateTime

/-! ### Byte strings -/

abbrev Bytes := List UInt8

def utf8 (s : String) : Bytes := s.toUTF8.toList

def toLeBytes (n : Nat) : Bytes :=
  [UInt8.ofNat n, UInt8.ofNat (n / 2 ^ 8), UInt8.ofNat (n / 2 ^ 16), UInt8.ofNat (n / 2 ^ 24)]

def toBeBytes (n : Nat) : Bytes := (List.range 8).map fun i => UInt8.ofNat (n / 2 ^ (8 * (7 - i)))

end RatKingdom.Core
