/-
The tuple model: a fixed structural prefix `(category, scope, identity, instance)`
with a JSON payload, and the one predicate that decides whether a pattern matches.
-/
import RatKingdom.Core.Text

namespace RatKingdom.Core

/-- A ULID.  Ids compare as the 128-bit numbers they encode, which is also the order
of their texts. -/
abbrev RecordId := Nat

inductive Category where
  | fact | convention | task | available | claim | obstacle | need | artifact | resolution | event
  | message | suggestion | endorsement | factVote | withdrawal
  deriving DecidableEq

namespace Category

def asStr : Category → String
  | .fact => "fact"
  | .convention => "convention"
  | .task => "task"
  | .available => "available"
  | .claim => "claim"
  | .obstacle => "obstacle"
  | .need => "need"
  | .artifact => "artifact"
  | .resolution => "resolution"
  | .event => "event"
  | .message => "message"
  | .suggestion => "suggestion"
  | .endorsement => "endorsement"
  | .factVote => "fact_vote"
  | .withdrawal => "withdrawal"

def all : List Category :=
  [.fact, .convention, .task, .available, .claim, .obstacle, .need, .artifact, .resolution,
    .event, .message, .suggestion, .endorsement, .factVote, .withdrawal]

def ofStr (s : String) : Option Category := all.find? fun c => c.asStr = s

theorem ofStr_asStr (c : Category) : ofStr c.asStr = some c := by
  cases c <;> decide

theorem asStr_inj {a b : Category} : a.asStr = b.asStr ↔ a = b := by
  constructor
  · intro h
    have hread := ofStr_asStr a
    rw [h, ofStr_asStr] at hread
    exact (Option.some.inj hread).symm
  · intro h
    rw [h]

end Category

/-- Lifecycle classes: `furniture` is never consumable, `ephemeral` never leaves the
local daemon. -/
inductive Lifecycle where
  | furniture | session | ephemeral
  deriving DecidableEq

namespace Lifecycle

def asStr : Lifecycle → String
  | .furniture => "furniture"
  | .session => "session"
  | .ephemeral => "ephemeral"

/-- `parse_lifecycle`. -/
def ofStr (s : String) : Option Lifecycle :=
  if s = "furniture" then some .furniture
  else if s = "session" then some .session
  else if s = "ephemeral" then some .ephemeral
  else none

theorem ofStr_asStr (l : Lifecycle) : ofStr l.asStr = some l := by
  cases l <;> decide

theorem asStr_eq_furniture {l : Lifecycle} : l.asStr = "furniture" ↔ l = .furniture := by
  cases l <;> decide

end Lifecycle

def systemScope : String := "system"

/-- A tuple in the space.  `inst` is the source's `instance`, the originating actor. -/
structure Tuple where
  id : RecordId
  category : Category
  scope : String
  identity : String
  inst : String
  lifecycle : Lifecycle
  payload : Value
  createdAt : DateTime
  expiresAt : Option DateTime
  strength : Option Float

def fullStrength : Float := 1.0

/-- `Tuple::new`, with the id and the clock it draws made explicit. -/
def Tuple.new (id : RecordId) (now : DateTime) (category : Category)
    (scope identity inst : String) (payload : Value) : Tuple :=
  { id, category, scope, identity, inst, payload
    lifecycle := .session
    createdAt := now
    expiresAt := none
    strength := none }

def Tuple.withLifecycle (t : Tuple) (l : Lifecycle) : Tuple := { t with lifecycle := l }

def defaultTrailTtl : Int := 30 * 60

def maxTrailTtl : Int := 365 * 24 * 3600

/-- `Tuple::into_trail`: full strength, an ephemeral lifetime, and a TTL backstop. -/
def Tuple.intoTrail (t : Tuple) (ttl : Int) (now : DateTime) : Tuple :=
  { t with
    strength := some fullStrength
    lifecycle := .ephemeral
    expiresAt := some (now + min ttl maxTrailTtl * DateTime.nanosPerSecond) }

/-- A match pattern.  An absent field matches anything. -/
structure Pattern where
  category : Option Category := none
  scope : Option String := none
  identity : Option String := none
  inst : Option String := none
  payloadSearch : Option String := none
  payloadSearchAnd : Option String := none
  afterId : Option RecordId := none

def admits {α : Type} [DecidableEq α] (want : Option α) (have_ : α) : Bool :=
  match want with
  | none => true
  | some a => decide (have_ = a)

def admitsText (want : Option String) (hay : String) : Bool :=
  match want with
  | none => true
  | some needle => containsText hay needle

def Pattern.matches (p : Pattern) (t : Tuple) : Bool :=
  admits p.category t.category && (admits p.scope t.scope &&
      (admits p.identity t.identity && (admits p.inst t.inst &&
          (admitsText p.payloadSearch t.payload.toText &&
            (admitsText p.payloadSearchAnd t.payload.toText && (match p.afterId with
                | none => true
                | some after => decide (after < t.id)))))))

/-- The pattern that matches every tuple, as `Pattern::default()`. -/
def Pattern.any : Pattern := {}

@[simp] theorem Pattern.any_matches (t : Tuple) : Pattern.any.matches t = true := rfl

/-- Only the structural prefix, the payload and the id decide a match, so a change to
the other columns of a row changes no match. -/
theorem Pattern.matches_congr (p : Pattern) {t u : Tuple} (hid : t.id = u.id)
    (hcat : t.category = u.category) (hscope : t.scope = u.scope) (hident : t.identity = u.identity)
    (hinst : t.inst = u.inst) (hpay : t.payload = u.payload) : p.matches t = p.matches u := by
  simp only [Pattern.matches, hid, hcat, hscope, hident, hinst, hpay]

end RatKingdom.Core
