/-
Tickets: work items stored as `task` tuples in the tuple space.

An edit takes the ticket out of the space, rewrites its payload and writes a tuple with a
fresh id back.  `beginEdit` is an edit up to and including the choice of the tuple
to take, `Edit.rewrite` what it makes of the payload.
-/
import Mathlib.Algebra.GroupWithZero.Nat
import RatKingdom.Space.Scan

namespace RatKingdom.Tickets

open Core Space List

namespace Proquint

def consonants : List Char :=
  ['b', 'd', 'f', 'g', 'h', 'j', 'k', 'l', 'm', 'n', 'p', 'r', 's', 't', 'v', 'z']

def vowels : List Char := ['a', 'i', 'o', 'u']

def encodeU16 (v : Nat) : List Char :=
  [consonants.getD (v / 2 ^ 12 % 16) 'b', vowels.getD (v / 2 ^ 10 % 4) 'a',
    consonants.getD (v / 2 ^ 6 % 16) 'b', vowels.getD (v / 2 ^ 4 % 4) 'a',
    consonants.getD (v % 16) 'b']

/-- The low `words * 16` bits of `value`, most significant word first. -/
def encode (value : Nat) (words : Nat) : String :=
  String.ofList <| ['-'].intercalate <| (List.range words).map fun i =>
    encodeU16 (value / 2 ^ (16 * (words - 1 - i)) % 2 ^ 16)

def looksLike (s : List Char) (words : Nat) : Bool :=
  let parts := s.splitOn '-'
  parts.length = words && parts.all fun p => p.length = 5 && p.all Char.isAlpha

/-- `normalize`, of a spelling that `looksLike` accepts: it has no blank to trim. -/
def normalize (s : List Char) : List Char := s.map Char.toLower

end Proquint

def idPrefix : String := "TKT-"

def proquintWords : Nat := 3

def idCollisionRetries : Nat := 8

def stripPrefix (start s : String) : Option (List Char) :=
  if start.toList.isPrefixOf s.toList then some (s.toList.drop start.length) else none

def legacyAlias (identity : String) : String :=
  let hash := identity.toUTF8.toList.foldl
    (fun h b => (h ^^^ b.toUInt64) * 0x00000100000001b3) (0xcbf29ce484222325 : UInt64)
  idPrefix ++ Proquint.encode hash.toNat proquintWords

def isProquintIdentity (identity : String) : Bool :=
  match stripPrefix idPrefix identity with
  | none => false
  | some rest => Proquint.looksLike rest proquintWords

def frozenSubsystems : List String :=
  ["factory-foreman", "product-to-code", "onboarding-wizard", "jcode-adapter", "ballots"]

def carveOuts : List String := ["extraction"]

def validateLabel (label : String) : Except Error Unit := do
  match stripPrefix "frozen:" label with
  | none => pure ()
  | some rest =>
    let subsystem := String.ofList rest
    if frozenSubsystems.contains subsystem then pure ()
    else .error (.other ("unknown frozen subsystem '" ++ subsystem ++ "' (known: " ++
      ", ".intercalate frozenSubsystems ++
      "). Note the ticket stays frozen regardless; fix the tag or add the subsystem."))
  match stripPrefix "frozen-except:" label with
  | none => pure ()
  | some rest =>
    let reason := String.ofList rest
    if carveOuts.contains reason then pure ()
    else .error (.other ("unknown carve-out reason '" ++ reason ++ "' (ratified: " ++
      ", ".intercalate carveOuts ++ "). An unrecognised carve-out does NOT unfreeze the ticket."))

def validateLabels (labels : List String) : Except Error Unit := labels.forM validateLabel

abbrev Fields := List (String × Value)

/-- `Map::insert` of a map that iterates in key order. -/
def insertField (key : String) (v : Value) : Fields → Fields
  | [] => [(key, v)]
  | f :: rest =>
    if f.1 = key then (key, v) :: rest
    else if key < f.1 then (key, v) :: f :: rest
    else f :: insertField key v rest

def orInsert (key : String) (v : Value) (fields : Fields) : Fields :=
  match (Value.object fields).get key with
  | none => insertField key v fields
  | some _ => fields

def setStr (key : String) (value : Option String) (fields : Fields) : Fields :=
  match value with
  | none => fields
  | some s => insertField key (.string s) fields

def strings (items : List String) : Value := .array (items.map .string)

def optionString : Option String → Value
  | none => .null
  | some s => .string s

def taskPattern : Pattern := { category := some .task }

def ticketPattern (identity : String) : Pattern :=
  { category := some .task, identity := some identity }

/-- The second half of `Tickets::resolve`: the alias of a legacy ticket. -/
def resolveAlias (tickets : List Tuple) (id : String) : Except Error (Option Tuple) :=
  match stripPrefix idPrefix id with
  | none => .ok none
  | some rest =>
    if !Proquint.looksLike rest proquintWords then .ok none
    else
      let candidates := tickets.filter fun t =>
        (stripPrefix idPrefix t.identity).isSome && !isProquintIdentity t.identity &&
          stripPrefix idPrefix (legacyAlias t.identity) = some (Proquint.normalize rest)
      match candidates with
      | [] => .ok none
      | [t] => .ok (some t)
      | _ :: _ :: _ => .error (.other ("ambiguous ticket alias '" ++ id ++
          "': matches more than one legacy ticket"))

theorem resolveAlias_mem {tickets : List Tuple} {id : String} {t : Tuple}
    (h : resolveAlias tickets id = .ok (some t)) : t ∈ tickets := by
  unfold resolveAlias at h
  split at h
  · cases h
  · split at h
    · cases h
    · dsimp only at h
      split at h
      · cases h
      · rename_i u hc
        cases h
        exact mem_of_mem_filter (hc ▸ mem_singleton_self t)
      · cases h

/-- `Tickets::resolve`: the exact identity first. -/
def resolve (s : Store) (id : String) : Except Error (Option Tuple) :=
  match s.scan (ticketPattern id) with
  | t :: _ => .ok (some t)
  | [] => resolveAlias (s.scan taskPattern) id

def canonicalId (s : Store) (id : String) : Except Error (Option String) :=
  (resolve s id).map fun found => found.map Tuple.identity

def noSuchTicket (id : String) : Error := .other ("no such ticket: " ++ id)

def depsOf (ticket : Tuple) : List String :=
  match ticket.payload.get "depends_on" with
  | some (.array items) => items.filterMap Value.asStr
  | _ => []

/-- `all_by_id`: a later row under the same identity replaces an earlier one. -/
def byId (s : Store) (id : String) : Option Tuple :=
  ((s.scan taskPattern).filter fun t => (stripPrefix idPrefix t.identity).isSome).reverse.find?
    fun t => t.identity = id

/-- The loop of `reaches`.  A node puts its dependencies on the stack once, so the number
of dependency entries bounds the turns. -/
def reachesFrom (s : Store) (target : String) : Nat → List String → List String → Bool
  | 0, _, _ => false
  | _ + 1, [], _ => false
  | fuel + 1, node :: stack, seen =>
    if node = target then true
    else if seen.contains node then reachesFrom s target fuel stack seen
    else
      match byId s node with
      | none => reachesFrom s target fuel stack (node :: seen)
      | some t => reachesFrom s target fuel ((depsOf t).reverse ++ stack) (node :: seen)

/-- Can `target` be reached from `start` by following `depends_on`? -/
def reaches (s : Store) (start target : String) : Bool :=
  reachesFrom s target (2 + ((s.scan taskPattern).map fun t => (depsOf t).length).sum) [start] []

structure NewTicket where
  title : String
  body : Option String := none
  scope : Option String := none
  parent : Option String := none
  priority : String := "normal"
  labels : List String := []
  dependsOn : List String := []
  createdBy : Option String := none
  coalesceKey : Option String := none

/-- `next_id`: one random candidate after another, until one names no ticket. -/
def nextId (s : Store) : List Nat → Except Error String
  | [] => .error (.other "could not mint a unique ticket id after retrying")
  | draw :: draws =>
    let candidate := idPrefix ++ Proquint.encode draw proquintWords
    match resolve s candidate with
    | .error e => .error e
    | .ok none => .ok candidate
    | .ok (some _) => nextId s draws

def canonicalDeps (s : Store) : List String → Except Error (List String)
  | [] => .ok []
  | dep :: rest =>
    match resolve s dep with
    | .error e => .error e
    | .ok none => .error (.other ("cannot depend on missing ticket: " ++ dep))
    | .ok (some existing) => (canonicalDeps s rest).map fun deps => existing.identity :: deps

def coalesced (s : Store) (scope : String) (key : Option String) : Option Tuple :=
  match key with
  | none => none
  | some key => (s.scan { taskPattern with scope := some scope }).find? fun t =>
      t.payload.getStr "coalesce_key" = some key

def parentTicket (s : Store) : Option String → Except Error (Option Tuple)
  | none => .ok none
  | some p => resolve s p

def newPayload (castle : String) (t : NewTicket) (parent : Option String) (deps : List String)
    (now : DateTime) : Value :=
  let stamp := Value.string (DateTime.toRfc3339 now)
  let fields : Fields :=
    [("assignee", .null), ("body", .string (t.body.getD "")), ("created_at", stamp),
      ("created_by", .string (t.createdBy.getD castle)), ("depends_on", strings deps),
      ("labels", strings t.labels), ("parent", optionString parent),
      ("priority", .string t.priority), ("status", .string "open"), ("title", .string t.title),
      ("updated_at", stamp)]
  .object (setStr "coalesce_key" t.coalesceKey fields)

/-- `create_idempotent` up to its write: the ticket that is there already, or the tuple to
write.  The id and the clock the tuple draws are arguments, and so are the candidates. -/
def createIdempotent (castle : String) (s : Store) (t : NewTicket) (draws : List Nat)
    (id : RecordId) (now : DateTime) : Except Error (Tuple × Bool) := do
  let parentTuple ← parentTicket s t.parent
  let parentField := t.parent.map fun p => (parentTuple.map Tuple.identity).getD p
  let scope := t.scope.getD ((parentTuple.map Tuple.scope).getD systemScope)
  match coalesced s scope t.coalesceKey with
  | some existing => pure (existing, false)
  | none =>
    validateLabels t.labels
    let deps ← canonicalDeps s t.dependsOn
    let identity ← nextId s draws
    let payload := newPayload castle t parentField deps now
    pure ((Tuple.new id now .task scope identity castle payload).withLifecycle .session, true)

def statuses : List String := ["open", "claimed", "in_progress", "blocked", "done", "closed"]

def validTransition (previous next : String) : Bool :=
  previous = next || match previous with
    | "open" => ["claimed", "in_progress", "blocked", "done", "closed"].contains next
    | "claimed" => ["in_progress", "blocked", "done", "closed"].contains next
    | "in_progress" => ["blocked", "done", "closed"].contains next
    | "blocked" => ["open", "in_progress", "done", "closed"].contains next
    | "done" => next = "closed"
    | _ => false

structure TicketChanges where
  status : Option String := none
  title : Option String := none
  body : Option String := none
  priority : Option String := none
  assignee : Option String := none
  parent : Option String := none
  addLabels : List String := []
  removeLabels : List String := []

def pushLabel (items : List Value) (label : String) : List Value :=
  if items.any fun l => l.asStr = some label then items else items ++ [.string label]

def keptLabel (remove : List String) (l : Value) : Bool :=
  match l.asStr with
  | none => true
  | some l => !remove.contains l

def editLabels (add remove : List String) (fields : Fields) : Fields :=
  if add.isEmpty && remove.isEmpty then fields
  else
    let fields := orInsert "labels" (.array []) fields
    match (Value.object fields).get "labels" with
    | some (.array items) =>
      insertField "labels" (.array (add.foldl pushLabel (items.filter (keptLabel remove)))) fields
    | _ => fields

/-- The closure of `update`, with the parent in its canonical spelling. -/
def TicketChanges.apply (ch : TicketChanges) (parent : Option String) (fields : Fields) : Fields :=
  editLabels ch.addLabels ch.removeLabels <|
    setStr "parent" parent <| setStr "assignee" ch.assignee <| setStr "priority" ch.priority <|
      setStr "body" ch.body <| setStr "title" ch.title <| setStr "status" ch.status fields

structure DeliveryRecord where
  mergeCommit : String
  branch : String
  target : String
  landedAt : String := ""

def DeliveryRecord.toValue (d : DeliveryRecord) : Value :=
  .object [("branch", .string d.branch), ("landed_at", .string d.landedAt),
    ("merge_commit", .string d.mergeCommit), ("target", .string d.target)]

def addDependency (dep : String) (fields : Fields) : Fields :=
  let fields := orInsert "depends_on" (.array []) fields
  match (Value.object fields).get "depends_on" with
  | some (.array items) =>
    if items.any fun d => d.asStr = some dep then fields
    else insertField "depends_on" (.array (items ++ [.string dep])) fields
  | _ => fields

inductive TicketEdit where
  | update (id : String) (changes : TicketChanges)
  | claim (id : String)
  | recordDelivery (id : String) (record : DeliveryRecord)
  | addDep (id dep : String)
  | reopen (id status : String)

/-- A ticket taken and not written back yet.  `rewrite` gives the payload to write at the
instant of the write, or the error that ends the edit with the ticket taken. -/
structure Edit where
  existing : Tuple
  rewrite : DateTime → Except Error Value

/-- What `edit` does to a payload between its take and its write. -/
def editPayload (f : Fields → Fields) (payload : Value) (now : DateTime) : Except Error Value :=
  match payload with
  | .object fields =>
    .ok (.object (insertField "updated_at" (.string (DateTime.toRfc3339 now)) (f fields)))
  | _ => .error (.other "ticket payload is not an object")

/-- What `claim` does to it: a ticket that is not open goes back unchanged. -/
def claimPayload (payload : Value) (now : DateTime) : Value :=
  if payload.getStr "status" = some "open" then
    match payload with
    | .object fields =>
      .object (insertField "updated_at" (.string (DateTime.toRfc3339 now))
        (insertField "status" (.string "in_progress") fields))
    | v => v
  else payload

/-- `take_ticket`: the tuple its `take` returns.  No ticket is furniture, so a ticket that
resolves is there to be taken. -/
def takeTicket (s : Store) (id : String) : Except Error (Option Tuple) :=
  (canonicalId s id).map fun found => found.bind fun canonical =>
    ((s.query (ticketPattern canonical) true (some 1)).head?).map Row.tuple

def edit (s : Store) (id : String) (f : Fields → Fields) : Except Error (Option Edit) :=
  match takeTicket s id with
  | .error e => .error e
  | .ok none => .error (noSuchTicket id)
  | .ok (some existing) => .ok (some ⟨existing, editPayload f existing.payload⟩)

def checkTransition (s : Store) (id : String) : Option String → Except Error Unit
  | none => .ok ()
  | some next =>
    match resolve s id with
    | .error e => .error e
    | .ok none => .error (noSuchTicket id)
    | .ok (some current) =>
      let previous := (current.payload.getStr "status").getD "open"
      if validTransition previous next then .ok ()
      else .error (.other ("invalid ticket status transition: " ++ previous ++ " -> " ++ next))

def checkStatus : Option String → Except Error Unit
  | none => .ok ()
  | some s =>
    if statuses.contains s then .ok ()
    else .error (.other ("invalid status '" ++ s ++ "' (allowed: " ++ ", ".intercalate statuses ++ ")"))

def canonicalParent (s : Store) : Option String → Except Error (Option String)
  | none => .ok none
  | some p => (canonicalId s p).map fun found => some (found.getD p)

/-- `update`, up to its take. -/
def update (s : Store) (id : String) (ch : TicketChanges) : Except Error (Option Edit) := do
  checkStatus ch.status
  validateLabels ch.addLabels
  checkTransition s id ch.status
  let parent ← canonicalParent s ch.parent
  edit s id (ch.apply parent)

def addDep (s : Store) (id dep : String) : Except Error (Option Edit) :=
  match canonicalId s id with
  | .error e => .error e
  | .ok none => .error (noSuchTicket id)
  | .ok (some canonical) =>
    match canonicalId s dep with
    | .error e => .error e
    | .ok none => .error (noSuchTicket dep)
    | .ok (some depCanonical) =>
      if canonical = depCanonical then .error (.other "a ticket cannot depend on itself")
      else if reaches s depCanonical canonical then
        .error (.other (canonical ++ " depends-on " ++ depCanonical ++
          " would create a dependency cycle"))
      else edit s canonical (addDependency depCanonical)

/-- The edit under the ticket lock: its checks, and the tuple it takes.  A claim of a
ticket that is not there takes nothing and is no error. -/
def beginEdit (s : Store) : TicketEdit → Except Error (Option Edit)
  | .update id changes => update s id changes
  | .claim id =>
    (takeTicket s id).map fun found => found.map fun existing =>
      ⟨existing, fun now => .ok (claimPayload existing.payload now)⟩
  | .recordDelivery id record =>
    edit s id fun fields =>
      insertField "status" (.string "closed") (insertField "delivery" record.toValue fields)
  | .addDep id dep => addDep s id dep
  | .reopen id status =>
    if ["open", "blocked"].contains status then
      edit s id (insertField "status" (.string status))
    else .error (.other ("reopen status must be open or blocked, got '" ++ status ++ "'"))

/-- `with_payload`: a fresh record id and the new payload, every other field as it was. -/
def withPayload (existing : Tuple) (id : RecordId) (payload : Value) : Tuple :=
  { existing with id, payload }

def isObject : Value → Bool
  | .object _ => true
  | _ => false

theorem isObject_newPayload (castle : String) (t : NewTicket) (parent : Option String)
    (deps : List String) (now : DateTime) : isObject (newPayload castle t parent deps now) = true :=
  rfl

theorem editPayload_object {f : Fields → Fields} {payload : Value} (h : isObject payload = true)
    (now : DateTime) : ∃ v, editPayload f payload now = .ok v ∧ isObject v = true := by
  cases payload with
  | object fields => exact ⟨_, rfl, rfl⟩
  | null | bool b | number x | string s | array items => cases h

theorem isObject_claimPayload {payload : Value} (h : isObject payload = true) (now : DateTime) :
    isObject (claimPayload payload now) = true := by
  unfold claimPayload
  split
  · cases payload with
    | object fields => rfl
    | null | bool b | number x | string s | array items => cases h
  · exact h

/-! ### No double in a ticket -/

theorem itemsDoubles_eq_nil {items : List Value} :
    itemsDoubles items = [] ↔ ∀ v ∈ items, v.doubles = [] := by
  induction items with
  | nil => simp [itemsDoubles]
  | cons v rest ih => simp [itemsDoubles, ih]

section
variable {fields : Fields} (h : fieldsDoubles fields = [])

include h

theorem doubles_insertField (key : String) {v : Value} (hv : v.doubles = []) :
    fieldsDoubles (insertField key v fields) = [] := by
  induction fields with
  | nil => simp [insertField, fieldsDoubles, hv]
  | cons f rest ih =>
    obtain ⟨hf, hrest⟩ := append_eq_nil_iff.mp h
    unfold insertField
    split
    · simp [fieldsDoubles, hv, hrest]
    · split
      · simp [fieldsDoubles, hv, hf, hrest]
      · simp [fieldsDoubles, hf, ih hrest]

theorem doubles_get {key : String} {v : Value} (hv : (Value.object fields).get key = some v) :
    v.doubles = [] := by
  induction fields with
  | nil => cases hv
  | cons f rest ih =>
    obtain ⟨hf, hrest⟩ := append_eq_nil_iff.mp h
    simp only [Value.get, find?_cons] at hv
    split at hv
    · cases hv
      exact hf
    · exact ih hrest hv

theorem doubles_setStr (key : String) (value : Option String) :
    fieldsDoubles (setStr key value fields) = [] := by
  cases value with
  | none => exact h
  | some s => exact doubles_insertField h key rfl

theorem doubles_orInsert (key : String) : fieldsDoubles (orInsert key (.array []) fields) = [] := by
  unfold orInsert
  split
  · exact doubles_insertField h key rfl
  · exact h

theorem doubles_editLabels (add remove : List String) :
    fieldsDoubles (editLabels add remove fields) = [] := by
  have hpush : ∀ {items : List Value}, itemsDoubles items = [] →
      itemsDoubles (add.foldl pushLabel items) = [] := by
    intro items hi
    induction add generalizing items with
    | nil => exact hi
    | cons label rest ih =>
      refine ih ?_
      unfold pushLabel
      split
      · exact hi
      · refine itemsDoubles_eq_nil.mpr fun v hv => ?_
        rcases mem_append.mp hv with hv | hv
        · exact itemsDoubles_eq_nil.mp hi v hv
        · exact mem_singleton.mp hv ▸ rfl
  unfold editLabels
  split
  · exact h
  · dsimp only
    split
    · rename_i items hget
      have hi := doubles_get (doubles_orInsert h "labels") hget
      refine doubles_insertField (doubles_orInsert h _) _
        (hpush (itemsDoubles_eq_nil.mpr fun v hv => ?_))
      exact itemsDoubles_eq_nil.mp hi v (mem_filter.mp hv).1
    · exact doubles_orInsert h _

theorem doubles_addDependency (dep : String) : fieldsDoubles (addDependency dep fields) = [] := by
  unfold addDependency
  dsimp only
  split
  · rename_i items hget
    have hi := doubles_get (doubles_orInsert h "depends_on") hget
    split
    · exact doubles_orInsert h _
    · refine doubles_insertField (doubles_orInsert h _) _ (itemsDoubles_eq_nil.mpr fun v hv => ?_)
      rcases mem_append.mp hv with hv | hv
      · exact itemsDoubles_eq_nil.mp hi v hv
      · exact mem_singleton.mp hv ▸ rfl
  · exact doubles_orInsert h _

end

theorem doubles_newPayload (castle : String) (t : NewTicket) (parent : Option String)
    (deps : List String) (now : DateTime) : (newPayload castle t parent deps now).doubles = [] := by
  have hs : ∀ l : List String, itemsDoubles (l.map .string) = [] := fun l =>
    itemsDoubles_eq_nil.mpr fun v hv => by
      obtain ⟨s, -, rfl⟩ := mem_map.mp hv
      rfl
  refine doubles_setStr ?_ _ _
  cases parent <;> simp [fieldsDoubles, Value.doubles, strings, optionString, hs]

/-- The tuple of an edit is the first row the take of its identity finds, and a payload
that is an object can be written back. -/
structure Edit.Sound (s : Store) (e : Edit) : Prop where
  taken : ∃ row rest, s.query (ticketPattern e.existing.identity) true (some 1) = row :: rest ∧
    row.tuple = e.existing
  rewrites : isObject e.existing.payload = true →
    ∀ now, ∃ v, e.rewrite now = .ok v ∧ isObject v = true

variable {s : Store}

theorem query_spec {p : Pattern} {consumableOnly : Bool} {limit : Option Nat} {row : Row}
    (h : row ∈ s.query p consumableOnly limit) :
    row ∈ s.rows ∧ p.matches row.tuple = true := by
  have hm : row ∈ s.query p consumableOnly none := by
    cases limit with
    | none => exact h
    | some n => exact mem_of_mem_take h
  simp only [Store.query, mem_insertionSort, mem_filter, patternFilters_eq,
    Bool.and_eq_true] at hm
  exact ⟨hm.1, hm.2.1⟩

variable {t : Tuple}

theorem ticketPattern_matches {identity : String} (h : (ticketPattern identity).matches t = true) :
    t.category = .task ∧ t.identity = identity := by
  simp only [Pattern.matches, ticketPattern, admits, admitsText, Bool.and_eq_true,
    decide_eq_true_eq] at h
  exact ⟨h.1, h.2.2.1⟩

variable {id : String}

theorem takeTicket_spec (h : takeTicket s id = .ok (some t)) :
    ∃ row rest, s.query (ticketPattern t.identity) true (some 1) = row :: rest ∧ row.tuple = t := by
  unfold takeTicket at h
  cases hc : canonicalId s id with
  | error e =>
    rw [hc] at h
    cases h
  | ok found =>
    rw [hc] at h
    cases found with
    | none => cases h
    | some canonical =>
      have h' : ((s.query (ticketPattern canonical) true (some 1)).head?).map Row.tuple = some t := by
        injection h
      cases hq : s.query (ticketPattern canonical) true (some 1) with
      | nil =>
        rw [hq] at h'
        cases h'
      | cons row rest =>
        rw [hq] at h'
        have ht : row.tuple = t := Option.some.inj h'
        have hmatch := (query_spec (hq ▸ mem_cons_self)).2
        have hident := (ticketPattern_matches hmatch).2
        rw [← ht, hident]
        exact ⟨row, rest, hq, rfl⟩

variable {e : Edit}

theorem edit_sound {f : Fields → Fields} (h : edit s id f = .ok (some e)) : e.Sound s := by
  unfold edit at h
  split at h
  · cases h
  · cases h
  · rename_i existing ht
    cases h
    exact ⟨takeTicket_spec ht, editPayload_object⟩

theorem bind_ok {α β : Type} {x : Except Error α} {f : α → Except Error β} {b : β}
    (h : x >>= f = .ok b) : ∃ a, x = .ok a ∧ f a = .ok b := by
  cases x with
  | error e => cases h
  | ok a => exact ⟨a, rfl, h⟩

theorem update_edit {ch : TicketChanges} (h : update s id ch = .ok (some e)) :
    ∃ parent, edit s id (ch.apply parent) = .ok (some e) := by
  obtain ⟨-, -, h⟩ := bind_ok h
  obtain ⟨-, -, h⟩ := bind_ok h
  obtain ⟨-, -, h⟩ := bind_ok h
  obtain ⟨parent, -, h⟩ := bind_ok h
  exact ⟨parent, h⟩

theorem addDep_edit {dep : String} (h : addDep s id dep = .ok (some e)) :
    ∃ canonical dep', edit s canonical (addDependency dep') = .ok (some e) := by
  unfold addDep at h
  split at h
  · cases h
  · cases h
  · split at h
    · cases h
    · cases h
    · split at h
      · cases h
      · split at h
        · cases h
        · exact ⟨_, _, h⟩

theorem ok_some_of_map {α β : Type} {x : Except Error (Option α)} {f : α → β} {b : β}
    (h : (x.map fun found => found.map f) = .ok (some b)) :
    ∃ a, x = .ok (some a) ∧ f a = b := by
  match x, h with
  | .ok (some a), h =>
    cases h
    exact ⟨a, rfl, rfl⟩

section
variable {op : TicketEdit} (h : beginEdit s op = .ok (some e))
include h

/-- An edit writes fields back without adding a double, and a claim is one of these. -/
theorem begin_edit : (∃ id f, edit s id f = .ok (some e) ∧
      ∀ fields, fieldsDoubles fields = [] → fieldsDoubles (f fields) = []) ∨
    ∃ id existing, takeTicket s id = .ok (some existing) ∧
      e = ⟨existing, fun now => .ok (claimPayload existing.payload now)⟩ := by
  cases op with
  | update id changes =>
    obtain ⟨parent, he⟩ := update_edit h
    refine .inl ⟨_, _, he, fun fields hf => doubles_editLabels ?_ _ _⟩
    exact doubles_setStr (doubles_setStr (doubles_setStr (doubles_setStr (doubles_setStr
      (doubles_setStr hf _ _) _ _) _ _) _ _) _ _) _ _
  | claim id =>
    obtain ⟨existing, ht, rfl⟩ := ok_some_of_map h
    exact .inr ⟨id, existing, ht, rfl⟩
  | recordDelivery id record =>
    exact .inl ⟨_, _, h, fun fields hf => doubles_insertField (doubles_insertField hf _ rfl) _ rfl⟩
  | addDep id dep =>
    obtain ⟨canonical, dep', he⟩ := addDep_edit h
    exact .inl ⟨_, _, he, fun fields hf => doubles_addDependency hf dep'⟩
  | reopen id status =>
    simp only [beginEdit] at h
    split at h
    · exact .inl ⟨_, _, h, fun fields hf => doubles_insertField hf _ rfl⟩
    · cases h

theorem begin_sound : e.Sound s := by
  rcases begin_edit h with ⟨id, f, he, -⟩ | ⟨id, existing, ht, rfl⟩
  · exact edit_sound he
  · exact ⟨takeTicket_spec ht, fun ho now => ⟨_, rfl, isObject_claimPayload ho now⟩⟩

theorem begin_doubles (hd : e.existing.payload.doubles = []) {now : DateTime} {v : Value}
    (hv : e.rewrite now = .ok v) : v.doubles = [] := by
  rcases begin_edit h with ⟨id, f, he, hf⟩ | ⟨id, ⟨⟩, ht, rfl⟩
  · unfold edit at he
    split at he
    · cases he
    · cases he
    · rename_i existing _
      cases he
      cases hp : existing.payload with
      | object fields =>
        simp only [hp, editPayload, Except.ok.injEq] at hd hv
        subst hv
        exact doubles_insertField (hf fields hd) _ rfl
      | _ =>
        simp only [hp, editPayload] at hv
        cases hv
  · rename_i payload _ _ _
    cases hv
    unfold claimPayload
    split
    · cases payload with
      | object fields => exact doubles_insertField (doubles_insertField hd _ rfl) _ rfl
      | _ => exact hd
    · exact hd

end

theorem stripPrefix_append (start rest : String) :
    (stripPrefix start (start ++ rest)).isSome = true := by
  unfold stripPrefix
  rw [String.toList_append, if_pos (List.isPrefixOf_iff_prefix.mpr (prefix_append _ _))]
  rfl

theorem nextId_spec {draws : List Nat} {identity : String} (h : nextId s draws = .ok identity) :
    (∃ draw ∈ draws, identity = idPrefix ++ Proquint.encode draw proquintWords) ∧
      resolve s identity = .ok none := by
  induction draws with
  | nil => cases h
  | cons draw draws ih =>
    simp only [nextId] at h
    split at h
    · cases h
    · rename_i hr
      cases h
      exact ⟨⟨draw, mem_cons_self, rfl⟩, hr⟩
    · obtain ⟨⟨d, hd, he⟩, hr⟩ := ih h
      exact ⟨⟨d, mem_cons_of_mem _ hd, he⟩, hr⟩

structure IsTicket (castle : String) (t : Tuple) : Prop where
  category : t.category = .task
  identity : (stripPrefix idPrefix t.identity).isSome = true
  inst : t.inst = castle
  lifecycle : t.lifecycle = .session
  payload : isObject t.payload = true
  doubles : t.payload.doubles = []

variable {castle : String} {new : NewTicket} {draws : List Nat} {id : RecordId} {now : DateTime}

theorem createIdempotent_new (h : createIdempotent castle s new draws id now = .ok (t, true)) :
    ∃ scope parent deps identity, canonicalDeps s new.dependsOn = .ok deps ∧
      nextId s draws = .ok identity ∧ t = (Tuple.new id now .task scope identity castle
        (newPayload castle new parent deps now)).withLifecycle .session := by
  obtain ⟨parentTuple, -, h⟩ := bind_ok h
  dsimp only at h
  split at h
  · cases h
  · obtain ⟨-, -, h⟩ := bind_ok h
    obtain ⟨deps, hdeps, h⟩ := bind_ok h
    obtain ⟨identity, hid, h⟩ := bind_ok h
    cases h
    exact ⟨_, _, deps, identity, hdeps, hid, rfl⟩

theorem createIdempotent_spec (h : createIdempotent castle s new draws id now = .ok (t, true)) :
    IsTicket castle t ∧ t.id = id := by
  obtain ⟨scope, parent, deps, identity, -, hid, rfl⟩ := createIdempotent_new h
  obtain ⟨⟨draw, -, rfl⟩, -⟩ := nextId_spec hid
  exact ⟨⟨rfl, stripPrefix_append _ _, rfl, rfl, isObject_newPayload _ _ _ _ _,
    doubles_newPayload _ _ _ _ _⟩, rfl⟩

theorem IsTicket.withPayload {castle : String} (h : IsTicket castle t) {v : Value}
    (hv : isObject v = true) (hd : v.doubles = []) (id : RecordId) :
    IsTicket castle (withPayload t id v) :=
  ⟨h.category, h.identity, h.inst, h.lifecycle, hv, hd⟩

end RatKingdom.Tickets
