/-
Durable steering requests and their acknowledgements.

A steer is a `message` tuple of the daemon's, addressed to a rat; an `rk_control_ack` event
says that the daemon wrote it to the rat's control input, and an `rk_control_observed` event
that the rat asked the daemon about it.  A rat may write any tuple under its own name, so
each reader has to keep to the tuples under the daemon's.
-/
import RatKingdom.Space.Scan

namespace RatKingdom.Steer

open Core Space List

def controlMessageType : String := "rk_control"
def controlAckIdentity : String := "rk_control_ack"
def controlObservedIdentity : String := "rk_control_observed"

structure ControlEnvelope where
  schema : String := "rk.control.v1"
  messageId : String
  sender : String
  target : String
  deliveryGeneration : String
  resumeGeneration : String
  text : String
  durable : Bool := true

open ControlEnvelope

namespace ControlEnvelope

/-- The payload of a request: the serialized envelope with its `type`. -/
def toPayload (e : ControlEnvelope) : Value :=
  .object [("delivery_generation", .string e.deliveryGeneration), ("durable", .bool e.durable),
      ("message_id", .string e.messageId),
      ("resume_generation", .string e.resumeGeneration),
      ("schema", .string e.schema),
      ("sender", .string e.sender),
      ("target", .string e.target),
      ("text", .string e.text),
      ("type", .string controlMessageType)]

/-- `serde_json::from_value`.  Only `durable` has a default. -/
def fromValue (v : Value) : Option ControlEnvelope := do
  let schema ← v.getStr "schema"
  let messageId ← v.getStr "message_id"
  let sender ← v.getStr "sender"
  let target ← v.getStr "target"
  let deliveryGeneration ← v.getStr "delivery_generation"
  let resumeGeneration ← v.getStr "resume_generation"
  let text ← v.getStr "text"
  let durable ← match v.get "durable" with
    | none => some true
    | some durable => durable.asBool
  pure { schema, messageId, sender, target, deliveryGeneration, resumeGeneration, text, durable }

end ControlEnvelope

def enqueue (id : RecordId) (now : DateTime) (scope : String) (e : ControlEnvelope)
    (inst : String) : Tuple :=
  Tuple.new id now .message scope e.target inst e.toPayload

def acknowledge (id : RecordId) (now : DateTime) (scope : String) (e : ControlEnvelope)
    (inst : String) : Tuple :=
  Tuple.new id now .event scope controlAckIdentity inst (.object
      [("acknowledged", .bool true), ("delivery_generation", .string e.deliveryGeneration),
        ("message_id", .string e.messageId),
        ("resume_generation", .string e.resumeGeneration),
        ("sender", .string e.sender),
        ("target", .string e.target),
        ("type", .string controlMessageType)])

def messagesTo (scope target : String) : Pattern :=
  { category := some .message, scope := some scope, identity := some target }

def eventsOf (scope identity : String) : Pattern :=
  { category := some .event, scope := some scope, identity := some identity }

/-- Where a reader's tuples come from: an envelope it cannot decode fails it, with the
deserializer's text. -/
def decode (serde : Value → String) (payload : Value) : Except Error ControlEnvelope :=
  match fromValue payload with
  | some e => .ok e
  | none => .error (.other ("decode control envelope: " ++ serde payload))

def isRequest (daemonIdentity : String) (t : Tuple) : Bool :=
  decide (t.inst = daemonIdentity) && decide (t.payload.getStr "type" = some controlMessageType)

def pendingFrom (serde : Value → String) (daemonIdentity : String) (acknowledged : List String) :
    List Tuple → Except Error (List ControlEnvelope)
  | [] => .ok []
  | t :: rest =>
    if isRequest daemonIdentity t then
      match decode serde t.payload with
      | .error e => .error e
      | .ok envelope =>
        (pendingFrom serde daemonIdentity acknowledged rest).map fun found =>
          if acknowledged.contains envelope.messageId then found else envelope :: found
    else pendingFrom serde daemonIdentity acknowledged rest

def acknowledgedIds (s : Store) (scope : String) : List String :=
  (s.scan (eventsOf scope controlAckIdentity)).filterMap fun t => t.payload.getStr "message_id"

def pending (serde : Value → String) (s : Store) (scope target daemonIdentity : String) :
    Except Error (List ControlEnvelope) :=
  pendingFrom serde daemonIdentity (acknowledgedIds s scope) (s.scan (messagesTo scope target))

def findFrom (serde : Value → String) (daemonIdentity messageId : String) :
    List Tuple → Except Error (Option ControlEnvelope)
  | [] => .ok none
  | t :: rest =>
    if isRequest daemonIdentity t then
      match decode serde t.payload with
      | .error e => .error e
      | .ok envelope =>
        if envelope.messageId = messageId then .ok (some envelope)
        else findFrom serde daemonIdentity messageId rest
    else findFrom serde daemonIdentity messageId rest

def find (serde : Value → String) (s : Store) (scope target daemonIdentity messageId : String) :
    Except Error (Option ControlEnvelope) :=
  findFrom serde daemonIdentity messageId (s.scan (messagesTo scope target))

def lastDeliveredGeneration (s : Store) (scope target daemonIdentity messageId : String) :
    Option String :=
  ((s.scan (eventsOf scope controlAckIdentity)).reverse.find? fun t =>
    decide (t.inst = daemonIdentity) && (decide (t.payload.getStr "message_id" = some messageId) &&
        decide (t.payload.getStr "target" = some target))).bind
    fun t => t.payload.getStr "resume_generation"

def alreadyObserved (s : Store) (scope agent messageId daemonIdentity : String) : Bool :=
  (s.scan (eventsOf scope controlObservedIdentity)).any fun t =>
    decide (t.inst = daemonIdentity) && (decide (t.payload.getStr "agent" = some agent) &&
        decide (t.payload.getStr "message_id" = some messageId))

variable {serde : Value → String} {daemonIdentity scope target messageId : String} {s s₁ s₂ : Store}

def trusted (daemonIdentity : String) (t : Tuple) : Bool := decide (t.inst = daemonIdentity)

/-- Two spaces with the same tuples under the daemon's identity, whatever they hold under
others. -/
structure SameTrusted (daemonIdentity : String) (s₁ s₂ : Store) : Prop where
  left : s₁.Wf
  right : s₂.Wf
  tuples : (s₁.tuples.filter (trusted daemonIdentity)).Perm
    (s₂.tuples.filter (trusted daemonIdentity))

theorem SameTrusted.scan (h : SameTrusted daemonIdentity s₁ s₂) (p : Pattern) :
    (s₁.scan p).filter (trusted daemonIdentity) = (s₂.scan p).filter (trusted daemonIdentity) :=
  Store.scan_filter_eq h.left h.tuples p

/-- The daemon's requests to `target` in the order of their ids, if all of them decode. -/
def requests (daemonIdentity : String) (s : Store) (scope target : String) :
    Option (List ControlEnvelope) :=
  ((s.scan (messagesTo scope target)).filter (isRequest daemonIdentity)).mapM fun t =>
    fromValue t.payload

/-- Whether an acknowledgement that passes `q` names the message. -/
def ackedBy (q : Tuple → Bool) (s : Store) (scope messageId : String) : Bool :=
  (s.scan (eventsOf scope controlAckIdentity)).any fun t =>
    q t && decide (t.payload.getStr "message_id" = some messageId)

def delivered (daemonIdentity : String) : Store → String → String → Bool :=
  ackedBy (trusted daemonIdentity)

def disowned (daemonIdentity : String) : Store → String → String → Bool :=
  ackedBy fun t => !trusted daemonIdentity t

theorem isRequest_trusted {t : Tuple} (h : isRequest daemonIdentity t = true) :
    trusted daemonIdentity t = true := by
  unfold isRequest at h
  rw [Bool.and_eq_true] at h
  exact h.1

theorem filter_isRequest (l : List Tuple) :
    (l.filter (trusted daemonIdentity)).filter (isRequest daemonIdentity) =
      l.filter (isRequest daemonIdentity) := by
  rw [filter_filter]
  apply filter_congr
  intro t _
  rw [Bool.and_eq_left_iff_imp]
  exact isRequest_trusted

theorem requests_eq (h : SameTrusted daemonIdentity s₁ s₂) (scope target : String) :
    requests daemonIdentity s₁ scope target = requests daemonIdentity s₂ scope target := by
  unfold requests
  rw [← filter_isRequest, h.scan, filter_isRequest]

theorem any_trusted (h : SameTrusted daemonIdentity s₁ s₂) (p : Pattern) (q : Tuple → Bool) :
    ((s₁.scan p).any fun t => trusted daemonIdentity t && q t) =
      (s₂.scan p).any fun t => trusted daemonIdentity t && q t := by
  rw [← any_filter, ← any_filter, h.scan]

theorem delivered_eq (h : SameTrusted daemonIdentity s₁ s₂) (scope messageId : String) :
    delivered daemonIdentity s₁ scope messageId = delivered daemonIdentity s₂ scope messageId :=
  any_trusted h _ _

theorem contains_acknowledgedIds (daemonIdentity : String) (s : Store) (scope messageId : String) :
    (acknowledgedIds s scope).contains messageId = (delivered daemonIdentity s scope messageId ||
        disowned daemonIdentity s scope messageId) := by
  unfold acknowledgedIds delivered disowned ackedBy
  rw [Bool.eq_iff_iff]
  simp only [contains_iff_mem, mem_filterMap, Bool.or_eq_true, any_eq_true,
    Bool.and_eq_true, decide_eq_true_eq, Bool.not_eq_true']
  constructor
  · rintro ⟨t, ht, hid⟩
    cases hq : trusted daemonIdentity t with
    | true => exact .inl ⟨t, ht, hq, hid⟩
    | false => exact .inr ⟨t, ht, hq, hid⟩
  · rintro (⟨t, ht, -, hid⟩ | ⟨t, ht, -, hid⟩)
    · exact ⟨t, ht, hid⟩
    · exact ⟨t, ht, hid⟩

variable {acknowledged acknowledged' : List String} {l : List Tuple}

theorem pendingFrom_filter (l : List Tuple) :
    pendingFrom serde daemonIdentity acknowledged l =
      pendingFrom serde daemonIdentity acknowledged (l.filter (isRequest daemonIdentity)) := by
  induction l with
  | nil => rfl
  | cons t l ih =>
    by_cases ht : isRequest daemonIdentity t = true
    · rw [filter_cons_of_pos ht]
      simp only [pendingFrom, if_pos ht, ih]
    · rw [filter_cons_of_neg ht]
      simp only [pendingFrom, if_neg ht, ih]

theorem findFrom_filter (l : List Tuple) :
    findFrom serde daemonIdentity messageId l =
      findFrom serde daemonIdentity messageId (l.filter (isRequest daemonIdentity)) := by
  induction l with
  | nil => rfl
  | cons t l ih =>
    by_cases ht : isRequest daemonIdentity t = true
    · rw [filter_cons_of_pos ht]
      simp only [findFrom, if_pos ht, ih]
    · rw [filter_cons_of_neg ht]
      simp only [findFrom, if_neg ht, ih]

theorem pendingFrom_decoded {es : List ControlEnvelope}
    (h : (l.filter (isRequest daemonIdentity)).mapM (fun t => fromValue t.payload) =
      some es) :
    pendingFrom serde daemonIdentity acknowledged l =
      .ok (es.filter fun e => !acknowledged.contains e.messageId) := by
  induction l generalizing es with
  | nil =>
    cases h
    rfl
  | cons t l ih =>
    by_cases ht : isRequest daemonIdentity t = true
    · rw [filter_cons_of_pos ht, mapM_cons] at h
      obtain ⟨e, he, h⟩ := Option.bind_eq_some_iff.mp h
      obtain ⟨rest, hrest, h⟩ := Option.bind_eq_some_iff.mp h
      cases h
      simp only [pendingFrom, if_pos ht, decode, he, ih hrest, Except.map, filter_cons]
      cases acknowledged.contains e.messageId <;> rfl
    · rw [filter_cons_of_neg ht] at h
      simp only [pendingFrom, if_neg ht, ih h]

theorem pendingFrom_undecoded (serde : Value → String)
    (h : (l.filter (isRequest daemonIdentity)).mapM (fun t => fromValue t.payload) =
      none) :
    ∃ e, ∀ acknowledged, pendingFrom serde daemonIdentity acknowledged l = .error e := by
  induction l with
  | nil => cases h
  | cons t l ih =>
    by_cases ht : isRequest daemonIdentity t = true
    · simp only [pendingFrom, if_pos ht]
      cases he : fromValue t.payload with
      | none =>
        simp only [decode, he]
        exact ⟨_, fun _ => rfl⟩
      | some e =>
        rw [filter_cons_of_pos ht, mapM_cons, he] at h
        have hrest : (l.filter (isRequest daemonIdentity)).mapM
            (fun t => fromValue t.payload) = none := by
          cases hm : (l.filter (isRequest daemonIdentity)).mapM
              fun t => fromValue t.payload with
          | none => rfl
          | some es =>
            rw [hm] at h
            cases h
        obtain ⟨err, herr⟩ := ih hrest
        refine ⟨err, fun acknowledged => ?_⟩
        simp only [decode, he, herr acknowledged]
        rfl
    · rw [filter_cons_of_neg ht] at h
      simpa only [pendingFrom, if_neg ht] using ih h

theorem find_eq (h : SameTrusted daemonIdentity s₁ s₂) (scope target messageId : String) :
    find serde s₁ scope target daemonIdentity messageId =
      find serde s₂ scope target daemonIdentity messageId := by
  unfold find
  rw [findFrom_filter, ← filter_isRequest, h.scan, filter_isRequest, ← findFrom_filter]

theorem lastDeliveredGeneration_eq (h : SameTrusted daemonIdentity s₁ s₂)
    (scope target messageId : String) :
    lastDeliveredGeneration s₁ scope target daemonIdentity messageId =
      lastDeliveredGeneration s₂ scope target daemonIdentity messageId := by
  have hscan : ∀ (l : List Tuple) (q : Tuple → Bool),
      l.reverse.find? (fun t => decide (t.inst = daemonIdentity) && q t) =
        (l.filter (trusted daemonIdentity)).reverse.find? q := by
    intro l q
    rw [← filter_reverse, find?_filter]
    congr 1
    funext t
    simp [trusted]
  unfold lastDeliveredGeneration
  rw [hscan, hscan, h.scan]

theorem alreadyObserved_eq (h : SameTrusted daemonIdentity s₁ s₂) (scope agent messageId : String) :
    alreadyObserved s₁ scope agent messageId daemonIdentity =
      alreadyObserved s₂ scope agent messageId daemonIdentity :=
  any_trusted h _ _

theorem filter_eq_iff {α : Type} {p q : α → Bool} {l : List α} :
    l.filter p = l.filter q ↔ ∀ a ∈ l, p a = q a := by
  refine ⟨fun h a ha => ?_, filter_congr⟩
  have hm : a ∈ l.filter p ↔ a ∈ l.filter q := by rw [h]
  rw [mem_filter, mem_filter] at hm
  exact Bool.eq_iff_iff.mpr ⟨fun hp => (hm.mp ⟨ha, hp⟩).2, fun hq => (hm.mpr ⟨ha, hq⟩).2⟩

/-- The pending requests are the same when the acknowledgements of both spaces name the same
ones of them. -/
theorem pending_eq_iff (h : SameTrusted daemonIdentity s₁ s₂) :
    pending serde s₁ scope target daemonIdentity = pending serde s₂ scope target daemonIdentity ↔
      ∀ es, requests daemonIdentity s₁ scope target = some es → ∀ e ∈ es,
        (acknowledgedIds s₁ scope).contains e.messageId =
          (acknowledgedIds s₂ scope).contains e.messageId := by
  have hr := requests_eq h scope target
  cases hes : requests daemonIdentity s₁ scope target with
  | none =>
    obtain ⟨err, herr⟩ := pendingFrom_undecoded serde hes
    have hsame : pending serde s₁ scope target daemonIdentity =
        pending serde s₂ scope target daemonIdentity := by
      unfold pending
      rw [pendingFrom_filter (s₂.scan _), ← filter_isRequest, ← h.scan, filter_isRequest,
        ← pendingFrom_filter, herr, herr]
    exact iff_of_true hsame fun es he => (Option.some_ne_none es he.symm).elim
  | some es =>
    unfold pending
    rw [pendingFrom_decoded hes, pendingFrom_decoded (hr.symm.trans hes), Except.ok.injEq,
      filter_eq_iff]
    constructor
    · intro heq es' hes' e he
      cases hes'
      exact Bool.not_inj (heq e he)
    · intro heq e he
      rw [heq es rfl e he]

/-- The readers give the same on both spaces: to every rat, for every message id. -/
structure SameSteering (serde : Value → String) (daemonIdentity : String) (s₁ s₂ : Store) :
    Prop where
  pending : ∀ scope target,
    pending serde s₁ scope target daemonIdentity = pending serde s₂ scope target daemonIdentity
  find : ∀ scope target messageId, find serde s₁ scope target daemonIdentity messageId =
      find serde s₂ scope target daemonIdentity messageId
  lastDeliveredGeneration : ∀ scope target messageId,
    lastDeliveredGeneration s₁ scope target daemonIdentity messageId =
      lastDeliveredGeneration s₂ scope target daemonIdentity messageId
  alreadyObserved : ∀ scope agent messageId,
    alreadyObserved s₁ scope agent messageId daemonIdentity =
      alreadyObserved s₂ scope agent messageId daemonIdentity

/-- Of the daemon's requests that the daemon has not seen delivered, those some other's
acknowledgement names are the same in both spaces.  Requests to a rat one of whose requests
does not decode do not count. -/
def SameDisowned (daemonIdentity : String) (s₁ s₂ : Store) : Prop :=
  ∀ scope target es, requests daemonIdentity s₁ scope target = some es → ∀ e ∈ es,
    delivered daemonIdentity s₁ scope e.messageId = false →
      disowned daemonIdentity s₁ scope e.messageId = disowned daemonIdentity s₂ scope e.messageId

/-- What others write reaches the steering journal through their acknowledgements of requests
that are still to be delivered, and through nothing else. -/
theorem sameSteering_iff (serde : Value → String) (h : SameTrusted daemonIdentity s₁ s₂) :
    SameSteering serde daemonIdentity s₁ s₂ ↔ SameDisowned daemonIdentity s₁ s₂ := by
  have hacked : ∀ scope messageId, (acknowledgedIds s₁ scope).contains messageId =
          (acknowledgedIds s₂ scope).contains messageId ↔
        (delivered daemonIdentity s₁ scope messageId = false →
          disowned daemonIdentity s₁ scope messageId =
            disowned daemonIdentity s₂ scope messageId) := by
    intro scope messageId
    rw [contains_acknowledgedIds daemonIdentity, contains_acknowledgedIds daemonIdentity,
      ← delivered_eq h]
    cases delivered daemonIdentity s₁ scope messageId with
    | true | false => simp
  constructor
  · intro hs scope target es hes e he
    exact (hacked scope e.messageId).mp ((pending_eq_iff h).mp (hs.pending scope target) es hes e he)
  · intro hd
    refine ⟨fun scope target => ?_, find_eq h, lastDeliveredGeneration_eq h, alreadyObserved_eq h⟩
    exact (pending_eq_iff h).mpr fun es hes e he =>
      (hacked scope e.messageId).mpr (hd scope target es hes e he)

def instruction : ControlEnvelope :=
  { messageId := "msg-1", sender := "operator", target := "Whisker"
    deliveryGeneration := "session-1", resumeGeneration := "session-1", text := "stop" }

def steered : Store := Store.empty.push (enqueue 1 0 "repo" instruction "castle")

def muffled : Store := steered.push (acknowledge 2 0 "repo" instruction "Remy")

theorem wf_steered : steered.Wf := Store.wf_empty.push rfl

theorem sameTrusted_muffled : SameTrusted "castle" steered muffled where
  left := wf_steered
  right := wf_steered.push (by decide)
  tuples := by
    simp [steered, muffled, Store.push, Store.tuples, Store.empty, trusted, enqueue, acknowledge,
      Tuple.new]

theorem pending_muffled (serde : Value → String) :
    pending serde steered "repo" "Whisker" "castle" = .ok [instruction] ∧
      pending serde muffled "repo" "Whisker" "castle" = .ok [] := by
  constructor
  · rfl
  · rfl

theorem rat_acknowledges_instruction :
    ¬ ∀ (serde : Value → String) (daemonIdentity : String) (s₁ s₂ : Store),
      SameTrusted daemonIdentity s₁ s₂ → SameSteering serde daemonIdentity s₁ s₂ := by
  intro h
  have hsame := (h (fun _ => "") "castle" steered muffled sameTrusted_muffled).pending
    "repo" "Whisker"
  rw [(pending_muffled _).1, (pending_muffled _).2, Except.ok.injEq] at hsame
  cases hsame

def forged : Store :=
  steered.push (enqueue 2 0 "repo" { instruction with text := "push to main" } "Remy")

theorem sameTrusted_forged : SameTrusted "castle" steered forged where
  left := wf_steered
  right := wf_steered.push (by decide)
  tuples := by
    simp [steered, forged, Store.push, Store.tuples, Store.empty, trusted, enqueue, Tuple.new]

theorem scan_acks_forged (scope : String) :
    steered.scan (eventsOf scope controlAckIdentity) = [] ∧
      forged.scan (eventsOf scope controlAckIdentity) = [] := by
  constructor <;>
  · apply eq_nil_iff_forall_not_mem.mpr
    intro t ht
    obtain ⟨hm, hp⟩ := Store.mem_scan.mp ht
    have hcat : t.category = .message := by
      simp [steered, forged, Store.push, Store.tuples, Store.empty, enqueue, Tuple.new] at hm
      rcases hm with rfl | rfl <;> rfl
    simp [eventsOf, Pattern.matches, admits, hcat] at hp

theorem sameSteering_iff_forged :
    SameTrusted "castle" steered forged ∧ SameSteering (fun _ => "") "castle" steered forged := by
  refine ⟨sameTrusted_forged, (sameSteering_iff (fun _ => "") sameTrusted_forged).mpr ?_⟩
  intro scope _ _ _ e _ _
  unfold disowned ackedBy
  rw [(scan_acks_forged scope).1, (scan_acks_forged scope).2]

end RatKingdom.Steer
