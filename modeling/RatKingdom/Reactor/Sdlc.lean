/-
The built-in reactions to SDLC transitions.

A CI transition into failure is answered by one diagnostic need, a recovery by one
recovered fact; a production alert that starts firing by one read-only diagnosis.  Each
reaction writes its tuple and then a marker.  Both are reached from the loop over the
journal and from a pass over the stored transitions.
-/
import RatKingdom.Reactor.Fire

namespace RatKingdom.Reactor

open Core Lib

def transitionPrefix : String := "sdlc:transition:"

def currentPrefix : String := "sdlc:current:"

def startsWith (s p : String) : Bool := p.toList.isPrefixOf s.toList

def isObservationalSdlcTuple (t : Tuple) : Bool :=
  (t.scope = "deployment" || t.scope = "production_alert") &&
    (startsWith t.identity "sdlc:" || t.payload.getStr "family" = some "deployment" ||
      t.payload.getStr "family" = some "production_alert")

/-- The test at the head of `react_to_sdlc_ci_transition`. -/
def isCiTransition (t : Tuple) : Bool :=
  t.category = .event && t.scope = "ci" && t.payload.getStr "family" = some "ci" &&
    startsWith t.identity transitionPrefix

def ciKey (transition : RecordId) : Key := { head := "sdlc-ci", tuple := transition }

def Host.currentCiFact (h : Host) (source subject : String) : Option Tuple :=
  (h.scan fun t => t.category = .fact && t.scope = "ci").find? fun t =>
    startsWith t.identity currentPrefix && t.payload.getStr "source" = some source &&
      t.payload.getStr "family" = some "ci" && t.payload.getStr "subject" = some subject

/-- `has_ci_diagnostic`: a need under the diagnostic's identity, whoever wrote it, that
names the subject. -/
def Host.hasCiDiagnostic (h : Host) (subject : String) : Bool :=
  (h.journal.any fun r =>
    match r with
    | .ciDiagnostic d => d.subject = subject
    | _ => false) ||
  h.rows.any fun t => t.category = .need && t.identity = "sdlc_ci_diagnostic" &&
    t.payload.getStr "subject" = some subject

def ciReaction (t : Tuple) (subject : String) (current : Tuple) : CiReaction :=
  { source := t.payload.getStr "source", subject, deliveryId := t.payload.getStr "delivery_id"
    transition := t.id, currentFact := current.id }

/-- `write_ci_diagnostic` and `write_ci_recovery`: the tuple, then its marker. -/
def writeCiReaction (t : Tuple) (r : Record) (kind : String) : Op Bool := do
  out .ciFact r
  out .ciMarker (.marker (ciKey t.id) (.reacted kind))
  pure true

/-- The last step of `react_to_sdlc_ci_transition`, by the kind of the transition. -/
def reactToCiKind (t : Tuple) (subject : String) (current : Tuple) : Op Bool :=
  let reaction := ciReaction t subject current
  if t.payload.getStr "kind" = some "ci_failed" then
    writeCiReaction t (.ciDiagnostic reaction) "diagnostic"
  else if t.payload.getStr "kind" = some "ci_recovered" then do
    let h ← Act.get
    if h.hasCiDiagnostic subject then writeCiReaction t (.ciRecovered reaction) "recovered"
    else pure false
  else pure false

def reactToSdlcCiTransition (t : Tuple) : Op Bool :=
  if !isCiTransition t then pure false
  else do
    let h ← Act.get
    if h.marked (ciKey t.id) then pure false
    else
      match t.payload.getStr "subject" with
      | none => pure false
      | some subject =>
        match h.currentCiFact ((t.payload.getStr "source").getD "unknown") subject with
        | none => pure false
        | some current => reactToCiKind t subject current

def reactToSdlcCiTransitionBacklog : Op Nat := do
  let h ← Act.get
  (h.scan fun t => t.category = .event && t.scope = "ci" &&
    startsWith t.identity transitionPrefix).foldlM (fun fired t => do
      let reacted ← reactToSdlcCiTransition t
      pure (if reacted then fired + 1 else fired)) 0

def isProductionAlertTransition (t : Tuple) : Bool :=
  t.category = .event && isObservationalSdlcTuple t && startsWith t.identity transitionPrefix

def alertKey (transition : RecordId) : Key := { head := "sdlc-alert", tuple := transition }

def sourcePrincipal (source : String) : String := "source:" ++ source

structure AlertDiagnosisContext where
  state : String
  environment : String
  service : String
  alert : Value
  refs : Value
  attributes : Value

structure AlertOccurrence where
  tuple : Tuple
  receiptId : String
  semanticStateDigest : String

section
variable (c : Castle)

def Castle.safeText (v : Value) : Bool :=
  match v with
  | .string s => !c.textUnsafe s
  | _ => false

/-- One entry of `refs`: a label and a link, both safe. -/
def Castle.safeRef (v : Value) : Bool :=
  match v with
  | .object fields =>
    fields.length = 2 && fields.any (fun f => f.1 = "label") && fields.any (fun f => f.1 = "url") &&
      fields.all fun f => c.safeText f.2
  | _ => false

def onlyKeys (allowed : List String) (fields : List (String × Value)) : Bool :=
  fields.all fun f => allowed.contains f.1

def fieldOrNull (fields : List (String × Value)) (key : String) : Value :=
  ((Value.object fields).get key).getD .null

def Castle.alertDiagnosisContext (occurrence : Tuple) : Option AlertDiagnosisContext := do
  guard (occurrence.category = .event ∧ occurrence.scope = "production_alert")
  let .object root := occurrence.payload | none
  guard (onlyKeys ["source", "delivery_id", "family", "subject", "kind", "summary", "occurred_at",
    "observed_at", "correlation", "refs", "attributes", "payload"] root)
  guard (occurrence.payload.getStr "family" = some "production_alert")
  let .object alert ← occurrence.payload.get "payload" | none
  guard (onlyKeys ["type", "environment", "service", "alert_key", "severity", "state"] alert)
  guard ((Value.object alert).getStr "type" = some "production_alert")
  let state ← (Value.object alert).getStr "state"
  let environment ← (Value.object alert).getStr "environment"
  let service ← (Value.object alert).getStr "service"
  guard (alert.all fun f => (f.2.asStr.map fun s => !c.textUnsafe s).getD true)
  let .array refs ← occurrence.payload.get "refs" | none
  guard (refs.all c.safeRef)
  let .object attributes ← occurrence.payload.get "attributes" | none
  guard (attributes.all fun f => !c.textUnsafe f.1 && c.safeText f.2)
  pure
    { state, environment, service
      alert := .object (["alert_key", "environment", "service", "severity", "state"].map fun k =>
        (k, fieldOrNull alert k))
      refs := .array refs, attributes := .object attributes }

def Castle.transitionAgrees (t : Tuple) (r : Space.SdlcTransitionRecord) : Bool :=
  c.validSourceName r.source && r.transitionTupleId = t.id && r.scope = t.scope &&
    t.inst = sourcePrincipal r.source &&
    t.identity = "sdlc:transition:" ++ r.source ++ ":" ++ r.scope ++ ":" ++ r.subject &&
    t.payload.getStr "source" = some r.source &&
    t.payload.getStr "delivery_id" = some r.deliveryId &&
    t.payload.getStr "subject" = some r.subject &&
    t.payload.getStr "previous_digest" = r.previousDigest &&
    t.payload.getStr "current_digest" = some r.currentDigest

def Castle.alertOccurrence (h : Host) (source deliveryId : String) : Option AlertOccurrence := do
  guard (c.validSourceName source)
  let receipt ← (h.tables.receipts.find? fun r => r.1 = (source, deliveryId)).map Prod.snd
  guard (receipt.source = sourcePrincipal source ∧ receipt.deliveryId = deliveryId)
  let t ← h.rows.find? fun t => t.id = receipt.projectedEventId
  guard (t.category = .event ∧ t.scope = "production_alert" ∧ t.inst = sourcePrincipal source ∧
    t.identity = "sdlc:event:" ++ source ++ ":" ++ deliveryId ∧
    t.payload.getStr "source" = some source ∧ t.payload.getStr "delivery_id" = some deliveryId ∧
    t.payload.getStr "family" = some "production_alert")
  pure { tuple := t, receiptId := receipt.receiptId, semanticStateDigest := receipt.digest }

def Host.currentSdlcFacts (h : Host) (source scope subject : Option String) : List Tuple :=
  (h.tables.current.filter fun e =>
    admits source e.1.1 && admits scope e.1.2.1 && admits subject e.1.2.2).filterMap fun e =>
      h.rows.find? fun t => t.id = e.2

def Castle.safeDiagnosticMetadata : Option Value → Value
  | some (.string text) => if c.textUnsafe text then .null else .string text
  | none => .null
  | some v => v

def Castle.provenanceCandidate (fact : Tuple) : Value :=
  let current := (fact.payload.get "current").getD .null
  .object [("artifact_revision", c.safeDiagnosticMetadata (current.get "version")),
    ("branch", c.safeDiagnosticMetadata (current.get "branch")),
    ("commit_sha", c.safeDiagnosticMetadata (current.get "commit_sha")),
    ("fact_id", .string (c.recordIdText fact.id)),
    ("receipt_id", (fact.payload.get "receipt_id").getD .null),
    ("repo", c.safeDiagnosticMetadata (current.get "repo")),
    ("source", (fact.payload.get "source").getD .null)]

def provenanceBefore (a b : Tuple) : Bool :=
  let left := (a.payload.getStr "source").getD ""
  let right := (b.payload.getStr "source").getD ""
  left < right || (left = right && a.id ≤ b.id)

def Castle.deploymentProvenance (h : Host) (environment service : String) : Value :=
  let facts := (h.currentSdlcFacts none (some "deployment")
    (some (environment ++ ":" ++ service))).insertionSort fun a b => provenanceBefore a b
  let status := match facts.length with
    | 0 => "unknown"
    | 1 => "known"
    | _ => "ambiguous"
  .object [("candidates", .array (facts.map c.provenanceCandidate)), ("status", .string status)]

/-- `has_alert_diagnosis`: a need under the diagnosis' identity, whoever wrote it, that
names the transition. -/
def Castle.hasAlertDiagnosis (h : Host) (transition : RecordId) : Bool :=
  (h.journal.any fun r =>
    match r with
    | .alertDiagnosis d => d.transition = transition
    | _ => false) ||
  h.rows.any fun t => t.category = .need && t.identity = "sdlc_alert_diagnosis" &&
    t.payload.getStr "transition_tuple" = some (c.recordIdText transition)

def Host.hasAlertProcessed (h : Host) (transition : RecordId) : Bool :=
  h.journal.any fun r =>
    match r with
    | .alertProcessed _ _ id => id = transition
    | _ => false

/-- The permanent half of `mark_sdlc_alert_reacted`. -/
def markAlertProcessed (transition : RecordId) (kind : String) : Op PUnit := do
  let h ← Act.get
  if h.hasAlertProcessed transition then pure ⟨⟩
  else out .alertProcessed (.alertProcessed (alertKey transition) kind transition)

def markAlertFired (transition : RecordId) (kind : String) : Op PUnit := do
  let h ← Act.get
  if h.marked (alertKey transition) then pure ⟨⟩
  else out .alertMarker (.marker (alertKey transition) (.reacted ("alert-" ++ kind)))

def markSdlcAlertReacted (transition : RecordId) (kind : String) : Op PUnit := do
  markAlertProcessed transition kind
  markAlertFired transition kind

def settleAlert (transition : RecordId) (kind : String) : Op Bool := do
  markSdlcAlertReacted transition kind
  pure false

def writeAlertDiagnosis (t : Tuple) (r : Space.SdlcTransitionRecord) (occurrence : AlertOccurrence)
    (context : AlertDiagnosisContext) : Op Bool := do
  let h ← Act.get
  let current := (h.currentSdlcFacts (some r.source) (some "production_alert")
    (some r.subject)).head?
  out .alertDiagnosis (.alertDiagnosis
    { source := r.source, subject := r.subject, deliveryId := r.deliveryId
      receiptId := occurrence.receiptId, occurrence := occurrence.tuple.id, transition := t.id
      currentFact := current.map (·.id), alert := context.alert, refs := context.refs
      attributes := context.attributes
      provenance := c.deploymentProvenance h context.environment context.service })
  markSdlcAlertReacted t.id "diagnostic"
  pure true

def diagnoseAlert (t : Tuple) (r : Space.SdlcTransitionRecord) : Op Bool := do
  let h ← Act.get
  match c.alertOccurrence h r.source r.deliveryId with
  | none => pure false
  | some occurrence =>
    if occurrence.semanticStateDigest ≠ r.currentDigest then pure false
    else if occurrence.tuple.payload.getStr "subject" = none ∨
        occurrence.tuple.payload.getStr "subject" ≠ t.payload.getStr "subject" then
      settleAlert t.id "rejected"
    else
      match c.alertDiagnosisContext occurrence.tuple with
      | none => settleAlert t.id "rejected"
      | some context =>
        if context.state = "resolved" then settleAlert t.id "resolved"
        else if context.state ≠ "firing" then settleAlert t.id "ignored"
        else writeAlertDiagnosis c t r occurrence context

def reactToSdlcAlertTransition (t : Tuple) : Op Bool :=
  if !isProductionAlertTransition t then pure false
  else do
    let h ← Act.get
    match h.tables.transitions.find? fun r => r.transitionTupleId = t.id with
    | none => pure false
    | some r =>
      if !c.transitionAgrees t r then pure false
      else if h.hasAlertProcessed t.id then pure false
      else if c.hasAlertDiagnosis h t.id then settleAlert t.id "diagnostic"
      else if h.marked (alertKey t.id) then settleAlert t.id "legacy-marker"
      else diagnoseAlert c t r

def reactToSdlcAlertTransitionBacklog : Op Nat := do
  let h ← Act.get
  (h.scan fun t => t.scope = "production_alert" && isProductionAlertTransition t).foldlM
    (fun fired t => do
      let reacted ← reactToSdlcAlertTransition c t
      pure (if reacted then fired + 1 else fired)) 0

end

end RatKingdom.Reactor
