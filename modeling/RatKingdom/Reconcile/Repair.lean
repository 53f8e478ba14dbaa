/-
The mechanical repair of the two contradictions about tickets.

A plan decides for every violation whether to act on it.  `Applying.step` is one step of
`apply`: the lookup of the marker, the compare-and-swap on the ticket, the marker written
after it.  A repair never raises a contradiction, and the one it was planned for is gone
right after the swap (`RepairAction.swap_ok`).
-/
import RatKingdom.Reconcile.Report
import RatKingdom.Tickets.Graph

namespace RatKingdom.Reconcile

open Core Tickets List
open Agents (AgentRecord AgentState)

inductive Ancestry where
  | present | absent | unknown

structure RepairFacts where
  isAncestor : String × String → Option Ancestry := fun _ => none
  protectedTouch : String → Option Bool := fun _ => none
  diverged : String × String → Option Bool := fun _ => none

inductive HoldReason where
  | missingEvidence | ambiguousDelivery | conflictingHeads | protectedPathImpact | evidenceDrift

def HoldReason.text : HoldReason → String
  | .missingEvidence => "MissingEvidence"
  | .ambiguousDelivery => "AmbiguousDelivery"
  | .conflictingHeads => "ConflictingHeads"
  | .protectedPathImpact => "ProtectedPathImpact"
  | .evidenceDrift => "EvidenceDrift"

inductive RepairAction where
  | closeDelivered (mergeCommit : String)
  | clearStaleOwnership (status : String) (assignee : Option String)

def RepairAction.describe : RepairAction → String
  | .closeDelivered mergeCommit =>
    "close the ticket — its own delivery record (merge " ++ short mergeCommit ++
      ") already proves it shipped"
  | .clearStaleOwnership _ _ =>
    "reopen the ticket and clear its assignee — the recorded owner has settled terminal with no hand-off"

inductive Disposition where
  | planned (action : RepairAction)
  | held (reason : HoldReason) (detail : String)

structure RepairItem where
  violationId : String
  kind : String
  scope : String
  subject : String
  detail : String
  evidence : List String
  disposition : Disposition

def RepairItem.fromViolation (v : Violation) (disposition : Disposition) : RepairItem :=
  { violationId := v.id, kind := v.kind, scope := v.scope, subject := v.subject,
    detail := v.detail, evidence := v.evidence, disposition }

def closeDisposition (facts : RepairFacts) (scope : String) (record : DeliveryRecord) :
    Disposition :=
  match facts.isAncestor (record.mergeCommit, record.target) with
  | none | some .unknown =>
    .held .missingEvidence "git ancestry for the delivery record was not freshly checked"
  | some .absent =>
    .held .ambiguousDelivery "git does not confirm the recorded merge commit reached its target"
  | some .present =>
    match facts.protectedTouch record.mergeCommit with
    | none =>
      .held .missingEvidence "protected-path impact of the delivered commit was not checked"
    | some true =>
      .held .protectedPathImpact
        "the delivered commit touches a path this repo's landing policy marks protected"
    | some false =>
      if (facts.diverged (scope, record.branch)).getD false then
        .held .conflictingHeads
          "the landed branch has since diverged from the recorded merge commit"
      else .planned (.closeDelivered record.mergeCommit)

def vanished : Disposition :=
  .held .missingEvidence "ticket vanished before repair could re-verify it"

def planDeliveredButOpen (tickets : List Tuple) (facts : RepairFacts) (v : Violation) :
    RepairItem :=
  .fromViolation v <| match tickets.find? fun t => t.identity = v.subject with
    | none => vanished
    | some ticket =>
      match deliveryOf ticket with
      | none =>
        .held .missingEvidence "delivery record vanished before repair could re-verify it"
      | some record => closeDisposition facts v.scope record

def planStaleOwnership (tickets : List Tuple) (v : Violation) : RepairItem :=
  .fromViolation v <| match tickets.find? fun t => t.identity = v.subject with
    | none => vanished
    | some ticket =>
      match ticket.payload.getStr "status" with
      | none => .held .missingEvidence "ticket has no status field"
      | some status => .planned (.clearStaleOwnership status (assigneeOf ticket))

def sortItems (items : List RepairItem) : List RepairItem :=
  items.insertionSort fun a b => a.violationId ≤ b.violationId

def plan (tickets : List Tuple) (agents : List AgentRecord) (landed queued : List String)
    (facts : RepairFacts) : List RepairItem :=
  sortItems <| (deliveredButOpen tickets).map (planDeliveredButOpen tickets facts) ++
    (terminalAssigneeActiveWork tickets agents landed queued).map (planStaleOwnership tickets)

def planWithHandoffs (tickets : List Tuple) (agents : List AgentRecord) (landed : List String)
    (facts : RepairFacts) (handoffs : HandoffFacts) : List RepairItem :=
  sortItems <| (deliveredButOpen tickets).map (planDeliveredButOpen tickets facts) ++
    (terminalAssigneeWithHandoffs tickets agents landed handoffs).2.map (planStaleOwnership tickets)

structure Backlog where
  tickets : List Tuple
  distinct : (tickets.map Tuple.identity).Nodup

open Backlog

namespace Backlog

def empty : Backlog := ⟨[], nodup_nil⟩

def remove (b : Backlog) (identity : String) : Backlog where
  tickets := b.tickets.filter fun t => t.identity ≠ identity
  distinct := (filter_sublist.map _).nodup b.distinct

def put (b : Backlog) (t : Tuple) : Backlog where
  tickets := (b.remove t.identity).tickets ++ [t]
  distinct := by
    rw [map_append, nodup_append]
    refine ⟨(b.remove t.identity).distinct, nodup_singleton _, ?_⟩
    intro x hx y hy
    obtain ⟨u, hu, rfl⟩ := mem_map.mp hx
    rw [map_singleton, mem_singleton] at hy
    rw [hy]
    exact of_decide_eq_true (mem_filter.mp hu).2

def resolve (b : Backlog) (id : String) : Except Space.Error (Option Tuple) :=
  match b.tickets.find? fun t => t.identity = id with
  | some t => .ok (some t)
  | none => resolveAlias b.tickets id

end Backlog

inductive CasOutcome where
  | applied
  | drifted (detail : String)
  | gone

/-- What a write draws: the record id and the clock. -/
structure Stamp where
  id : RecordId := 0
  now : DateTime := 0

/-- Take the ticket, check it, and always write it back: changed when the check holds. -/
def Backlog.swap (b : Backlog) (id : String) (check : Tuple → Bool) (f : Fields → Fields)
    (found : Tuple → String) (stamp : Stamp) : Except Space.Error (Backlog × CasOutcome) :=
  (b.resolve id).map fun
    | none => (b, .gone)
    | some existing =>
      let payload := swapPayload (check existing) f existing.payload stamp.now
      (b.put (withPayload existing stamp.id payload),
        if check existing then .applied else .drifted (found existing))

def debugText : Option String → String
  | none => "None"
  | some s => "Some(\"" ++ String.ofList (s.toList.flatMap fun c =>
      if c = '"' then ['\\', '"'] else if c = '\\' then ['\\', '\\']
      else if c = '\n' then ['\\', 'n'] else if c = '\r' then ['\\', 'r']
      else if c = '\t' then ['\\', 't'] else [c]) ++ "\")"

def mergeCommitOf (t : Tuple) : Option String := (deliveryOf t).map DeliveryRecord.mergeCommit

def repairCloseDelivered (b : Backlog) (id expectedMergeCommit : String) (stamp : Stamp) :
    Except Space.Error (Backlog × CasOutcome) :=
  b.swap id (fun t => !isSettledStatus (statusOf t) && mergeCommitOf t = some expectedMergeCommit)
    (insertField "status" (.string "closed"))
    (fun t => "expected status not in (done, closed) and delivery.merge_commit == " ++
      expectedMergeCommit ++ ", found status=" ++ statusOf t ++ " delivery.merge_commit=" ++
      debugText (mergeCommitOf t))
    stamp

def clearOwner (fields : Fields) : Fields :=
  insertField "assignee" .null (insertField "status" (.string "open") fields)

def repairClearStaleOwnership (b : Backlog) (id expectedStatus : String)
    (expectedAssignee : Option String) (stamp : Stamp) :
    Except Space.Error (Backlog × CasOutcome) :=
  b.swap id (fun t => statusOf t = expectedStatus && assigneeOf t = expectedAssignee) clearOwner
    (fun t => "expected status=" ++ expectedStatus ++ " assignee=" ++
      debugText expectedAssignee ++ ", found status=" ++ statusOf t ++ " assignee=" ++
      debugText (assigneeOf t))
    stamp

inductive Outcome where
  | applied (detail journal : String)
  | alreadyApplied (detail : String)
  | held (reason : HoldReason) (detail : String)

def RepairAction.confirmed (agents : List AgentRecord) (subject : String) : RepairAction → Bool
  | .closeDelivered _ => true
  | .clearStaleOwnership _ assignee =>
    match resolveOwner subject assignee agents with
    | none => false
    | some owner => owner.state.isArchivable

def RepairAction.swap (b : Backlog) (subject : String) (stamp : Stamp) :
    RepairAction → Except Space.Error (Backlog × CasOutcome)
  | .closeDelivered mergeCommit => repairCloseDelivered b subject mergeCommit stamp
  | .clearStaleOwnership status assignee =>
    repairClearStaleOwnership b subject status assignee stamp

/-- Where `execute` stands in the item at the head of the plan. -/
inductive Phase where
  | lookup | swap | announce
  deriving DecidableEq

/-- A call of `apply` under way: the agents it was handed, what is left of the plan, and
the results so far. -/
structure Applying where
  agents : List AgentRecord
  items : List RepairItem
  phase : Phase := .lookup
  results : List (RepairItem × Outcome) := []

/-- What a step does outside the call. -/
inductive Effect where
  | none
  | wrote (b : Backlog)
  | marked (id : String)
  | answered (id : String)

namespace Applying

def next (a : Applying) (item : RepairItem) (rest : List RepairItem) (outcome : Outcome) :
    Applying :=
  { a with items := rest, phase := .lookup, results := a.results ++ [(item, outcome)] }

def ownerDrift : String :=
  "the assignee's agent no longer confirms a settled terminal state with no hand-off — re-checked fresh immediately before the write"

/-- One step of `execute` on the planned item at the head. -/
def execute (b : Backlog) (repairs : List String) (stamp : Stamp) (a : Applying)
    (item : RepairItem) (rest : List RepairItem) (action : RepairAction) :
    Except Space.Error (Effect × Applying) :=
  match a.phase with
  | .lookup =>
    if repairs.contains item.violationId then
      .ok (.answered item.violationId, a.next item rest (.alreadyApplied action.describe))
    else .ok (.none, { a with phase := .swap })
  | .swap =>
    if action.confirmed a.agents item.subject then
      (action.swap b item.subject stamp).map fun
        | (b', .applied) => (.wrote b', { a with phase := .announce })
        | (b', .drifted detail) => (.wrote b', a.next item rest (.held .evidenceDrift detail))
        | (b', .gone) =>
          (.wrote b', a.next item rest (.held .missingEvidence "ticket no longer exists"))
    else .ok (.none, a.next item rest (.held .evidenceDrift ownerDrift))
  | .announce =>
    .ok (.marked item.violationId,
      a.next item rest (.applied action.describe (RecordId.toText stamp.id)))

/-- One step of `apply`, as long as an item is left. -/
def step (b : Backlog) (repairs : List String) (stamp : Stamp) (a : Applying)
    (item : RepairItem) (rest : List RepairItem) : Except Space.Error (Effect × Applying) :=
  match item.disposition with
  | .held reason detail => .ok (.none, a.next item rest (.held reason detail))
  | .planned action => a.execute b repairs stamp item rest action

end Applying

/-- What the report reads of one repository: the agents with the archived ones, and those
of every repository without them. -/
structure World where
  backlog : Backlog
  agents : List AgentRecord
  live : List AgentRecord
  landed : List String
  queued : List String

namespace World

def contradictions (w : World) : List String :=
  (deliveredButOpen w.backlog.tickets).map Violation.id ++
    (terminalAssigneeActiveWork w.backlog.tickets w.agents w.landed w.queued).map Violation.id

def handedOn (w : World) (id : String) : Bool := w.landed.contains id || w.queued.contains id

theorem mem_contradictions {w : World} {id : String} :
    id ∈ w.contradictions ↔ ∃ t ∈ w.backlog.tickets,
      ((openDelivery t).isSome = true ∧ id = deliveredButOpenId t.identity) ∨
        ∃ agent, settledOwner w.agents w.handedOn t = some agent ∧
          id = terminalAssigneeViolationId t.identity (spawnText agent) := by
  simp only [contradictions, mem_append, mem_map]
  constructor
  · intro h
    rcases h with ⟨v, hv, rfl⟩ | ⟨v, hv, rfl⟩
    · obtain ⟨t, ht, record, hrec, rfl⟩ := mem_deliveredButOpen.mp hv
      exact ⟨t, ht, .inl ⟨Option.isSome_iff_exists.mpr ⟨record, hrec⟩, rfl⟩⟩
    · obtain ⟨t, ht, agent, hagent, rfl⟩ := mem_terminalAssigneeActiveWork.mp hv
      exact ⟨t, ht, .inr ⟨agent, hagent, rfl⟩⟩
  · intro h
    obtain ⟨t, ht, ⟨hsome, rfl⟩ | ⟨agent, hagent, rfl⟩⟩ := h
    · obtain ⟨record, hrec⟩ := Option.isSome_iff_exists.mp hsome
      exact .inl ⟨_, mem_deliveredButOpen.mpr ⟨t, ht, record, hrec, rfl⟩, rfl⟩
    · exact .inr ⟨_, mem_terminalAssigneeActiveWork.mpr ⟨t, ht, agent, hagent, rfl⟩, rfl⟩

end World

variable {b : Backlog} {t : Tuple}

theorem Backlog.mem_remove {identity : String} :
    t ∈ (b.remove identity).tickets ↔ t ∈ b.tickets ∧ t.identity ≠ identity := by
  simp [remove]

theorem Backlog.mem_put {u : Tuple} :
    u ∈ (b.put t).tickets ↔ u = t ∨ u ∈ b.tickets ∧ u.identity ≠ t.identity := by
  rw [put, mem_append, mem_remove, mem_singleton]
  exact or_comm

theorem Backlog.eq_of_identity {u : Tuple} (ht : t ∈ b.tickets) (hu : u ∈ b.tickets)
    (h : t.identity = u.identity) : t = u :=
  inj_on_of_nodup_map b.distinct ht hu h

variable {id : String}

theorem Backlog.resolve_ok (h : b.resolve id = .ok (some t)) :
    t ∈ b.tickets ∧ ∀ u ∈ b.tickets, u.identity = id → u = t := by
  unfold resolve at h
  split at h
  · rename_i u hu
    cases h
    have hid : t.identity = id := by simpa using find?_some hu
    have hm := mem_of_find?_eq_some hu
    exact ⟨hm, fun v hv hvid => b.eq_of_identity hv hm (by rw [hvid, hid])⟩
  · rename_i hn
    have habsent : ∀ u ∈ b.tickets, u.identity ≠ id := by
      intro u hu hid
      have := find?_eq_none.mp hn u hu
      exact this (decide_eq_true hid)
    exact ⟨resolveAlias_mem h, fun v hv hid => absurd hid (habsent v hv)⟩

/-- The ticket raises nothing that the other one does not raise. -/
structure Milder (t t' : Tuple) : Prop where
  identity : t'.identity = t.identity
  delivered : (openDelivery t').isSome = true → (openDelivery t).isSome = true
  owned : ∀ agents handedOn owner, settledOwner agents handedOn t' = some owner →
    settledOwner agents handedOn t = some owner

variable {t' : Tuple}

theorem Milder.contradictions {w : World} (h : Milder t t') (ht : t ∈ w.backlog.tickets)
    (hid : id ∈ { w with backlog := w.backlog.put t' : World }.contradictions) :
    id ∈ w.contradictions := by
  rw [World.mem_contradictions] at hid ⊢
  obtain ⟨u, hu, hcases⟩ := hid
  rcases mem_put.mp hu with rfl | ⟨hu, -⟩
  · refine ⟨t, ht, ?_⟩
    rw [h.identity] at hcases
    rcases hcases with ⟨hsome, rfl⟩ | ⟨agent, howner, rfl⟩
    · exact .inl ⟨h.delivered hsome, rfl⟩
    · exact .inr ⟨agent, h.owned _ _ _ howner, rfl⟩
  · exact ⟨u, hu, hcases⟩

theorem milder_of_payload (hid : t'.identity = t.identity) (hp : t'.payload = t.payload) :
    Milder t t' := by
  have hdelivery : deliveryOf t' = deliveryOf t := by rw [deliveryOf, hp, deliveryOf]
  have hstatus : statusOf t' = statusOf t := by rw [statusOf, hp, statusOf]
  have hopen : openDelivery t' = openDelivery t := by
    unfold openDelivery
    rw [hdelivery, hstatus]
  refine ⟨hid, fun h => hopen ▸ h, fun agents handedOn owner h => ?_⟩
  have howner : settledOwner agents handedOn t' = settledOwner agents handedOn t := by
    simp only [settledOwner, assigneeOf, hp, hid]
  exact howner ▸ h

theorem getStr_insertField (key other : String) (v : Value) (fields : Fields) :
    (Value.object (insertField key v fields)).getStr other =
      if key = other then v.asStr else (Value.object fields).getStr other := by
  unfold Value.getStr
  rw [get_insertField]
  by_cases h : key = other
  · rw [if_pos h, if_pos h]
    rfl
  · rw [if_neg h, if_neg h]

theorem closed_raises (h : t.payload.getStr "status" = some "closed") :
    openDelivery t = none ∧ ∀ agents handedOn, settledOwner agents handedOn t = none := by
  constructor
  · have hs : isSettledStatus (statusOf t) = true := by
      rw [statusOf, h]
      rfl
    unfold openDelivery
    split
    · rfl
    · rw [hs]
      split <;> rfl
  · intro agents handedOn
    exact settledOwner_eq_none h rfl

theorem payload_of_get {payload v : Value} {key : String} (h : payload.get key = some v) :
    ∃ fields, payload = .object fields := by
  cases payload with
  | object fields => exact ⟨fields, rfl⟩
  | null | bool b | number n | string s | array items => cases h

theorem Backlog.swap_ok {b' : Backlog} {check : Tuple → Bool} {f : Fields → Fields}
    {found : Tuple → String} {stamp : Stamp} {o : CasOutcome}
    (h : b.swap id check f found stamp = .ok (b', o)) :
    (b' = b ∧ o = .gone) ∨ ∃ t ∈ b.tickets, (∀ u ∈ b.tickets, u.identity = id → u = t) ∧
      ∃ t', t'.identity = t.identity ∧
        t'.payload = swapPayload (check t) f t.payload stamp.now ∧ b' = b.put t' ∧
        o = if check t then .applied else .drifted (found t) := by
  unfold swap at h
  cases hr : b.resolve id with
  | error e =>
    rw [hr] at h
    cases h
  | ok found =>
    rw [hr] at h
    cases found with
    | none =>
      cases h
      exact .inl ⟨rfl, rfl⟩
    | some t =>
      cases h
      obtain ⟨hm, honly⟩ := b.resolve_ok hr
      exact .inr ⟨t, hm, honly,
        withPayload t stamp.id (swapPayload (check t) f t.payload stamp.now), rfl, rfl, rfl, rfl⟩

theorem swapPayload_status {f : Fields → Fields} {fields : Fields} {now : DateTime}
    {status : String} (h : (Value.object (f fields)).getStr "status" = some status) :
    (swapPayload true f (.object fields) now).getStr "status" = some status := by
  show (Value.object (insertField "updated_at" _ (f fields))).getStr "status" = some status
  rw [getStr_insertField, if_neg (by decide), h]

theorem milder_closed (hid : t'.identity = t.identity)
    (h : t'.payload.getStr "status" = some "closed") : Milder t t' := by
  obtain ⟨hopen, howner⟩ := closed_raises h
  refine ⟨hid, fun hsome => ?_, fun agents handedOn owner hs => ?_⟩
  · rw [hopen] at hsome
    cases hsome
  · rw [howner] at hs
    cases hs

theorem milder_reopened (hid : t'.identity = t.identity) (hs : isActiveStatus (statusOf t) = true)
    (h : t'.payload.getStr "status" = some "open") (hd : deliveryOf t' = deliveryOf t) :
    Milder t t' := by
  refine ⟨hid, fun hsome => ?_, fun agents handedOn owner ho => ?_⟩
  · unfold openDelivery at hsome ⊢
    rw [hd] at hsome
    rw [isSettledStatus_of_active hs]
    cases hrec : deliveryOf t with
    | none =>
      rw [hrec] at hsome
      cases hsome
    | some record =>
      rw [hrec] at hsome
      dsimp only at hsome ⊢
      by_cases hcommit : record.mergeCommit = ""
      · rw [if_pos hcommit] at hsome
        cases hsome
      · rw [if_neg hcommit, if_neg (by decide)]
        rfl
  · rw [settledOwner_eq_none h rfl] at ho
    cases ho

theorem closed_status {commit : String} {stamp : Stamp} (h : mergeCommitOf t = some commit) :
    (swapPayload true (insertField "status" (.string "closed")) t.payload stamp.now).getStr
      "status" = some "closed" := by
  obtain ⟨record, hrec, -⟩ := Option.map_eq_some_iff.mp h
  obtain ⟨v, hv, -⟩ := Option.bind_eq_some_iff.mp hrec
  obtain ⟨fields, hp⟩ := payload_of_get hv
  rw [hp]
  apply swapPayload_status
  rw [getStr_insertField, if_pos rfl]
  rfl

theorem status_written (h : isActiveStatus (statusOf t) = true) :
    ∃ fields, t.payload = .object fields := by
  cases hs : t.payload.getStr "status" with
  | none =>
    rw [statusOf, hs] at h
    exact absurd h (by decide)
  | some status =>
    obtain ⟨v, hv, -⟩ := Option.bind_eq_some_iff.mp hs
    exact payload_of_get hv

theorem reopened_payload (stamp : Stamp) (h : isActiveStatus (statusOf t) = true) :
    (swapPayload true clearOwner t.payload stamp.now).getStr "status" = some "open" ∧
      (swapPayload true clearOwner t.payload stamp.now).get "delivery" =
        t.payload.get "delivery" := by
  obtain ⟨fields, hp⟩ := status_written h
  rw [hp]
  constructor
  · apply swapPayload_status
    rw [clearOwner, getStr_insertField, if_neg (by decide), getStr_insertField, if_pos rfl]
    rfl
  · show (Value.object (insertField "updated_at" _ (clearOwner fields))).get "delivery" = _
    rw [clearOwner, get_insertField, if_neg (by decide), get_insertField, if_neg (by decide),
      get_insertField, if_neg (by decide)]

/-- The action of an item is the repair of the contradiction it is named after. -/
def RepairItem.Sound (item : RepairItem) : Prop :=
  match item.disposition with
  | .held _ _ => True
  | .planned (.closeDelivered _) => item.violationId = deliveredButOpenId item.subject
  | .planned (.clearStaleOwnership status _) => isActiveStatus status = true ∧
      ∃ agent, item.violationId = terminalAssigneeViolationId item.subject (spawnText agent)

variable {facts : RepairFacts}

theorem planDeliveredButOpen_sound {tickets : List Tuple} {v : Violation}
    (h : v ∈ deliveredButOpen tickets) : (planDeliveredButOpen tickets facts v).Sound := by
  obtain ⟨t, -, record, -, rfl⟩ := mem_deliveredButOpen.mp h
  have hn : ∀ d, (∀ status assignee, d ≠ .planned (.clearStaleOwnership status assignee)) →
      (RepairItem.fromViolation (deliveredViolation t record) d).Sound := by
    intro d hd
    match d, hd with
    | .held _ _, _ => trivial
    | .planned (.closeDelivered _), _ => rfl
    | .planned (.clearStaleOwnership status assignee), hd => exact absurd rfl (hd status assignee)
  refine hn _ fun status assignee => ?_
  split
  · exact nofun
  · split
    · exact nofun
    · unfold closeDisposition
      split
      · exact nofun
      · exact nofun
      · exact nofun
      · split
        · exact nofun
        · exact nofun
        · split <;> exact nofun

variable {agents : List AgentRecord}

theorem planStaleOwnership_sound {agent : AgentRecord} {handedOn : String → Bool} {v : Violation}
    (ht : t ∈ b.tickets) (ho : settledOwner agents handedOn t = some agent)
    (hid : v.id = terminalAssigneeViolationId t.identity (spawnText agent))
    (hsubject : v.subject = t.identity) : (planStaleOwnership b.tickets v).Sound := by
  obtain ⟨⟨status, hs, hactive⟩, -, -⟩ := settledOwner_eq_some ho
  have hfind : b.tickets.find? (fun u => u.identity = v.subject) = some t := by
    cases hf : b.tickets.find? fun u => u.identity = v.subject with
    | none =>
      exact absurd (decide_eq_true hsubject.symm) (find?_eq_none.mp hf t ht)
    | some u =>
      have hu : u.identity = v.subject := by simpa using find?_some hf
      rw [b.eq_of_identity (mem_of_find?_eq_some hf) ht (by rw [hu, hsubject])]
  unfold planStaleOwnership
  rw [hfind]
  dsimp only
  rw [hs]
  exact ⟨hactive, agent, by rw [RepairItem.fromViolation, hid, hsubject]⟩

variable {item : RepairItem}

theorem mem_sortItems {items : List RepairItem} :
    item ∈ sortItems items ↔ item ∈ items := mem_insertionSort _

theorem plan_sound {landed queued : List String}
    (h : item ∈ plan b.tickets agents landed queued facts) : item.Sound := by
  rcases mem_append.mp (mem_sortItems.mp h) with h | h
  · obtain ⟨v, hv, rfl⟩ := mem_map.mp h
    exact planDeliveredButOpen_sound hv
  · obtain ⟨v, hv, rfl⟩ := mem_map.mp h
    obtain ⟨t, ht, agent, ho, rfl⟩ := mem_terminalAssigneeActiveWork.mp hv
    exact planStaleOwnership_sound ht ho rfl rfl

theorem planWithHandoffs_sound {landed : List String} {handoffs : HandoffFacts}
    (h : item ∈ planWithHandoffs b.tickets agents landed facts handoffs) : item.Sound := by
  rcases mem_append.mp (mem_sortItems.mp h) with h | h
  · obtain ⟨v, hv, rfl⟩ := mem_map.mp h
    exact planDeliveredButOpen_sound hv
  · obtain ⟨v, hv, rfl⟩ := mem_map.mp h
    obtain ⟨t, ht, agent, ho, -, rfl⟩ := mem_terminalAssigneeWithHandoffs hv
    obtain ⟨hid, -, hsubject⟩ := abandoned_names handoffs t agent
    exact planStaleOwnership_sound ht ho hid hsubject

section
variable {w : World} {b' : Backlog} {subject : String} {stamp : Stamp} {o : CasOutcome}

theorem only_put {b : Backlog} {t t' : Tuple} (honly : ∀ u ∈ b.tickets, u.identity = subject → u = t)
    (hid : t'.identity = t.identity) :
    ∀ u ∈ (b.put t').tickets, u.identity = subject → u = t' := by
  intro u hu hs
  rcases mem_put.mp hu with rfl | ⟨hu, hne⟩
  · rfl
  · exact absurd (by rw [hid, honly u hu hs]) hne

theorem repairCloseDelivered_ok {commit : String}
    (h : repairCloseDelivered w.backlog subject commit stamp = .ok (b', o)) :
    (∀ id ∈ { w with backlog := b' : World }.contradictions, id ∈ w.contradictions) ∧
      (o = .applied →
        deliveredButOpenId subject ∉ { w with backlog := b' : World }.contradictions) := by
  rcases swap_ok h with ⟨rfl, rfl⟩ | ⟨t, ht, honly, t', hid, hpayload, rfl, rfl⟩
  · exact ⟨fun id hid => hid, nofun⟩
  · generalize hcheck : (!isSettledStatus (statusOf t) && mergeCommitOf t = some commit : Bool) =
      check at hpayload ⊢
    cases check with
    | false =>
      have hmild : Milder t t' := milder_of_payload hid hpayload
      exact ⟨fun id hm => hmild.contradictions ht hm, nofun⟩
    | true =>
      obtain ⟨-, hcommit⟩ := Bool.and_eq_true_iff.mp hcheck
      have hclosed : t'.payload.getStr "status" = some "closed" := by
        rw [hpayload]
        exact closed_status (of_decide_eq_true hcommit)
      have hmild : Milder t t' := milder_closed hid hclosed
      refine ⟨fun id hm => hmild.contradictions ht hm, fun _ hm => ?_⟩
      obtain ⟨u, hu, hcases⟩ := World.mem_contradictions.mp hm
      rcases hcases with ⟨hsome, hn⟩ | ⟨agent, -, hn⟩
      · rw [only_put honly hid u hu (deliveredButOpenId_inj hn).symm,
          (closed_raises hclosed).1] at hsome
        cases hsome
      · exact deliveredButOpenId_ne hn

theorem repairClearStaleOwnership_ok {status : String} {assignee : Option String}
    (hactive : isActiveStatus status = true)
    (h : repairClearStaleOwnership w.backlog subject status assignee stamp = .ok (b', o)) :
    (∀ id ∈ { w with backlog := b' : World }.contradictions, id ∈ w.contradictions) ∧
      (o = .applied → ∀ agent, terminalAssigneeViolationId subject (spawnText agent) ∉
        { w with backlog := b' : World }.contradictions) := by
  rcases swap_ok h with ⟨rfl, rfl⟩ | ⟨t, ht, honly, t', hid, hpayload, rfl, rfl⟩
  · exact ⟨fun id hid => hid, nofun⟩
  · generalize hcheck : (statusOf t = status && assigneeOf t = assignee : Bool) =
      check at hpayload ⊢
    cases check with
    | false =>
      have hmild : Milder t t' := milder_of_payload hid hpayload
      exact ⟨fun id hm => hmild.contradictions ht hm, nofun⟩
    | true =>
      obtain ⟨hstatus, -⟩ := Bool.and_eq_true_iff.mp hcheck
      have hs : isActiveStatus (statusOf t) = true := by
        rw [of_decide_eq_true hstatus]
        exact hactive
      obtain ⟨hstatus', hdelivery⟩ := reopened_payload stamp hs
      have hopen : t'.payload.getStr "status" = some "open" := by rw [hpayload, hstatus']
      have hd : deliveryOf t' = deliveryOf t := by rw [deliveryOf, hpayload, hdelivery, deliveryOf]
      have hmild : Milder t t' := milder_reopened hid hs hopen hd
      refine ⟨fun id hm => hmild.contradictions ht hm, fun _ agent hm => ?_⟩
      obtain ⟨u, hu, hcases⟩ := World.mem_contradictions.mp hm
      rcases hcases with ⟨-, hn⟩ | ⟨owner, howner, hn⟩
      · exact deliveredButOpenId_ne hn.symm
      · rw [only_put honly hid u hu (terminalAssigneeViolationId_inj hn).symm,
          settledOwner_eq_none hopen rfl] at howner
        cases howner

theorem RepairAction.swap_ok {item : RepairItem} {action : RepairAction} (hsound : item.Sound)
    (hd : item.disposition = .planned action)
    (h : action.swap w.backlog item.subject stamp = .ok (b', o)) :
    (∀ id ∈ { w with backlog := b' : World }.contradictions, id ∈ w.contradictions) ∧
      (o = .applied → item.violationId ∉ { w with backlog := b' : World }.contradictions) := by
  unfold RepairItem.Sound at hsound
  rw [hd] at hsound
  cases action with
  | closeDelivered commit =>
    have hn : item.violationId = deliveredButOpenId item.subject := hsound
    rw [hn]
    exact repairCloseDelivered_ok h
  | clearStaleOwnership status assignee =>
    obtain ⟨hactive, agent, hn⟩ := hsound
    obtain ⟨hsub, hgone⟩ := repairClearStaleOwnership_ok hactive h
    rw [hn]
    exact ⟨hsub, fun ho => hgone ho agent⟩

end

end RatKingdom.Reconcile
