/-
Every operation on a ticket, and what is left of the ticket after it.

An operation takes the ticket out of the space and writes it back in a second step.
Between the two the ticket is in no row: an error found there, a write that fails or the
end of the process leaves the backlog without it.  `Mutation.exec` is an operation with
what becomes of its changes of the space; `ticket_kept_iff` says when a ticket outlives it.
-/
import RatKingdom.Lib.Attempt
import RatKingdom.Tickets.Backlog

namespace RatKingdom.Tickets

open Core Lib Space List

mutual
/-- `PartialEq` of JSON values. -/
def sameValue : Value → Value → Bool
  | .null, .null => true
  | .bool a, .bool b => a == b
  | .number a, .number b => a = b
  | .string a, .string b => a = b
  | .array xs, .array ys => sameItems xs ys
  | .object fs, .object gs => sameFields fs gs
  | _, _ => false

def sameItems : List Value → List Value → Bool
  | [], [] => true
  | x :: xs, y :: ys => sameValue x y && sameItems xs ys
  | _, _ => false

def sameFields : List (String × Value) → List (String × Value) → Bool
  | [], [] => true
  | (k, v) :: fs, (j, w) :: gs => k = j && sameValue v w && sameFields fs gs
  | _, _ => false
end

def DeliveryRecord.ofValue : Value → Option DeliveryRecord
  | .object fields => do
    let v := Value.object fields
    let mergeCommit ← v.getStr "merge_commit"
    let branch ← v.getStr "branch"
    let target ← v.getStr "target"
    let landedAt ← match v.get "landed_at" with
      | none => some ""
      | some at_ => at_.asStr
    pure { mergeCommit, branch, target, landedAt }
  | .array [commit, branch, target] => do
    pure { mergeCommit := ← commit.asStr, branch := ← branch.asStr, target := ← target.asStr }
  | .array [commit, branch, target, landedAt] => do
    pure { mergeCommit := ← commit.asStr, branch := ← branch.asStr, target := ← target.asStr
           landedAt := ← landedAt.asStr }
  | _ => none

def deliveryOf (ticket : Tuple) : Option DeliveryRecord :=
  (ticket.payload.get "delivery").bind DeliveryRecord.ofValue

def isDelivered (ticket : Tuple) : Bool :=
  match deliveryOf ticket with
  | none => false
  | some d => d.mergeCommit ≠ ""

/-- A dependency that is stored and not delivered; a missing one does not block. -/
def isBlocked (ticket : Tuple) (byId : String → Option Tuple) : Bool :=
  (depsOf ticket).any fun d =>
    match byId d with
    | none => false
    | some dep => !isDelivered dep

def statusOf (ticket : Tuple) : String := (ticket.payload.getStr "status").getD "open"

def isFreezeLabel (label : String) : Bool :=
  label = "frozen" || (stripPrefix "frozen:" label).isSome

def isActiveCarveOut (label : String) : Bool :=
  match stripPrefix "frozen-except:" label with
  | none => false
  | some reason => carveOuts.contains (String.ofList reason)

def blocksAutomatedDispatch (labels : List String) : Bool :=
  !labels.any isActiveCarveOut && labels.any isFreezeLabel

def labelsOf (ticket : Tuple) : Option (List Value) :=
  match ticket.payload.get "labels" with
  | some (.array items) => some items
  | _ => none

/-- What `claim_authorized` asks of the ticket it is about to take. -/
def dispatchable (s : Store) (expected : Tuple) : Bool :=
  match byId s expected.identity with
  | none => false
  | some current =>
    match labelsOf current with
    | none => false
    | some labels =>
      sameValue current.payload expected.payload && current.scope = expected.scope &&
        labels.any (fun l => l.asStr = some "ready-for-agent") &&
        !blocksAutomatedDispatch (labels.filterMap Value.asStr) && !isBlocked current (byId s)

def removeField (key : String) (fields : Fields) : Fields := fields.filter fun f => f.1 ≠ key

def removeDependency (dep : String) (fields : Fields) : Fields :=
  match (Value.object fields).get "depends_on" with
  | some (.array items) =>
    insertField "depends_on" (.array (items.filter fun d => d.asStr ≠ some dep)) fields
  | _ => fields

/-- The payload of an operation that checks the ticket it has taken: changed when the
check holds, written back as it was otherwise. -/
def swapPayload (check : Bool) (f : Fields → Fields) (payload : Value) (now : DateTime) : Value :=
  if check then
    match payload with
    | .object fields => .object (insertField "updated_at" (.string (DateTime.toRfc3339 now)) (f fields))
    | v => v
  else payload

inductive Mutation where
  | edit (op : TicketEdit)
  | recordDeliveryOnce (id : String) (record : DeliveryRecord)
  | clearDelivery (id status : String)
  | claimAuthorized (ticket : Tuple)
  | reopenIfInProgress (id : String)
  | removeDep (id dep : String)
  | repairCloseDelivered (id expectedMergeCommit : String)
  | repairClearStaleOwnership (id expectedStatus : String) (expectedAssignee : Option String)

/-- `take_ticket`, and what the operation makes of the payload it took. -/
def takeAndSwap (s : Store) (id : String) (check : Tuple → Bool) (f : Fields → Fields) :
    Except Error (Option Edit) :=
  (takeTicket s id).map fun found => found.map fun existing =>
    ⟨existing, fun now => .ok (swapPayload (check existing) f existing.payload now)⟩

def setClosed (record : DeliveryRecord) (fields : Fields) : Fields :=
  insertField "status" (.string "closed") (insertField "delivery" record.toValue fields)

def recordDeliveryOnce (s : Store) (id : String) (record : DeliveryRecord) :
    Except Error (Option Edit) :=
  match resolve s id with
  | .error e => .error e
  | .ok none => .error (noSuchTicket id)
  | .ok (some existing) =>
    match deliveryOf existing with
    | none => edit s id (setClosed record)
    | some prior =>
      if prior.mergeCommit = record.mergeCommit && prior.branch = record.branch &&
          prior.target = record.target then .ok none
      else .error (.other ("ticket " ++ id ++ " already has a different delivery record"))

def clearDelivery (s : Store) (id status : String) : Except Error (Option Edit) :=
  match resolve s id with
  | .error e => .error e
  | .ok none => .ok none
  | .ok (some existing) =>
    match deliveryOf existing with
    | none => .ok none
    | some _ => edit s id fun fields =>
        insertField "status" (.string status) (removeField "delivery" fields)

def removeDep (s : Store) (id dep : String) : Except Error (Option Edit) :=
  match resolve s id with
  | .error e => .error e
  | .ok none => .error (noSuchTicket id)
  | .ok (some _) =>
    match canonicalId s dep with
    | .error e => .error e
    | .ok found => edit s id (removeDependency (found.getD dep))

/-- An operation up to its take: the error or the answer its checks end it with, or the
tuple it takes. -/
def Mutation.begin (s : Store) : Mutation → Except Error (Option Edit)
  | .edit op => beginEdit s op
  | .recordDeliveryOnce id record => Tickets.recordDeliveryOnce s id record
  | .clearDelivery id status => Tickets.clearDelivery s id status
  | .claimAuthorized ticket =>
    if dispatchable s ticket then beginEdit s (.claim ticket.identity) else .ok none
  | .reopenIfInProgress id =>
    takeAndSwap s id (fun t => t.payload.getStr "status" = some "in_progress")
      (insertField "status" (.string "open"))
  | .removeDep id dep => Tickets.removeDep s id dep
  | .repairCloseDelivered id commit =>
    takeAndSwap s id (fun t => !(["done", "closed"].contains (statusOf t)) &&
        (deliveryOf t).map DeliveryRecord.mergeCommit = some commit)
      (insertField "status" (.string "closed"))
  | .repairClearStaleOwnership id status assignee =>
    takeAndSwap s id (fun t => statusOf t = status && t.payload.getStr "assignee" = assignee)
      fun fields => insertField "assignee" .null (insertField "status" (.string "open") fields)

theorem isObject_swapPayload (check : Bool) (f : Fields → Fields) {payload : Value}
    (h : isObject payload = true) (now : DateTime) :
    isObject (swapPayload check f payload now) = true := by
  unfold swapPayload
  by_cases hc : check = true
  · rw [if_pos hc]
    cases payload with
    | object fields => rfl
    | _ => cases h
  · rw [if_neg hc]
    exact h

variable {s : Store} {id : String} {e : Edit}

theorem takeAndSwap_sound {check : Tuple → Bool} {f : Fields → Fields}
    (h : takeAndSwap s id check f = .ok (some e)) : e.Sound s := by
  obtain ⟨existing, ht, rfl⟩ := ok_some_of_map h
  exact ⟨takeTicket_spec ht, fun ho now => ⟨_, rfl, isObject_swapPayload _ _ ho now⟩⟩

theorem recordDeliveryOnce_sound {record : DeliveryRecord}
    (h : recordDeliveryOnce s id record = .ok (some e)) : e.Sound s := by
  unfold recordDeliveryOnce at h
  split at h
  · cases h
  · cases h
  · split at h
    · exact edit_sound h
    · split at h <;> cases h

theorem clearDelivery_sound {status : String} (h : clearDelivery s id status = .ok (some e)) :
    e.Sound s := by
  unfold clearDelivery at h
  split at h
  · cases h
  · cases h
  · split at h
    · cases h
    · exact edit_sound h

theorem removeDep_sound {dep : String} (h : removeDep s id dep = .ok (some e)) : e.Sound s := by
  unfold removeDep at h
  split at h
  · cases h
  · cases h
  · split at h
    · cases h
    · exact edit_sound h

theorem mutation_sound {m : Mutation} (h : m.begin s = .ok (some e)) : e.Sound s := by
  cases m with
  | edit op => exact begin_sound h
  | recordDeliveryOnce id record => exact recordDeliveryOnce_sound h
  | clearDelivery id status => exact clearDelivery_sound h
  | claimAuthorized ticket =>
    simp only [Mutation.begin] at h
    split at h
    · exact begin_sound h
    · cases h
  | reopenIfInProgress id | repairCloseDelivered id commit
  | repairClearStaleOwnership id status assignee => exact takeAndSwap_sound h
  | removeDep id dep => exact removeDep_sound h

theorem Edit.Sound.stored (h : e.Sound s) :
    ∃ row ∈ s.rows, row.tuple = e.existing ∧ row.tuple.category = .task := by
  obtain ⟨row, rest, hq, ht⟩ := h.taken
  have hrow : row ∈ s.query (ticketPattern e.existing.identity) true (some 1) := by
    rw [hq]
    exact mem_cons_self
  obtain ⟨hmem, hm⟩ := query_spec hrow
  exact ⟨row, hmem, ht, (ticketPattern_matches hm).1⟩

inductive Fate where
  | done
  | fails (e : Error)
  /-- The process ends before the change. -/
  | before
  /-- The process ends right after the change. -/
  | after

def Fate.goes : Fate → Bool
  | .done => true
  | .fails _ => false
  | .before => false
  | .after => true

def attemptChange (f : Store → Except Error Store) : Act Store Error PUnit := fun s =>
  match f s with
  | .ok s' => (.ok ⟨⟩, s')
  | .error e => (.error (.error e), s)

def change (fate : Fate) (f : Store → Except Error Store) : Act Store Error PUnit :=
  match fate with
  | .done => attemptChange f
  | .fails e => Act.raise e
  | .before => Act.die
  | .after => attemptChange f >>= fun _ => Act.die

/-- A tuple that an operation leaves behind besides the ticket: the event and the spans. -/
structure Notice where
  tuple : Tuple
  fate : Fate
  notTask : tuple.category ≠ .task

/-- What the environment decides during one operation. -/
structure Env where
  take : Fate := .done
  write : Fate := .done
  id : RecordId
  now : DateTime
  notices : List Notice := []

def announce (notices : List Notice) : Act Store Error PUnit :=
  notices.foldlM (fun _ n => do
    let _ ← (change n.fate fun s => s.insert n.tuple).attempt
    pure ⟨⟩) ⟨⟩

def Edit.finish (e : Edit) (env : Env) : Act Store Error PUnit :=
  match e.rewrite env.now with
  | .error err => Act.raise err
  | .ok payload => do
    change env.write fun s => s.insert (withPayload e.existing env.id payload)
    announce env.notices

def proceed (env : Env) : Except Error (Option Edit) → Act Store Error PUnit
  | .error e => Act.raise e
  | .ok none => pure ⟨⟩
  | .ok (some e) => do
    change env.take fun s => .ok (s.erase e.existing.id)
    e.finish env

def Mutation.exec (m : Mutation) (env : Env) : Act Store Error PUnit := do
  let s ← Act.get
  proceed env (m.begin s)

def Stored (s : Store) (identity : String) : Prop :=
  ∃ row ∈ s.rows, row.tuple.category = .task ∧ row.tuple.identity = identity

/-- What a call has to leave of a ticket: one with its identity, and with its payload too
when the call returned an error. -/
def Outlives (t : Tuple) (ended : Except (Stop Error) PUnit × Store) : Prop :=
  Stored ended.2 t.identity ∧ ∀ e, ended.1 = .error (.error e) → ∃ row ∈ ended.2.rows,
      row.tuple.category = .task ∧ row.tuple.identity = t.identity ∧ row.tuple.payload = t.payload

def Edit.GoesBack (e : Edit) (env : Env) (s : Store) : Prop :=
  ∃ payload, e.rewrite env.now = .ok payload ∧ env.write.goes = true ∧
    accepts s (withPayload e.existing env.id payload) = true

/-- An edit whose write is not made ends with an error, not with the process. -/
def Edit.Fails (e : Edit) (env : Env) : Prop :=
  ∀ payload, e.rewrite env.now = .ok payload → env.write ≠ .before

/-- Another stored ticket has the identity of `t`. -/
def Twin (s : Store) (t : Tuple) (p : Tuple → Prop) : Prop :=
  ∃ row ∈ s.rows, row.tuple.id ≠ t.id ∧ row.tuple.category = .task ∧
    row.tuple.identity = t.identity ∧ p row.tuple

/-- The operation does not take the ticket, or writes it back, or the ticket has a twin. -/
def Spared (s : Store) (m : Mutation) (env : Env) (t : Tuple) : Prop :=
  ∀ e, m.begin s = .ok (some e) → e.existing.id = t.id → env.take.goes = true →
    (env.take = .done ∧ e.GoesBack env (s.erase t.id)) ∨
      Twin s t fun u => env.take = .done → e.Fails env → u.payload = t.payload

section
variable {s s' : Store} {e : Edit} {env : Env} {m : Mutation}

theorem attemptChange_moves {R : Store → Store → Prop} (hr : ∀ s, R s s)
    {f : Store → Except Error Store} (hf : ∀ s s', f s = .ok s' → R s s') :
    Moves R (attemptChange f) := by
  intro s
  unfold attemptChange
  cases h : f s with
  | ok s' => exact hf s s' h
  | error e => exact hr s

theorem change_moves {R : Store → Store → Prop} (hr : ∀ s, R s s)
    (ht : ∀ a b c, R a b → R b c → R a c) {f : Store → Except Error Store}
    (hf : ∀ s s', f s = .ok s' → R s s') (fate : Fate) : Moves R (change fate f) := by
  cases fate with
  | done => exact attemptChange_moves hr hf
  | fails e => exact .raise hr e
  | before => exact hr
  | after => exact .bind ht (attemptChange_moves hr hf) fun _ => hr

/-- Rows were added, and no ticket is among them. -/
structure Quiet (s s' : Store) : Prop where
  rows : ∃ extra, s'.rows = s.rows ++ extra ∧ ∀ row ∈ extra, row.tuple.category ≠ .task
  wf : s.Wf → s'.Wf

theorem quiet_refl (s : Store) : Quiet s s :=
  ⟨⟨[], (append_nil _).symm, fun _ h => absurd h not_mem_nil⟩, id⟩

theorem Quiet.trans {a b c : Store} (h : Quiet a b) (h' : Quiet b c) : Quiet a c := by
  obtain ⟨extra, hb, hne⟩ := h.rows
  obtain ⟨extra', hc, hne'⟩ := h'.rows
  refine ⟨⟨extra ++ extra', by rw [hc, hb, append_assoc], fun row hrow => ?_⟩,
    fun hwf => h'.wf (h.wf hwf)⟩
  rcases mem_append.mp hrow with hrow | hrow
  · exact hne row hrow
  · exact hne' row hrow

theorem Quiet.mem {row : Row} (h : Quiet s s') (hrow : row ∈ s.rows) : row ∈ s'.rows := by
  obtain ⟨extra, hr, -⟩ := h.rows
  rw [hr]
  exact mem_append_left _ hrow

variable {t : Tuple}

theorem quiet_insert (ht : t.category ≠ .task) (h : s.insert t = .ok s') : Quiet s s' := by
  obtain ⟨hx, rfl⟩ := Store.insert_ok h
  refine ⟨⟨[_], rfl, fun row hrow => ?_⟩, fun hwf => hwf.push hx⟩
  rw [mem_singleton.mp hrow]
  exact ht

theorem announce_spec (notices : List Notice) (s : Store) :
    Quiet s (announce notices s).2 ∧ ∀ err, (announce notices s).1 ≠ .error (.error err) := by
  have hspec : Spec (Quiet s) (announce notices) (fun _ => Quiet s)
      fun x s' => x = .gone ∧ Quiet s s' := by
    apply Spec.foldlM (I := fun _ _ => Quiet s)
    intro done n g hn
    have hmoves : Moves Quiet (change n.fate fun s => s.insert n.tuple) :=
      change_moves quiet_refl (fun _ _ _ => .trans) (fun _ _ => quiet_insert n.notTask) n.fate
    have hchange : Spec (Quiet s) (change n.fate fun s => s.insert n.tuple) (fun _ => Quiet s)
        fun _ => Quiet s := .of_final fun a ha => ha.trans (hmoves a)
    apply Spec.bind (hchange.attempt fun a ha => ⟨rfl, ha⟩)
    intro r
    cases r with
    | ok a | error err => exact .pure fun _ h => h
  have h := hspec s (quiet_refl s)
  revert h
  cases announce notices s with
  | mk out s' =>
    cases out with
    | ok a => exact fun h => ⟨h, nofun⟩
    | error x =>
      intro h
      refine ⟨h.2, fun err he => ?_⟩
      cases h.1
      cases he

theorem finish_goesBack (h : e.GoesBack env s) :
    (∃ payload, e.rewrite env.now = .ok payload ∧
      Quiet (s.push (withPayload e.existing env.id payload)) (e.finish env s).2) ∧
      ∀ err, (e.finish env s).1 ≠ .error (.error err) := by
  obtain ⟨payload, hp, hgoes, hacc⟩ := h
  have hins := insert_of_accepts hacc
  have hfin : e.finish env s = (change env.write
      (fun s => s.insert (withPayload e.existing env.id payload)) >>=
      fun _ => announce env.notices) s := by
    unfold Edit.finish
    rw [hp]
  rw [hfin]
  cases hw : env.write with
  | done =>
    have hrun : (change .done (fun s => s.insert (withPayload e.existing env.id payload)) >>=
        fun _ => announce env.notices) s =
          announce env.notices (s.push (withPayload e.existing env.id payload)) := by
      show Act.bind (attemptChange _) _ s = _
      rw [Act.bind, attemptChange, hins]
    rw [hrun]
    obtain ⟨hg, hne⟩ := announce_spec env.notices (s.push (withPayload e.existing env.id payload))
    exact ⟨⟨payload, hp, hg⟩, hne⟩
  | after =>
    have hrun : (change .after (fun s => s.insert (withPayload e.existing env.id payload)) >>=
        fun _ => announce env.notices) s =
          (.error .gone, s.push (withPayload e.existing env.id payload)) := by
      show Act.bind (Act.bind (attemptChange _) _) _ s = _
      rw [Act.bind, Act.bind, attemptChange, hins]
      rfl
    rw [hrun]
    exact ⟨⟨payload, hp, quiet_refl _⟩, nofun⟩
  | fails err | before =>
    rw [hw] at hgoes
    cases hgoes

/-- An edit that does not go back changes nothing, and its error is the caller's unless
the process is gone. -/
theorem finish_lost (h : ¬ e.GoesBack env s) :
    (e.finish env s).2 = s ∧ ((∃ err, (e.finish env s).1 = .error (.error err)) ↔ e.Fails env) := by
  unfold Edit.finish
  cases hp : e.rewrite env.now with
  | error err =>
    refine ⟨rfl, fun _ payload hpay => ?_, fun _ => ⟨err, rfl⟩⟩
    rw [hp] at hpay
    cases hpay
  | ok payload =>
    have hfails : e.Fails env ↔ env.write ≠ .before := by
      constructor
      · intro hf
        exact hf payload hp
      · intro hw payload' _
        exact hw
    have hrefused (hgoes : env.write.goes = true) :
        ∃ err, s.insert (withPayload e.existing env.id payload) = .error err := by
      apply insert_of_not_accepts
      by_contra hacc
      exact h ⟨payload, hp, hgoes, by simpa using hacc⟩
    rw [hfails]
    show (Act.bind (change env.write _) _ s).2 = s ∧ _
    cases hw : env.write with
    | fails err => exact ⟨rfl, nofun, fun _ => ⟨err, rfl⟩⟩
    | before => exact ⟨rfl, fun ⟨err, he⟩ => (by cases he), fun hn => absurd rfl hn⟩
    | done =>
      obtain ⟨err, herr⟩ := hrefused (by rw [hw]; rfl)
      have hrun : (change .done (fun s => s.insert (withPayload e.existing env.id payload)) >>=
          fun _ => announce env.notices) s = (.error (.error err), s) := by
        show Act.bind (attemptChange _) _ s = _
        rw [Act.bind, attemptChange, herr]
      exact ⟨congrArg Prod.snd hrun, nofun, fun _ => ⟨err, congrArg Prod.fst hrun⟩⟩
    | after =>
      obtain ⟨err, herr⟩ := hrefused (by rw [hw]; rfl)
      have hrun : (change .after (fun s => s.insert (withPayload e.existing env.id payload)) >>=
          fun _ => announce env.notices) s = (.error (.error err), s) := by
        show Act.bind (Act.bind (attemptChange _) _) _ s = _
        rw [Act.bind, Act.bind, attemptChange, herr]
      exact ⟨congrArg Prod.snd hrun, nofun, fun _ => ⟨err, congrArg Prod.fst hrun⟩⟩

theorem exec_idle (h : ∀ e, m.begin s ≠ .ok (some e)) : (m.exec env s).2 = s := by
  show (proceed env (m.begin s) s).2 = s
  cases hb : m.begin s with
  | error e => rfl
  | ok found =>
    cases found with
    | none => rfl
    | some e => exact absurd hb (h e)

section
variable (h : m.begin s = .ok (some e))
include h

theorem exec_taking : m.exec env s =
      (change env.take (fun s => .ok (s.erase e.existing.id)) >>= fun _ => e.finish env) s := by
  show proceed env (m.begin s) s = _
  rw [h]
  rfl

theorem exec_untaken (ht : env.take.goes = false) : (m.exec env s).2 = s := by
  rw [exec_taking h]
  cases htake : env.take with
  | fails err | before => rfl
  | done | after =>
    rw [htake] at ht
    cases ht

theorem exec_after (ht : env.take = .after) :
    m.exec env s = (.error .gone, s.erase e.existing.id) := by
  rw [exec_taking h, ht]
  rfl

theorem exec_done (ht : env.take = .done) :
    m.exec env s = e.finish env (s.erase e.existing.id) := by
  rw [exec_taking h, ht]
  rfl

end

variable {row : Row} {ended : Except (Stop Error) PUnit × Store}

theorem outlives_of_mem (htask : row.tuple.category = .task) (h : row ∈ ended.2.rows) :
    Outlives row.tuple ended :=
  ⟨⟨row, h, htask, rfl⟩, fun _ _ => ⟨row, h, htask, rfl, rfl⟩⟩

theorem twin_iff {p : Tuple → Prop} :
    Twin s t p ↔ ∃ row ∈ (s.erase t.id).rows,
      row.tuple.category = .task ∧ row.tuple.identity = t.identity ∧ p row.tuple := by
  constructor
  · intro ⟨row, hrow, hne, h⟩
    exact ⟨row, Store.mem_erase_rows.mpr ⟨hrow, hne⟩, h⟩
  · intro ⟨row, hrow, h⟩
    obtain ⟨hm, hne⟩ := Store.mem_erase_rows.mp hrow
    exact ⟨row, hm, hne, h⟩

theorem outlives_erased {failed : Prop} (hst : ended.2 = s.erase t.id)
    (hf : (∃ err, ended.1 = .error (.error err)) ↔ failed) :
    Outlives t ended ↔ Twin s t fun u => failed → u.payload = t.payload := by
  constructor
  · intro ⟨⟨row, hrow, hcat, hident⟩, herr⟩
    by_cases hfailed : failed
    · obtain ⟨err, he⟩ := hf.mpr hfailed
      obtain ⟨row, hrow, hcat, hident, hpay⟩ := herr err he
      rw [hst] at hrow
      exact twin_iff.mpr ⟨row, hrow, hcat, hident, fun _ => hpay⟩
    · rw [hst] at hrow
      exact twin_iff.mpr ⟨row, hrow, hcat, hident, fun h => absurd h hfailed⟩
  · intro h
    obtain ⟨row, hrow, hcat, hident, hpay⟩ := twin_iff.mp h
    rw [← hst] at hrow
    exact ⟨⟨row, hrow, hcat, hident⟩, fun err he =>
      ⟨row, hrow, hcat, hident, hpay (hf.mp ⟨err, he⟩)⟩⟩

theorem outlives_taken (hb : m.begin s = .ok (some e)) (hid : e.existing.id = t.id)
    (hident : e.existing.identity = t.identity) (hcat : e.existing.category = .task)
    (ht : env.take.goes = true) :
    Outlives t (m.exec env s) ↔ (env.take = .done ∧ e.GoesBack env (s.erase t.id)) ∨
      Twin s t fun u => env.take = .done → e.Fails env → u.payload = t.payload := by
  cases htake : env.take with
  | fails err | before =>
    rw [htake] at ht
    cases ht
  | after =>
    have hf : (∃ err, (.error .gone : Except (Stop Error) PUnit) = .error (.error err)) ↔
        False := ⟨fun ⟨_, he⟩ => (by cases he), False.elim⟩
    rw [exec_after hb htake, outlives_erased (s := s) (by rw [hid]) hf]
    constructor
    · intro ⟨row, hrow, hne, hc, hi, _⟩
      exact .inr ⟨row, hrow, hne, hc, hi, nofun⟩
    · intro h
      obtain ⟨h, -⟩ | ⟨row, hrow, hne, hc, hi, _⟩ := h
      · cases h
      · exact ⟨row, hrow, hne, hc, hi, fun h => h.elim⟩
  | done =>
    rw [exec_done hb htake, hid]
    by_cases hback : e.GoesBack env (s.erase t.id)
    · obtain ⟨⟨payload, -, hg⟩, hne⟩ := finish_goesBack hback
      have hstored : Outlives t (e.finish env (s.erase t.id)) := by
        have hnew : (⟨(s.erase t.id).lastSequence + 1, withPayload e.existing env.id payload⟩ : Row) ∈
            (e.finish env (s.erase t.id)).2.rows :=
          hg.mem (mem_append_right _ (mem_singleton.mpr rfl))
        exact ⟨⟨_, hnew, hcat, hident⟩, fun err he => absurd he (hne err)⟩
      exact ⟨fun _ => .inl ⟨rfl, hback⟩, fun _ => hstored⟩
    · obtain ⟨hst, hf⟩ := finish_lost hback
      rw [outlives_erased hst hf]
      constructor
      · intro ⟨row, hrow, hne, hc, hi, hpay⟩
        exact .inr ⟨row, hrow, hne, hc, hi, fun _ => hpay⟩
      · intro h
        obtain ⟨-, h⟩ | ⟨row, hrow, hne, hc, hi, hpay⟩ := h
        · exact absurd h hback
        · exact ⟨row, hrow, hne, hc, hi, hpay rfl⟩

/-- A ticket outlives a call, with its payload if the call fails, exactly when the call does
not take it, writes it back, or leaves a twin of it. -/
theorem ticket_kept_iff (hwf : s.Wf) (hrow : row ∈ s.rows) (htask : row.tuple.category = .task) :
    Outlives row.tuple (m.exec env s) ↔ Spared s m env row.tuple := by
  by_cases hb : ∃ e, m.begin s = .ok (some e)
  · obtain ⟨e, hb⟩ := hb
    have hone : ∀ e', m.begin s = .ok (some e') → e' = e := by
      intro e' he'
      rw [hb] at he'
      cases he'
      rfl
    by_cases ht : env.take.goes = true
    · obtain ⟨r, hr, hre, hcat⟩ := (mutation_sound hb).stored
      by_cases hid : e.existing.id = row.tuple.id
      · have heq : r = row := hwf.row_eq_of_id hr hrow (by rw [hre, hid])
        rw [heq] at hre hcat
        rw [outlives_taken hb hid (by rw [hre]) (by rw [← hre, hcat]) ht]
        constructor
        · intro h e' he' _ _
          rw [hone e' he']
          exact h
        · intro h
          exact h e hb hid ht
      · have hm : row ∈ (s.erase e.existing.id).rows :=
          Store.mem_erase_rows.mpr ⟨hrow, fun h => hid h.symm⟩
        constructor
        · intro _ e' he' hid'
          rw [hone e' he'] at hid'
          exact absurd hid' hid
        · intro _
          cases htake : env.take with
          | fails err | before => exact absurd ht (by rw [htake]; exact Bool.false_ne_true)
          | after =>
            rw [exec_after hb htake]
            exact outlives_of_mem htask hm
          | done =>
            rw [exec_done hb htake]
            by_cases hback : e.GoesBack env (s.erase e.existing.id)
            · obtain ⟨⟨payload, -, hg⟩, -⟩ := finish_goesBack hback
              exact outlives_of_mem htask (hg.mem (mem_append_left _ hm))
            · obtain ⟨hst, -⟩ := finish_lost hback
              exact outlives_of_mem htask (by rw [hst]; exact hm)
    · have hst := exec_untaken hb (by simpa using ht)
      constructor
      · intro _ e' _ _ ht'
        exact absurd ht' ht
      · intro _
        exact outlives_of_mem htask (by rw [hst]; exact hrow)
  · have hst : (m.exec env s).2 = s := exec_idle fun e he => hb ⟨e, he⟩
    constructor
    · intro _ e he
      exact absurd ⟨e, he⟩ hb
    · intro _
      exact outlives_of_mem htask (by rw [hst]; exact hrow)

end

def barnTicket (payload : Value) : Tuple :=
  Tuple.new 1 0 .task "barn" "TKT-babad-bisub-lodob" "castle" payload

def backlogOf (t : Tuple) : Store := Store.empty.push t

def retitle : Mutation := .edit (.update "TKT-babad-bisub-lodob" { title := some "roof" })

/-- A ticket whose payload is a text is taken, found to be no object, and gone. -/
theorem text_payload_loses_ticket :
    ¬ Outlives (barnTicket (.string "draft"))
      (retitle.exec { id := 2, now := 0 } (backlogOf (barnTicket (.string "draft")))) := by
  intro h
  obtain ⟨row, hrow, -⟩ := h.1
  have hn : (retitle.exec { id := 2, now := 0 }
      (backlogOf (barnTicket (.string "draft")))).2.rows.isEmpty = true := by decide +kernel
  exact not_mem_nil hrow

theorem ticket_kept_iff_retitled :
    Spared (backlogOf (barnTicket (.object []))) retitle { id := 2, now := 0 }
      (barnTicket (.object [])) := by
  have hwf : (backlogOf (barnTicket (.object []))).Wf := Store.wf_empty.push rfl
  have hend : (match (retitle.exec { id := 2, now := 0 } (backlogOf (barnTicket (.object [])))) with
      | (.ok _, s) => s.rows.any fun r =>
          r.tuple.category = .task && r.tuple.identity = "TKT-babad-bisub-lodob"
      | (.error _, _) => false) = true := by decide +kernel
  have hrow : (⟨1, barnTicket (.object [])⟩ : Row) ∈ (backlogOf (barnTicket (.object []))).rows :=
    mem_singleton.mpr rfl
  apply (ticket_kept_iff hwf hrow rfl).mp
  revert hend
  cases retitle.exec { id := 2, now := 0 } (backlogOf (barnTicket (.object []))) with
  | mk out s =>
    cases out with
    | error x => exact nofun
    | ok a =>
      intro h
      obtain ⟨r, hr, hc⟩ := any_eq_true.mp h
      simp only [Bool.and_eq_true, decide_eq_true_eq] at hc
      exact ⟨⟨r, hr, hc⟩, nofun⟩

end RatKingdom.Tickets
