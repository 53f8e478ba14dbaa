/-
What a failed call on the approval store leaves behind.

Every mutating call changes the data in memory before it writes the file, so a proposal, an
approval, a spent grant or a checkpoint stays in memory when the write failed and the caller
was told so.  A failed call leaves nothing behind exactly where a check stopped it, or where
what it was to write is there already, in a store whose memory is on file
(`failed_operation_changes_nothing_iff`).
-/
import RatKingdom.Factory.Merged
import RatKingdom.Lib.WriteBack

namespace RatKingdom.Factory

open Function

open Core (DateTime)
open Lib (Stored Effect)

inductive Operation (Body : Type) where
  | proposeAction (requester : String) (action : FactoryAction Body) (ttlSeconds : Option Int)
      (now : DateTime)
  | approve (proposalId digest approvedBy : String) (now : DateTime)
  | beginExecuteAction (proposalId digest caller : String) (action : FactoryAction Body)
      (now : DateTime)
  | finishSuccess (proposalId instanceId : String) (now : DateTime)
  | finishFailed (proposalId failure : String)
  | checkpointTicketGraphResult (proposalId : String) (c : TicketGraphApplyExecutionResult)
  | checkpointProductToCodeResult (proposalId : String) (c : ProductToCodeDispatchExecutionResult)
  | finishTicketGraphSuccess (proposalId : String) (c : TicketGraphApplyExecutionResult)
      (now : DateTime)
  | finishProductToCodeSuccess (proposalId : String) (c : ProductToCodeDispatchExecutionResult)
      (now : DateTime)

/-- What a call comes to, without its answer. -/
def Outcome.effect {Body α : Type} : Outcome Body α → Effect (StoreData Body)
  | .refuse _ => .refuse
  | .keep _ => .keep
  | .write data _ => .write data

namespace ActionApprovalStore

variable {Body : Type}

def toStored (s : ActionApprovalStore Body) : Stored (StoreData Body) :=
  { data := s.data, file := s.file }

def load (s : ActionApprovalStore Body) : ActionApprovalStore Body := { s with data := s.file }

def reply {α : Type} (s : ActionApprovalStore Body) (o : Outcome Body α) (io : Option String) :
    ActionApprovalStore Body × Bool :=
  ((s.settle o io).1, (s.settle o io).2.isOk)

theorem reply_settle {α : Type} (s : ActionApprovalStore Body) (o : Outcome Body α)
    (io : Option String) :
    ((s.reply o io).1.toStored, (s.reply o io).2) = s.toStored.settle o.effect io.isNone := by
  cases o with
  | refuse e | keep out => rfl
  | write data out =>
    cases io with
    | none | some e => rfl

end ActionApprovalStore

open ActionApprovalStore

section
variable {Body : Type} (digestOf : ActionDigestPayload Body → Except String String)
  (boundInstanceId : String → String → String)

def ActionApprovalStore.answer (s : ActionApprovalStore Body) (op : Operation Body)
    (io : Option String) : ActionApprovalStore Body × Bool :=
  match op with
  | .proposeAction requester action ttlSeconds now =>
    s.reply (proposeAction digestOf s.data requester action ttlSeconds now) io
  | .approve proposalId digest approvedBy now =>
    s.reply (approve boundInstanceId s.data proposalId digest approvedBy now) io
  | .beginExecuteAction proposalId digest caller action now =>
    s.reply (beginExecuteAction digestOf boundInstanceId s.data proposalId digest caller action now)
      io
  | .finishSuccess proposalId instanceId now =>
    s.reply (finishSuccess s.data proposalId instanceId now) io
  | .finishFailed proposalId failure => s.reply (finishFailed s.data proposalId failure) io
  | .checkpointTicketGraphResult proposalId c =>
    s.reply (checkpointTicketGraphResult s.data proposalId c) io
  | .checkpointProductToCodeResult proposalId c =>
    s.reply (checkpointProductToCodeResult s.data proposalId c) io
  | .finishTicketGraphSuccess proposalId c now =>
    s.reply (finishTicketGraphSuccess s.data proposalId c now) io
  | .finishProductToCodeSuccess proposalId c now =>
    s.reply (finishProductToCodeSuccess s.data proposalId c now) io

/-- An operation that fails leaves the data as it was, and as a reload would read it. -/
def FailureHarmless (s : ActionApprovalStore Body) (op : Operation Body) (io : Option String) :
    Prop :=
  (s.answer digestOf boundInstanceId op io).2 = false →
    (s.answer digestOf boundInstanceId op io).1.data = s.data ∧
      (s.answer digestOf boundInstanceId op io).1.load.data =
        (s.answer digestOf boundInstanceId op io).1.data

structure Presented (data : StoreData Body) (proposalId digest caller : String)
    (action : FactoryAction Body) (p : ActionProposal Body) (g : ApprovalGrant) : Prop where
  proposed : data.proposals proposalId = some p
  recomputed : recomputeProposalDigest digestOf p action = .ok digest
  filed : p.digest = digest
  requested : p.requester = caller
  granted : data.grants proposalId = some g
  bound : g.digest = digest
  inScope : g.scope = p.scope
  holder : g.requester = caller

section
variable (data : StoreData Body)

def GraphMergeable (proposalId : String) (c : TicketGraphApplyExecutionResult) : Prop :=
  ∀ r, data.ticketGraphResults proposalId = some r →
    (r.executionId = c.executionId ∧ r.graphId = c.graphId) ∧
      ∀ n t u : String, r.graphNodeToTicketId[n]? = some t →
        c.graphNodeToTicketId[n]? = some u → t = u

def DispatchMergeable (proposalId : String) (c : ProductToCodeDispatchExecutionResult) : Prop :=
  ∀ r, data.productToCodeResults proposalId = some r →
    r.executionId = c.executionId ∧ r.graphId = c.graphId

def Completable (proposalId : String) (kind : ActionKind) (executionId : String) : Prop :=
  ∃ g, data.grants proposalId = some g ∧ g.kind = kind ∧ g.executionId = some executionId ∧
    (g.status = .executing ∨ g.status = .consumed)

/-- The checkpoint says nothing that the stored result does not say. -/
def GraphAbsorbed (proposalId : String) (c : TicketGraphApplyExecutionResult) : Prop :=
  ∃ r, data.ticketGraphResults proposalId = some r ∧ r.idempotentReplay = false ∧
    ∀ f, c.Says f → r.Says f

def DispatchAbsorbed (proposalId : String) (c : ProductToCodeDispatchExecutionResult) : Prop :=
  ∃ r, data.productToCodeResults proposalId = some r ∧ r.idempotentReplay = false ∧
    r.blocked = c.blocked ∧ ∀ f, c.Says f → r.Says f

def Completed (proposalId executionId : String) : Prop :=
  ∃ g, data.grants proposalId = some g ∧ g.status = .consumed ∧ g.instanceId = some executionId ∧
    g.failure = none ∧ g.consumedAt.isSome = true

def Operation.Writes : Operation Body → Prop
  | .proposeAction requester action ttlSeconds now =>
    ∃ d, digestOf (.fromProposal (.draft requester action ttlSeconds now)) = .ok d
  | .approve proposalId digest _ now =>
    ∃ p, data.proposals proposalId = some p ∧ p.digest = digest ∧ now < p.expiresAt ∧
      data.grants proposalId = none
  | .beginExecuteAction proposalId digest caller action now =>
    ∃ p g, Presented digestOf data proposalId digest caller action p g ∧
      (g.status = .approved ∨ g.status = .failed) ∧ now < p.expiresAt
  | .finishSuccess proposalId _ _ => ∃ g, data.grants proposalId = some g
  | .finishFailed proposalId _ => ∃ g, data.grants proposalId = some g
  | .checkpointTicketGraphResult proposalId c => GraphMergeable data proposalId c
  | .checkpointProductToCodeResult proposalId c => DispatchMergeable data proposalId c
  | .finishTicketGraphSuccess proposalId c _ =>
    c.status = "completed" ∧ Completable data proposalId .ticketGraphApply c.executionId ∧
      GraphMergeable data proposalId c
  | .finishProductToCodeSuccess proposalId c _ =>
    c.status = "completed" ∧ Completable data proposalId .productToCodeDispatch c.executionId ∧
      DispatchMergeable data proposalId c

def Operation.Answers : Operation Body → Prop
  | .beginExecuteAction proposalId digest caller action _ =>
    ∃ p g, Presented digestOf data proposalId digest caller action p g ∧
      (g.status = .executing ∨ g.status = .consumed ∧ g.instanceId.isSome = true)
  | _ => False

/-- What the operation would write is there already. -/
def Operation.Idle : Operation Body → Prop
  | .proposeAction requester action ttlSeconds now =>
    ∃ d, digestOf (.fromProposal (.draft requester action ttlSeconds now)) = .ok d ∧
      data.proposals d =
        some { ActionProposal.draft requester action ttlSeconds now with digest := d, id := d }
  | .approve proposalId _ approvedBy now =>
    ∃ p, data.proposals proposalId = some p ∧
      data.grants p.id = some (p.grant boundInstanceId approvedBy now)
  | .beginExecuteAction .. => False
  | .finishSuccess proposalId instanceId now =>
    ∃ g, data.grants proposalId = some g ∧ g.status = .consumed ∧
      g.instanceId = some instanceId ∧ g.consumedAt = some now
  | .finishFailed proposalId failure =>
    ∃ g, data.grants proposalId = some g ∧ g.status = .failed ∧ g.failure = some failure
  | .checkpointTicketGraphResult proposalId c => GraphAbsorbed data proposalId c
  | .checkpointProductToCodeResult proposalId c => DispatchAbsorbed data proposalId c
  | .finishTicketGraphSuccess proposalId c _ =>
    GraphAbsorbed data proposalId c ∧ Completed data proposalId c.executionId
  | .finishProductToCodeSuccess proposalId c _ =>
    DispatchAbsorbed data proposalId c ∧ Completed data proposalId c.executionId

def Operation.effect : Operation Body → Effect (StoreData Body)
  | .proposeAction requester action ttlSeconds now =>
    (Factory.proposeAction digestOf data requester action ttlSeconds now).effect
  | .approve proposalId digest approvedBy now =>
    (Factory.approve boundInstanceId data proposalId digest approvedBy now).effect
  | .beginExecuteAction proposalId digest caller action now =>
    (Factory.beginExecuteAction digestOf boundInstanceId data proposalId digest caller action
      now).effect
  | .finishSuccess proposalId instanceId now =>
    (Factory.finishSuccess data proposalId instanceId now).effect
  | .finishFailed proposalId failure => (Factory.finishFailed data proposalId failure).effect
  | .checkpointTicketGraphResult proposalId c =>
    (Factory.checkpointTicketGraphResult data proposalId c).effect
  | .checkpointProductToCodeResult proposalId c =>
    (Factory.checkpointProductToCodeResult data proposalId c).effect
  | .finishTicketGraphSuccess proposalId c now =>
    (Factory.finishTicketGraphSuccess data proposalId c now).effect
  | .finishProductToCodeSuccess proposalId c now =>
    (Factory.finishProductToCodeSuccess data proposalId c now).effect

end

theorem answer_settle (s : ActionApprovalStore Body) (op : Operation Body) (io : Option String) :
    ((s.answer digestOf boundInstanceId op io).1.toStored,
        (s.answer digestOf boundInstanceId op io).2) =
      s.toStored.settle (op.effect digestOf boundInstanceId s.data) io.isNone := by
  cases op <;> exact reply_settle s _ io

def Operation.Comes (data : StoreData Body) (op : Operation Body) : Effect (StoreData Body) → Prop
  | .refuse => ¬ op.Writes digestOf data ∧ ¬ op.Answers digestOf data
  | .keep => op.Answers digestOf data
  | .write data' => op.Writes digestOf data ∧ ¬ op.Answers digestOf data ∧
      (data' = data ↔ op.Idle digestOf boundInstanceId data)

theorem storeData_eq_iff (a b : StoreData Body) : a = b ↔ a.proposals = b.proposals ∧
    a.grants = b.grants ∧ a.ticketGraphResults = b.ticketGraphResults ∧
      a.productToCodeResults = b.productToCodeResults := by
  constructor
  · intro h
    rw [h]
    exact ⟨rfl, rfl, rfl, rfl⟩
  · intro ⟨hp, hg, ht, hd⟩
    cases a
    cases b
    dsimp only at hp hg ht hd
    rw [hp, hg, ht, hd]

theorem update_eq_iff {α : Type} {m : String → Option α} {k : String} {v : α} :
    update m k (some v) = m ↔ m k = some v := by
  rw [update_eq_self_iff, eq_comm]

section
variable (data : StoreData Body)

theorem proposeAction_comes (requester : String) (action : FactoryAction Body)
    (ttlSeconds : Option Int) (now : DateTime) :
    (Operation.proposeAction requester action ttlSeconds now).Comes digestOf boundInstanceId data
      (proposeAction digestOf data requester action ttlSeconds now).effect := by
  unfold proposeAction
  dsimp only
  cases hd : digestOf (.fromProposal (.draft requester action ttlSeconds now)) with
  | error e =>
    refine ⟨?_, fun h => h⟩
    intro ⟨d, hd'⟩
    rw [hd] at hd'
    cases hd'
  | ok d =>
    refine ⟨⟨d, hd⟩, fun h => h, ?_⟩
    simp only [Operation.Idle, storeData_eq_iff, update_eq_iff, hd, Except.ok.injEq,
      exists_eq_left', and_true]

theorem approve_comes (proposalId digest approvedBy : String) (now : DateTime) :
    (Operation.approve proposalId digest approvedBy now).Comes digestOf boundInstanceId data
      (approve boundInstanceId data proposalId digest approvedBy now).effect := by
  unfold approve
  cases hp : data.proposals proposalId with
  | none =>
    refine ⟨?_, fun h => h⟩
    intro ⟨p, hp', _⟩
    rw [hp] at hp'
    cases hp'
  | some p =>
    dsimp only
    -- Every refusal denies one conjunct of what lets the approval through.
    have hsame : ∀ {q}, data.proposals proposalId = some q → q = p := by
      intro q hq
      rw [hp] at hq
      exact (Option.some.inj hq).symm
    split
    · rename_i hdigest
      refine ⟨?_, fun h => h⟩
      intro ⟨q, hq, hqd, _⟩
      exact hdigest (hsame hq ▸ hqd)
    · rename_i hdigest
      split
      · rename_i hexpired
        refine ⟨?_, fun h => h⟩
        intro ⟨q, hq, _, hl, _⟩
        rw [hsame hq] at hl
        exact absurd hexpired (Int.not_le.mpr hl)
      · rename_i hl
        cases hg : data.grants proposalId with
        | some existing =>
          have hno : ¬ (Operation.approve proposalId digest approvedBy now).Writes digestOf data := by
            intro ⟨q, _, _, _, hn⟩
            rw [hg] at hn
            cases hn
          dsimp only
          split
          all_goals exact ⟨hno, fun h => h⟩
        | none =>
          refine ⟨⟨p, hp, not_not.mp hdigest, Int.not_le.mp hl, hg⟩, fun h => h, ?_⟩
          simp only [Operation.Idle, storeData_eq_iff, update_eq_iff, hp, Option.some.injEq,
            exists_eq_left', and_true, true_and]

variable {caller digest proposalId : String} {action : FactoryAction Body}

theorem Presented.eq {data : StoreData Body} {p q : ActionProposal Body} {g h : ApprovalGrant}
    (hpres : Presented digestOf data proposalId digest caller action q h)
    (hp : data.proposals proposalId = some p) (hg : data.grants proposalId = some g) :
    q = p ∧ h = g := by
  have hq := hpres.proposed
  have hh := hpres.granted
  rw [hp] at hq
  rw [hg] at hh
  exact ⟨(Option.some.inj hq).symm, (Option.some.inj hh).symm⟩

theorem beginExecuteAction_absent {now : DateTime}
    (hno : ∀ p g, ¬ Presented digestOf data proposalId digest caller action p g) :
    (beginExecuteAction digestOf boundInstanceId data proposalId digest caller action now).effect =
      .refuse := by
  unfold beginExecuteAction
  cases hp : data.proposals proposalId with
  | none => rfl
  | some p =>
    dsimp only
    cases hd : recomputeProposalDigest digestOf p action with
    | error e => rfl
    | ok recomputed =>
      dsimp only
      split
      · rfl
      · rename_i hmatch
        push Not at hmatch
        split
        · rfl
        · rename_i hcaller
          cases hg : data.grants proposalId with
          | none => rfl
          | some g =>
            dsimp only
            split
            · rfl
            · rename_i hbinding
              push Not at hbinding
              have hpres : Presented digestOf data proposalId digest caller action p g :=
                ⟨hp, by rw [hd, hmatch.2], hmatch.1, not_not.mp hcaller, hg, hbinding.1,
                  hbinding.2.1, hbinding.2.2⟩
              exact absurd hpres (hno p g)

theorem beginExecuteAction_presented {now : DateTime} {p : ActionProposal Body} {g : ApprovalGrant}
    (hpres : Presented digestOf data proposalId digest caller action p g) :
    (beginExecuteAction digestOf boundInstanceId data proposalId digest caller action now).effect =
      match g.status with
      | .approved | .failed =>
        if p.expiresAt ≤ now then .refuse
        else .write { data with
          grants := update data.grants proposalId (some (g.begun boundInstanceId p action now)) }
      | .executing => .keep
      | .consumed => if g.instanceId.isSome then .keep else .refuse := by
  unfold beginExecuteAction
  simp only [hpres.proposed, hpres.recomputed, hpres.filed, hpres.requested, hpres.granted,
    hpres.bound, hpres.inScope, hpres.holder, ne_eq, not_true_eq_false, or_self, if_false]
  cases g.status with
  | approved | consumed | failed =>
    dsimp only
    split
    · rfl
    · rfl
  | executing => rfl

theorem beginExecuteAction_comes (proposalId digest caller : String)
    (action : FactoryAction Body) (now : DateTime) :
    (Operation.beginExecuteAction proposalId digest caller action now).Comes digestOf
      boundInstanceId data
      (beginExecuteAction digestOf boundInstanceId data proposalId digest caller action
        now).effect := by
  by_cases hany : ∃ p g, Presented digestOf data proposalId digest caller action p g
  · obtain ⟨p, g, hpres⟩ := hany
    rw [beginExecuteAction_presented digestOf boundInstanceId data hpres]
    -- The proposal and the grant are the ones of the id, whoever names them.
    have heq : ∀ {q h}, Presented digestOf data proposalId digest caller action q h →
        q = p ∧ h = g := fun hq => hq.eq digestOf hpres.proposed hpres.granted
    have hwrites : (Operation.beginExecuteAction proposalId digest caller action now).Writes
        digestOf data ↔ (g.status = .approved ∨ g.status = .failed) ∧ now < p.expiresAt := by
      constructor
      · intro ⟨q, h, hq, hrest⟩
        obtain ⟨rfl, rfl⟩ := heq hq
        exact hrest
      · intro hrest
        exact ⟨p, g, hpres, hrest⟩
    have hanswers : (Operation.beginExecuteAction proposalId digest caller action now).Answers
        digestOf data ↔
          (g.status = .executing ∨ g.status = .consumed ∧ g.instanceId.isSome = true) := by
      constructor
      · intro ⟨q, h, hq, hrest⟩
        obtain ⟨rfl, rfl⟩ := heq hq
        exact hrest
      · intro hrest
        exact ⟨p, g, hpres, hrest⟩
    have hbegun : g.status ≠ .executing → ({ data with
            grants := update data.grants proposalId
              (some (g.begun boundInstanceId p action now)) } = data ↔ False) := by
      intro hne
      rw [iff_false, storeData_eq_iff]
      intro ⟨_, hg, _⟩
      rw [update_eq_iff, hpres.granted] at hg
      exact hne (congrArg ApprovalGrant.status (Option.some.inj hg))
    cases hst : g.status with
    | approved | failed =>
      dsimp only
      split
      · rename_i hexpired
        refine ⟨?_, ?_⟩
        · rw [hwrites]
          exact fun h => absurd hexpired (Int.not_le.mpr h.2)
        · rw [hanswers, hst]
          simp
      · rename_i hl
        refine ⟨hwrites.mpr ⟨by simp [hst], Int.not_le.mp hl⟩, ?_, ?_⟩
        · rw [hanswers, hst]
          simp
        · exact hbegun (by rw [hst]; decide)
    | executing => exact hanswers.mpr (.inl hst)
    | consumed =>
      dsimp only
      split
      · rename_i hinst
        exact hanswers.mpr (.inr ⟨hst, hinst⟩)
      · rename_i hinst
        refine ⟨?_, ?_⟩
        · rw [hwrites, hst]
          simp
        · rw [hanswers, hst]
          simp [hinst]
  · have hno : ∀ p g, ¬ Presented digestOf data proposalId digest caller action p g :=
      fun p g hpres => hany ⟨p, g, hpres⟩
    rw [beginExecuteAction_absent digestOf boundInstanceId data hno]
    constructor
    all_goals
      intro ⟨p, g, hpres, _⟩
      exact hno p g hpres

theorem finishSuccess_comes (proposalId instanceId : String) (now : DateTime) :
    (Operation.finishSuccess proposalId instanceId now : Operation Body).Comes digestOf
      boundInstanceId data (finishSuccess data proposalId instanceId now).effect := by
  unfold finishSuccess
  cases hg : data.grants proposalId with
  | none =>
    exact ⟨fun ⟨_, hg'⟩ => (by cases hg.symm.trans hg'), fun h => h⟩
  | some g =>
    refine ⟨⟨g, hg⟩, fun h => h, ?_⟩
    simp only [Operation.Idle, storeData_eq_iff, update_eq_iff, hg, Option.some.injEq,
      exists_eq_left', and_true, true_and]
    constructor
    · intro h
      rw [h]
      exact ⟨rfl, rfl, rfl⟩
    · intro ⟨hst, hi, hc⟩
      rw [← hst, ← hi, ← hc]

theorem finishFailed_comes (proposalId failure : String) :
    (Operation.finishFailed proposalId failure : Operation Body).Comes digestOf boundInstanceId data
      (finishFailed data proposalId failure).effect := by
  unfold finishFailed
  cases hg : data.grants proposalId with
  | none =>
    exact ⟨fun ⟨_, hg'⟩ => (by cases hg.symm.trans hg'), fun h => h⟩
  | some g =>
    refine ⟨⟨g, hg⟩, fun h => h, ?_⟩
    simp only [Operation.Idle, storeData_eq_iff, update_eq_iff, hg, Option.some.injEq,
      exists_eq_left', and_true, true_and]
    constructor
    · intro h
      rw [h]
      exact ⟨rfl, rfl⟩
    · intro ⟨hst, hf⟩
      rw [← hst, ← hf]

theorem completed_eq_iff (g : ApprovalGrant) (executionId : String) (now : DateTime) :
    g = g.completed executionId now ↔ g.status = .consumed ∧ g.instanceId = some executionId ∧
      g.failure = none ∧ g.consumedAt.isSome = true := by
  constructor
  · intro h
    refine ⟨congrArg ApprovalGrant.status h, congrArg ApprovalGrant.instanceId h,
      congrArg ApprovalGrant.failure h, ?_⟩
    rw [show g.consumedAt = some (g.consumedAt.getD now) from congrArg ApprovalGrant.consumedAt h]
    rfl
  · intro ⟨hst, hi, hf, hc⟩
    obtain ⟨at_, hat⟩ := Option.isSome_iff_exists.mp hc
    unfold ApprovalGrant.completed
    rw [hat, Option.getD_some, ← hst, ← hi, ← hf, ← hat]

theorem finishCheckpointed_cases {α : Type} (kind : ActionKind) (what status executionId : String)
    (resultId : α → String) (merge : StoreData Body → Except String (α × StoreData Body))
    (proposalId : String) (now : DateTime) :
    ((finishCheckpointed kind what status executionId resultId merge data proposalId now).effect =
        .refuse ∧
      ¬ (status = "completed" ∧ Completable data proposalId kind executionId ∧
        ∃ r, merge data = .ok r)) ∨
    ∃ g r, status = "completed" ∧ Completable data proposalId kind executionId ∧
      data.grants proposalId = some g ∧ merge data = .ok r ∧
      (finishCheckpointed kind what status executionId resultId merge data proposalId now).effect =
        .write { r.2 with
          grants := update r.2.grants proposalId (some (g.completed (resultId r.1) now)) } := by
  unfold finishCheckpointed
  split
  · rename_i hstatus
    exact .inl ⟨rfl, fun h => hstatus h.1⟩
  · rename_i hstatus
    cases hg : data.grants proposalId with
    | none =>
      refine .inl ⟨rfl, fun ⟨_, ⟨g, hg', _⟩, _⟩ => ?_⟩
      rw [hg] at hg'
      cases hg'
    | some g =>
      dsimp only
      split
      · rename_i hbinding
        refine .inl ⟨rfl, fun ⟨_, ⟨g', hg', hk, he, _⟩, _⟩ => ?_⟩
        rw [hg] at hg'
        cases hg'
        rcases hbinding with h | h
        · exact h hk
        · exact h he
      · rename_i hbinding
        push Not at hbinding
        split
        · rename_i hexec
          refine .inl ⟨rfl, fun ⟨_, ⟨g', hg', _, _, hst⟩, _⟩ => ?_⟩
          rw [hg] at hg'
          cases hg'
          rcases hst with h | h
          · exact hexec.1 h
          · exact hexec.2 h
        · rename_i hexec
          have hst : g.status = .executing ∨ g.status = .consumed := by
            by_contra hno
            push Not at hno
            exact hexec hno
          have hcompletable : Completable data proposalId kind executionId :=
            ⟨g, hg, hbinding.1, hbinding.2, hst⟩
          cases hm : merge data with
          | error e =>
            refine .inl ⟨rfl, fun ⟨_, _, r, hr⟩ => ?_⟩
            cases hr
          | ok r => exact .inr ⟨g, r, not_not.mp hstatus, hcompletable, rfl, rfl, rfl⟩

section
variable (op : Operation Body) {ρ : Type} {merged : Except String ρ} (put : ρ → StoreData Body)
  (hop : ¬ op.Answers digestOf data)
include hop

theorem comes_of_merged {out : Effect (StoreData Body)}
    (hwrites : (∃ r, merged = .ok r) ↔ op.Writes digestOf data)
    (herror : ∀ e, merged = .error e → out = .refuse)
    (hok : ∀ r, merged = .ok r →
      out = .write (put r) ∧ (put r = data ↔ op.Idle digestOf boundInstanceId data)) :
    op.Comes digestOf boundInstanceId data out := by
  cases hm : merged with
  | error e =>
    rw [herror e hm]
    refine ⟨fun h => ?_, hop⟩
    obtain ⟨r, hr⟩ := hwrites.mpr h
    rw [hm] at hr
    cases hr
  | ok r =>
    obtain ⟨hout, hidle⟩ := hok r hm
    rw [hout]
    exact ⟨hwrites.mp ⟨r, hm⟩, hop, hidle⟩

theorem finishCheckpointed_comes {kind : ActionKind} {what status executionId proposalId : String}
    {resultId : ρ → String} {merge : StoreData Body → Except String (ρ × StoreData Body)}
    {now : DateTime} (hmerge : merge data = merged.map fun r => (r, put r))
    (hwrites : status = "completed" ∧ Completable data proposalId kind executionId ∧
      (∃ r, merged = .ok r) ↔ op.Writes digestOf data)
    (hidle : ∀ g r, data.grants proposalId = some g → merged = .ok r → ({ put r with
          grants := update (put r).grants proposalId (some (g.completed (resultId r) now)) } = data ↔
        op.Idle digestOf boundInstanceId data)) :
    op.Comes digestOf boundInstanceId data (finishCheckpointed kind what status executionId
      resultId merge data proposalId now).effect := by
  rcases finishCheckpointed_cases data kind what status executionId resultId merge proposalId now with
    ⟨he, hno⟩ | ⟨g, r, hstatus, hcompletable, hg, hr, he⟩
  · rw [he]
    refine ⟨fun h => ?_, hop⟩
    obtain ⟨hstatus, hcompletable, r, hr⟩ := hwrites.mpr h
    exact hno ⟨hstatus, hcompletable, (r, put r), by rw [hmerge, hr, Except.map]⟩
  · rw [he]
    cases hm : merged with
    | error e =>
      rw [hmerge, hm] at hr
      cases hr
    | ok q =>
      rw [hmerge, hm] at hr
      cases hr
      exact ⟨hwrites.mp ⟨hstatus, hcompletable, q, hm⟩, hop, hidle g q hg hm⟩

end

section
open TicketGraphApplyExecutionResult

theorem graphMergeable_iff (proposalId : String) (c : TicketGraphApplyExecutionResult) :
    (∃ r, merge ((data.ticketGraphResults proposalId).getD c) c = .ok r) ↔
      GraphMergeable data proposalId c := by
  simp only [merges_by.mergeable_iff, compatible_iff, GraphMergeable]

theorem graphAbsorbed_iff {proposalId : String} {c r : TicketGraphApplyExecutionResult}
    (hr : merge ((data.ticketGraphResults proposalId).getD c) c = .ok r) :
    data.ticketGraphResults proposalId = some r ↔ GraphAbsorbed data proposalId c :=
  stored_iff (merge_self_iff · c) hr

theorem checkpointTicketGraphResult_comes (proposalId : String)
    (c : TicketGraphApplyExecutionResult) :
    (Operation.checkpointTicketGraphResult proposalId c : Operation Body).Comes digestOf
      boundInstanceId data (checkpointTicketGraphResult data proposalId c).effect := by
  rw [checkpointTicketGraphResult, mergeTicketGraphCheckpoint_eq]
  refine comes_of_merged _ _ _ (.checkpointTicketGraphResult proposalId c) _ id
    (graphMergeable_iff data proposalId c) (fun e hm => by rw [hm]; rfl)
    fun r hm => ⟨by rw [hm]; rfl, ?_⟩
  simp only [storeData_eq_iff, update_eq_iff, and_true, true_and]
  exact graphAbsorbed_iff data hm

theorem finishTicketGraphSuccess_comes (proposalId : String) (c : TicketGraphApplyExecutionResult)
    (now : DateTime) :
    (Operation.finishTicketGraphSuccess proposalId c now : Operation Body).Comes digestOf
      boundInstanceId data (finishTicketGraphSuccess data proposalId c now).effect := by
  refine finishCheckpointed_comes _ _ _ (.finishTicketGraphSuccess proposalId c now) _ id
    (mergeTicketGraphCheckpoint_eq data proposalId c)
    (and_congr .rfl (and_congr .rfl (graphMergeable_iff data proposalId c))) fun g q hg hm => ?_
  have hid : q.executionId = c.executionId := by
    obtain ⟨⟨hbound, -⟩, -, hq⟩ := merge_ok hm
    rw [hq]
    exact hbound
  simp only [storeData_eq_iff, update_eq_iff, and_true, true_and, hid, hg, Option.some.injEq]
  rw [completed_eq_iff, graphAbsorbed_iff data hm, Operation.Idle, Completed, and_comm]
  simp only [hg, Option.some.injEq, exists_eq_left']

end

section
open ProductToCodeDispatchExecutionResult

theorem dispatchMergeable_iff (proposalId : String) (c : ProductToCodeDispatchExecutionResult) :
    (∃ r, merge ((data.productToCodeResults proposalId).getD c) c = .ok r) ↔
      DispatchMergeable data proposalId c := by
  simp only [merges_by.mergeable_iff, compatible_iff, DispatchMergeable]

theorem dispatchAbsorbed_iff {proposalId : String} {c r : ProductToCodeDispatchExecutionResult}
    (hr : merge ((data.productToCodeResults proposalId).getD c) c = .ok r) :
    data.productToCodeResults proposalId = some r ↔ DispatchAbsorbed data proposalId c :=
  stored_iff (merge_self_iff · c) hr

theorem checkpointProductToCodeResult_comes (proposalId : String)
    (c : ProductToCodeDispatchExecutionResult) :
    (Operation.checkpointProductToCodeResult proposalId c : Operation Body).Comes digestOf
      boundInstanceId data (checkpointProductToCodeResult data proposalId c).effect := by
  rw [checkpointProductToCodeResult, mergeProductToCodeCheckpoint_eq]
  refine comes_of_merged _ _ _ (.checkpointProductToCodeResult proposalId c) _ id
    (dispatchMergeable_iff data proposalId c) (fun e hm => by rw [hm]; rfl)
    fun r hm => ⟨by rw [hm]; rfl, ?_⟩
  simp only [storeData_eq_iff, update_eq_iff, true_and]
  exact dispatchAbsorbed_iff data hm

theorem finishProductToCodeSuccess_comes (proposalId : String)
    (c : ProductToCodeDispatchExecutionResult) (now : DateTime) :
    (Operation.finishProductToCodeSuccess proposalId c now : Operation Body).Comes digestOf
      boundInstanceId data (finishProductToCodeSuccess data proposalId c now).effect := by
  refine finishCheckpointed_comes _ _ _ (.finishProductToCodeSuccess proposalId c now) _ id
    (mergeProductToCodeCheckpoint_eq data proposalId c)
    (and_congr .rfl (and_congr .rfl (dispatchMergeable_iff data proposalId c))) fun g q hg hm => ?_
  have hid : q.executionId = c.executionId := by
    obtain ⟨⟨hbound, -⟩, hq⟩ := merge_ok hm
    rw [hq]
    exact hbound
  simp only [storeData_eq_iff, update_eq_iff, true_and, hid, hg, Option.some.injEq]
  rw [completed_eq_iff, dispatchAbsorbed_iff data hm, Operation.Idle, Completed, and_comm]
  simp only [hg, Option.some.injEq, exists_eq_left']

end

theorem effect_comes (op : Operation Body) :
    op.Comes digestOf boundInstanceId data (op.effect digestOf boundInstanceId data) := by
  cases op with
  | proposeAction requester action ttlSeconds now =>
    exact proposeAction_comes digestOf boundInstanceId data requester action ttlSeconds now
  | approve proposalId digest approvedBy now =>
    exact approve_comes digestOf boundInstanceId data proposalId digest approvedBy now
  | beginExecuteAction proposalId digest caller action now =>
    exact beginExecuteAction_comes digestOf boundInstanceId data proposalId digest caller action now
  | finishSuccess proposalId instanceId now =>
    exact finishSuccess_comes digestOf boundInstanceId data proposalId instanceId now
  | finishFailed proposalId failure =>
    exact finishFailed_comes digestOf boundInstanceId data proposalId failure
  | checkpointTicketGraphResult proposalId c =>
    exact checkpointTicketGraphResult_comes digestOf boundInstanceId data proposalId c
  | checkpointProductToCodeResult proposalId c =>
    exact checkpointProductToCodeResult_comes digestOf boundInstanceId data proposalId c
  | finishTicketGraphSuccess proposalId c now =>
    exact finishTicketGraphSuccess_comes digestOf boundInstanceId data proposalId c now
  | finishProductToCodeSuccess proposalId c now =>
    exact finishProductToCodeSuccess_comes digestOf boundInstanceId data proposalId c now

end

/-- A failed operation leaves nothing behind exactly where it is stopped by a check, is
answered from memory, or was to write what is there, in a store whose memory is on file. -/
theorem failed_operation_changes_nothing_iff (s : ActionApprovalStore Body) (op : Operation Body)
    (io : Option String) : FailureHarmless digestOf boundInstanceId s op io ↔
      op.Writes digestOf s.data ∧ io = none ∨ op.Answers digestOf s.data ∨ s.file = s.data ∧
          (op.Writes digestOf s.data → op.Idle digestOf boundInstanceId s.data) := by
  have hclean : FailureHarmless digestOf boundInstanceId s op io ↔
      s.toStored.Clean (s.toStored.settle (op.effect digestOf boundInstanceId s.data)
        io.isNone) := by
    rw [← answer_settle]
    exact .rfl
  have hcomes := effect_comes digestOf boundInstanceId s.data op
  rw [hclean, Stored.clean_settle_iff]
  cases he : op.effect digestOf boundInstanceId s.data with
  | refuse =>
    rw [he] at hcomes
    obtain ⟨hwrites, hanswers⟩ := hcomes
    show s.file = s.data ↔ _
    simp [hwrites, hanswers]
  | keep =>
    rw [he] at hcomes
    have hanswers : op.Answers digestOf s.data := hcomes
    show True ↔ _
    simp [hanswers]
  | write data' =>
    rw [he] at hcomes
    obtain ⟨hwrites, hanswers, hidle⟩ := hcomes
    show io.isNone = true ∨ data' = s.data ∧ s.file = s.data ↔ _
    rw [hidle, Option.isNone_iff_eq_none]
    simp [hwrites, hanswers, and_comm]

end

/-- The requester is told that the write of its proposal failed, and the proposal is there to
be approved. -/
theorem failed_proposal_stays :
    ¬ FailureHarmless (fun _ => .ok "digest-1") (fun _ _ => "wf-1") (World.start : World Unit).store
      (.proposeAction "king" ⟨.workflowRun, "rat", "/srv/rat", ()⟩ none 0) (some "disk full") := by
  intro h
  obtain ⟨hdata, -⟩ := h rfl
  have hstays := congrArg (fun data => (data.proposals "digest-1").isSome) hdata
  revert hstays
  decide

end RatKingdom.Factory
