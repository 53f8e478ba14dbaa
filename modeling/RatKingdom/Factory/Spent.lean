/-
Executors over the approval store: any number of them call
`begin_execute_action` and then, once it let them in, one finishing call, between
proposals, approvals, checkpoints, failing writes and restarts from the file.

The transitions a grant must not make are stated in `Kept`; `accepts` is the
condition on a step under which the store does not make them.
-/
import RatKingdom.Factory.Approval

namespace RatKingdom.Factory

open Function Option

open Core (DateTime)

structure ActionApprovalStore (Body : Type) where
  data : StoreData Body
  file : StoreData Body

open ActionApprovalStore

def Outcome.after {Body α : Type} (data : StoreData Body) : Outcome Body α → StoreData Body
  | .write data' _ => data'
  | _ => data

/-- Carry out what a call computed.  `io` is the error of the file write, if it
fails; the change in memory stays. -/
def ActionApprovalStore.settle {Body α : Type} (s : ActionApprovalStore Body)
    (o : Outcome Body α) (io : Option String) : ActionApprovalStore Body × Except String α :=
  match o with
  | .refuse e => (s, .error e)
  | .keep out => (s, .ok out)
  | .write data out =>
    match io with
    | none => ({ data := data, file := data }, .ok out)
    | some e => ({ s with data := data }, .error e)

inductive Finish where
  | success (instanceId : String)
  | failed (failure : String)
  | ticketGraph (checkpoint : TicketGraphApplyExecutionResult)
  | productToCode (checkpoint : ProductToCodeDispatchExecutionResult)

/-- One call on the store with the clock it reads and the fate of its write, or a
restart from the file. -/
inductive Label (Body : Type) where
  | propose (requester : String) (action : FactoryAction Body) (ttlSeconds : Option Int)
      (now : DateTime) (io : Option String)
  | approve (proposalId digest approvedBy : String) (now : DateTime) (io : Option String)
  | begin (executor : Nat) (proposalId digest caller : String) (action : FactoryAction Body)
      (now : DateTime) (io : Option String)
  | finish (executor : Nat) (how : Finish) (now : DateTime) (io : Option String)
  | checkpointTicketGraph (proposalId : String) (checkpoint : TicketGraphApplyExecutionResult)
      (io : Option String)
  | checkpointProductToCode (proposalId : String)
      (checkpoint : ProductToCodeDispatchExecutionResult) (io : Option String)
  | restart

/-- The store and the executors that were let in and have not finished, each with
its proposal. -/
structure World (Body : Type) where
  store : ActionApprovalStore Body
  running : List (Nat × String)

open World

def World.start {Body : Type} : World Body :=
  { store := { data := .empty, file := .empty }, running := [] }

section
variable {Body : Type} (digestOf : ActionDigestPayload Body → Except String String)
  (boundInstanceId : String → String → String)

def ActionApprovalStore.finish (s : ActionApprovalStore Body) (proposalId : String)
    (how : Finish) (now : DateTime) (io : Option String) : ActionApprovalStore Body :=
  match how with
  | .success instanceId => (s.settle (finishSuccess s.data proposalId instanceId now) io).1
  | .failed failure => (s.settle (finishFailed s.data proposalId failure) io).1
  | .ticketGraph cp => (s.settle (finishTicketGraphSuccess s.data proposalId cp now) io).1
  | .productToCode cp => (s.settle (finishProductToCodeSuccess s.data proposalId cp now) io).1

def World.step (w : World Body) : Label Body → Option (World Body)
  | .propose requester action ttlSeconds now io =>
    some { w with
      store := (w.store.settle (proposeAction digestOf w.store.data requester action ttlSeconds now)
        io).1 }
  | .approve proposalId digest approvedBy now io =>
    some { w with
      store := (w.store.settle
        (Factory.approve boundInstanceId w.store.data proposalId digest approvedBy now) io).1 }
  | .begin executor proposalId digest caller action now io =>
    match w.running.lookup executor with
    | some _ => none
    | none =>
      let r := w.store.settle
        (beginExecuteAction digestOf boundInstanceId w.store.data proposalId digest caller action
          now) io
      match r.2 with
      | .ok _ => some { store := r.1, running := (executor, proposalId) :: w.running }
      | .error _ => some { w with store := r.1 }
  | .finish executor how now io =>
    match w.running.lookup executor with
    | none => none
    | some proposalId =>
      some { store := w.store.finish proposalId how now io
             running := w.running.filter fun r => r.1 ≠ executor }
  | .checkpointTicketGraph proposalId cp io =>
    some { w with store := (w.store.settle (checkpointTicketGraphResult w.store.data proposalId cp)
      io).1 }
  | .checkpointProductToCode proposalId cp io =>
    some { w with
      store := (w.store.settle (checkpointProductToCodeResult w.store.data proposalId cp) io).1 }
  | .restart => some { w with store := { w.store with data := w.store.file } }

/-- A grant starts to execute only through a `begin_execute_action` that found the
proposal unexpired, approved for its digest, scope and requester, and presented
with an action of that digest. -/
def Admitted (data : StoreData Body) (l : Label Body) (proposalId : String) : Prop :=
  ∃ executor digest caller action now io p g,
    l = .begin executor proposalId digest caller action now io ∧
    data.proposals proposalId = some p ∧ now < p.expiresAt ∧
    data.grants proposalId = some g ∧ g.digest = p.digest ∧ g.scope = p.scope ∧
    g.requester = p.requester ∧ recomputeProposalDigest digestOf p action = .ok p.digest

structure Kept (w w' : World Body) (l : Label Body) : Prop where
  spent : ∀ proposalId g, w.store.data.grants proposalId = some g → g.status = .consumed →
    ∃ g', w'.store.data.grants proposalId = some g' ∧ g'.status = .consumed ∧
      g'.instanceId = g.instanceId
  entered : ∀ proposalId g', w'.store.data.grants proposalId = some g' → g'.status = .executing →
    (∀ g, w.store.data.grants proposalId = some g → g.status ≠ .executing) →
    Admitted digestOf w.store.data l proposalId
  bound : ∀ proposalId g', w'.store.data.grants proposalId = some g' →
    ∃ p, w'.store.data.proposals proposalId = some p ∧ g'.digest = p.digest

def completes {α : Type} (kind : ActionKind) (status executionId : String)
    (merge : Except String α) (g : ApprovalGrant) : Prop :=
  status = "completed" ∧ g.kind = kind ∧ g.executionId = some executionId ∧ merge.isOk = true

/-- A finishing call leaves the status and the instance id of a consumed grant as
they are. -/
def Finish.repeats (data : StoreData Body) (proposalId : String) (g : ApprovalGrant) :
    Finish → Prop
  | .success instanceId => g.instanceId = some instanceId
  | .failed _ => False
  | .ticketGraph cp =>
    completes .ticketGraphApply cp.status cp.executionId
      (mergeTicketGraphCheckpoint data proposalId cp) g → g.instanceId = some cp.executionId
  | .productToCode cp =>
    completes .productToCodeDispatch cp.status cp.executionId
      (mergeProductToCodeCheckpoint data proposalId cp) g → g.instanceId = some cp.executionId

/-- The condition on a step: no failure is reported for a consumed grant, a
success reported for one repeats its instance id, and a restart finds the consumed
grants on file and no executing one that is not. -/
def accepts (w : World Body) : Label Body → Prop
  | .finish executor how _ _ =>
    ∀ proposalId g, w.running.lookup executor = some proposalId →
      w.store.data.grants proposalId = some g → g.status = .consumed →
      how.repeats w.store.data proposalId g
  | .restart =>
    (∀ proposalId g, w.store.data.grants proposalId = some g → g.status = .consumed →
      ∃ g', w.store.file.grants proposalId = some g' ∧ g'.status = .consumed ∧
        g'.instanceId = g.instanceId) ∧
    ∀ proposalId g', w.store.file.grants proposalId = some g' → g'.status = .executing →
      ∃ g, w.store.data.grants proposalId = some g ∧ g.status = .executing
  | _ => True

variable {digestOf boundInstanceId}

section
variable {α : Type} (s : ActionApprovalStore Body) (o : Outcome Body α) (io : Option String)

@[simp] theorem settle_data : (s.settle o io).1.data = o.after s.data := by
  cases o with
  | refuse e | keep out => rfl
  | write data out => cases io <;> rfl

theorem settle_file :
    (s.settle o io).1.file = s.file ∨ (s.settle o io).1.file = o.after s.data := by
  cases o with
  | refuse e | keep out => exact .inl rfl
  | write data out =>
    cases io with
    | none => exact .inr rfl
    | some e => exact .inl rfl

end

structure Bound (data : StoreData Body) : Prop where
  filed : ∀ k p, data.proposals k = some p → p.id = k ∧ p.digest = k
  granted : ∀ k g, data.grants k = some g → g.digest = k ∧ ∃ p, data.proposals k = some p

variable {data : StoreData Body} {k : String} {g : ApprovalGrant}

theorem Bound.digest_eq (h : Bound data) (hg : data.grants k = some g) :
    ∃ p, data.proposals k = some p ∧ g.digest = p.digest := by
  obtain ⟨hd, p, hp⟩ := h.granted k g hg
  exact ⟨p, hp, hd.trans (h.filed k p hp).2.symm⟩

theorem empty_bound : Bound (StoreData.empty : StoreData Body) where
  filed := fun _ _ h => by cases h
  granted := fun _ _ h => by cases h

theorem proposeAction_after (data : StoreData Body) (requester : String)
    (action : FactoryAction Body) (ttlSeconds : Option Int) (now : DateTime) :
    (proposeAction digestOf data requester action ttlSeconds now).after data = data ∨
    ∃ p, p.id = p.digest ∧
      (proposeAction digestOf data requester action ttlSeconds now).after data =
        { data with proposals := update data.proposals p.id (some p) } := by
  unfold proposeAction
  cases h : digestOf (.fromProposal (.draft requester action ttlSeconds now)) with
  | error e => exact .inl (by simp only [h]; rfl)
  | ok digest =>
    right
    refine ⟨{ ActionProposal.draft requester action ttlSeconds now with
      digest := digest, id := digest }, rfl, ?_⟩
    simp only [h]
    rfl

theorem approve_after (h : Bound data) (proposalId digest approvedBy : String) (now : DateTime) :
    (Factory.approve boundInstanceId data proposalId digest approvedBy now).after data = data ∨
    ∃ p g, data.proposals proposalId = some p ∧ data.grants proposalId = none ∧
      g.status = .approved ∧ g.digest = proposalId ∧
      (Factory.approve boundInstanceId data proposalId digest approvedBy now).after data =
        { data with grants := update data.grants proposalId (some g) } := by
  unfold Factory.approve
  cases hp : data.proposals proposalId with
  | none => exact .inl rfl
  | some p =>
    obtain ⟨hid, hdig⟩ := h.filed proposalId p hp
    simp only
    split
    · exact .inl rfl
    split
    · exact .inl rfl
    cases hg : data.grants proposalId with
    | some existing => left; simp only; split <;> rfl
    | none =>
      right
      refine ⟨p, p.grant boundInstanceId approvedBy now, rfl, rfl, rfl, hdig, ?_⟩
      simp only [Outcome.after, hid]

theorem beginExecuteAction_after (data : StoreData Body) (proposalId digest caller : String)
    (action : FactoryAction Body) (now : DateTime) :
    (beginExecuteAction digestOf boundInstanceId data proposalId digest caller action now).after
        data = data ∨
    ∃ p g, data.proposals proposalId = some p ∧ data.grants proposalId = some g ∧
      now < p.expiresAt ∧ g.digest = p.digest ∧ g.scope = p.scope ∧ g.requester = p.requester ∧
      recomputeProposalDigest digestOf p action = .ok p.digest ∧ g.status ≠ .consumed ∧
      (beginExecuteAction digestOf boundInstanceId data proposalId digest caller action now).after
          data =
        { data with
          grants := update data.grants proposalId
            (some (g.begun boundInstanceId p action now)) } := by
  unfold beginExecuteAction
  cases hp : data.proposals proposalId with
  | none => exact .inl rfl
  | some p =>
    simp only
    cases hr : recomputeProposalDigest digestOf p action with
    | error e => exact .inl rfl
    | ok recomputed =>
      simp only
      split
      · exact .inl rfl
      next hdig =>
      split
      · exact .inl rfl
      next hcaller =>
      cases hg : data.grants proposalId with
      | none => exact .inl rfl
      | some g =>
        simp only
        split
        · exact .inl rfl
        next hbind =>
        push Not at hdig hcaller hbind
        have hre : recomputed = p.digest := hdig.2.trans hdig.1.symm
        have hdigest : g.digest = p.digest := hbind.1.trans hdig.1.symm
        have hreq : g.requester = p.requester := hbind.2.2.trans hcaller.symm
        split
        · split
          · exact .inl rfl
          next hs hexp =>
          refine .inr ⟨p, g, rfl, rfl, Int.not_le.mp hexp, hdigest, hbind.2.1, hreq, ?_, ?_, rfl⟩
          · rw [hr, hre]
          · rw [hs]; decide
        · split
          · exact .inl rfl
          next hs hexp =>
          refine .inr ⟨p, g, rfl, rfl, Int.not_le.mp hexp, hdigest, hbind.2.1, hreq, ?_, ?_, rfl⟩
          · rw [hr, hre]
          · rw [hs]; decide
        · exact .inl rfl
        · left; split <;> rfl

variable {data' : StoreData Body} {proposalId : String}

theorem mergeTicketGraph_ok {cp r : TicketGraphApplyExecutionResult}
    (h : mergeTicketGraphCheckpoint data proposalId cp = .ok (r, data')) :
    r.executionId = cp.executionId ∧ data'.grants = data.grants ∧
      data'.proposals = data.proposals := by
  unfold mergeTicketGraphCheckpoint at h
  simp only at h
  split at h
  · cases h
  next hbind =>
  push Not at hbind
  split at h
  · cases h
  · cases h
    exact ⟨hbind.1, rfl, rfl⟩

theorem mergeProductToCode_ok {cp r : ProductToCodeDispatchExecutionResult}
    (h : mergeProductToCodeCheckpoint data proposalId cp = .ok (r, data')) :
    r.executionId = cp.executionId ∧ data'.grants = data.grants ∧
      data'.proposals = data.proposals := by
  unfold mergeProductToCodeCheckpoint at h
  simp only at h
  split at h
  · cases h
  next hbind =>
  push Not at hbind
  cases h
  exact ⟨hbind.1, rfl, rfl⟩

/-- What a completion of a checkpointed execution does: nothing, or it replaces the
grant by a consumed one under the execution id. -/
theorem finishCheckpointed_after {α : Type} (kind : ActionKind) (what status executionId : String)
    (resultId : α → String) (merge : StoreData Body → Except String (α × StoreData Body))
    {data : StoreData Body} {proposalId : String} (now : DateTime) {g : ApprovalGrant}
    (hg : data.grants proposalId = some g)
    (hmerge : ∀ r data', merge data = .ok (r, data') → resultId r = executionId ∧
      data'.grants = data.grants ∧ data'.proposals = data.proposals) :
    let data' := (finishCheckpointed kind what status executionId resultId merge data proposalId
      now).after data
    let repeats := completes kind status executionId (merge data) g →
      g.instanceId = some executionId
    (data' = data ∧ (g.status = .consumed → repeats)) ∨
    ∃ g', data'.proposals = data.proposals ∧
      data'.grants = update data.grants proposalId (some g') ∧
      g'.digest = g.digest ∧ g'.status ≠ .executing ∧
      (g'.status = .consumed ∧ g'.instanceId = g.instanceId ↔ repeats) := by
  simp only [finishCheckpointed, hg]
  split
  next hstatus => exact .inl ⟨rfl, fun _ h => absurd h.1 hstatus⟩
  next hstatus =>
  split
  next hbind =>
    refine .inl ⟨rfl, fun _ h => ?_⟩
    rcases hbind with hk | he
    · exact absurd h.2.1 hk
    · exact absurd h.2.2.1 he
  next hbind =>
  push Not at hstatus hbind
  split
  next hrun => exact .inl ⟨rfl, fun hc => absurd hc hrun.2⟩
  next hrun =>
  cases hm : merge data with
  | error e =>
    left
    refine ⟨rfl, fun _ h => ?_⟩
    have hok : (.error e : Except String (α × StoreData Body)).isOk = true := h.2.2.2
    cases hok
  | ok r =>
    obtain ⟨result, data'⟩ := r
    obtain ⟨hid, hgrants, hprops⟩ := hmerge result data' hm
    right
    refine ⟨g.completed executionId now, hprops, ?_, rfl, ?_, ?_⟩
    · simp only [Outcome.after, hid, hgrants]
    · intro h; cases h
    · -- the checkpoint took effect, so it was a completing one
      have hc : completes kind status executionId
          (.ok (result, data') : Except String (α × StoreData Body)) g :=
        ⟨hstatus, hbind.1, hbind.2, rfl⟩
      simp [ApprovalGrant.completed, hc, eq_comm]

/-- What a finishing call does to the data: nothing, or it replaces the grant of
its proposal by one that is not executing. -/
theorem finish_data (s : ActionApprovalStore Body) (proposalId : String) (how : Finish)
    (now : DateTime) (io : Option String) :
    ((s.finish proposalId how now io).data = s.data ∧
      ∀ g, s.data.grants proposalId = some g → g.status = .consumed →
        how.repeats s.data proposalId g) ∨
    ∃ g g', s.data.grants proposalId = some g ∧
      (s.finish proposalId how now io).data.proposals = s.data.proposals ∧
      (s.finish proposalId how now io).data.grants = update s.data.grants proposalId (some g') ∧
      g'.digest = g.digest ∧ g'.status ≠ .executing ∧
      (g'.status = .consumed ∧ g'.instanceId = g.instanceId ↔ how.repeats s.data proposalId g) := by
  cases hg : s.data.grants proposalId with
  | none =>
    left
    refine ⟨?_, fun g h => by cases h⟩
    cases how with
    | success instanceId => simp [finish, finishSuccess, hg, Outcome.after]
    | failed failure => simp [finish, finishFailed, hg, Outcome.after]
    | ticketGraph cp =>
      simp only [finish, settle_data, finishTicketGraphSuccess,
        finishCheckpointed, hg]
      split <;> rfl
    | productToCode cp =>
      simp only [finish, settle_data, finishProductToCodeSuccess,
        finishCheckpointed, hg]
      split <;> rfl
  | some g =>
    cases how with
    | success instanceId =>
      right
      refine ⟨g, { g with status := .consumed, instanceId := some instanceId,
                          consumedAt := some now }, rfl, ?_, ?_, rfl, ?_, ?_⟩
      · simp [finish, finishSuccess, hg, Outcome.after]
      · simp [finish, finishSuccess, hg, Outcome.after]
      · intro h; cases h
      · simp [Finish.repeats, eq_comm]
    | failed failure =>
      right
      refine ⟨g, { g with status := .failed, failure := some failure }, rfl, ?_, ?_, rfl, ?_, ?_⟩
      · simp [finish, finishFailed, hg, Outcome.after]
      · simp [finish, finishFailed, hg, Outcome.after]
      · intro h; cases h
      · simp [Finish.repeats]
    | ticketGraph cp =>
      have h := finishCheckpointed_after .ticketGraphApply "ticket graph" cp.status cp.executionId
        TicketGraphApplyExecutionResult.executionId
        (fun data => mergeTicketGraphCheckpoint data proposalId cp) now hg
        fun _ _ h => mergeTicketGraph_ok h
      simp only [finish, settle_data]
      rcases h with ⟨hsame, hrep⟩ | ⟨g', h⟩
      · exact .inl ⟨hsame, fun g₁ h₁ hc => some.inj h₁ ▸ hrep (some.inj h₁ ▸ hc)⟩
      · exact .inr ⟨g, g', rfl, h⟩
    | productToCode cp =>
      have h := finishCheckpointed_after .productToCodeDispatch "product_to_code dispatch" cp.status
        cp.executionId ProductToCodeDispatchExecutionResult.executionId
        (fun data => mergeProductToCodeCheckpoint data proposalId cp) now hg
        fun _ _ h => mergeProductToCode_ok h
      simp only [finish, settle_data]
      rcases h with ⟨hsame, hrep⟩ | ⟨g', h⟩
      · exact .inl ⟨hsame, fun g₁ h₁ hc => some.inj h₁ ▸ hrep (some.inj h₁ ▸ hc)⟩
      · exact .inr ⟨g, g', rfl, h⟩

/-- Everything a step can do to the data in memory. -/
inductive Move (digestOf : ActionDigestPayload Body → Except String String) (w : World Body) :
    Label Body → StoreData Body → Prop where
  | keep {l : Label Body} {data : StoreData Body} (h : accepts w l)
      (proposals : data.proposals = w.store.data.proposals)
      (grants : data.grants = w.store.data.grants) : Move digestOf w l data
  | propose {l : Label Body} {p : ActionProposal Body} (h : accepts w l) (filed : p.id = p.digest) :
      Move digestOf w l
        { w.store.data with proposals := update w.store.data.proposals p.id (some p) }
  | approve {l : Label Body} {proposalId : String} {p : ActionProposal Body} {g : ApprovalGrant}
      (h : accepts w l) (proposed : w.store.data.proposals proposalId = some p)
      (ungranted : w.store.data.grants proposalId = none) (status : g.status = .approved)
      (digest : g.digest = proposalId) :
      Move digestOf w l
        { w.store.data with grants := update w.store.data.grants proposalId (some g) }
  | begin {l : Label Body} {proposalId : String} {g g' : ApprovalGrant} (h : accepts w l)
      (admitted : Admitted digestOf w.store.data l proposalId)
      (granted : w.store.data.grants proposalId = some g) (status : g.status ≠ .consumed)
      (digest : g'.digest = g.digest) :
      Move digestOf w l
        { w.store.data with grants := update w.store.data.grants proposalId (some g') }
  | finish {l : Label Body} {proposalId : String} {g g' : ApprovalGrant} {data : StoreData Body}
      (granted : w.store.data.grants proposalId = some g)
      (proposals : data.proposals = w.store.data.proposals)
      (grants : data.grants = update w.store.data.grants proposalId (some g'))
      (digest : g'.digest = g.digest) (status : g'.status ≠ .executing)
      (spent : accepts w l ↔
        (g.status = .consumed → g'.status = .consumed ∧ g'.instanceId = g.instanceId)) :
      Move digestOf w l data
  | restart : Move digestOf w .restart w.store.file

variable {w w' : World Body} {l : Label Body}

theorem step_move (hb : Bound w.store.data)
    (h : step digestOf boundInstanceId w l = some w') : Move digestOf w l w'.store.data := by
  cases l with
  | propose requester action ttlSeconds now io =>
    cases h
    simp only [settle_data]
    rcases proposeAction_after w.store.data requester action ttlSeconds now with hs | ⟨p, hp, hs⟩
    · rw [hs]; exact .keep trivial rfl rfl
    · rw [hs]; exact .propose trivial hp
  | approve proposalId digest approvedBy now io =>
    cases h
    simp only [settle_data]
    rcases approve_after hb proposalId digest approvedBy now with hs | ⟨p, g, hp, hn, hst, hd, hs⟩
    · rw [hs]; exact .keep trivial rfl rfl
    · rw [hs]; exact .approve trivial hp hn hst hd
  | begin executor proposalId digest caller action now io =>
    simp only [step] at h
    have hdata : w'.store.data = (beginExecuteAction digestOf boundInstanceId w.store.data
        proposalId digest caller action now).after w.store.data := by
      split at h
      · cases h
      · split at h <;> (cases h; simp)
    rw [hdata]
    rcases beginExecuteAction_after w.store.data proposalId digest caller action now with
      hs | ⟨p, g, hp, hg, hexp, hdig, hscope, hreq, hre, hst, hs⟩
    · rw [hs]; exact .keep trivial rfl rfl
    · rw [hs]
      exact .begin trivial ⟨executor, digest, caller, action, now, io, p, g, rfl, hp, hexp, hg, hdig,
        hscope, hreq, hre⟩ hg hst rfl
  | finish executor how now io =>
    simp only [step] at h
    cases hr : w.running.lookup executor with
    | none => rw [hr] at h; cases h
    | some proposalId =>
      rw [hr] at h
      cases h
      have hacc : accepts w (.finish executor how now io) ↔ ∀ g,
          w.store.data.grants proposalId = some g → g.status = .consumed →
          how.repeats w.store.data proposalId g := by
        constructor
        · intro h g hg hc
          exact h proposalId g hr hg hc
        · intro h k g hk hg hc
          have : k = proposalId := some.inj (hk.symm.trans hr)
          subst this
          exact h g hg hc
      rcases finish_data w.store proposalId how now io with
        ⟨hs, hrep⟩ | ⟨g, g', hg, hp, hgr, hd, hst, hiff⟩
      · simp only [hs]
        exact .keep (hacc.mpr hrep) rfl rfl
      · refine .finish hg hp hgr hd hst ?_
        rw [hacc]
        constructor
        · intro h hc
          exact hiff.mpr (h g hg hc)
        · intro h g₁ h₁ hc
          have : g₁ = g := some.inj (h₁.symm.trans hg)
          subst this
          exact hiff.mp (h hc)
  | checkpointTicketGraph proposalId cp io =>
    cases h
    simp only [settle_data, checkpointTicketGraphResult]
    split
    · exact .keep trivial rfl rfl
    next hm =>
      obtain ⟨-, hg, hp⟩ := mergeTicketGraph_ok hm
      exact .keep trivial hp hg
  | checkpointProductToCode proposalId cp io =>
    cases h
    simp only [settle_data, checkpointProductToCodeResult]
    split
    · exact .keep trivial rfl rfl
    next hm =>
      obtain ⟨-, hg, hp⟩ := mergeProductToCode_ok hm
      exact .keep trivial hp hg
  | restart => cases h; exact .restart

theorem step_file (h : step digestOf boundInstanceId w l = some w') :
    w'.store.file = w.store.file ∨ w'.store.file = w'.store.data := by
  cases l with
  | propose requester action ttlSeconds now io | approve proposalId digest approvedBy now io
  | checkpointTicketGraph proposalId cp io | checkpointProductToCode proposalId cp io =>
    cases h
    simpa using settle_file w.store _ io
  | begin executor proposalId digest caller action now io =>
    simp only [step] at h
    split at h
    · cases h
    · split at h <;> (cases h; simpa using settle_file w.store _ io)
  | finish executor how now io =>
    simp only [step] at h
    split at h
    · cases h
    · cases h
      cases how <;> simpa [finish] using settle_file w.store _ io
  | restart => cases h; exact .inl rfl

theorem Bound.congr (h : Bound data) (hp : data'.proposals = data.proposals)
    (hg : data'.grants = data.grants) : Bound data' where
  filed := by rw [hp]; exact h.filed
  granted := by rw [hp, hg]; exact h.granted

theorem Bound.grant (h : Bound data) (hd : g.digest = k) (hk : ∃ p, data.proposals k = some p)
    (hp : data'.proposals = data.proposals) (hg : data'.grants = update data.grants k (some g)) :
    Bound data' where
  filed := by rw [hp]; exact h.filed
  granted := by
    intro k' g' hg'
    rw [hp]
    rw [hg] at hg'
    by_cases he : k' = k
    · subst he
      rw [update_self] at hg'
      cases hg'
      exact ⟨hd, hk⟩
    · rw [update_of_ne he] at hg'
      exact h.granted k' g' hg'

theorem Move.bound {w : World Body} {l : Label Body} {data : StoreData Body}
    (h : Move digestOf w l data) (hb : Bound w.store.data) (hf : Bound w.store.file) :
    Bound data := by
  cases h with
  | keep _ hp hg => exact hb.congr hp hg
  | @propose _ p _ hid =>
    refine { filed := ?_, granted := ?_ }
    · intro k q hq
      by_cases he : k = p.id
      · subst he
        simp only [update_self] at hq
        cases hq
        exact ⟨rfl, hid.symm⟩
      · simp only [update_of_ne he] at hq
        exact hb.filed k q hq
    · intro k g hg
      obtain ⟨hd, q, hq⟩ := hb.granted k g hg
      refine ⟨hd, ?_⟩
      by_cases he : k = p.id
      · subst he; exact ⟨p, update_self _ _ _⟩
      · exact ⟨q, (update_of_ne he _ _).trans hq⟩
  | approve _ hp _ _ hd => exact hb.grant hd ⟨_, hp⟩ rfl rfl
  | begin _ _ hg _ hd =>
    obtain ⟨hgd, hp⟩ := hb.granted _ _ hg
    exact hb.grant (hd.trans hgd) hp rfl rfl
  | finish hg hp hgr hd _ _ =>
    obtain ⟨hgd, hq⟩ := hb.granted _ _ hg
    exact hb.grant (hd.trans hgd) hq hp hgr
  | restart => exact hf

def World.Bound (w : World Body) : Prop := Factory.Bound w.store.data ∧ Factory.Bound w.store.file

theorem step_bound (hw : w.Bound) (h : step digestOf boundInstanceId w l = some w') :
    w'.Bound := by
  have hdata := (step_move hw.1 h).bound hw.1 hw.2
  refine ⟨hdata, ?_⟩
  rcases step_file h with hf | hf
  · rw [hf]; exact hw.2
  · rw [hf]; exact hdata

/-- A step that replaces one grant keeps the others; what it does to that one
decides. -/
theorem kept_of_update {w w' : World Body} {l : Label Body} {k : String} {g' : ApprovalGrant}
    (hb : Factory.Bound w'.store.data)
    (hgr : w'.store.data.grants = update w.store.data.grants k (some g'))
    (hs : ∀ g, w.store.data.grants k = some g → g.status = .consumed →
      g'.status = .consumed ∧ g'.instanceId = g.instanceId)
    (he : g'.status = .executing → Admitted digestOf w.store.data l k) :
    Kept digestOf w w' l where
  spent := by
    intro k' h hh hc
    rw [hgr]
    by_cases hk : k' = k
    · subst hk
      exact ⟨g', update_self _ _ _, hs h hh hc⟩
    · exact ⟨h, (update_of_ne hk _ _).trans hh, hc, rfl⟩
  entered := by
    intro k' h hh hx hnew
    rw [hgr] at hh
    by_cases hk : k' = k
    · subst hk
      rw [update_self] at hh
      cases hh
      exact he hx
    · rw [update_of_ne hk] at hh
      exact absurd hx (hnew h hh)
  bound := fun _ _ h => hb.digest_eq h

theorem kept_of_same (hb : Factory.Bound w'.store.data)
    (hgr : w'.store.data.grants = w.store.data.grants) : Kept digestOf w w' l where
  spent := by
    intro k g hg hc
    rw [hgr]
    exact ⟨g, hg, hc, rfl⟩
  entered := by
    intro k g hg hx hnew
    rw [hgr] at hg
    exact absurd hx (hnew g hg)
  bound := fun _ _ h => hb.digest_eq h

/-- A restart keeps the grants exactly when the file agrees with the memory on
which grants are consumed and has no further executing one. -/
theorem kept_restart (hb : Factory.Bound w'.store.data) (hd : w'.store.data = w.store.file) :
    Kept digestOf w w' .restart ↔ accepts w .restart := by
  constructor
  · intro hk
    refine ⟨?_, ?_⟩
    · intro k g hg hc
      rw [← hd]
      exact hk.spent k g hg hc
    · intro k g' hg' hx
      by_contra hn
      push Not at hn
      obtain ⟨_, _, _, _, _, _, _, _, hl, _⟩ := hk.entered k g' (by rw [hd]; exact hg') hx hn
      cases hl
  · intro ha
    refine { spent := ?_, entered := ?_, bound := fun _ _ h => hb.digest_eq h }
    · intro k g hg hc
      rw [hd]
      exact ha.1 k g hg hc
    · intro k g' hg' hx hnew
      rw [hd] at hg'
      obtain ⟨g, hg, hgx⟩ := ha.2 k g' hg' hx
      exact absurd hgx (hnew g hg)

theorem kept_iff (hw : w.Bound) (h : step digestOf boundInstanceId w l = some w') :
    Kept digestOf w w' l ↔ accepts w l := by
  have hm := step_move hw.1 h
  have hb := hm.bound hw.1 hw.2
  generalize hd : w'.store.data = data at hm
  cases hm with
  | keep ha _ hgr =>
    rw [← hd] at hgr
    exact ⟨fun _ => ha, fun _ => kept_of_same hb hgr⟩
  | propose ha _ => exact ⟨fun _ => ha, fun _ => kept_of_same hb (by rw [hd])⟩
  | @approve _ k p g ha _ hn hst _ =>
    refine ⟨fun _ => ha, fun _ => kept_of_update hb (by rw [hd]) ?_ ?_⟩
    · intro g₀ hg₀
      rw [hn] at hg₀
      cases hg₀
    · intro hx
      rw [hst] at hx
      cases hx
  | @begin _ k g g' ha hadm hg hst _ =>
    refine ⟨fun _ => ha, fun _ => kept_of_update hb (by rw [hd]) ?_ (fun _ => hadm)⟩
    intro g₀ hg₀ hc
    cases some.inj (hg₀.symm.trans hg)
    exact absurd hc hst
  | @finish _ k g g' _ hg _ hgr _ hst hspent =>
    rw [← hd] at hgr
    rw [hspent]
    constructor
    · intro hk hc
      obtain ⟨g₁, hg₁, hc₁, hi₁⟩ := hk.spent k g hg hc
      rw [hgr, update_self] at hg₁
      cases hg₁
      exact ⟨hc₁, hi₁⟩
    · intro hs
      refine kept_of_update hb hgr ?_ (fun hx => absurd hx hst)
      intro g₀ hg₀ hc
      cases some.inj (hg₀.symm.trans hg)
      exact hs hc
  | restart => exact kept_restart hb hd

/-- An approval is consumed once and for good along a run exactly when every step
of the run is accepted: then, and only then, does every transition keep consumed
grants as they are, admit to execution only what is unexpired, approved and
presented with its own digest, and leave every grant bound to its proposal. -/
theorem approval_consumed_once (ls : List (Label Body)) :
    Lib.Meets (step digestOf boundInstanceId)
      (fun w l => ∀ w', step digestOf boundInstanceId w l = some w' →
        Kept digestOf w w' l) start ls ↔
    Lib.Meets (step digestOf boundInstanceId) accepts start ls := by
  refine Lib.meets_congr (I := World.Bound) (fun _ _ _ hw h _ => step_bound hw h) ?_
    ⟨empty_bound, empty_bound⟩
  intro w l w' hw h
  constructor
  · intro hk
    exact (kept_iff hw h).mp (hk w' h)
  · intro ha w'' h''
    rw [h] at h''
    cases h''
    exact (kept_iff hw h).mpr ha

end

def smokeTest : FactoryAction Unit :=
  { kind := .workflowRun, repoIdentity := "repo-a", repoPath := "/repo/a", body := () }

def smokeDigest : String := "5f1d8c0a7be24c66b2a9d3f4178e90c35f1d8c0a7be24c66b2a9d3f4178e90c3"

/-- Two executors are let in on one approval; the first reports success, the
second, later, a failure. -/
def lateFailure : List (Label Unit) :=
  [.propose "caller-a" smokeTest none 0 none, .approve smokeDigest smokeDigest "operator" 1 none,
   .begin 1 smokeDigest smokeDigest "caller-a" smokeTest 2 none,
   .begin 2 smokeDigest smokeDigest "caller-a" smokeTest 3 none,
   .finish 1 (.success "wf-1") 4 none,
   .finish 2 (.failed "workflow task failed") 5 none]

theorem late_failure_reopens_consumed :
    ¬ Lib.Meets (step (fun _ => .ok smokeDigest) (fun _ _ => "wf-1"))
      (fun w l => ∀ w', step (fun _ => .ok smokeDigest) (fun _ _ => "wf-1") w l = some w' →
        Kept (fun _ => .ok smokeDigest) w w' l) start lateFailure := by
  intro h
  obtain ⟨-, h⟩ := h _ rfl
  obtain ⟨-, h⟩ := h _ rfl
  obtain ⟨-, h⟩ := h _ rfl
  obtain ⟨-, h⟩ := h _ rfl
  obtain ⟨-, h⟩ := h _ rfl
  obtain ⟨hk, -⟩ := h _ rfl
  obtain ⟨g', hg', hc, -⟩ := (hk _ rfl).spent smokeDigest _ rfl rfl
  cases hg'
  cases hc

end RatKingdom.Factory
