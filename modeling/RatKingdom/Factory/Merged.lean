/-
Checkpoints of one execution, in any order and any number of times.

Every call of `checkpoint_ticket_graph_result` or `checkpoint_product_to_code_result` takes
its checkpoint into the register of its proposal, whatever becomes of the file.  So mappings
and completions stay, lists only grow, a checkpoint that went in changes nothing when it
comes again, and the order matters only for the status of an execution that is not
completed, which is the one of its first checkpoint.
-/
import RatKingdom.Factory.Checkpoint

namespace RatKingdom.Factory

open Lib List TicketGraphApplyExecutionResult

namespace ActionApprovalStore

variable {Body : Type}

section
variable (s : ActionApprovalStore Body) (proposalId : String)

def ticketGraphResult :
    Option TicketGraphApplyExecutionResult := s.data.ticketGraphResults proposalId

def productToCodeResult :
    Option ProductToCodeDispatchExecutionResult := s.data.productToCodeResults proposalId

/-- `checkpoint_ticket_graph_result`, with the error of its write when that fails. -/
def checkpointTicketGraph (c : TicketGraphApplyExecutionResult) (io : Option String) :
    ActionApprovalStore Body × Except String TicketGraphApplyExecutionResult :=
  s.settle (checkpointTicketGraphResult s.data proposalId c) io

/-- `checkpoint_product_to_code_result`, with the error of its write when that fails. -/
def checkpointProductToCode (c : ProductToCodeDispatchExecutionResult) (io : Option String) :
    ActionApprovalStore Body × Except String ProductToCodeDispatchExecutionResult :=
  s.settle (checkpointProductToCodeResult s.data proposalId c) io

def checkpointTicketGraphs (calls : List (TicketGraphApplyExecutionResult × Option String)) :
    ActionApprovalStore Body :=
  calls.foldl (fun s call => (s.checkpointTicketGraph proposalId call.1 call.2).1) s

def checkpointProductToCodes (calls : List (ProductToCodeDispatchExecutionResult × Option String)) :
    ActionApprovalStore Body :=
  calls.foldl (fun s call => (s.checkpointProductToCode proposalId call.1 call.2).1) s

end

def OneStatus {α : Type} (status : α → String) (cs : List α) : Prop :=
  ∀ c ∈ cs, ∀ d ∈ cs, status c ≠ "completed" → status d ≠ "completed" → status c = status d

def GraphsAgree (cs : List TicketGraphApplyExecutionResult) : Prop :=
  ∀ c ∈ cs, ∀ d ∈ cs, (c.executionId = d.executionId ∧ c.graphId = d.graphId) ∧
    ∀ n t u : String, c.graphNodeToTicketId[n]? = some t → d.graphNodeToTicketId[n]? = some u →
      t = u

def DispatchesAgree (cs : List ProductToCodeDispatchExecutionResult) : Prop :=
  ∀ c ∈ cs, ∀ d ∈ cs, c.executionId = d.executionId ∧ c.graphId = d.graphId

structure TicketGraphsJoin (s : ActionApprovalStore Body) (proposalId : String) : Prop where
  grows : ∀ calls more r,
    (s.checkpointTicketGraphs proposalId calls).ticketGraphResult proposalId = some r →
    ∃ r', (s.checkpointTicketGraphs proposalId (calls ++ more)).ticketGraphResult proposalId =
        some r' ∧
      (∀ n t : String, r.graphNodeToTicketId[n]? = some t → r'.graphNodeToTicketId[n]? = some t) ∧
      r.createdTicketIds <+: r'.createdTicketIds ∧
      r.createdDependencyEdges <+: r'.createdDependencyEdges ∧
      (r.status = "completed" → r'.status = "completed")
  distinct : s.ticketGraphResult proposalId = none → ∀ first io calls r,
    (s.checkpointTicketGraphs proposalId ((first, io) :: calls)).ticketGraphResult proposalId =
      some r →
    (first.createdTicketIds.Nodup → r.createdTicketIds.Nodup) ∧
      (first.createdDependencyEdges.Nodup → r.createdDependencyEdges.Nodup)
  replays : ∀ before c io after m r,
    ((s.checkpointTicketGraphs proposalId before).checkpointTicketGraph proposalId c none).2 =
      .ok m →
    (s.checkpointTicketGraphs proposalId (before ++ (c, io) :: after)).ticketGraphResult
      proposalId = some r →
    ∀ s', s' = s.checkpointTicketGraphs proposalId (before ++ (c, io) :: after) →
      (s'.checkpointTicketGraph proposalId c none).2 = .ok r ∧
        ∀ io', (s'.checkpointTicketGraph proposalId c io').1.ticketGraphResult proposalId = some r
  refuses : ∀ calls c e s', s' = s.checkpointTicketGraphs proposalId calls →
    (s'.checkpointTicketGraph proposalId c none).2 = .error e →
    ∀ io, (s'.checkpointTicketGraph proposalId c io).1.ticketGraphResult proposalId =
      s'.ticketGraphResult proposalId
  orders : ∀ calls calls', (calls.map Prod.fst).Perm (calls'.map Prod.fst) →
    GraphsAgree (calls.map Prod.fst) → ∀ r,
    (s.checkpointTicketGraphs proposalId calls).ticketGraphResult proposalId = some r →
    ∃ r', (s.checkpointTicketGraphs proposalId calls').ticketGraphResult proposalId = some r' ∧
      (∀ n : String, r.graphNodeToTicketId[n]? = r'.graphNodeToTicketId[n]?) ∧
      (∀ t, t ∈ r.createdTicketIds ↔ t ∈ r'.createdTicketIds) ∧
      (∀ e, e ∈ r.createdDependencyEdges ↔ e ∈ r'.createdDependencyEdges) ∧
      (OneStatus status (calls.map Prod.fst) → r.status = r'.status)

structure DispatchesJoin (s : ActionApprovalStore Body) (proposalId : String) : Prop where
  grows : ∀ calls more r,
    (s.checkpointProductToCodes proposalId calls).productToCodeResult proposalId = some r →
    ∃ r', (s.checkpointProductToCodes proposalId (calls ++ more)).productToCodeResult proposalId =
        some r' ∧
      r.ticketIds <+: r'.ticketIds ∧ (r.status = "completed" → r'.status = "completed")
  distinct : s.productToCodeResult proposalId = none → ∀ first io calls r,
    (s.checkpointProductToCodes proposalId ((first, io) :: calls)).productToCodeResult proposalId =
      some r →
    first.ticketIds.Nodup → r.ticketIds.Nodup
  replays : ∀ before c io after m r,
    ((s.checkpointProductToCodes proposalId before).checkpointProductToCode proposalId c none).2 =
      .ok m →
    (s.checkpointProductToCodes proposalId (before ++ (c, io) :: after)).productToCodeResult
      proposalId = some r →
    ∀ s', s' = s.checkpointProductToCodes proposalId (before ++ (c, io) :: after) →
      ∃ r', (s'.checkpointProductToCode proposalId c none).2 = .ok r' ∧
        (∀ io', (s'.checkpointProductToCode proposalId c io').1.productToCodeResult proposalId =
          some r') ∧
        r'.ticketIds = r.ticketIds ∧ r'.status = r.status
  refuses : ∀ calls c e s', s' = s.checkpointProductToCodes proposalId calls →
    (s'.checkpointProductToCode proposalId c none).2 = .error e →
    ∀ io, (s'.checkpointProductToCode proposalId c io).1.productToCodeResult proposalId =
      s'.productToCodeResult proposalId
  orders : ∀ calls calls', (calls.map Prod.fst).Perm (calls'.map Prod.fst) →
    DispatchesAgree (calls.map Prod.fst) → ∀ r,
    (s.checkpointProductToCodes proposalId calls).productToCodeResult proposalId = some r →
    ∃ r', (s.checkpointProductToCodes proposalId calls').productToCodeResult proposalId = some r' ∧
      (∀ t, t ∈ r.ticketIds ↔ t ∈ r'.ticketIds) ∧
      (OneStatus ProductToCodeDispatchExecutionResult.status (calls.map Prod.fst) →
        r.status = r'.status)

theorem mergeTicketGraphCheckpoint_eq (data : StoreData Body) (proposalId : String)
    (c : TicketGraphApplyExecutionResult) :
    mergeTicketGraphCheckpoint data proposalId c =
      (TicketGraphApplyExecutionResult.merge ((data.ticketGraphResults proposalId).getD c) c).map
        fun r => (r, { data with
          ticketGraphResults := Function.update data.ticketGraphResults proposalId (some r) }) := by
  unfold mergeTicketGraphCheckpoint TicketGraphApplyExecutionResult.merge
  generalize (data.ticketGraphResults proposalId).getD c = merged
  by_cases hb : merged.executionId ≠ c.executionId ∨ merged.graphId ≠ c.graphId
  · simp only [if_pos hb, Except.map]
  · simp only [if_neg hb]
    cases c.graphNodeToTicketId.toList.foldlM mergeNode merged.graphNodeToTicketId with
    | error e | ok nodes => rfl

theorem mergeProductToCodeCheckpoint_eq (data : StoreData Body) (proposalId : String)
    (c : ProductToCodeDispatchExecutionResult) :
    mergeProductToCodeCheckpoint data proposalId c =
      (ProductToCodeDispatchExecutionResult.merge ((data.productToCodeResults proposalId).getD c)
        c).map fun r => (r, { data with
          productToCodeResults :=
            Function.update data.productToCodeResults proposalId (some r) }) := by
  unfold mergeProductToCodeCheckpoint ProductToCodeDispatchExecutionResult.merge
  generalize (data.productToCodeResults proposalId).getD c = merged
  by_cases hb : merged.executionId ≠ c.executionId ∨ merged.graphId ≠ c.graphId
  · simp only [if_pos hb, Except.map]
  · simp only [if_neg hb, Except.map]

/-- The answer of a call whose write goes through is the merge, and the register takes the
checkpoint either way. -/
theorem checkpointTicketGraph_spec (s : ActionApprovalStore Body) (proposalId : String)
    (c : TicketGraphApplyExecutionResult) (io : Option String) :
    (s.checkpointTicketGraph proposalId c none).2 =
        merge ((s.ticketGraphResult proposalId).getD c) c ∧
      (s.checkpointTicketGraph proposalId c io).1.ticketGraphResult proposalId =
        register merge (s.ticketGraphResult proposalId) c := by
  unfold checkpointTicketGraph ticketGraphResult register
  rw [checkpointTicketGraphResult, mergeTicketGraphCheckpoint_eq]
  cases merge ((s.data.ticketGraphResults proposalId).getD c) c with
  | error e => exact ⟨rfl, rfl⟩
  | ok r =>
    refine ⟨rfl, ?_⟩
    cases io with
    | none | some e => exact Function.update_self _ _ _

theorem checkpointProductToCode_spec (s : ActionApprovalStore Body) (proposalId : String)
    (c : ProductToCodeDispatchExecutionResult) (io : Option String) :
    (s.checkpointProductToCode proposalId c none).2 =
        ProductToCodeDispatchExecutionResult.merge ((s.productToCodeResult proposalId).getD c) c ∧
      (s.checkpointProductToCode proposalId c io).1.productToCodeResult proposalId =
        register ProductToCodeDispatchExecutionResult.merge (s.productToCodeResult proposalId)
          c := by
  unfold checkpointProductToCode productToCodeResult register
  rw [checkpointProductToCodeResult, mergeProductToCodeCheckpoint_eq]
  cases ProductToCodeDispatchExecutionResult.merge
    ((s.data.productToCodeResults proposalId).getD c) c with
  | error e => exact ⟨rfl, rfl⟩
  | ok r =>
    refine ⟨rfl, ?_⟩
    cases io with
    | none | some e => exact Function.update_self _ _ _

/-- Calls that answer with the merge, and store it in the register. -/
structure Registers {S ρ : Type} (merge : ρ → ρ → Except String ρ) (result : S → Option ρ)
    (checkpoint : S → ρ → Option String → S × Except String ρ) : Prop where
  answers : ∀ s c, (checkpoint s c none).2 = merge ((result s).getD c) c
  takes : ∀ s c io, result (checkpoint s c io).1 = register merge (result s) c

theorem ticketGraph_registers (proposalId : String) :
    Registers merge (S := ActionApprovalStore Body)
      (·.ticketGraphResult proposalId) (·.checkpointTicketGraph proposalId) where
  answers := fun s c => (checkpointTicketGraph_spec s proposalId c none).1
  takes := fun s c io => (checkpointTicketGraph_spec s proposalId c io).2

theorem productToCode_registers (proposalId : String) :
    Registers ProductToCodeDispatchExecutionResult.merge (S := ActionApprovalStore Body)
      (·.productToCodeResult proposalId) (·.checkpointProductToCode proposalId) where
  answers := fun s c => (checkpointProductToCode_spec s proposalId c none).1
  takes := fun s c io => (checkpointProductToCode_spec s proposalId c io).2

section
variable {ρ F : Type} {merge : ρ → ρ → Except String ρ} {facts : ρ → Set F} {Agree : F → F → Prop}
  {status : ρ → String} {stored : Option ρ} {cs : List ρ} {r : ρ}

theorem status_cases (hm : Merges merge facts Agree)
    (hstatus : ∀ {r c r'}, merge r c = .ok r' → status r' = "completed" ∨ status r' = status r)
    (hr : registerAll merge stored cs = some r) :
    ∃ m, stored.or cs.head? = some m ∧ (status r = "completed" ∨ status r = status m) := by
  have hs : ∀ (m : ρ) {r c r' : ρ}, merge r c = .ok r' →
      (status r = "completed" ∨ status r = status m) →
        status r' = "completed" ∨ status r' = status m := by
    intro m r c r' hmerge hcase
    rcases hstatus hmerge with h | h
    · exact .inl h
    · rw [h]
      exact hcase
  cases stored with
  | some m =>
    exact ⟨m, rfl, registerAll_keeps
      (P := fun q => status q = "completed" ∨ status q = status m) (hs m) (.inr rfl) hr⟩
  | none =>
    cases cs with
    | nil => cases hr
    | cons c cs =>
      obtain ⟨q, hq, hreg, -⟩ := hm.register_none c
      have hr' : registerAll merge (register merge none c) cs = some r := hr
      rw [hreg] at hr'
      exact ⟨c, rfl, registerAll_keeps
        (P := fun q => status q = "completed" ∨ status q = status c) (hs c) (hstatus hq) hr'⟩

theorem exists_orders (hm : Merges merge facts Agree) {ds : List ρ} (hmem : ∀ c, c ∈ cs ↔ c ∈ ds)
    (hr : registerAll merge stored cs = some r) :
    ∃ r', registerAll merge stored ds = some r' := by
  refine hm.exists_registerAll ?_
  cases stored with
  | some q => rfl
  | none =>
    cases cs with
    | nil => cases hr
    | cons c cs =>
      have hin := (hmem c).mp mem_cons_self
      cases ds with
      | nil => cases hin
      | cons d ds => rfl

theorem status_orders (hm : Merges merge facts Agree)
    (hstatus : ∀ {r c r'}, merge r c = .ok r' → status r' = "completed" ∨ status r' = status r)
    {ds : List ρ} (hmem : ∀ c, c ∈ cs ↔ c ∈ ds) {r' : ρ} (hr : registerAll merge stored cs = some r)
    (hr' : registerAll merge stored ds = some r')
    (hdone : status r = "completed" ↔ status r' = "completed") (hone : OneStatus status cs) :
    status r = status r' := by
  obtain ⟨m, hfirst, hcase⟩ := status_cases hm hstatus hr
  obtain ⟨m', hfirst', hcase'⟩ := status_cases hm hstatus hr'
  by_cases hc : status r = "completed"
  · rw [hc, hdone.mp hc]
  · have hc' : ¬ status r' = "completed" := fun h => hc (hdone.mpr h)
    have hrm : status r = status m := hcase.resolve_left hc
    have hrm' : status r' = status m' := hcase'.resolve_left hc'
    rw [hrm, hrm']
    cases stored with
    | some q =>
      cases hfirst
      cases hfirst'
      rfl
    | none =>
      have hin : m ∈ cs := mem_of_head? hfirst
      have hin' : m' ∈ cs := (hmem m').mpr (mem_of_head? hfirst')
      rw [hrm] at hc
      rw [hrm'] at hc'
      exact hone m hin m' hin' hc hc'

namespace Registers

variable {S : Type} {result : S → Option ρ}
  {checkpoint : S → ρ → Option String → S × Except String ρ} (h : Registers merge result checkpoint)

include h

theorem run (s : S) (calls : List (ρ × Option String)) :
    result (calls.foldl (fun s call => (checkpoint s call.1 call.2).1) s) =
      registerAll merge (result s) (calls.map Prod.fst) := by
  induction calls generalizing s with
  | nil => rfl
  | cons call calls ih =>
    rw [foldl_cons, ih, h.takes]
    rfl

theorem grow {E : ρ → ρ → Prop} (refl : ∀ r, E r r) (trans : ∀ {a b c}, E a b → E b c → E a c)
    (hmerge : ∀ {r c r'}, merge r c = .ok r' → E r r') {s : S} {calls : List (ρ × Option String)}
    (more : List (ρ × Option String))
    (hr : result (calls.foldl (fun s call => (checkpoint s call.1 call.2).1) s) = some r) :
    ∃ r', result ((calls ++ more).foldl (fun s call => (checkpoint s call.1 call.2).1) s) = some r' ∧
      E r r' := by
  rw [h.run] at hr
  rw [h.run, map_append, registerAll_append, hr]
  exact registerAll_extends _ refl trans hmerge r _

theorem refuses {s : S} {c : ρ} {e : String} (he : (checkpoint s c none).2 = .error e)
    (io : Option String) : result (checkpoint s c io).1 = result s := by
  rw [h.answers] at he
  rw [h.takes, register, he]

theorem orders (hm : Merges merge facts Agree)
    (hstatus : ∀ {r c r'}, merge r c = .ok r' → status r' = "completed" ∨ status r' = status r)
    {d : F} (hdone : ∀ r, d ∈ facts r ↔ status r = "completed") {s : S}
    {calls calls' : List (ρ × Option String)}
    (hperm : (calls.map Prod.fst).Perm (calls'.map Prod.fst))
    (hagree : ∀ c ∈ calls.map Prod.fst, ∀ d ∈ calls.map Prod.fst,
      Consistent Agree (facts c) (facts d))
    (hr : result (calls.foldl (fun s call => (checkpoint s call.1 call.2).1) s) = some r) :
    ∃ r', result (calls'.foldl (fun s call => (checkpoint s call.1 call.2).1) s) = some r' ∧
      (∀ f, f ∈ facts r ↔ f ∈ facts r') ∧
        (OneStatus status (calls.map Prod.fst) → status r = status r') := by
  have hmem : ∀ c, c ∈ calls.map Prod.fst ↔ c ∈ calls'.map Prod.fst := fun c => hperm.mem_iff
  rw [h.run] at hr
  obtain ⟨r', hr'⟩ := exists_orders hm hmem hr
  have hfacts : facts r = facts r' := hm.facts_eq_of_mem_iff hmem hagree hr hr'
  refine ⟨r', (h.run s calls').trans hr', fun f => by rw [hfacts], fun hone => ?_⟩
  have hcompleted : status r = "completed" ↔ status r' = "completed" := by
    rw [← hdone, ← hdone, hfacts]
  exact status_orders hm hstatus hmem hr hr' hcompleted hone

end Registers

end

section
variable (s : ActionApprovalStore Body) (proposalId : String)

theorem ticketGraphResult_run (calls : List (TicketGraphApplyExecutionResult × Option String)) :
    (s.checkpointTicketGraphs proposalId calls).ticketGraphResult proposalId =
      registerAll merge (s.ticketGraphResult proposalId) (calls.map Prod.fst) :=
  (ticketGraph_registers proposalId).run s calls

variable {io : Option String}

theorem ticketGraphs_distinct (hs : s.ticketGraphResult proposalId = none)
    {first r : TicketGraphApplyExecutionResult}
    {calls : List (TicketGraphApplyExecutionResult × Option String)}
    (hr : (s.checkpointTicketGraphs proposalId ((first, io) :: calls)).ticketGraphResult
      proposalId = some r) :
    (first.createdTicketIds.Nodup → r.createdTicketIds.Nodup) ∧
      (first.createdDependencyEdges.Nodup → r.createdDependencyEdges.Nodup) := by
  rw [ticketGraphResult_run, hs] at hr
  obtain ⟨m, hm, hreg, -⟩ := merges_by.merges.register_none first
  have hr' : registerAll merge (register merge none first) (calls.map Prod.fst) = some r := hr
  rw [hreg] at hr'
  have hstart := merge_distinct hm
  constructor
  · intro hfirst
    exact registerAll_keeps (P := fun q => q.createdTicketIds.Nodup)
      (fun hmerge => (merge_distinct hmerge).1)
      (hstart.1 hfirst) hr'
  · intro hfirst
    exact registerAll_keeps (P := fun q => q.createdDependencyEdges.Nodup)
      (fun hmerge => (merge_distinct hmerge).2)
      (hstart.2 hfirst) hr'

theorem ticketGraphs_replay {before after : List (TicketGraphApplyExecutionResult × Option String)}
    {c m r : TicketGraphApplyExecutionResult}
    (hm : ((s.checkpointTicketGraphs proposalId before).checkpointTicketGraph proposalId c none).2 =
      .ok m)
    (hr : (s.checkpointTicketGraphs proposalId (before ++ (c, io) :: after)).ticketGraphResult
      proposalId = some r) : merge r c = .ok r := by
  rw [(checkpointTicketGraph_spec _ proposalId c none).1, ticketGraphResult_run] at hm
  rw [ticketGraphResult_run, map_append, map_cons] at hr
  have hsub := merges_by.merges.accepted_subset hm hr
  -- Whatever came in last, a merged result is not marked as a replay.
  have hmerged : ∀ {q d q' : TicketGraphApplyExecutionResult},
      merge q d = .ok q' → q'.idempotentReplay = false := by
    intro q d q' hq
    obtain ⟨-, -, hq'⟩ := merge_ok hq
    rw [hq']
  rw [registerAll_append] at hr
  have hr' : registerAll merge (register merge (registerAll merge (s.ticketGraphResult proposalId)
          (before.map Prod.fst)) c) (after.map Prod.fst) = some r := hr
  rw [register_ok hm] at hr'
  exact merge_absorbed hsub
    (registerAll_keeps (P := fun q => q.idempotentReplay = false) (fun hq _ => hmerged hq)
      (hmerged hm) hr')

theorem ticketGraphs_join : TicketGraphsJoin s proposalId where
  grows := fun calls more r hr => by
    obtain ⟨r', hr', hext⟩ := (ticketGraph_registers proposalId).grow
      TicketGraphApplyExecutionResult.Extends.refl (fun hab hbc => hab.trans hbc)
      merge_extends more hr
    exact ⟨r', hr', hext.nodes, hext.tickets, hext.edges, hext.completed⟩
  distinct := fun hs first io calls r hr => ticketGraphs_distinct s proposalId hs hr
  replays := fun before c io after m r hm hr s' hs' => by
    have hmerge := ticketGraphs_replay s proposalId hm hr
    rw [← hs'] at hr
    obtain ⟨hanswer, -⟩ := checkpointTicketGraph_spec s' proposalId c none
    rw [hr, Option.getD_some, hmerge] at hanswer
    refine ⟨hanswer, fun io' => ?_⟩
    rw [(checkpointTicketGraph_spec s' proposalId c io').2, hr]
    exact register_ok hmerge
  refuses := fun _ _ _ _ _ he io => (ticketGraph_registers proposalId).refuses he io
  orders := fun calls calls' hperm hagree r hr => by
    obtain ⟨r', hr', hiff, hstatus⟩ := (ticketGraph_registers proposalId).orders
      merges_by.merges merges_by.completed_or_kept
      (d := .completed) (fun _ => .rfl) hperm (fun c hc d hd =>
        (Reading.consistent_iff _ c d).mpr ((compatible_iff c d).mpr (hagree c hc d hd))) hr
    refine ⟨r', hr', fun n => ?_, fun t => hiff (.item (.ticket t)),
      fun e => hiff (.item (.edge e)), hstatus⟩
    exact Option.ext fun t => hiff (.item (.node n t))

end

section
open ProductToCodeDispatchExecutionResult

variable (s : ActionApprovalStore Body) (proposalId : String)

theorem productToCodeResult_run
    (calls : List (ProductToCodeDispatchExecutionResult × Option String)) :
    (s.checkpointProductToCodes proposalId calls).productToCodeResult proposalId =
      registerAll ProductToCodeDispatchExecutionResult.merge (s.productToCodeResult proposalId)
        (calls.map Prod.fst) :=
  (productToCode_registers proposalId).run s calls

theorem dispatches_distinct (hs : s.productToCodeResult proposalId = none)
    {first r : ProductToCodeDispatchExecutionResult}
    {calls : List (ProductToCodeDispatchExecutionResult × Option String)}
    (hr : (s.checkpointProductToCodes proposalId ((first, io) :: calls)).productToCodeResult
      proposalId = some r) (hfirst : first.ticketIds.Nodup) : r.ticketIds.Nodup := by
  rw [productToCodeResult_run, hs] at hr
  obtain ⟨m, hm, hreg, -⟩ := merges_by.merges.register_none first
  have hr' : registerAll ProductToCodeDispatchExecutionResult.merge
      (register ProductToCodeDispatchExecutionResult.merge none first) (calls.map Prod.fst) =
        some r := hr
  rw [hreg] at hr'
  exact registerAll_keeps (P := fun q => q.ticketIds.Nodup)
    ProductToCodeDispatchExecutionResult.merge_distinct
    (ProductToCodeDispatchExecutionResult.merge_distinct hm hfirst) hr'

theorem dispatches_replay
    {before after : List (ProductToCodeDispatchExecutionResult × Option String)}
    {c m r : ProductToCodeDispatchExecutionResult}
    (hm : ((s.checkpointProductToCodes proposalId before).checkpointProductToCode proposalId c
      none).2 = .ok m)
    (hr : (s.checkpointProductToCodes proposalId (before ++ (c, io) :: after)).productToCodeResult
      proposalId = some r) :
    ∃ r', merge r c = .ok r' ∧ r'.dispatched = r.dispatched ∧ r'.status = r.status := by
  rw [(checkpointProductToCode_spec _ proposalId c none).1, productToCodeResult_run] at hm
  rw [productToCodeResult_run, map_append, map_cons] at hr
  exact merge_absorbed (merges_by.merges.accepted_subset hm hr)

theorem dispatches_join : DispatchesJoin s proposalId where
  grows := fun calls more r hr => by
    obtain ⟨r', hr', hext⟩ := (productToCode_registers proposalId).grow
      Extends.refl (fun hab hbc => hab.trans hbc)
      merge_extends more hr
    exact ⟨r', hr', hext.tickets, hext.completed⟩
  distinct := fun hs first io calls r hr => dispatches_distinct s proposalId hs hr
  replays := fun before c io after m r hm hr s' hs' => by
    obtain ⟨r', hmerge, hdispatched, hstatus⟩ := dispatches_replay s proposalId hm hr
    rw [← hs'] at hr
    obtain ⟨hanswer, -⟩ := checkpointProductToCode_spec s' proposalId c none
    rw [hr, Option.getD_some, hmerge] at hanswer
    refine ⟨r', hanswer, fun io' => ?_, ?_, hstatus⟩
    · rw [(checkpointProductToCode_spec s' proposalId c io').2, hr]
      exact register_ok hmerge
    · rw [ticketIds, hdispatched]
      rfl
  refuses := fun _ _ _ _ _ he io => (productToCode_registers proposalId).refuses he io
  orders := fun calls calls' hperm hagree r hr => by
    obtain ⟨r', hr', hiff, hstatus⟩ := (productToCode_registers proposalId).orders
      merges_by.merges merges_by.completed_or_kept (d := .completed) (fun _ => .rfl) hperm
      (fun c hc d hd =>
        (Reading.consistent_iff _ c d).mpr ((compatible_iff c d).mpr (hagree c hc d hd))) hr
    exact ⟨r', hr', fun t => hiff (.item t), hstatus⟩

end

/-- The checkpoints of a proposal merge like a join, from any state of the store. -/
theorem checkpoints_join (s : ActionApprovalStore Body) (proposalId : String) :
    TicketGraphsJoin s proposalId ∧ DispatchesJoin s proposalId :=
  ⟨ticketGraphs_join s proposalId, dispatches_join s proposalId⟩

def bare (status : String) : TicketGraphApplyExecutionResult :=
  { executionId := "exec-1", graphId := "graph-1", graphNodeToTicketId := ∅
    createdTicketIds := [], createdDependencyEdges := [], idempotentReplay := false, status }

def lastStatus (first second : TicketGraphApplyExecutionResult) : Option String :=
  (((World.start : World Unit).store.checkpointTicketGraphs "act-1"
    [(first, none), (second, none)]).ticketGraphResult "act-1").map status

/-- Two checkpoints that agree, and are not completed, end in the status of the first. -/
theorem not_one_status : GraphsAgree [bare "executing", bare "paused"] ∧
    lastStatus (bare "executing") (bare "paused") ≠
      lastStatus (bare "paused") (bare "executing") := by
  refine ⟨fun c hc d hd => ?_, by decide⟩
  have hbare : ∀ r ∈ [bare "executing", bare "paused"], ∃ status, r = bare status := by
    intro r hr
    rcases mem_cons.mp hr with h | h
    · exact ⟨_, h⟩
    · exact ⟨_, mem_singleton.mp h⟩
  obtain ⟨st, rfl⟩ := hbare c hc
  obtain ⟨st', rfl⟩ := hbare d hd
  refine ⟨⟨rfl, rfl⟩, fun n t u ht => ?_⟩
  have hn : (bare st).graphNodeToTicketId[n]? = none := Std.TreeMap.getElem?_emptyc
  cases ht

end ActionApprovalStore

end RatKingdom.Factory
