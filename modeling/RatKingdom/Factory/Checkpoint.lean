/-
What is stored of an execution that is checkpointed in pieces.

A checkpoint says facts: the execution and the graph it belongs to, tickets of nodes,
tickets and edges that were created, workflows that were dispatched, and that everything is
done.  Its merge is refused where it contradicts the stored result, and adds its facts
otherwise, so the stored result is the union of the checkpoints that went in
(`checkpoints_join`).
-/
import RatKingdom.Factory.Spent
import RatKingdom.Lib.Facts
import RatKingdom.Lib.First

namespace RatKingdom.Factory

open Lib List ProductToCodeDispatchedWorkflow

/-- How a kind of result is read: what it is bound to, its status, and the items it lists. -/
structure Reading (ρ κ : Type) where
  bound : ρ → String × String
  status : ρ → String
  Lists : ρ → κ → Prop
  Agree : κ → κ → Prop

/-- What a result can say. -/
inductive Fact (κ : Type) where
  | bound (ids : String × String)
  | item (k : κ)
  | completed

namespace Reading

variable {ρ κ : Type} (d : Reading ρ κ)

def Says (r : ρ) : Fact κ → Prop
  | .bound ids => d.bound r = ids
  | .item k => d.Lists r k
  | .completed => d.status r = "completed"

def facts (r : ρ) : Set (Fact κ) := {f | d.Says r f}

/-- Two facts that can stand in one result. -/
def FactsAgree : Fact κ → Fact κ → Prop
  | .bound ids, .bound ids' => ids = ids'
  | .item k, .item k' => d.Agree k k'
  | _, _ => True

def Compatible (r c : ρ) : Prop :=
  d.bound r = d.bound c ∧ ∀ k k', d.Lists r k → d.Lists c k' → d.Agree k k'

theorem consistent_iff (r c : ρ) :
    Consistent d.FactsAgree (d.facts r) (d.facts c) ↔ d.Compatible r c := by
  constructor
  · intro h
    exact ⟨h (.bound (d.bound r)) rfl (.bound (d.bound c)) rfl,
      fun k k' hk hk' => h (.item k) hk (.item k') hk'⟩
  · intro ⟨hbound, hitems⟩ f hf f' hf'
    cases f with
    | bound ids =>
      cases f' with
      | bound ids' => exact hf.symm.trans (hbound.trans hf')
      | _ => trivial
    | item k =>
      cases f' with
      | item k' => exact hitems k k' hf hf'
      | _ => trivial
    | completed => trivial

/-- A merge that is refused where the two results are not compatible, and lists and completes
what either of them does. -/
structure MergesBy (merge : ρ → ρ → Except String ρ) : Prop where
  sound : ∀ r, d.Compatible r r
  accepts : ∀ r c, (∃ r', merge r c = .ok r') ↔ d.Compatible r c
  bound : ∀ {r c r'}, merge r c = .ok r' → d.bound r' = d.bound r
  lists : ∀ {r c r'}, merge r c = .ok r' → ∀ k, d.Lists r' k ↔ d.Lists r k ∨ d.Lists c k
  status : ∀ {r c r'}, merge r c = .ok r' →
    d.status r' = if d.status c = "completed" then d.status c else d.status r

namespace MergesBy

variable {d} {merge : ρ → ρ → Except String ρ} (hd : d.MergesBy merge) {r c r' : ρ}

include hd

theorem merges : Merges merge d.facts d.FactsAgree where
  sound := fun r => (d.consistent_iff r r).mpr (hd.sound r)
  accepts := fun r c => (hd.accepts r c).trans (d.consistent_iff r c).symm
  join := by
    intro r c r' h
    have hbound : d.bound r = d.bound c := ((hd.accepts r c).mp ⟨r', h⟩).1
    ext f
    cases f with
    | bound ids =>
      show d.bound r' = ids ↔ d.bound r = ids ∨ d.bound c = ids
      rw [hd.bound h, ← hbound, or_self]
    | item k => exact hd.lists h k
    | completed =>
      show d.status r' = "completed" ↔ d.status r = "completed" ∨ d.status c = "completed"
      rw [hd.status h]
      by_cases hc : d.status c = "completed" <;> simp [hc]

theorem mergeable_iff {stored : Option ρ} :
    (∃ r', merge (stored.getD c) c = .ok r') ↔ ∀ r, stored = some r → d.Compatible r c := by
  rw [hd.accepts]
  cases stored with
  | none => exact iff_of_true (hd.sound c) fun r hr => (by cases hr)
  | some q => simp only [Option.getD_some, Option.some.injEq, forall_eq']

theorem said (h : merge r c = .ok r') {f : Fact κ} (hf : d.Says r f) : d.Says r' f := by
  show f ∈ d.facts r'
  rw [hd.merges.join r c r' h]
  exact .inl hf

theorem said_of_self (h : merge r c = .ok r) {f : Fact κ} (hf : d.Says c f) : d.Says r f := by
  show f ∈ d.facts r
  rw [hd.merges.join r c r h]
  exact .inr hf

theorem completed_or_kept (h : merge r c = .ok r') :
    d.status r' = "completed" ∨ d.status r' = d.status r := by
  rw [hd.status h]
  by_cases hc : d.status c = "completed" <;> simp [hc]

theorem status_absorbed (h : merge r c = .ok r') (hsub : d.facts c ⊆ d.facts r) :
    d.status r' = d.status r := by
  rw [hd.status h]
  by_cases hc : d.status c = "completed"
  · have hdone : d.status r = "completed" := hsub (show Fact.completed ∈ d.facts c from hc)
    rw [if_pos hc, hc, hdone]
  · rw [if_neg hc]

end MergesBy

end Reading

theorem stored_iff {ρ : Type} {merge : ρ → ρ → Except String ρ} {Absorbs : ρ → Prop}
    {stored : Option ρ} {c r : ρ} (hself : ∀ q, merge q c = .ok q ↔ Absorbs q)
    (hr : merge (stored.getD c) c = .ok r) : stored = some r ↔ ∃ q, stored = some q ∧ Absorbs q := by
  constructor
  · intro h
    rw [h, Option.getD_some] at hr
    exact ⟨r, h, (hself r).mp hr⟩
  · intro ⟨q, hq, habs⟩
    rw [hq, Option.getD_some, (hself q).mpr habs] at hr
    cases hr
    exact hq

theorem pushNew_eq {α : Type} [DecidableEq α] : @pushNew α _ = pushFirst id := by
  funext xs x
  by_cases h : x ∈ xs
  · simp [pushNew, pushFirst, h]
  · simp [pushNew, pushFirst, h]

theorem mergeNode_iff (merged : Std.TreeMap String String) (node : String × String) :
    (∃ m, mergeNode merged node = .ok m) ↔ ∀ t, merged[node.1]? = some t → t = node.2 := by
  cases h : merged[node.1]? with
  | none => simp [mergeNode, h]
  | some existing =>
    by_cases he : existing = node.2
    · simp [mergeNode, h, he]
    · simp [mergeNode, h, he]

theorem mem_mergeNode {merged m : Std.TreeMap String String} {node : String × String}
    (h : mergeNode merged node = .ok m) (n t : String) :
    m[n]? = some t ↔ merged[n]? = some t ∨ (n, t) = node := by
  obtain ⟨k, v⟩ := node
  unfold mergeNode at h
  cases hk : merged[k]? with
  | none =>
    rw [hk] at h
    cases h
    rw [Std.TreeMap.getElem?_insert, Prod.mk.injEq]
    by_cases hkn : k = n
    · subst hkn
      simp [hk, eq_comm]
    · have hnk : ¬ n = k := fun h => hkn h.symm
      simp [hkn, hnk]
  | some existing =>
    rw [hk] at h
    by_cases he : existing = v
    · simp only [he, ne_eq, not_true_eq_false, if_false] at h
      cases h
      constructor
      · exact .inl
      · intro hor
        rcases hor with hor | hor
        · exact hor
        · cases hor
          rw [hk, he]
    · simp [he] at h

theorem mem_mergeNodes {nodes : List (String × String)} {merged m : Std.TreeMap String String}
    (h : nodes.foldlM mergeNode merged = .ok m) (n t : String) :
    m[n]? = some t ↔ merged[n]? = some t ∨ (n, t) ∈ nodes := by
  induction nodes generalizing merged with
  | nil =>
    cases h
    simp
  | cons node nodes ih =>
    rw [foldlM_cons] at h
    cases hm : mergeNode merged node with
    | error e =>
      rw [hm] at h
      cases h
    | ok m' =>
      rw [hm] at h
      rw [ih h, mem_mergeNode hm, mem_cons, or_assoc]

theorem mergeNodes_iff {nodes : List (String × String)}
    (hfun : ∀ p ∈ nodes, ∀ q ∈ nodes, p.1 = q.1 → p.2 = q.2) (merged : Std.TreeMap String String) :
    (∃ m, nodes.foldlM mergeNode merged = .ok m) ↔
      ∀ node ∈ nodes, ∀ t, merged[node.1]? = some t → t = node.2 := by
  induction nodes generalizing merged with
  | nil => simp [foldlM_nil, pure, Except.pure]
  | cons node nodes ih =>
    rw [foldlM_cons]
    have hrest : ∀ p ∈ nodes, ∀ q ∈ nodes, p.1 = q.1 → p.2 = q.2 :=
      fun p hp q hq => hfun p (mem_cons_of_mem _ hp) q (mem_cons_of_mem _ hq)
    cases hm : mergeNode merged node with
    | error e =>
      have hno : ¬ ∃ m, mergeNode merged node = .ok m := by
        rw [hm]
        simp
      rw [mergeNode_iff] at hno
      constructor
      · intro ⟨m, hok⟩
        cases hok
      · intro h
        exact absurd (h node mem_cons_self) hno
    | ok m' =>
      have hnode := (mergeNode_iff merged node).mp ⟨m', hm⟩
      show (∃ m, nodes.foldlM mergeNode m' = .ok m) ↔ _
      rw [ih hrest]
      constructor
      · intro h p hp t ht
        rcases mem_cons.mp hp with rfl | hp
        · exact hnode t ht
        · exact h p hp t ((mem_mergeNode hm p.1 t).mpr (.inl ht))
      · intro h p hp t ht
        rcases (mem_mergeNode hm p.1 t).mp ht with ht | ht
        · exact h p (mem_cons_of_mem _ hp) t ht
        · cases ht
          exact hfun _ mem_cons_self p (mem_cons_of_mem _ hp) rfl

namespace TicketGraphApplyExecutionResult

def merge (merged checkpoint : TicketGraphApplyExecutionResult) :
    Except String TicketGraphApplyExecutionResult :=
  if merged.executionId ≠ checkpoint.executionId ∨ merged.graphId ≠ checkpoint.graphId then
    .error "ticket graph execution checkpoint binding mismatch"
  else
    match checkpoint.graphNodeToTicketId.toList.foldlM mergeNode merged.graphNodeToTicketId with
    | .error e => .error e
    | .ok nodes =>
      .ok { merged with
        graphNodeToTicketId := nodes
        createdTicketIds := checkpoint.createdTicketIds.foldl pushNew merged.createdTicketIds
        createdDependencyEdges :=
          checkpoint.createdDependencyEdges.foldl pushNew merged.createdDependencyEdges
        status := if checkpoint.status = "completed" then checkpoint.status else merged.status
        idempotentReplay := false }

inductive Item where
  | node (n t : String)
  | ticket (t : String)
  | edge (e : TicketGraphAppliedEdge)

def reading : Reading TicketGraphApplyExecutionResult Item where
  bound r := (r.executionId, r.graphId)
  status := status
  Lists r
    | .node n t => r.graphNodeToTicketId[n]? = some t
    | .ticket t => t ∈ r.createdTicketIds
    | .edge e => e ∈ r.createdDependencyEdges
  Agree
    | .node n t, .node n' t' => n = n' → t = t'
    | _, _ => True

def Says (r : TicketGraphApplyExecutionResult) : Fact Item → Prop := reading.Says r

theorem compatible_iff (r c : TicketGraphApplyExecutionResult) :
    reading.Compatible r c ↔ (r.executionId = c.executionId ∧ r.graphId = c.graphId) ∧
        ∀ n t u : String, r.graphNodeToTicketId[n]? = some t →
          c.graphNodeToTicketId[n]? = some u → t = u := by
  refine and_congr (Prod.mk.injEq _ _ _ _ ▸ Iff.rfl) ⟨fun h n t u ht hu => ?_, fun h k k' hk hk' => ?_⟩
  · exact h (.node n t) (.node n u) ht hu rfl
  · cases k with
    | node n t =>
      cases k' with
      | node n' t' =>
        rintro rfl
        exact h n t t' hk hk'
      | _ => trivial
    | _ => trivial

theorem toList_functional (m : Std.TreeMap String String) :
    ∀ p ∈ m.toList, ∀ q ∈ m.toList, p.1 = q.1 → p.2 = q.2 := by
  intro ⟨n, t⟩ hp ⟨n', u⟩ hq hn
  rw [Std.TreeMap.mem_toList_iff_getElem?_eq_some] at hp hq
  dsimp only at hn ⊢
  rw [← hn, hp] at hq
  exact Option.some.inj hq

theorem merge_iff (r c : TicketGraphApplyExecutionResult) :
    (∃ r', merge r c = .ok r') ↔ reading.Compatible r c := by
  rw [compatible_iff]
  have hnodes := mergeNodes_iff (toList_functional c.graphNodeToTicketId) r.graphNodeToTicketId
  have hpairs : (∀ node ∈ c.graphNodeToTicketId.toList, ∀ t : String,
      r.graphNodeToTicketId[node.1]? = some t → t = node.2) ↔
        ∀ n t u : String, r.graphNodeToTicketId[n]? = some t →
          c.graphNodeToTicketId[n]? = some u → t = u := by
    constructor
    · intro h n t u ht hu
      exact h (n, u) (Std.TreeMap.mem_toList_iff_getElem?_eq_some.mpr hu) t ht
    · intro h ⟨n, u⟩ hu t ht
      exact h n t u ht (Std.TreeMap.mem_toList_iff_getElem?_eq_some.mp hu)
  rw [hpairs] at hnodes
  rw [← hnodes, merge]
  by_cases hb : r.executionId ≠ c.executionId ∨ r.graphId ≠ c.graphId
  · rw [if_pos hb]
    constructor
    · intro ⟨r', h⟩
      cases h
    · intro ⟨⟨he, hg⟩, _⟩
      rcases hb with hb | hb
      · exact absurd he hb
      · exact absurd hg hb
  · rw [if_neg hb]
    push Not at hb
    cases c.graphNodeToTicketId.toList.foldlM mergeNode r.graphNodeToTicketId with
    | error e => simp
    | ok nodes => simp [hb]

variable {c r r' : TicketGraphApplyExecutionResult}

theorem merge_ok (h : merge r c = .ok r') :
    (r.executionId = c.executionId ∧ r.graphId = c.graphId) ∧
      c.graphNodeToTicketId.toList.foldlM mergeNode r.graphNodeToTicketId =
        .ok r'.graphNodeToTicketId ∧
      r' = { r with
        graphNodeToTicketId := r'.graphNodeToTicketId
        createdTicketIds := c.createdTicketIds.foldl (pushFirst id) r.createdTicketIds
        createdDependencyEdges :=
          c.createdDependencyEdges.foldl (pushFirst id) r.createdDependencyEdges
        status := if c.status = "completed" then c.status else r.status
        idempotentReplay := false } := by
  unfold merge at h
  by_cases hb : r.executionId ≠ c.executionId ∨ r.graphId ≠ c.graphId
  · rw [if_pos hb] at h
    cases h
  · rw [if_neg hb] at h
    push Not at hb
    cases hm : c.graphNodeToTicketId.toList.foldlM mergeNode r.graphNodeToTicketId with
    | error e =>
      rw [hm] at h
      cases h
    | ok nodes =>
      rw [hm] at h
      cases h
      refine ⟨hb, rfl, ?_⟩
      rw [pushNew_eq, pushNew_eq]

theorem merges_by : reading.MergesBy merge where
  sound r := (compatible_iff r r).mpr
    ⟨⟨rfl, rfl⟩, fun _ _ _ ht hu => Option.some.inj (ht.symm.trans hu)⟩
  accepts := merge_iff
  bound h := by
    obtain ⟨-, -, hr'⟩ := merge_ok h
    rw [hr']
    rfl
  status h := by
    obtain ⟨-, -, hr'⟩ := merge_ok h
    rw [hr']
    rfl
  lists := by
    intro r c r' h k
    obtain ⟨-, hnodes, hr'⟩ := merge_ok h
    cases k with
    | node n t =>
      show r'.graphNodeToTicketId[n]? = some t ↔ r.graphNodeToTicketId[n]? = some t ∨
        c.graphNodeToTicketId[n]? = some t
      rw [mem_mergeNodes hnodes, Std.TreeMap.mem_toList_iff_getElem?_eq_some]
    | ticket t =>
      rw [hr']
      show t ∈ c.createdTicketIds.foldl (pushFirst id) r.createdTicketIds ↔ _
      have hm := mem_keys_pushAll id r.createdTicketIds c.createdTicketIds t
      rw [map_id, map_id, map_id] at hm
      exact hm
    | edge e =>
      rw [hr']
      show e ∈ c.createdDependencyEdges.foldl (pushFirst id) r.createdDependencyEdges ↔ _
      have hm := mem_keys_pushAll id r.createdDependencyEdges c.createdDependencyEdges e
      rw [map_id, map_id, map_id] at hm
      exact hm

structure Extends (r r' : TicketGraphApplyExecutionResult) : Prop where
  nodes : ∀ n t : String, r.graphNodeToTicketId[n]? = some t → r'.graphNodeToTicketId[n]? = some t
  tickets : r.createdTicketIds <+: r'.createdTicketIds
  edges : r.createdDependencyEdges <+: r'.createdDependencyEdges
  completed : r.status = "completed" → r'.status = "completed"

theorem Extends.refl (r : TicketGraphApplyExecutionResult) : r.Extends r :=
  ⟨fun _ _ h => h, prefix_refl _, prefix_refl _, fun h => h⟩

theorem Extends.trans {a b : TicketGraphApplyExecutionResult} (hab : a.Extends b)
    (hbc : b.Extends c) : a.Extends c :=
  ⟨fun n t h => hbc.nodes n t (hab.nodes n t h), hab.tickets.trans hbc.tickets,
    hab.edges.trans hbc.edges, fun h => hbc.completed (hab.completed h)⟩

theorem merge_extends (h : merge r c = .ok r') : r.Extends r' := by
  obtain ⟨-, -, hr'⟩ := merge_ok h
  refine ⟨fun n t => merges_by.said h (f := .item (.node n t)), ?_, ?_,
    merges_by.said h (f := .completed)⟩
  · rw [hr']
    exact prefix_pushAll id r.createdTicketIds c.createdTicketIds
  · rw [hr']
    exact prefix_pushAll id r.createdDependencyEdges c.createdDependencyEdges

theorem merge_distinct (h : merge r c = .ok r') :
    (r.createdTicketIds.Nodup → r'.createdTicketIds.Nodup) ∧
      (r.createdDependencyEdges.Nodup → r'.createdDependencyEdges.Nodup) := by
  obtain ⟨-, -, hr'⟩ := merge_ok h
  rw [hr']
  constructor
  · intro hn
    have hids : (r.createdTicketIds.map id).Nodup := by rwa [map_id]
    have hpush := nodup_pushAll id hids c.createdTicketIds
    rwa [map_id] at hpush
  · intro hn
    have hedges : (r.createdDependencyEdges.map id).Nodup := by rwa [map_id]
    have hpush := nodup_pushAll id hedges c.createdDependencyEdges
    rwa [map_id] at hpush

theorem merge_absorbed (hsub : reading.facts c ⊆ reading.facts r) (hr : r.idempotentReplay = false) :
    merge r c = .ok r := by
  obtain ⟨r', hr'⟩ := merges_by.merges.accepts_of_subset hsub
  obtain ⟨-, hnodes, heq⟩ := merge_ok hr'
  have hfacts : ∀ f, c.Says f → r.Says f := fun f hf => hsub hf
  have htickets : c.createdTicketIds.foldl (pushFirst id) r.createdTicketIds =
      r.createdTicketIds := by
    refine pushAll_eq_self id fun t ht => ?_
    rw [map_id]
    exact hfacts (.item (.ticket t)) ht
  have hedges : c.createdDependencyEdges.foldl (pushFirst id) r.createdDependencyEdges =
      r.createdDependencyEdges := by
    refine pushAll_eq_self id fun e he => ?_
    rw [map_id]
    exact hfacts (.item (.edge e)) he
  have hstatus : (if c.status = "completed" then c.status else r.status) = r.status :=
    (merges_by.status hr').symm.trans (merges_by.status_absorbed hr' hsub)
  have hmap : r'.graphNodeToTicketId = r.graphNodeToTicketId := by
    have hsame : ∀ nodes : List (String × String), (∀ p ∈ nodes,
        r.graphNodeToTicketId[p.1]? = some p.2) →
        nodes.foldlM mergeNode r.graphNodeToTicketId = .ok r.graphNodeToTicketId := by
      intro nodes
      induction nodes with
      | nil => intro _; rfl
      | cons p nodes ih =>
        intro h
        have hp : mergeNode r.graphNodeToTicketId p = .ok r.graphNodeToTicketId := by
          simp [mergeNode, h p mem_cons_self]
        rw [foldlM_cons, hp]
        exact ih fun q hq => h q (mem_cons_of_mem _ hq)
    rw [hsame] at hnodes
    · exact (Except.ok.inj hnodes).symm
    · intro ⟨n, t⟩ hp
      rw [Std.TreeMap.mem_toList_iff_getElem?_eq_some] at hp
      exact hfacts (.item (.node n t)) hp
  rw [hr', heq, htickets, hedges, hstatus, hmap, ← hr]

theorem merge_self_iff (r c : TicketGraphApplyExecutionResult) :
    merge r c = .ok r ↔ r.idempotentReplay = false ∧ ∀ f, c.Says f → r.Says f := by
  constructor
  · intro h
    obtain ⟨-, -, hr⟩ := merge_ok h
    exact ⟨by rw [hr], fun f hf => merges_by.said_of_self h hf⟩
  · intro ⟨hr, hfacts⟩
    exact merge_absorbed hfacts hr

end TicketGraphApplyExecutionResult

namespace ProductToCodeDispatchExecutionResult

def merge (merged checkpoint : ProductToCodeDispatchExecutionResult) :
    Except String ProductToCodeDispatchExecutionResult :=
  if merged.executionId ≠ checkpoint.executionId ∨ merged.graphId ≠ checkpoint.graphId then
    .error "product_to_code dispatch execution checkpoint binding mismatch"
  else
    .ok { merged with
      dispatched := checkpoint.dispatched.foldl pushDispatched merged.dispatched
      blocked := checkpoint.blocked
      status := if checkpoint.status = "completed" then checkpoint.status else merged.status
      idempotentReplay := false }

def ticketIds (r : ProductToCodeDispatchExecutionResult) : List String := r.dispatched.map ticketId

def reading : Reading ProductToCodeDispatchExecutionResult String where
  bound r := (r.executionId, r.graphId)
  status := status
  Lists r t := t ∈ r.ticketIds
  Agree _ _ := True

def Says (r : ProductToCodeDispatchExecutionResult) : Fact String → Prop := reading.Says r

theorem compatible_iff (r c : ProductToCodeDispatchExecutionResult) :
    reading.Compatible r c ↔ r.executionId = c.executionId ∧ r.graphId = c.graphId := by
  simp [Reading.Compatible, reading]

variable {c r r' : ProductToCodeDispatchExecutionResult}

theorem merge_ok (h : merge r c = .ok r') :
    (r.executionId = c.executionId ∧ r.graphId = c.graphId) ∧ r' = { r with
        dispatched := c.dispatched.foldl pushDispatched r.dispatched
        blocked := c.blocked
        status := if c.status = "completed" then c.status else r.status
        idempotentReplay := false } := by
  unfold merge at h
  by_cases hb : r.executionId ≠ c.executionId ∨ r.graphId ≠ c.graphId
  · rw [if_pos hb] at h
    cases h
  · rw [if_neg hb] at h
    push Not at hb
    cases h
    exact ⟨hb, rfl⟩

theorem merges_by : reading.MergesBy merge where
  sound r := (compatible_iff r r).mpr ⟨rfl, rfl⟩
  accepts := by
    intro r c
    rw [compatible_iff]
    constructor
    · intro ⟨r', h⟩
      exact (merge_ok h).1
    · intro ⟨he, hg⟩
      have hb : ¬ (r.executionId ≠ c.executionId ∨ r.graphId ≠ c.graphId) := by
        rw [he, hg]
        simp
      exact ⟨_, by rw [merge, if_neg hb]⟩
  bound h := by
    rw [(merge_ok h).2]
    rfl
  status h := by
    rw [(merge_ok h).2]
    rfl
  lists := by
    intro r c r' h t
    rw [(merge_ok h).2]
    exact mem_keys_pushAll ticketId r.dispatched c.dispatched t

structure Extends (r r' : ProductToCodeDispatchExecutionResult) : Prop where
  tickets : r.ticketIds <+: r'.ticketIds
  completed : r.status = "completed" → r'.status = "completed"

theorem Extends.refl (r : ProductToCodeDispatchExecutionResult) : r.Extends r :=
  ⟨prefix_refl _, fun h => h⟩

theorem Extends.trans {a b : ProductToCodeDispatchExecutionResult} (hab : a.Extends b)
    (hbc : b.Extends c) : a.Extends c :=
  ⟨hab.tickets.trans hbc.tickets, fun h => hbc.completed (hab.completed h)⟩

theorem merge_extends (h : merge r c = .ok r') : r.Extends r' := by
  obtain ⟨-, hr'⟩ := merge_ok h
  refine ⟨?_, merges_by.said h (f := .completed)⟩
  rw [hr']
  exact (prefix_pushAll ticketId r.dispatched c.dispatched).map _

theorem merge_distinct (h : merge r c = .ok r') (hn : r.ticketIds.Nodup) : r'.ticketIds.Nodup := by
  obtain ⟨-, hr'⟩ := merge_ok h
  rw [hr']
  exact nodup_pushAll ticketId hn c.dispatched

theorem merge_absorbed (hsub : reading.facts c ⊆ reading.facts r) :
    ∃ r', merge r c = .ok r' ∧ r'.dispatched = r.dispatched ∧ r'.status = r.status := by
  obtain ⟨r', hr'⟩ := merges_by.merges.accepts_of_subset hsub
  refine ⟨r', hr', ?_, merges_by.status_absorbed hr' hsub⟩
  rw [(merge_ok hr').2]
  show c.dispatched.foldl pushDispatched r.dispatched = r.dispatched
  have hfacts : ∀ f, c.Says f → r.Says f := fun f hf => hsub hf
  exact pushAll_eq_self _ fun d hd => hfacts (.item d.ticketId) (mem_map_of_mem hd)

theorem merge_self_iff (r c : ProductToCodeDispatchExecutionResult) :
    merge r c = .ok r ↔
      r.idempotentReplay = false ∧ r.blocked = c.blocked ∧ ∀ f, c.Says f → r.Says f := by
  constructor
  · intro h
    obtain ⟨-, hr⟩ := merge_ok h
    exact ⟨by rw [hr], by rw [hr], fun f hf => merges_by.said_of_self h hf⟩
  · intro ⟨hr, hblocked, hfacts⟩
    obtain ⟨r', hr', hdispatched, hstatus⟩ := merge_absorbed (r := r) (c := c) hfacts
    obtain ⟨-, heq⟩ := merge_ok hr'
    have hr'r : r' = r := by
      rw [heq] at hdispatched hstatus ⊢
      dsimp only at hdispatched hstatus
      rw [hdispatched, hstatus, ← hblocked, ← hr]
    rw [hr', hr'r]

end ProductToCodeDispatchExecutionResult

end RatKingdom.Factory
