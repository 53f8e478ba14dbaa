/-
The validation of a ticket graph and the plan that is applied from it.

The nodes are put in an order in which every ticket follows what it depends on.  If some are
left, `find_cycle` looks for a cycle from the first of them.  That node may be behind a cycle
and lead to none, and then a graph that can never be worked off passes.
-/
import Mathlib.Data.String.Basic
import RatKingdom.Core.Text
import RatKingdom.Lib.First
import RatKingdom.Lib.Kahn

namespace RatKingdom.Factory

open Core Lib Relation List Function

structure TicketGraphNode where
  id : String
  title : String
  description : String
  acceptanceCriterionIds : List String := []

structure TicketGraphEdge where
  fromId : String
  toId : String
  relationship : String

structure TicketGraph where
  id : String
  initiativeId : String
  nodes : List TicketGraphNode
  edges : List TicketGraphEdge := []

structure TicketGraphValidationReport where
  valid : Bool
  graphId : String
  initiativeId : String
  errors : List String
  warnings : List String
  topologicalOrder : List String
  cyclePath : Option (List String)

structure TicketCreateFact where
  operation : String
  stableGraphNodeId : String
  repo : String
  title : String
  description : String
  acceptanceCriterionIds : List String

structure TicketDependencyFact where
  operation : String
  blockedGraphNodeId : String
  dependencyGraphNodeId : String
  relationship : String

structure TicketGraphApplyPlan where
  topologicalOrder : List String
  creates : List TicketCreateFact
  updates : List Value
  dependencies : List TicketDependencyFact
  dispatches : List Value
  blocked : List Value

/-- `outgoing` and `indegree` while the edges are read. -/
structure Links where
  outgoing : String → List String
  indegree : String → Nat

def Links.add (s : Links) (e : TicketGraphEdge) : Links :=
  if e.toId ∈ s.outgoing e.fromId then s
  else
    { outgoing := update s.outgoing e.fromId (insertSet e.toId (s.outgoing e.fromId))
      indegree := update s.indegree e.toId (s.indegree e.toId + 1) }

namespace TicketGraph

variable (g : TicketGraph)

def links : Links := g.edges.foldl .add ⟨fun _ => [], fun _ => 0⟩

def ids : List String :=
  sortedSet (g.nodes.map (·.id) ++ g.edges.flatMap fun e => [e.fromId, e.toId])

def findCycle (start : String) : Option (List String) :=
  match dfs g.links.outgoing (g.ids.length + 1) [] [] start with
  | .ok _ => none
  | .error cycle => some cycle

def topologicalOrder : List String :=
  kahn g.links.outgoing (g.ids.length + 1)
    ⟨g.links.indegree, g.ids.filter fun id => g.links.indegree id = 0⟩ []

def topologicalOrderAndCycle : List String × Option (List String) :=
  let order := g.topologicalOrder
  if order.length = g.ids.length then (order, none)
  else (order, (g.ids.find? (· ∉ order)).bind g.findCycle)

end TicketGraph

def pushEmpty (field value : String) : List String :=
  if (trim value).isEmpty then [field ++ " must not be empty"] else []

def criterionErrors (criteria mapped : List String) : List String → List String
  | [] => []
  | criterionId :: rest =>
    (if (trim criterionId).isEmpty then ["nodes.acceptance_criterion_ids must not be empty"]
      else if criterionId ∉ criteria then ["unknown acceptance criterion " ++ criterionId]
      else []) ++
    (if criterionId ∈ mapped then ["duplicate acceptance criterion mapping " ++ criterionId]
      else []) ++
    criterionErrors criteria (criterionId :: mapped) rest

def nodeErrors (criteria mapped : List String) : List TicketGraphNode → List String
  | [] => []
  | node :: rest =>
    pushEmpty "nodes.id" node.id ++
    (if "TKT-".toList.isPrefixOf node.id.toList then
        ["graph node id " ++ node.id ++ " must not be shaped like minted ticket id TKT-*"]
      else []) ++
    pushEmpty "nodes.title" node.title ++
    pushEmpty "nodes.description" node.description ++
    criterionErrors criteria mapped node.acceptanceCriterionIds ++
    nodeErrors criteria (node.acceptanceCriterionIds ++ mapped) rest

def edgeErrors (nodeIds : List String) (edge : TicketGraphEdge) : List String :=
  (if edge.fromId ∉ nodeIds then ["edge from references unknown node " ++ edge.fromId] else []) ++
  (if edge.toId ∉ nodeIds then ["edge to references unknown node " ++ edge.toId] else []) ++
  pushEmpty "edges.relationship" edge.relationship

namespace TicketGraph

variable (g : TicketGraph) (criteria : List String)

def errors : List String :=
  let nodeIds := g.nodes.map (·.id)
  let mapped := g.nodes.flatMap (·.acceptanceCriterionIds)
  pushEmpty "id" g.id ++
  pushEmpty "initiative_id" g.initiativeId ++
  (if g.nodes.isEmpty then ["nodes must contain at least one ticket"] else []) ++
  (if nodeIds.dedup.length ≠ nodeIds.length then ["nodes.id must be unique"] else []) ++
  nodeErrors criteria [] g.nodes ++
  (criteria.dedup.filter (· ∉ mapped)).map ("missing acceptance criterion mapping " ++ ·) ++
  g.edges.flatMap (edgeErrors nodeIds) ++
  match g.topologicalOrderAndCycle.2 with
  | some path => ["cycle path " ++ String.intercalate " -> " path]
  | none => []

def validationReport : TicketGraphValidationReport :=
  { valid := (g.errors criteria).isEmpty
    graphId := g.id
    initiativeId := g.initiativeId
    errors := g.errors criteria
    warnings := []
    topologicalOrder := g.topologicalOrderAndCycle.1
    cyclePath := g.topologicalOrderAndCycle.2 }

end TicketGraph

def TicketGraphNode.create (repo : String) (node : TicketGraphNode) : TicketCreateFact :=
  { operation := "ticket.create"
    stableGraphNodeId := node.id
    repo
    title := node.title
    description := node.description
    acceptanceCriterionIds := node.acceptanceCriterionIds }

def TicketGraphEdge.dependency (edge : TicketGraphEdge) : TicketDependencyFact :=
  { operation := "ticket.dep.add"
    blockedGraphNodeId := edge.toId
    dependencyGraphNodeId := edge.fromId
    relationship := edge.relationship }

def TicketGraphApplyPlan.fromGraph (g : TicketGraph) (repo : String)
    (topologicalOrder : List String) : TicketGraphApplyPlan :=
  { topologicalOrder
    creates := (topologicalOrder.filterMap fun id => g.nodes.find? fun node => node.id = id).map
      (·.create repo)
    updates := []
    dependencies := g.edges.map (·.dependency)
    dispatches := []
    blocked := [] }

def TicketGraph.applyPlan (g : TicketGraph) (repo : String) (criteria : List String) :
    Except String TicketGraphApplyPlan :=
  let report := g.validationReport criteria
  if report.valid then .ok (.fromGraph g repo report.topologicalOrder)
  else .error (String.intercalate "; " report.errors)

def TicketGraph.Edge (g : TicketGraph) (a b : String) : Prop :=
  ∃ e ∈ g.edges, e.fromId = a ∧ e.toId = b

structure Planned (g : TicketGraph) (repo : String) (order : List String)
    (plan : TicketGraphApplyPlan) : Prop where
  creates : ∃ nodes : List TicketGraphNode, nodes.Perm g.nodes ∧ nodes.map (·.id) = order ∧
    plan.creates = nodes.map (·.create repo)
  dependencies : plan.dependencies = g.edges.map (·.dependency)

structure AcceptsAcyclic (g : TicketGraph) (criteria : List String) : Prop where
  cycle_iff : (g.validationReport criteria).cyclePath.isSome ↔ ¬ Acyclic g.Edge
  genuine : ∀ path, (g.validationReport criteria).cyclePath = some path → Closed g.Edge path
  acyclic : (g.validationReport criteria).valid → Acyclic g.Edge
  perm : (g.validationReport criteria).valid →
    (g.validationReport criteria).topologicalOrder.Perm (g.nodes.map (·.id))
  before : (g.validationReport criteria).valid → ∀ e ∈ g.edges, ∃ l m r,
    (g.validationReport criteria).topologicalOrder = l ++ e.fromId :: (m ++ e.toId :: r)
  plan : (g.validationReport criteria).valid → ∀ repo, ∃ plan,
    g.applyPlan repo criteria = .ok plan ∧
      Planned g repo (g.validationReport criteria).topologicalOrder plan

/-- What `outgoing` and `indegree` hold of the edges read so far. -/
structure Read (ids : List String) (edges : List TicketGraphEdge) (s : Links) : Prop where
  outgoing : ∀ a b, b ∈ s.outgoing a ↔ ∃ e ∈ edges, e.fromId = a ∧ e.toId = b
  sorted : ∀ a, (s.outgoing a).Pairwise (· < ·)
  indegree : ∀ b, s.indegree b = (waits s.outgoing ids [] b).length

section
variable {ids : List String} {edges : List TicketGraphEdge} {s : Links} {e : TicketGraphEdge}

theorem Read.add (hids : ids.Nodup) (h : Read ids edges s) (he : e.fromId ∈ ids) :
    Read ids (edges ++ [e]) (s.add e) := by
  unfold Links.add
  have hedges : ∀ a b, (∃ e' ∈ edges ++ [e], e'.fromId = a ∧ e'.toId = b) ↔
      b ∈ s.outgoing a ∨ (e.fromId = a ∧ e.toId = b) := by
    intro a b
    rw [h.outgoing]
    simp [or_and_right, exists_or]
  split
  · rename_i hold
    refine ⟨fun a b => ?_, h.sorted, h.indegree⟩
    rw [hedges]
    exact ⟨.inl, fun hor => hor.elim id fun hab => hab.1 ▸ hab.2 ▸ hold⟩
  · rename_i hnew
    have hout : ∀ a b, b ∈ update s.outgoing e.fromId (insertSet e.toId (s.outgoing e.fromId)) a ↔
          b ∈ s.outgoing a ∨ (e.fromId = a ∧ e.toId = b) := by
      intro a b
      rw [update_apply]
      split
      · rename_i ha
        subst ha
        simp [or_comm, eq_comm]
      · rename_i ha
        simp [Ne.symm ha]
    refine ⟨fun a b => by rw [hedges, hout], fun a => ?_, fun b => ?_⟩
    · dsimp only
      rw [update_apply]
      split
      · exact sorted_insertSet (h.sorted e.fromId)
      · exact h.sorted a
    · dsimp only
      rw [update_apply]
      split
      · -- The target waits for the source now, and did not before.
        rename_i hb
        subst hb
        have hm : e.fromId ∈ waits (update s.outgoing e.fromId
            (insertSet e.toId (s.outgoing e.fromId))) ids [] e.toId := by
          simp [waits, he]
        have herase : (waits (update s.outgoing e.fromId
            (insertSet e.toId (s.outgoing e.fromId))) ids [] e.toId).erase e.fromId =
              waits s.outgoing ids [] e.toId := by
          unfold waits
          rw [(hids.filter _).erase_eq_filter, filter_filter]
          refine filter_congr fun a _ => ?_
          grind
        rw [h.indegree, ← herase, length_erase_of_mem hm]
        have hpos := length_pos_of_mem hm
        omega
      · rename_i hb
        rw [h.indegree]
        congr 1
        refine filter_congr fun a _ => ?_
        simp [hout, Ne.symm hb]

theorem Read.foldl (hids : ids.Nodup) (h : Read ids edges s) {more : List TicketGraphEdge}
    (hmore : ∀ e ∈ more, e.fromId ∈ ids) : Read ids (edges ++ more) (more.foldl .add s) := by
  induction more generalizing edges s with
  | nil => rwa [append_nil]
  | cons e more ih =>
    have hs := ih (h.add hids (hmore e mem_cons_self))
      fun e' he' => hmore e' (mem_cons_of_mem _ he')
    rwa [append_assoc] at hs

end

namespace TicketGraph

variable (g : TicketGraph)

theorem mem_ids {a : String} : a ∈ g.ids ↔ a ∈ g.nodes.map (·.id) ∨
    ∃ e ∈ g.edges, a = e.fromId ∨ a = e.toId := by
  simp [ids]

theorem sorted_ids : g.ids.Pairwise (· < ·) := sorted_sortedSet _

theorem read_links : Read g.ids g.edges g.links :=
  have hstart : Read g.ids [] _ := ⟨by simp, by simp, by simp [waits]⟩
  hstart.foldl (nodup_of_sorted g.sorted_ids) fun e he =>
    (mem_ids g).mpr (.inr ⟨e, he, .inl rfl⟩)

theorem arc_eq : Arc g.links.outgoing = g.Edge := by
  funext a b
  exact propext (g.read_links.outgoing a b)

theorem graph : Graph g.links.outgoing g.ids := by
  refine ⟨nodup_of_sorted g.sorted_ids, fun a => nodup_of_sorted (g.read_links.sorted a), ?_⟩
  intro a b hab
  obtain ⟨e, he, rfl, rfl⟩ := (g.read_links.outgoing a b).mp hab
  exact ⟨g.mem_ids.mpr (.inr ⟨e, he, .inl rfl⟩), g.mem_ids.mpr (.inr ⟨e, he, .inr rfl⟩)⟩

theorem taken_nil : Taken g.links.outgoing g.ids
    ⟨g.links.indegree, g.ids.filter fun id => g.links.indegree id = 0⟩ [] where
  nodup := .nil
  inside := by simp
  before := by simp
  degree := g.read_links.indegree
  sorted := g.sorted_ids.filter _
  ready := by simp [g.read_links.indegree]

theorem topologicalOrder_taken :
    ∃ w, w.ready = [] ∧ Taken g.links.outgoing g.ids w g.topologicalOrder :=
  g.taken_nil.run g.graph (by simp)

variable {g} {criteria : List String}

theorem mem_topologicalOrder {a : String} :
    a ∈ g.topologicalOrder ↔ a ∈ g.ids ∧ ¬ Downstream g.Edge a := by
  obtain ⟨w, hw, h⟩ := g.topologicalOrder_taken
  rw [h.mem_iff g.graph hw, arc_eq]

theorem nodup_topologicalOrder : g.topologicalOrder.Nodup := by
  obtain ⟨w, -, h⟩ := g.topologicalOrder_taken
  exact h.nodup

theorem mem_ids_of_edge {a b : String} (h : g.Edge a b) : b ∈ g.ids := by
  obtain ⟨e, he, rfl, rfl⟩ := h
  exact g.mem_ids.mpr (.inr ⟨e, he, .inr rfl⟩)

theorem mem_ids_of_downstream {a : String} (h : Downstream g.Edge a) : a ∈ g.ids := by
  obtain ⟨c, hc, hca⟩ := h
  rcases ReflTransGen.cases_tail hca with rfl | ⟨b, -, hba⟩
  · obtain ⟨b, -, hbc⟩ := TransGen.tail'_iff.mp hc
    exact mem_ids_of_edge hbc
  · exact mem_ids_of_edge hba

theorem topologicalOrder_length : g.topologicalOrder.length = g.ids.length ↔ Acyclic g.Edge := by
  have hsub : g.topologicalOrder.Subperm g.ids :=
    subperm_of_subset nodup_topologicalOrder fun _ ha => (mem_topologicalOrder.mp ha).1
  constructor
  · intro hlength a hc
    have hperm := hsub.perm_of_length_le hlength.ge
    have ha : a ∈ g.topologicalOrder := hperm.mem_iff.mpr (mem_ids_of_downstream ⟨a, hc, .refl⟩)
    exact (mem_topologicalOrder.mp ha).2 ⟨a, hc, .refl⟩
  · intro hacyclic
    apply Nat.le_antisymm hsub.length_le
    refine (subperm_of_subset (nodup_of_sorted g.sorted_ids) fun a ha => ?_).length_le
    exact mem_topologicalOrder.mpr ⟨ha, fun ⟨c, hc, _⟩ => hacyclic c hc⟩

theorem findCycle_some {start : String} {path : List String} (h : g.findCycle start = some path) :
    Closed g.Edge path ∧ ∀ b ∈ path, ReflTransGen g.Edge start b := by
  unfold findCycle at h
  split at h
  · cases h
  · rename_i cycle hcycle
    cases h
    rw [← arc_eq]
    exact dfs_error (by simp) (by simp [ReflTransGen.refl]) hcycle

theorem findCycle_none {start : String} (hstart : start ∈ g.ids) (h : g.findCycle start = none) :
    ¬ Upstream g.Edge start := by
  unfold findCycle at h
  split at h
  · rename_i seen hseen
    rw [← arc_eq]
    exact not_upstream_of_acc (dfs_ok (fun a b hb => (g.graph.inside a b hb).2) .nil (by simp) hstart
      (by simp) (by simp [Cleared]) hseen).2
  · cases h

/-- The first node that is left over: the least that is behind a cycle. -/
structure FirstDownstream (g : TicketGraph) (start : String) : Prop where
  downstream : Downstream g.Edge start
  least : ∀ a, Downstream g.Edge a → start ≤ a

theorem find?_left {start : String} (h : g.ids.find? (· ∉ g.topologicalOrder) = some start) :
    g.FirstDownstream start := by
  obtain ⟨⟨hids, hleft⟩, hleast⟩ := find?_least g.sorted_ids h
  have hdown : ∀ a ∈ g.ids, a ∉ g.topologicalOrder ↔ Downstream g.Edge a := by
    intro a ha
    simp [mem_topologicalOrder, ha]
  refine ⟨(hdown start hids).mp (by simpa using hleft), fun a ha => ?_⟩
  exact hleast a (mem_ids_of_downstream ha) (by simpa using (hdown a (mem_ids_of_downstream ha)).mpr ha)

theorem cyclePath_eq_none (h : Acyclic g.Edge) : g.topologicalOrderAndCycle.2 = none := by
  unfold topologicalOrderAndCycle
  rw [if_pos (topologicalOrder_length.mpr h)]

theorem cyclePath_eq (h : ¬ Acyclic g.Edge) :
    ∃ start, g.FirstDownstream start ∧ g.topologicalOrderAndCycle.2 = g.findCycle start := by
  unfold topologicalOrderAndCycle
  rw [if_neg (topologicalOrder_length.not.mpr h)]
  cases hfind : g.ids.find? (· ∉ g.topologicalOrder) with
  | some start => exact ⟨start, find?_left hfind, rfl⟩
  | none =>
    obtain ⟨a, ha⟩ := not_forall_not.mp h
    have hall := find?_eq_none.mp hfind a (mem_ids_of_downstream ⟨a, ha, .refl⟩)
    exact absurd ⟨a, ha, .refl⟩ (mem_topologicalOrder.mp (by simpa using hall)).2

theorem cyclePath_closed {path : List String} (h : g.topologicalOrderAndCycle.2 = some path) :
    Closed g.Edge path := by
  by_cases hacyclic : Acyclic g.Edge
  · rw [cyclePath_eq_none hacyclic] at h
    cases h
  · obtain ⟨start, -, heq⟩ := cyclePath_eq hacyclic
    exact (findCycle_some (heq ▸ h)).1

theorem cyclePath_isSome (h : ∀ start, g.FirstDownstream start → Upstream g.Edge start) :
    g.topologicalOrderAndCycle.2.isSome ↔ ¬ Acyclic g.Edge := by
  constructor
  · intro hsome hacyclic
    rw [cyclePath_eq_none hacyclic] at hsome
    cases hsome
  · intro hacyclic
    obtain ⟨start, hstart, heq⟩ := cyclePath_eq hacyclic
    rw [heq, Option.isSome_iff_ne_none]
    exact fun hn => findCycle_none (mem_ids_of_downstream hstart.downstream) hn (h start hstart)

/-- What a report without errors has checked. -/
structure Checked (g : TicketGraph) : Prop where
  unique : (g.nodes.map (·.id)).Nodup
  known : ∀ e ∈ g.edges, e.fromId ∈ g.nodes.map (·.id) ∧ e.toId ∈ g.nodes.map (·.id)
  noCycle : g.topologicalOrderAndCycle.2 = none

theorem checked_of_valid (h : (g.validationReport criteria).valid) : g.Checked := by
  simp only [validationReport, List.isEmpty_iff, errors, append_eq_nil_iff] at h
  obtain ⟨⟨⟨⟨⟨-, hunique⟩, -⟩, -⟩, hedges⟩, hcycle⟩ := h
  refine ⟨?_, fun e he => ?_, ?_⟩
  · by_contra hdup
    rw [if_pos fun heq => hdup (dedup_eq_self.mp ((dedup_sublist _).eq_of_length heq))] at hunique
    cases hunique
  · have hedge := flatMap_eq_nil_iff.mp hedges e he
    simp only [edgeErrors, append_eq_nil_iff, ite_eq_right_iff, cons_ne_nil, imp_false,
      not_not] at hedge
    exact hedge.1
  · split at hcycle
    · cases hcycle
    · assumption

theorem Checked.perm (h : g.Checked) : g.ids.Perm (g.nodes.map (·.id)) := by
  refine (perm_ext_iff_of_nodup (nodup_of_sorted g.sorted_ids) h.unique).mpr fun a => ?_
  rw [mem_ids]
  constructor
  · rintro (ha | ⟨e, he, rfl | rfl⟩)
    · exact ha
    · exact (h.known e he).1
    · exact (h.known e he).2
  · exact .inl

theorem order_of_acyclic (h : g.Checked) (hacyclic : Acyclic g.Edge) :
    g.topologicalOrder.Perm (g.nodes.map (·.id)) := by
  have hsub : g.topologicalOrder.Subperm g.ids :=
    subperm_of_subset nodup_topologicalOrder fun _ ha => (mem_topologicalOrder.mp ha).1
  exact (hsub.perm_of_length_le (topologicalOrder_length.mpr hacyclic).ge).trans h.perm

theorem topologicalOrder_before (hacyclic : Acyclic g.Edge) {e : TicketGraphEdge}
    (he : e ∈ g.edges) :
    ∃ l m r, g.topologicalOrder = l ++ e.fromId :: (m ++ e.toId :: r) := by
  have hto : e.toId ∈ g.topologicalOrder := mem_topologicalOrder.mpr
    ⟨g.mem_ids.mpr (.inr ⟨e, he, .inr rfl⟩), fun ⟨c, hc, _⟩ => hacyclic c hc⟩
  obtain ⟨lr, r, heq⟩ := append_of_mem hto
  obtain ⟨w, -, h⟩ := g.topologicalOrder_taken
  have hfrom := h.before lr e.toId r heq e.fromId
    ((g.read_links.outgoing _ _).mpr ⟨e, he, rfl, rfl⟩)
  obtain ⟨l, m, rfl⟩ := append_of_mem hfrom
  exact ⟨l, m, r, by rw [heq, append_assoc, cons_append]⟩

theorem applyPlan_of_valid (repo : String) (h : (g.validationReport criteria).valid) :
    g.applyPlan repo criteria =
      .ok (.fromGraph g repo (g.validationReport criteria).topologicalOrder) := by
  unfold applyPlan
  rw [if_pos h]

theorem planned {repo : String} {order : List String} (hunique : (g.nodes.map (·.id)).Nodup)
    (hperm : order.Perm (g.nodes.map (·.id))) : Planned g repo order (.fromGraph g repo order) := by
  have hfind : ∀ node ∈ g.nodes, g.nodes.find? (fun n => n.id = node.id) = some node :=
    fun node hnode => find?_key hunique hnode rfl
  refine ⟨⟨order.filterMap fun id => g.nodes.find? fun n => n.id = id, ?_, ?_, rfl⟩, rfl⟩
  · have hfm := hperm.filterMap fun id => g.nodes.find? fun n => n.id = id
    refine hfm.trans (List.Perm.of_eq ?_)
    rw [filterMap_map]
    exact (filterMap_congr hfind).trans (filterMap_some)
  · have hid : ∀ id ∈ order, (g.nodes.find? fun n => n.id = id).map (·.id) = some id := by
      intro id hm
      obtain ⟨node, hnode, rfl⟩ := mem_map.mp (hperm.mem_iff.mp hm)
      rw [hfind node hnode]
      rfl
    rw [map_filterMap]
    exact (filterMap_congr hid).trans (filterMap_some)

end TicketGraph

open TicketGraph

theorem accepts_acyclic_iff (g : TicketGraph) (criteria : List String) :
    AcceptsAcyclic g criteria ↔
      ∀ start, Downstream g.Edge start → (∀ a, Downstream g.Edge a → start ≤ a) →
        Upstream g.Edge start := by
  constructor
  · intro h start hdown hleast
    have hcyclic : ¬ Acyclic g.Edge := fun hacyclic => hacyclic _ hdown.choose_spec.1
    obtain ⟨first, hfirst, heq⟩ := cyclePath_eq hcyclic
    obtain rfl : first = start :=
      le_antisymm (hfirst.least start hdown) (hleast first hfirst.downstream)
    obtain ⟨path, hpath⟩ := Option.isSome_iff_exists.mp (h.cycle_iff.mpr hcyclic)
    obtain ⟨hclosed, hreach⟩ := findCycle_some (heq.symm.trans hpath)
    obtain ⟨a, ha, hcycle⟩ := hclosed.cycle
    exact ⟨a, hreach a ha, hcycle⟩
  · intro h
    have hcycle := cyclePath_isSome (g := g) fun start hfirst =>
      h start hfirst.downstream hfirst.least
    have hacyclic : (g.validationReport criteria).valid → Acyclic g.Edge := by
      intro hvalid
      by_contra hc
      rw [← hcycle, (checked_of_valid hvalid).noCycle] at hc
      cases hc
    have horder : (g.validationReport criteria).topologicalOrder = g.topologicalOrder := by
      show g.topologicalOrderAndCycle.1 = _
      unfold topologicalOrderAndCycle
      dsimp only
      split <;> rfl
    refine ⟨hcycle, fun path => cyclePath_closed, hacyclic, fun hvalid => ?_, fun hvalid e he => ?_,
      fun hvalid repo => ?_⟩
    · rw [horder]
      exact order_of_acyclic (checked_of_valid hvalid) (hacyclic hvalid)
    · rw [horder]
      exact topologicalOrder_before (hacyclic hvalid) he
    · refine ⟨_, applyPlan_of_valid repo hvalid, planned (checked_of_valid hvalid).unique ?_⟩
      rw [horder]
      exact order_of_acyclic (checked_of_valid hvalid) (hacyclic hvalid)

/-- The ticket `a` waits for `b`, which waits for `c`, which waits for `b`. -/
def deadlocked : TicketGraph :=
  let node := fun id => { id, title := "t", description := "d" }
  let edge := fun fromId toId => { fromId, toId, relationship := "blocks" }
  { id := "g", initiativeId := "i", nodes := ["a", "b", "c"].map node
    edges := [edge "b" "c", edge "c" "b", edge "b" "a"] }

theorem deadlock_accepted : ¬ AcceptsAcyclic deadlocked [] := by
  intro h
  have hvalid : (deadlocked.validationReport []).valid := by decide
  have hbc : deadlocked.Edge "b" "c" := ⟨_, .head _, rfl, rfl⟩
  have hcb : deadlocked.Edge "c" "b" := ⟨_, .tail _ (.head _), rfl, rfl⟩
  exact h.acyclic hvalid "b" (.head hbc (.single hcb))

end RatKingdom.Factory
