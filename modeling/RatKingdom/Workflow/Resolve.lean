/-
Which harness, model and permissions a step spawns its agent with.

Layers are laid over one another, the least specific first.  A model belongs to the harness it
was named under, so a layer that changes the harness drops the model of the layers before it.
-/
import Mathlib.Data.List.Induction
import RatKingdom.Lib.Run

namespace RatKingdom.Resolve

open Lib List Option

structure AgentProfile where
  harness : Option String := none
  model : Option String := none
  permissionMode : Option String := none

structure ResolvedAgent where
  harness : String
  model : Option String
  permissionMode : Option String

structure TierRule where
  priority : Option String := none
  label : Option String := none
  tier : String

def route (rules : List TierRule) (labels : List String) (priority : Option String) :
    Option String :=
  (rules.find? fun r =>
    r.priority.all (fun p => priority = some p) && r.label.all labels.contains).map TierRule.tier

structure SpawnStep where
  agent : Option String := none
  labels : List String := []
  priority : Option String := none
  overrides : AgentProfile := {}

/-- An `agents` table. -/
abbrev Agents := String → Option AgentProfile

def applyLayer (sofar : ResolvedAgent) (layer : AgentProfile) : ResolvedAgent :=
  let sofar :=
    match layer.harness with
    | some h =>
      { sofar with
        model := if sofar.harness ≠ h ∨ layer.model.isSome then layer.model else sofar.model
        harness := h }
    | none => if layer.model.isSome then { sofar with model := layer.model } else sofar
  if layer.permissionMode.isSome then { sofar with permissionMode := layer.permissionMode }
  else sofar

section
variable (workflowAgents globalAgents : Agents) (globalDefaultHarness : String)

def namedLayers (kind : String) : Option String → Except String (List AgentProfile)
  | none => .ok []
  | some name =>
    if (globalAgents name).isNone ∧ (workflowAgents name).isNone then
      .error ("unknown " ++ kind ++ " '" ++ name ++
        "' (not in workflow agents nor global [agents])")
    else .ok ((globalAgents name).toList ++ (workflowAgents name).toList)

def resolveFields (agent tier : Option String) (overrides : AgentProfile) :
    Except String ResolvedAgent := do
  let agentLayers ← namedLayers workflowAgents globalAgents "agent profile" agent
  let tierLayers ← namedLayers workflowAgents globalAgents "tier profile" tier
  let layers := (globalAgents "default").toList ++ (workflowAgents "default").toList ++
    agentLayers ++ tierLayers
  .ok (applyLayer (layers.foldl applyLayer ⟨globalDefaultHarness, none, none⟩) overrides)

def resolve (step : SpawnStep) (tiers : List TierRule) : Except String ResolvedAgent :=
  resolveFields workflowAgents globalAgents globalDefaultHarness step.agent
    (route tiers step.labels step.priority) step.overrides

def profileNames (step : SpawnStep) (tiers : List TierRule) : List String :=
  step.agent.toList ++ (route tiers step.labels step.priority).toList

def layersOf (step : SpawnStep) (tiers : List TierRule) : List AgentProfile :=
  ("default" :: profileNames step tiers).flatMap
    (fun name => (globalAgents name).toList ++ (workflowAgents name).toList) ++ [step.overrides]

def effective (layers : List AgentProfile) : String :=
  (layers.reverse.findSome? AgentProfile.harness).getD globalDefaultHarness

def Changes (before : List AgentProfile) (layer : AgentProfile) : Prop :=
  ∃ h, layer.harness = some h ∧ h ≠ effective globalDefaultHarness before

def Stands (layers : List AgentProfile) (model : String) : Prop :=
  ∃ before layer after, layers = before ++ layer :: after ∧ layer.model = some model ∧
    Warranted (fun mid later =>
      later.model = none ∧ ¬ Changes globalDefaultHarness (before ++ layer :: mid) later) after

structure MostSpecific (layers : List AgentProfile) (r : ResolvedAgent) : Prop where
  harness : r.harness = effective globalDefaultHarness layers
  model : ∀ m, r.model = some m ↔ Stands globalDefaultHarness layers m
  permissionMode : r.permissionMode = layers.reverse.findSome? AgentProfile.permissionMode

variable {globalDefaultHarness} {layers : List AgentProfile} {layer : AgentProfile}

theorem effective_concat : effective globalDefaultHarness (layers ++ [layer]) =
    layer.harness.getD (effective globalDefaultHarness layers) := by
  unfold effective
  rw [reverse_concat, findSome?_cons]
  cases layer.harness <;> rfl

theorem stands_concat {m : String} : Stands globalDefaultHarness (layers ++ [layer]) m ↔
    layer.model = some m ∨ layer.model = none ∧ ¬ Changes globalDefaultHarness layers layer ∧
      Stands globalDefaultHarness layers m := by
  constructor
  · intro ⟨before, l, after, heq, hm, hlater⟩
    rcases eq_nil_or_concat after with rfl | ⟨front, last, rfl⟩
    · obtain ⟨-, hl⟩ := append_inj' heq rfl
      cases singleton_inj.mp hl
      exact .inl hm
    · rw [concat_eq_append, ← cons_append, ← append_assoc] at heq
      obtain ⟨rfl, hl⟩ := append_inj' heq rfl
      cases singleton_inj.mp hl
      rw [concat_eq_append, warranted_concat] at hlater
      exact .inr ⟨hlater.2.1, hlater.2.2, before, l, front, rfl, hm, hlater.1⟩
  · rintro (hm | ⟨hn, hsame, before, l, after, rfl, hm, hlater⟩)
    · exact ⟨layers, layer, [], rfl, hm, warranted_nil⟩
    · exact ⟨before, l, after ++ [layer], by simp, hm, warranted_concat.mpr ⟨hlater, hn, hsame⟩⟩

theorem MostSpecific.applyLayer {r : ResolvedAgent}
    (h : MostSpecific globalDefaultHarness layers r) (layer : AgentProfile) :
    MostSpecific globalDefaultHarness (layers ++ [layer]) (applyLayer r layer) where
  harness := by
    rw [effective_concat, ← h.harness]
    unfold Resolve.applyLayer
    cases layer.harness <;> cases layer.model <;> cases layer.permissionMode <;> rfl
  model := fun m => by
    have hmodel : (Resolve.applyLayer r layer).model = layer.model.or
        (if layer.harness.any (r.harness ≠ ·) then none else r.model) := by
      unfold Resolve.applyLayer
      cases layer.harness <;> cases layer.model <;> cases layer.permissionMode <;> simp
    have hchanges : layer.harness.any (r.harness ≠ ·) = true ↔
        Changes globalDefaultHarness layers layer := by
      simp only [Option.any_eq_true, decide_eq_true_eq, Changes, h.harness, ne_comm]
    rw [hmodel, stands_concat, ← h.model m, ← hchanges]
    cases layer.model with
    | some m' => simp
    | none => cases layer.harness.any (r.harness ≠ ·) <;> simp
  permissionMode := by
    rw [reverse_concat, findSome?_cons, ← h.permissionMode]
    unfold Resolve.applyLayer
    cases layer.harness <;> cases layer.model <;> cases layer.permissionMode <;> rfl

theorem mostSpecific_foldl (layers : List AgentProfile) :
    MostSpecific globalDefaultHarness layers
      (layers.foldl applyLayer ⟨globalDefaultHarness, none, none⟩) := by
  induction layers using reverseRecOn with
  | nil => exact ⟨rfl, fun m => ⟨nofun, fun ⟨_, _, _, h, _⟩ => by simp at h⟩, rfl⟩
  | append_singleton layers layer ih =>
    rw [foldl_append]
    exact ih.applyLayer layer

theorem namedLayers_spec (kind : String) (name : Option String) :
    (∃ n ∈ name, globalAgents n = none ∧ workflowAgents n = none ∧
      ∃ e, namedLayers workflowAgents globalAgents kind name = .error e) ∨
    (∀ n ∈ name, (globalAgents n).isSome ∨ (workflowAgents n).isSome) ∧
      namedLayers workflowAgents globalAgents kind name = .ok (name.toList.flatMap fun n =>
        (globalAgents n).toList ++ (workflowAgents n).toList) := by
  cases name with
  | none => exact .inr ⟨nofun, rfl⟩
  | some n =>
    rw [namedLayers]
    by_cases hn : (globalAgents n).isNone ∧ (workflowAgents n).isNone
    · rw [if_pos hn]
      exact .inl ⟨n, rfl, isNone_iff_eq_none.mp hn.1, isNone_iff_eq_none.mp hn.2, _, rfl⟩
    · rw [if_neg hn]
      refine .inr ⟨fun m hm => ?_, by simp⟩
      cases hm
      cases hg : globalAgents n <;> cases hw : workflowAgents n <;> simp_all

/-- What `resolve` answers for a step: the most specific fields of its layers, or an error where
no table has a profile that it names. -/
def Answers (step : SpawnStep) (tiers : List TierRule) (globalDefaultHarness : String) :
    Except String ResolvedAgent → Prop
  | .ok r =>
    (∀ n ∈ profileNames step tiers, (globalAgents n).isSome ∨ (workflowAgents n).isSome) ∧
      MostSpecific globalDefaultHarness (layersOf workflowAgents globalAgents step tiers) r
  | .error _ => ∃ n ∈ profileNames step tiers, globalAgents n = none ∧ workflowAgents n = none

theorem resolve_most_specific (globalDefaultHarness : String) (step : SpawnStep)
    (tiers : List TierRule) :
    Answers workflowAgents globalAgents step tiers globalDefaultHarness
      (resolve workflowAgents globalAgents globalDefaultHarness step tiers) := by
  unfold resolve resolveFields
  rcases namedLayers_spec workflowAgents globalAgents "agent profile" step.agent with
    ⟨n, hn, hg, hw, e, he⟩ | ⟨hagent, hok⟩
  · rw [he]
    exact ⟨n, mem_append_left _ (mem_toList.mpr hn), hg, hw⟩
  rcases namedLayers_spec workflowAgents globalAgents "tier profile"
    (route tiers step.labels step.priority) with ⟨n, hn, hg, hw, e, he⟩ | ⟨htier, hok'⟩
  · rw [hok, he]
    exact ⟨n, mem_append_right _ (mem_toList.mpr hn), hg, hw⟩
  rw [hok, hok']
  refine ⟨fun n hn => ?_, ?_⟩
  · rcases mem_append.mp hn with hn | hn
    · exact hagent n (mem_toList.mp hn)
    · exact htier n (mem_toList.mp hn)
  · rw [layersOf, profileNames, flatMap_cons, flatMap_append, ← append_assoc]
    exact (mostSpecific_foldl _).applyLayer step.overrides

end

end RatKingdom.Resolve
