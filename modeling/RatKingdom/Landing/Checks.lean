/-
The checks of a landing edge, selected from the repository's rules by the changed paths.

On the release-integration edge a changed path is covered by a rule that matches it and names a
check.  Coverage is tested path by path and the checks are selected over the whole list;
`grep -E` finds a list exactly where it finds one of its lines, so the two agree
(`integration_edge_covered`), and the plan of the edge runs what covers each path or the full
check (`gatePlan_integration`).
-/
import RatKingdom.Landing.Pipeline
import RatKingdom.Lib.Attempt

namespace RatKingdom.Landing

open Lib Core List

structure FocusedCheckRule where
  paths : List String
  class_ : String
  checks : List String

structure Grep where
  finds : String → List String → Bool
  lines : ∀ pattern paths, finds pattern paths = true ↔ ∃ path ∈ paths, finds pattern [path] = true

def ereMatchesAny (grep : Grep) (pattern : String) (paths : List String) : Bool :=
  if trim pattern = "" ∨ paths = [] then false else grep.finds pattern paths

def FocusedCheckRule.matches (rule : FocusedCheckRule) (grep : Grep) (paths : List String) : Bool :=
  rule.paths.isEmpty || rule.paths.any fun p => ereMatchesAny grep p paths

def addChecks (state : List String × List String) (name : String) : List String × List String :=
  if name ∈ state.1 then state else (state.1 ++ [name], state.2 ++ [name])

def ruleReason (rule : FocusedCheckRule) (added : List String) : String :=
  (if rule.class_ = "" then "unlabeled rule" else rule.class_) ++ " -> [" ++
    String.intercalate ", " added ++ "]"

def addRule (grep : Grep) (changedPaths : List String) (state : List String × List String)
    (rule : FocusedCheckRule) : List String × List String :=
  if rule.matches grep changedPaths then
    let (selected, added) := rule.checks.foldl addChecks (state.1, [])
    (selected, if added.isEmpty then state.2 else state.2 ++ [ruleReason rule added])
  else state

/-- `select_focused_checks`: the checks, and a reason for each rule that contributed. -/
def selectFocusedChecks (grep : Grep) (rules : List FocusedCheckRule) (changedPaths : List String) :
    List String × List String :=
  rules.foldl (addRule grep changedPaths) ([], [])

inductive IntegrationCheckSelection where
  | covered (selected reasons : List String)
  | fallback (why : String)

def FocusedCheckRule.covers (rule : FocusedCheckRule) (grep : Grep) (path : String) : Bool :=
  !rule.checks.isEmpty && rule.matches grep [path]

def selectIntegrationChecks (grep : Grep) (rules : List FocusedCheckRule)
    (changedPaths : List String) : IntegrationCheckSelection :=
  if rules.isEmpty then .fallback "no focusedChecks rules are configured for this repo"
  else
    let uncovered := changedPaths.filter fun path => !rules.any fun rule => rule.covers grep path
    if !uncovered.isEmpty then
      .fallback ("changed path(s) not covered by any focusedChecks rule naming a check: " ++
        String.intercalate ", " uncovered)
    else
      let (selected, reasons) := selectFocusedChecks grep rules changedPaths
      .covered selected reasons

def contributed (grep : Grep) (rules : List FocusedCheckRule) (changedPaths : List String) :
    List String :=
  (rules.filter fun rule => rule.matches grep changedPaths).flatMap FocusedCheckRule.checks

section
variable {grep : Grep} {rules : List FocusedCheckRule} {changedPaths : List String}

theorem fst_addChecks (state : List String × List String) (names : List String) :
    (names.foldl addChecks state).1 = names.foldl (pushFirst id) state.1 := by
  induction names generalizing state with
  | nil => rfl
  | cons name names ih =>
    have hs : (addChecks state name).1 = pushFirst id state.1 name := by
      unfold addChecks pushFirst
      by_cases h : name ∈ state.1
      · rw [if_pos h, if_pos (by simpa using h)]
      · rw [if_neg h, if_neg (by simpa using h)]
    rw [foldl_cons, foldl_cons, ih, hs]

theorem selected_eq (grep : Grep) (rules : List FocusedCheckRule) (changedPaths : List String) :
    (selectFocusedChecks grep rules changedPaths).1 =
      (contributed grep rules changedPaths).foldl (pushFirst id) [] := by
  have hfold : ∀ state : List String × List String,
      (rules.foldl (addRule grep changedPaths) state).1 =
        (contributed grep rules changedPaths).foldl (pushFirst id) state.1 := by
    unfold contributed
    induction rules with
    | nil => exact fun state => rfl
    | cons rule rules ih =>
      intro state
      rw [foldl_cons, ih]
      by_cases h : rule.matches grep changedPaths = true
      · rw [filter_cons, if_pos h, flatMap_cons, foldl_append, addRule, if_pos h]
        show List.foldl _ (rule.checks.foldl addChecks (state.1, [])).1 _ = _
        rw [fst_addChecks]
      · rw [filter_cons, if_neg h, addRule, if_neg h]
  exact hfold ([], [])

variable {name : String}

theorem mem_selected_iff_contributed :
    name ∈ (selectFocusedChecks grep rules changedPaths).1 ↔
      name ∈ contributed grep rules changedPaths := by
  have hm := mem_keys_pushAll id [] (contributed grep rules changedPaths) name
  simp only [map_id, not_mem_nil, false_or] at hm
  rw [selected_eq, hm]

theorem mem_selected_iff :
    name ∈ (selectFocusedChecks grep rules changedPaths).1 ↔
      ∃ rule ∈ rules, rule.matches grep changedPaths = true ∧ name ∈ rule.checks := by
  rw [mem_selected_iff_contributed, contributed, mem_flatMap]
  simp only [mem_filter, and_assoc]

theorem matches_iff (rule : FocusedCheckRule) (grep : Grep) (paths : List String) :
    rule.matches grep paths = true ↔
      rule.paths = [] ∨ ∃ path ∈ paths, rule.matches grep [path] = true := by
  have hgrep : ∀ p, ereMatchesAny grep p paths = true ↔
      ∃ path ∈ paths, ereMatchesAny grep p [path] = true := by
    intro p
    unfold ereMatchesAny
    by_cases hblank : trim p = ""
    · simp [hblank]
    · cases paths with
      | nil => simp
      | cons path paths => simpa [hblank] using grep.lines p (path :: paths)
  by_cases hcatch : rule.paths = []
  · simp [FocusedCheckRule.matches, hcatch]
  · simp only [FocusedCheckRule.matches, List.isEmpty_iff, hcatch, Bool.or_eq_true, false_or,
      any_eq_true, hgrep]
    constructor
    · rintro ⟨p, hp, path, hpath, h⟩
      exact ⟨path, hpath, p, hp, h⟩
    · rintro ⟨path, hpath, p, hp, h⟩
      exact ⟨p, hp, path, hpath, h⟩

theorem covers_iff {rule : FocusedCheckRule} {path : String} :
    rule.covers grep path = true ↔ rule.checks ≠ [] ∧ rule.matches grep [path] = true := by
  simp [FocusedCheckRule.covers]

end

structure Covered (grep : Grep) (rules : List FocusedCheckRule) (changedPaths selected : List String) :
    Prop where
  paths : ∀ path ∈ changedPaths, ∃ rule ∈ rules, rule.checks ≠ [] ∧ rule.matches grep [path] = true
  checks : ∀ path ∈ changedPaths, ∀ rule ∈ rules, rule.matches grep [path] = true →
    ∀ name ∈ rule.checks, name ∈ selected
  /-- and those of matching rules only. -/
  only : ∀ name, name ∈ selected ↔ name ∈ contributed grep rules changedPaths
  nodup : selected.Nodup
  /-- They stand in the order in which the matching rules name them first. -/
  ordered : selected.Pairwise fun a b =>
    (contributed grep rules changedPaths).idxOf a < (contributed grep rules changedPaths).idxOf b
  /-- None is selected only where nothing changed and no unconditional rule names one. -/
  none_ : selected = [] → changedPaths = [] ∧ ∀ rule ∈ rules, rule.paths = [] → rule.checks = []

section
variable {grep : Grep} {rules : List FocusedCheckRule} {changedPaths : List String}

theorem covered_selected (h : ∀ path ∈ changedPaths, ∃ rule ∈ rules, rule.checks ≠ [] ∧
      rule.matches grep [path] = true) :
    Covered grep rules changedPaths (selectFocusedChecks grep rules changedPaths).1 := by
  have hall : ∀ path ∈ changedPaths, ∀ rule ∈ rules, rule.matches grep [path] = true →
      ∀ name ∈ rule.checks, name ∈ (selectFocusedChecks grep rules changedPaths).1 := by
    intro path hpath rule hrule hmatch name hname
    exact mem_selected_iff.mpr ⟨rule, hrule,
      (matches_iff rule grep changedPaths).mpr (.inr ⟨path, hpath, hmatch⟩), hname⟩
  refine ⟨h, hall, fun name => mem_selected_iff_contributed, ?_, ?_,
    fun hn => ⟨?_, fun rule hrule hcatch => ?_⟩⟩
  · have hstart : (([] : List String).map id).Nodup := nodup_nil
    have hnodup := nodup_pushAll id hstart (contributed grep rules changedPaths)
    rwa [map_id, ← selected_eq] at hnodup
  · have hordered := ordered_pushAll id (contributed grep rules changedPaths)
    rwa [map_id, map_id, ← selected_eq] at hordered
  · by_contra hchanged
    obtain ⟨path, hpath⟩ := exists_mem_of_ne_nil changedPaths hchanged
    obtain ⟨rule, hrule, hne, hmatch⟩ := h path hpath
    obtain ⟨name, hname⟩ := exists_mem_of_ne_nil rule.checks hne
    have hin := hall path hpath rule hrule hmatch name hname
    rw [hn] at hin
    exact absurd hin not_mem_nil
  · by_contra hne
    obtain ⟨name, hname⟩ := exists_mem_of_ne_nil rule.checks hne
    have hin := mem_selected_iff.mpr ⟨rule, hrule,
      (matches_iff rule grep changedPaths).mpr (.inl hcatch), hname⟩
    rw [hn] at hin
    exact absurd hin not_mem_nil

theorem selectIntegrationChecks_cases (grep : Grep) (rules : List FocusedCheckRule)
    (changedPaths : List String) :
    ((rules ≠ [] ∧ ∀ path ∈ changedPaths, ∃ rule ∈ rules, rule.checks ≠ [] ∧
        rule.matches grep [path] = true) ∧
      selectIntegrationChecks grep rules changedPaths =
        .covered (selectFocusedChecks grep rules changedPaths).1
          (selectFocusedChecks grep rules changedPaths).2) ∨
    ((rules = [] ∨ ∃ path ∈ changedPaths, ∀ rule ∈ rules, rule.checks ≠ [] →
        rule.matches grep [path] = false) ∧
      ∃ why, selectIntegrationChecks grep rules changedPaths = .fallback why) := by
  unfold selectIntegrationChecks
  by_cases hrules : rules = []
  · exact .inr ⟨.inl hrules, _, by rw [if_pos (by simpa using hrules)]⟩
  · rw [if_neg (by simpa using hrules)]
    have hm : ∀ path, path ∈ changedPaths.filter (fun path =>
        !rules.any fun rule => rule.covers grep path) ↔ path ∈ changedPaths ∧ ∀ rule ∈ rules,
          rule.checks ≠ [] → rule.matches grep [path] = false := by
      intro path
      simp only [mem_filter, Bool.not_eq_true', any_eq_false, covers_iff, not_and, Bool.not_eq_true]
    cases hunc : changedPaths.filter fun path => !rules.any fun rule => rule.covers grep path with
    | nil =>
      refine .inl ⟨⟨hrules, fun path hpath => ?_⟩, by simp⟩
      by_contra hno
      have hin := (hm path).mpr ⟨hpath, fun rule hrule hne => ?_⟩
      · rw [hunc] at hin
        exact absurd hin not_mem_nil
      · by_contra hmatch
        exact hno ⟨rule, hrule, hne, Bool.not_eq_false _ ▸ hmatch⟩
    | cons path rest =>
      have hin := (hm path).mp (hunc ▸ mem_cons_self)
      exact .inr ⟨.inr ⟨path, hin.1, hin.2⟩, _, by simp; rfl⟩

theorem integration_covers (grep : Grep) (rules : List FocusedCheckRule)
    (changedPaths selected reasons : List String)
    (h : selectIntegrationChecks grep rules changedPaths = .covered selected reasons) :
    Covered grep rules changedPaths selected := by
  rcases selectIntegrationChecks_cases grep rules changedPaths with
    ⟨⟨-, hcov⟩, heq⟩ | ⟨-, why, heq⟩
  · rw [heq] at h
    cases h
    exact covered_selected hcov
  · rw [heq] at h
    cases h

/-- What is selected on an integration edge covers the changed paths; without rules, or with a
path that none covers, the edge falls back. -/
theorem integration_edge_covered (grep : Grep) (rules : List FocusedCheckRule)
    (changedPaths : List String) :
    (∀ selected reasons, selectIntegrationChecks grep rules changedPaths =
        .covered selected reasons → Covered grep rules changedPaths selected) ∧
      ((∃ why, selectIntegrationChecks grep rules changedPaths = .fallback why) ↔
        rules = [] ∨ ∃ path ∈ changedPaths, ∀ rule ∈ rules, rule.checks ≠ [] →
          rule.matches grep [path] = false) := by
  refine ⟨integration_covers grep rules changedPaths, ?_⟩
  rcases selectIntegrationChecks_cases grep rules changedPaths with
    ⟨⟨hrules, hcov⟩, heq⟩ | ⟨hwhy, why, heq⟩
  · rw [heq]
    refine iff_of_false (fun ⟨why, h⟩ => (by cases h)) fun h => ?_
    rcases h with h | ⟨path, hpath, h⟩
    · exact hrules h
    · obtain ⟨rule, hrule, hne, hmatch⟩ := hcov path hpath
      rw [h rule hrule hne] at hmatch
      cases hmatch
  · rw [heq]
    exact iff_of_true ⟨why, rfl⟩ hwhy

end

inductive LandingEdgeClass where
  | protectedFinal | integration | inner

structure GateConfig where
  checkName : String
  protectedPaths : String
  maxDiffFiles : Nat
  maxDiffLines : Nat
  /-- In seconds, as the fixed one of the two policy gates. -/
  gateTimeout : Nat
  protectedTargets : List String
  focusedChecks : List FocusedCheckRule
  /-- Empty where no release role is activated. -/
  releaseIntegrationBranch : String

structure ResolvedGateCheck where
  check : Check
  env : List (String × String)
  timeout : Nat

structure ResolvedGatePlan where
  admissionTimeout : Nat
  checks : List ResolvedGateCheck
  edgeClass : LandingEdgeClass
  fullCheckRequired : Bool
  reason : String

def policyGateTimeout : Nat := 2 * 60

/-- The closure `find` of `gate_plan`. -/
def findCheck (checksFile : String) (checks : List Check) (name : String) : Except String Check :=
  match checks.find? fun c => canonical c.name = name with
  | some c => .ok c
  | none => .error ("landing pipeline: no check named '" ++ name ++ "' in " ++ checksFile)

def boundEnv (target : String) : List (String × String) :=
  [("RK_CHECK_TARGET", target), ("RK_VERIFY_BASE", target)]

def findAll (checksFile : String) (checks : List Check) (target : String) (timeout : Nat)
    (names : List String) : Except String (List ResolvedGateCheck) :=
  names.mapM fun name => do
    let check ← findCheck checksFile checks name
    return { check, env := boundEnv target, timeout }

def edgeChecks (grep : Grep) (checksFile : String) (checks : List Check) (target : String)
    (gates : GateConfig) (changedPaths : List String) :
    Except String (List ResolvedGateCheck × LandingEdgeClass × Bool × String) :=
  let run := findAll checksFile checks target gates.gateTimeout
  if target ∈ gates.protectedTargets then do
    return (← run [gates.checkName], .protectedFinal, true,
      "target `" ++ target ++ "` is a protected final target (protectedTargets); running the full `" ++
        gates.checkName ++ "` check")
  else if gates.releaseIntegrationBranch ≠ "" ∧ gates.releaseIntegrationBranch = target then
    match selectIntegrationChecks grep gates.focusedChecks changedPaths with
    | .covered selected reasons => do
      if selected.isEmpty then
        return ([], .integration, false,
          "target `" ++ target ++ "` is this repo's activated release-integration branch; no " ++
            "changed path required a named check beyond protected-paths/diff-scope")
      else
        return (← run selected, .integration, false,
          "target `" ++ target ++ "` is this repo's activated release-integration branch; every " ++
            "changed path is covered, running policy-selected focused checks: " ++
            String.intercalate "; " reasons)
    | .fallback why => do
      return (← run [gates.checkName], .integration, true,
        "target `" ++ target ++ "` is this repo's activated release-integration branch; " ++ why ++
          " — an integration edge never lands unchecked, falling back to the full `" ++
          gates.checkName ++ "` check")
  else do
    let (selected, reasons) := selectFocusedChecks grep gates.focusedChecks changedPaths
    if selected.isEmpty then
      return ([], .inner, false,
        "target `" ++ target ++ "` is not a protected final target and no focusedChecks rule " ++
          "matched; running no check beyond protected-paths/diff-scope")
    else
      return (← run selected, .inner, false,
        "target `" ++ target ++ "` is not a protected final target; running policy-selected " ++
          "focused checks: " ++ String.intercalate "; " reasons)

def loadChecks (checksFile : String) :
    Option (Except String (List Check)) → Except String (List Check)
  | none => .error ("landing pipeline: no check registry at " ++ checksFile)
  | some loaded => loaded

/-- `gate_plan`, over the registry that was loaded, if its file is there. -/
def gatePlan (grep : Grep) (checksFile : String) (registry : Option (Except String (List Check)))
    (target : String) (gates : GateConfig) (changedPaths : List String) :
    Except String ResolvedGatePlan := do
  let checks ← loadChecks checksFile registry
  let protectedPaths ← findCheck checksFile checks "landing-protected-paths"
  let diffScope ← findCheck checksFile checks "landing-diff-scope"
  let (more, edgeClass, fullCheckRequired, reason) ←
    edgeChecks grep checksFile checks target gates changedPaths
  let policy := [
    { check := protectedPaths
      env := [("RK_CHECK_TARGET", target), ("RK_CHECK_PROTECTED_PATHS", gates.protectedPaths)]
      timeout := policyGateTimeout },
    { check := diffScope
      env := [("RK_CHECK_TARGET", target), ("RK_CHECK_MAX_DIFF_FILES", toString gates.maxDiffFiles),
        ("RK_CHECK_MAX_DIFF_LINES", toString gates.maxDiffLines)]
      timeout := policyGateTimeout }]
  return { admissionTimeout := gates.gateTimeout, checks := policy ++ more, edgeClass
           fullCheckRequired, reason }

variable {checks : List Check}

theorem findCheck_ok {checksFile : String} {c : Check}
    (h : findCheck checksFile checks name = .ok c) : c ∈ checks ∧ canonical c.name = name := by
  unfold findCheck at h
  cases hf : checks.find? fun c => canonical c.name = name with
  | none =>
    rw [hf] at h
    cases h
  | some c' =>
    rw [hf] at h
    cases h
    exact ⟨mem_of_find?_eq_some hf, by simpa using find?_some hf⟩

theorem findAll_runs {checksFile : String} {target : String}
    {timeout : Nat} {names : List String} {found : List ResolvedGateCheck}
    (h : findAll checksFile checks target timeout names = .ok found) :
    ∀ name ∈ names, ∃ r ∈ found, canonical r.check.name = name := by
  intro name hn
  obtain ⟨r, hr, hfound⟩ := mapM_ok h name hn
  obtain ⟨c, hc, hr'⟩ := bind_ok_iff.mp hfound
  cases hr'
  exact ⟨_, hr, (findCheck_ok hc).2⟩

def Runs (checks : List ResolvedGateCheck) (name : String) : Prop :=
  ∃ r ∈ checks, canonical r.check.name = name

theorem Runs.append {checks : List ResolvedGateCheck} (h : Runs checks name)
    (policy : List ResolvedGateCheck) : Runs (policy ++ checks) name := by
  obtain ⟨r, hr, hn⟩ := h
  exact ⟨r, mem_append_right _ hr, hn⟩

section
variable {grep : Grep} {checksFile target : String} {gates : GateConfig}
  {changedPaths : List String} {full : Bool}

def EdgeCovered (grep : Grep) (gates : GateConfig) (changedPaths : List String)
    (checks : List ResolvedGateCheck) : Prop :=
  ∀ path ∈ changedPaths,
    (∃ rule ∈ gates.focusedChecks, rule.checks ≠ [] ∧ rule.matches grep [path] = true) ∧
    ∀ rule ∈ gates.focusedChecks, rule.matches grep [path] = true →
      ∀ name ∈ rule.checks, Runs checks name

theorem edgeChecks_integration {more : List ResolvedGateCheck}
    {reason : String} (h : edgeChecks grep checksFile checks target gates changedPaths =
      .ok (more, .integration, full, reason)) :
    (full = true ∧ Runs more gates.checkName) ∨
      full = false ∧ EdgeCovered grep gates changedPaths more := by
  unfold edgeChecks at h
  split at h
  · obtain ⟨found, -, h⟩ := bind_ok_iff.mp h
    cases h
  split at h
  · have hselect := integration_covers grep gates.focusedChecks changedPaths
    cases hs : selectIntegrationChecks grep gates.focusedChecks changedPaths with
    | fallback why =>
      rw [hs] at h
      obtain ⟨found, hfound, h⟩ := bind_ok_iff.mp h
      cases h
      exact .inl ⟨rfl, findAll_runs hfound _ mem_cons_self⟩
    | covered selected reasons =>
      rw [hs] at h
      have hcov := hselect selected reasons hs
      have hedge : ∀ found : List ResolvedGateCheck, (∀ name ∈ selected, Runs found name) →
          EdgeCovered grep gates changedPaths found :=
        fun found hfound path hpath => ⟨hcov.paths path hpath, fun rule hrule hmatch name hname =>
            hfound name (hcov.checks path hpath rule hrule hmatch name hname)⟩
      dsimp only at h
      split at h
      · rename_i hn
        cases h
        refine .inr ⟨rfl, hedge [] fun name hname => ?_⟩
        rw [List.isEmpty_iff.mp hn] at hname
        exact absurd hname not_mem_nil
      · obtain ⟨found, hfound, h⟩ := bind_ok_iff.mp h
        cases h
        exact .inr ⟨rfl, hedge _ (findAll_runs hfound)⟩
  · cases hs : selectFocusedChecks grep gates.focusedChecks changedPaths with
    | mk selected reasons =>
      dsimp only at h
      split at h
      · cases h
      · obtain ⟨found, -, h⟩ := bind_ok_iff.mp h
        cases h

/-- An integration edge never lands unchecked: its plan runs the full check, or every changed
path is covered and the plan runs all checks of the rules that match one. -/
theorem gatePlan_integration {registry : Option (Except String (List Check))}
    {plan : ResolvedGatePlan}
    (h : gatePlan grep checksFile registry target gates changedPaths = .ok plan)
    (hedge : plan.edgeClass = .integration) :
    (plan.fullCheckRequired = true ∧ Runs plan.checks gates.checkName) ∨
      plan.fullCheckRequired = false ∧ EdgeCovered grep gates changedPaths plan.checks := by
  obtain ⟨checks, -, h⟩ := bind_ok_iff.mp h
  obtain ⟨protectedPaths, -, h⟩ := bind_ok_iff.mp h
  obtain ⟨diffScope, -, h⟩ := bind_ok_iff.mp h
  obtain ⟨⟨more, edgeClass, full, reason⟩, hmore, h⟩ := bind_ok_iff.mp h
  cases h
  have hclass : edgeClass = .integration := hedge
  subst hclass
  rcases edgeChecks_integration hmore with ⟨hfull, hruns⟩ | ⟨hfull, hcov⟩
  · exact .inl ⟨hfull, hruns.append _⟩
  · refine .inr ⟨hfull, fun path hpath => ⟨(hcov path hpath).1, ?_⟩⟩
    exact fun rule hrule hmatch name hn =>
      ((hcov path hpath).2 rule hrule hmatch name hn).append _

end

def anyLine : Grep := ⟨fun _ paths => !paths.isEmpty, fun _ paths => by cases paths <;> simp⟩

def docsGates : GateConfig :=
  ⟨"full", "^$", 40, 400, 60, ["main"], [⟨["^docs/"], "docs", ["docs-lint"]⟩], "next"⟩

theorem gatePlan_integration_docs : ∃ plan,
    gatePlan anyLine "checks.toml" (some (.ok (["full", "docs-lint", "landing-protected-paths",
        "landing-diff-scope"].map fun name => { name, command := "true" }))) "next" docsGates
      ["docs/guide.md"] = .ok plan ∧
      ((plan.fullCheckRequired = true ∧ Runs plan.checks docsGates.checkName) ∨
        plan.fullCheckRequired = false ∧
          EdgeCovered anyLine docsGates ["docs/guide.md"] plan.checks) := by
  have h : gatePlan anyLine "checks.toml" (some (.ok (["full", "docs-lint",
      "landing-protected-paths", "landing-diff-scope"].map fun name =>
        { name, command := "true" }))) "next" docsGates ["docs/guide.md"] = .ok _ := rfl
  exact ⟨_, h, gatePlan_integration h rfl⟩

end RatKingdom.Landing
