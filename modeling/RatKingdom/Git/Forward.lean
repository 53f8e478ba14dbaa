/-
Landing drops no commits from a target.

A fast-forward in a checkout goes forward whatever it finds, and `advance_target_to` lands a
commit only on the value it was built on.  The engine of `merge_branch` and `revert_merge`
builds on what the target's name gave when the worktree was made, and guards with a value read
afterwards: the two have to agree.
-/
import RatKingdom.Git.Land

namespace RatKingdom.Git

open Lib List

section
variable {C : Type} [PartialOrder C] [DecidableEq C] [DecidableLE C] {target : String}

def Call.Forward (target : String) (c : Call C) : Prop :=
  ∀ m ∈ c.moved, m.1 = target → ∀ v ∈ m.2.1, v ≤ m.2.2

def GitCalls.Forward (target : String) (y : GitCalls C) : Prop := ∀ c ∈ y.calls, c.Forward target

instance decidableForward (target : String) (y : GitCalls C) : Decidable (y.Forward target) :=
  inferInstanceAs (Decidable (∀ c ∈ y.calls, ∀ m ∈ c.moved, m.1 = target → ∀ v ∈ m.2.1, v ≤ m.2.2))

/-- The guard's value is in what the new commit was made from. -/
def Made.Keeps (base expected : C) (m : Made C) : Prop :=
  expected ≤ base ∨ ∃ s ∈ m.source, expected ≤ s

instance decidableKeepsMade (base expected : C) (m : Made C) : Decidable (m.Keeps base expected) :=
  inferInstanceAs (Decidable (_ ∨ _))

/-- The `update-ref` of a merge or revert that is next: its base, its old value and its
commit. -/
def Call.bareLand (c : Call C) : Option (C × C × Made C) :=
  match c.stage with
  | .bare base expected made => if c.job = .land then some (base, expected, made) else none
  | _ => none

/-- A merge or revert that moves a target with `update-ref` was made from a worktree, and a
source, that hold what the target was at when the guard was read. -/
def Grounded (target : String) (y : GitCalls C) : Move C → Prop
  | .run i _ => ∀ c ∈ y.calls[i]?, ∀ g ∈ c.bareLand, y.repo.branches target = some g.2.1 →
      g.2.2.Keeps g.1 g.2.1
  | _ => True

instance decidableGrounded (target : String) (y : GitCalls C) : ∀ m, Decidable (Grounded target y m)
  | .run i _ => inferInstanceAs (Decidable (∀ _ ∈ _, _))
  | .call _ | .forward _ _ | .reset _ _ | .switch _ _ | .tag _ _ => isTrue trivial

omit [DecidableEq C] [DecidableLE C] in
theorem Made.On.keeps {base expected : C} {m : Made C} (h : m.On base)
    (hk : m.Keeps base expected) : expected ≤ m.new := by
  rcases hk with hb | ⟨s, hs, hle⟩
  · exact hb.trans h.1
  · exact hle.trans (h.2 s hs)

/-- Only a merge or revert has a temporary worktree; the commit a call is about to land was
made on its base, and a prepared candidate's base is what it expects. -/
def Stage.Sound (job : Job C) : Stage C → Prop
  | .treed _ => job = .land
  | .guarded _ _ => job = .land
  | .built base _ made => job = .land ∧ made.On base
  | .advancing base expected made => made.On base ∧ (job ≠ .land → expected = base)
  | .bare base expected made => made.On base ∧ (job ≠ .land → expected = base)
  | _ => True

theorem begin_sound (r : Repo C) (job : Job C) : (r.begin target job).Sound job := by
  cases job with
  | land =>
    unfold Repo.begin
    cases r.branches target with
    | none => trivial
    | some tip =>
      cases r.resolve target with
      | none => trivial
      | some base => rfl
  | swap commit expected =>
    unfold Repo.begin
    dsimp only
    by_cases hfit : commit ≠ expected ∧ ¬ expected ≤ commit
    · rw [if_pos hfit]
      trivial
    rw [if_neg hfit]
    cases r.branches target with
    | none => trivial
    | some tip =>
      dsimp only
      split
      · trivial
      split
      · trivial
      · rename_i hne
        have hle : expected ≤ commit := not_not.mp fun hle => hfit ⟨hne, hle⟩
        exact ⟨⟨hle, by simp⟩, fun _ => rfl⟩

variable {r : Repo C} {job : Job C} {stage : Stage C} {x : Choice C} {t : Turn C}

theorem turn_sound (hs : stage.Sound job) (h : r.turn target job x stage = some t) :
    t.stage.Sound job := by
  cases stage with
  | start =>
    cases h
    exact begin_sound r job
  | treed base | advancing base expected made =>
    simp only [Repo.turn] at h
    split at h
    · cases h
      trivial
    · cases h
      exact hs
  | guarded base before =>
    simp only [Repo.turn] at h
    split at h
    · cases h
      trivial
    · split at h
      · rename_i hon
        cases h
        exact ⟨hs, hon⟩
      · cases h
  | built base before made =>
    simp only [Repo.turn] at h
    split at h
    · cases h
      trivial
    · split at h
      · cases h
        trivial
      · cases h
        exact ⟨hs.2, fun hne => absurd hs.1 hne⟩
  | inCheckout expected new path =>
    cases h
    unfold Repo.fastForward
    split <;> trivial
  | bare base expected made =>
    cases h
    unfold Repo.bareUpdate
    split
    · trivial
    · cases job <;> trivial
  | lost expected =>
    simp only [Repo.turn] at h
    split at h
    · cases h
      trivial
    · split at h <;>
      · cases h
        trivial
  | ended outcome => cases h

theorem turn_forward {c : Call C} (hs : c.stage.Sound c.job)
    (hg : ∀ g ∈ c.bareLand, r.branches target = some g.2.1 → g.2.2.Keeps g.1 g.2.1)
    (h : r.turn target c.job x c.stage = some t) :
    ∀ m ∈ t.moved, m.1 = target → ∀ v ∈ m.2.1, v ≤ m.2.2 := by
  obtain ⟨job, stage, seen, moved, latest⟩ := c
  cases stage with
  | inCheckout expected new path =>
    cases h
    unfold Repo.fastForward
    cases hff : r.ffOnly path new x.hindered with
    | refused | upToDate =>
      intro m hm
      cases hm
    | forwards head =>
      cases head with
      | detached c =>
        intro m hm
        cases hm
      | branch name =>
        intro m hm _ v hv
        cases hm
        exact r.ffOnly_forwards hff v hv
  | bare base expected made =>
    cases h
    unfold Repo.bareUpdate
    cases hu : (if x.hindered then none else r.updateRef target made.new expected) with
    | none =>
      intro m hm
      cases hm
    | some r' =>
      intro m hm _ v hv
      cases hm
      cases hv
      have hold : r.branches target = some expected := by
        cases hx : x.hindered with
        | true =>
          rw [hx] at hu
          cases hu
        | false =>
          rw [hx] at hu
          exact (r.updateRef_eq_some hu).1
      obtain ⟨hon, hbase⟩ := hs
      by_cases hjob : job = .land
      · have hkeeps := hg (base, expected, made) (by simp [Call.bareLand, hjob]) hold
        exact hon.keeps hkeeps
      · exact hon.keeps (.inl (le_of_eq (hbase hjob)))
  | _ =>
    have hquiet := (turn_quiet (by rintro _ _ _ ⟨⟩) (by rintro _ _ _ ⟨⟩) h).2
    rw [hquiet]
    intro m hm
    cases hm

structure GitCalls.Fit (target : String) (y : GitCalls C) : Prop where
  sound : ∀ c ∈ y.calls, c.stage.Sound c.job
  forward : y.Forward target

theorem fit_step {y y' : GitCalls C} {m : Move C} (hy : y.Fit target) (h : y.step target m = some y')
    (hg : Grounded target y m) : y'.Fit target := by
  constructor
  · intro c' hc
    rcases step_call h hc with ⟨c, hmem, rfl⟩ | ⟨job, -, -, rfl⟩ | ⟨i, x, c, t, -, hi, ht, -, rfl⟩
    · exact hy.sound c hmem
    · trivial
    · exact turn_sound (hy.sound c (mem_of_getElem? hi)) ht
  · intro c' hc
    rcases step_call h hc with ⟨c, hmem, rfl⟩ | ⟨job, -, -, rfl⟩ | ⟨i, x, c, t, rfl, hi, ht, -, rfl⟩
    · exact hy.forward c hmem
    · nofun
    · have hmem : c ∈ y.calls := mem_of_getElem? hi
      intro m hm
      rcases mem_append.mp hm with hm | hm
      · exact hy.forward c hmem m hm
      · exact turn_forward (hy.sound c hmem) (hg c hi) ht m (by simpa using hm)

/-- Whatever else moves the refs and the worktrees, the calls move their target forward, as
long as no merge or revert updates a ref from a value its commit was not made from. -/
theorem target_moves_forward (target : String) (r : Repo C) (moves : List (Move C))
    (h : Meets (GitCalls.step target) (Grounded target) { repo := r, calls := [] } moves) :
    Keeps (GitCalls.step target) (GitCalls.Forward target) { repo := r, calls := [] } moves := by
  have hfit : (({ repo := r, calls := [] } : GitCalls C)).Fit target :=
    ⟨fun c hc => (not_mem_nil hc).elim, fun c hc => (not_mem_nil hc).elim⟩
  exact (keeps_of_meets (fun _ _ _ hy hs hg => fit_step hy hs hg) hfit h).mono fun _ hy => hy.forward

end

/-- A repository with `main` at its first commit and a branch to merge. -/
def barn : Repo Work where
  branches := fun b =>
    if b = "main" then some ⟨0, 0⟩ else if b = "rat/pip" then some ⟨1, 0⟩ else none
  tags := fun _ => none
  worktrees := []

/-- The merge of `rat/pip` into a worktree at the first commit. -/
def mergePip : Choice Work where
  made := some { new := ⟨2, 0⟩, source := some ⟨1, 0⟩ }

/-- Nobody moves `main` while a merge lands. -/
def calmLanding : List (Move Work) :=
  [.call .land, .run 0 {}, .run 0 {}, .run 0 mergePip, .run 0 {}, .run 0 {}, .run 0 {}]

theorem target_moves_forward_calm :
    ((run (GitCalls.step "main") { repo := barn, calls := [] } calmLanding).bind fun y =>
      y.repo.branches "main") = some ⟨2, 0⟩ ∧
      Keeps (GitCalls.step "main") (GitCalls.Forward "main") { repo := barn, calls := [] }
        calmLanding :=
  ⟨by decide, target_moves_forward "main" barn calmLanding (by decide)⟩

/-- Another user's commit arrives between `worktree add` and the read of the target. -/
def overtakenLanding : List (Move Work) :=
  [.call .land, .run 0 {}, .forward "main" ⟨0, 1⟩, .run 0 {}, .run 0 mergePip, .run 0 {},
    .run 0 {}, .run 0 {}]

/-- Fast-forwards by others are enough to lose a commit. -/
theorem merge_drops_commit :
    ¬ ∀ (r : Repo Work) (moves : List (Move Work)), (∀ b c, .reset b c ∉ moves) →
      Keeps (GitCalls.step "main") (GitCalls.Forward "main") { repo := r, calls := [] } moves :=
        fun h =>
  not_keeps_of_run (by decide) (h barn overtakenLanding (by simp [overtakenLanding]))

end RatKingdom.Git
