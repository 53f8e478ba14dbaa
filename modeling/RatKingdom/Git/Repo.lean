/-
The part of a git repository that a landing touches.

Commits are ordered by ancestry: `a ≤ b` says that `b` contains `a`.  A branch is a ref that
git moves atomically, `update-ref` against an old value and `merge --ff-only` in a worktree
onto whatever that worktree has checked out at the time.
-/
import Mathlib.Order.Basic

namespace RatKingdom.Git

/-- What a worktree is on. -/
inductive Head (C : Type) where
  | branch (name : String)
  | detached (c : C)
  deriving DecidableEq

/-- The refs under `refs/heads` and `refs/tags`, and the worktrees by path. -/
structure Repo (C : Type) where
  branches : String → Option C
  tags : String → Option C
  worktrees : List (String × Head C)

/-- What `merge --ff-only` comes to in a worktree: what it moves, if anything. -/
inductive FastForward (C : Type) where
  | refused | upToDate
  | forwards (head : Head C)

namespace Repo

variable {C : Type} (r : Repo C)

def resolve (name : String) : Option C := (r.tags name).or (r.branches name)

def setBranch (name : String) (c : C) : Repo C :=
  { r with branches := fun b => if b = name then some c else r.branches b }

def setTag (name : String) (c : C) : Repo C :=
  { r with tags := fun t => if t = name then some c else r.tags t }

def setHead (path : String) (head : Head C) : Repo C :=
  { r with worktrees := r.worktrees.map fun w => if w.1 = path then (w.1, head) else w }

def headAt (path : String) : Option (Head C) := (r.worktrees.find? fun w => w.1 = path).map Prod.snd

def commitOf : Head C → Option C
  | .branch name => r.branches name
  | .detached c => some c

def moveHead (path : String) (head : Head C) (c : C) : Repo C :=
  match head with
  | .branch name => r.setBranch name c
  | .detached _ => r.setHead path (.detached c)

@[simp] theorem setBranch_branches (name : String) (c : C) (b : String) :
    (r.setBranch name c).branches b = if b = name then some c else r.branches b := rfl

@[simp] theorem moveHead_branch (path name : String) (c : C) :
    r.moveHead path (.branch name) c = r.setBranch name c := rfl

section
variable [DecidableEq C]

/-- `worktree_checked_out_on`, when the listing works. -/
def checkedOutOn (branch : String) : Option String :=
  (r.worktrees.find? fun w => w.2 = .branch branch).map Prod.fst

def updateRef (branch : String) (new old : C) : Option (Repo C) :=
  if r.branches branch = some old then some (r.setBranch branch new) else none

theorem updateRef_eq_some {branch : String} {new old : C} {r' : Repo C}
    (h : r.updateRef branch new old = some r') :
    r.branches branch = some old ∧ r' = r.setBranch branch new := by
  unfold updateRef at h
  split at h
  · rename_i hold
    cases h
    exact ⟨hold, rfl⟩
  · cases h

end

section
variable [PartialOrder C] [DecidableLE C]

/-- `merge --ff-only commit` in the worktree at `path`; `edits` says that local edits there
are in its way. -/
def ffOnly (path : String) (commit : C) (edits : Bool) : FastForward C :=
  match r.headAt path with
  | none => .refused
  | some head =>
    match r.commitOf head with
    | none => if edits then .refused else .forwards head
    | some tip =>
      if commit ≤ tip then .upToDate
      else if tip ≤ commit ∧ edits = false then .forwards head
      else .refused

theorem ffOnly_forwards {path : String} {commit : C} {edits : Bool} {head : Head C}
    (h : r.ffOnly path commit edits = .forwards head) :
    ∀ tip, r.commitOf head = some tip → tip ≤ commit := by
  intro tip ht
  unfold ffOnly at h
  split at h
  · cases h
  · rename_i found _
    split at h
    · rename_i hn
      split at h
      · cases h
      · cases h
        rw [hn] at ht
        cases ht
    · rename_i tip' htip
      split at h
      · cases h
      · split at h
        · rename_i hle
          cases h
          rw [htip] at ht
          cases ht
          exact hle.1
        · cases h

end

end Repo

/-- A commit given by how much it contains of two lines of work. -/
structure Work where
  ours : Nat
  theirs : Nat
  deriving DecidableEq

instance Work.partialOrder : PartialOrder Work where
  le a b := a.ours ≤ b.ours ∧ a.theirs ≤ b.theirs
  le_refl a := ⟨Nat.le_refl _, Nat.le_refl _⟩
  le_trans a b c hab hbc := ⟨Nat.le_trans hab.1 hbc.1, Nat.le_trans hab.2 hbc.2⟩
  le_antisymm a b hab hba := by
    obtain ⟨o, t⟩ := a
    obtain ⟨o', t'⟩ := b
    rw [Work.mk.injEq]
    exact ⟨Nat.le_antisymm hab.1 hba.1, Nat.le_antisymm hab.2 hba.2⟩

instance Work.decidableLE : DecidableLE Work := fun a b => inferInstanceAs (Decidable (_ ∧ _))

end RatKingdom.Git
