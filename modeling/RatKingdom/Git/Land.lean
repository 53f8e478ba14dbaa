/-
Landing on a target branch, command by command.

`merge_branch` and `revert_merge` share one engine: they build a commit in a detached worktree
made from the target's name, read the target twice around it and advance it.  For a candidate
that was built and tested before, `advance_target_to` compares the target with the value the
candidate was built on and advances it.  Both end in `advance_target`: a fast-forward in the
worktree that has the target checked out, or `update-ref` with an old value if none has.
Other users of the repository move refs and switch worktrees between any two commands.
-/
import RatKingdom.Lib.Run
import RatKingdom.Git.Repo

namespace RatKingdom.Git

open Lib List

/-- What a call is to do: build a commit and land it, or land `commit` if the target is at
`expected`. -/
inductive Job (C : Type) where
  | land
  | swap (commit expected : C)
  deriving DecidableEq

/-- A commit made in the temporary worktree, and the merged source. -/
structure Made (C : Type) where
  new : C
  source : Option C

/-- The answers of `MergeOutcome` and `AdvanceOutcome`, and errors. -/
inductive Outcome (C : Type) where
  | merged (new : C)
  | unmerged
  | advanced (commit : C)
  | stale (expected actual : C)
  | blocked (expected : C) (path : String)
  | error

/-- Where a call stands between two of its commands.  `base` is what the temporary worktree
was made from. -/
inductive Stage (C : Type) where
  | start
  | treed (base : C)
  | guarded (base before : C)
  | built (base before : C) (made : Made C)
  | advancing (base expected : C) (made : Made C)
  | inCheckout (expected new : C) (path : String)
  | bare (base expected : C) (made : Made C)
  | lost (expected : C)
  | ended (outcome : Outcome C)

/-- What git does apart from the refs: the commit a merge or revert makes, if it succeeds,
whether local edits or a lock are in the way of the next ref update, and whether the worktrees
can be listed. -/
structure Choice (C : Type) where
  made : Option (Made C) := none
  hindered : Bool := false
  lists : Bool := true

/-- One command of a call: the repository after it, where the call goes on, and the ref it
moved, with its value before and after. -/
structure Turn (C : Type) where
  repo : Repo C
  stage : Stage C
  moved : Option (String × Option C × C) := none

section
variable {C : Type}

def Job.success : Job C → C → Outcome C
  | .land, new => .merged new
  | .swap commit _, _ => .advanced commit

def Job.refusal : Job C → C → String → Outcome C
  | .land, _, _ => .error
  | .swap _ _, expected, path => .blocked expected path

variable [PartialOrder C] [DecidableEq C] [DecidableLE C]

/-- A merge or a revert makes a commit on top of the worktree's `base`, or leaves it there when
there is nothing to merge. -/
def Made.On (base : C) (m : Made C) : Prop := base ≤ m.new ∧ ∀ s ∈ m.source, s ≤ m.new

instance decidableOn (base : C) (m : Made C) : Decidable (m.On base) :=
  inferInstanceAs (Decidable (_ ∧ _))

/-- The first command of a call. -/
def Repo.begin (r : Repo C) (target : String) : Job C → Stage C
  | .land =>
    match r.branches target, r.resolve target with
    | some _, some base => .treed base
    | _, _ => .ended .error
  | .swap commit expected =>
    if commit ≠ expected ∧ ¬ expected ≤ commit then .ended .error
    else
      match r.branches target with
      | none => .ended .error
      | some tip =>
        if tip ≠ expected then .ended (.stale expected tip)
        else if commit = expected then .ended (.advanced commit)
        else .advancing expected expected { new := commit, source := none }

/-- `merge --ff-only` in the checkout that was found. -/
def Repo.fastForward (r : Repo C) (job : Job C) (expected new : C) (path : String)
    (hindered : Bool) : Turn C :=
  match r.ffOnly path new hindered with
  | .refused => { repo := r, stage := .ended (job.refusal expected path) }
  | .upToDate => { repo := r, stage := .ended (job.success new) }
  | .forwards head =>
    { repo := r.moveHead path head new, stage := .ended (job.success new)
      moved :=
        match head with
        | .branch name => some (name, r.branches name, new)
        | .detached _ => none }

def Repo.bareUpdate (r : Repo C) (target : String) (job : Job C) (expected new : C)
    (hindered : Bool) : Turn C :=
  match if hindered then none else r.updateRef target new expected with
  | some repo =>
    { repo, stage := .ended (job.success new), moved := some (target, some expected, new) }
  | none =>
    { repo := r
      stage :=
        match job with
        | .land => .ended .error
        | .swap _ _ => .lost expected }

/-- The next command of a call. -/
def Repo.turn (r : Repo C) (target : String) (job : Job C) (x : Choice C) :
    Stage C → Option (Turn C)
  | .start => some { repo := r, stage := r.begin target job }
  | .treed base =>
    match r.branches target with
    | none => some { repo := r, stage := .ended .error }
    | some before => some { repo := r, stage := .guarded base before }
  | .guarded base before =>
    match x.made with
    | none => some { repo := r, stage := .ended .unmerged }
    | some made =>
      if made.On base then some { repo := r, stage := .built base before made } else none
  | .built base before made =>
    match r.branches target with
    | none => some { repo := r, stage := .ended .error }
    | some now =>
      if now ≠ before then some { repo := r, stage := .ended .unmerged }
      else some { repo := r, stage := .advancing base before made }
  | .advancing base expected made =>
    match if x.lists then r.checkedOutOn target else none with
    | some path => some { repo := r, stage := .inCheckout expected made.new path }
    | none => some { repo := r, stage := .bare base expected made }
  | .inCheckout expected new path => some (r.fastForward job expected new path x.hindered)
  | .bare _ expected made => some (r.bareUpdate target job expected made.new x.hindered)
  | .lost expected =>
    match r.branches target with
    | none => some { repo := r, stage := .ended .error }
    | some now =>
      if now = expected then some { repo := r, stage := .ended .error }
      else some { repo := r, stage := .ended (.stale expected now) }
  | .ended _ => none

end

/-- A call, with the values the target had since it began, the refs it moved and the target's
value at its latest command. -/
structure Call (C : Type) where
  job : Job C
  stage : Stage C
  seen : List (Option C)
  moved : List (String × Option C × C)
  latest : Option C

/-- A repository with the calls on it. -/
structure GitCalls (C : Type) where
  repo : Repo C
  calls : List (Call C)

/-- A call begins or runs its next command, or another user moves a branch forward or anywhere,
switches a worktree or sets a tag. -/
inductive Move (C : Type) where
  | call (job : Job C)
  | run (i : Nat) (x : Choice C)
  | forward (branch : String) (c : C)
  | reset (branch : String) (c : C)
  | switch (path : String) (head : Head C)
  | tag (name : String) (c : C)

section
variable {C : Type}

def Call.fresh (job : Job C) (latest : Option C) : Call C :=
  { job, stage := .start, seen := [], moved := [], latest }

def Call.see (o : Option C) (c : Call C) : Call C := { c with seen := c.seen ++ [o] }

def GitCalls.observe (y : GitCalls C) (target : String) : GitCalls C :=
  { y with calls := y.calls.map (Call.see (y.repo.branches target)) }

def Call.after (c : Call C) (latest : Option C) (t : Turn C) : Call C :=
  { c with stage := t.stage, moved := c.moved ++ t.moved.toList, latest }

variable [PartialOrder C] [DecidableEq C] [DecidableLE C]

def Repo.forwardable (r : Repo C) (branch : String) (c : C) : Bool :=
  match r.branches branch with
  | none => false
  | some tip => decide (tip ≤ c)

def GitCalls.step (target : String) (y : GitCalls C) : Move C → Option (GitCalls C)
  | .call job =>
    some ({ y with calls := y.calls ++ [Call.fresh job (y.repo.branches target)] }.observe target)
  | .run i x =>
    match y.calls[i]? with
    | none => none
    | some c =>
      match y.repo.turn target c.job x c.stage with
      | none => none
      | some t =>
        let after := c.after (y.repo.branches target) t
        some ({ repo := t.repo, calls := y.calls.set i after : GitCalls C }.observe target)
  | .forward branch c =>
    if y.repo.forwardable branch c then
      some ({ y with repo := y.repo.setBranch branch c }.observe target)
    else none
  | .reset branch c => some ({ y with repo := y.repo.setBranch branch c }.observe target)
  | .switch path head => some ({ y with repo := y.repo.setHead path head }.observe target)
  | .tag name c => some ({ y with repo := y.repo.setTag name c }.observe target)

variable {target : String} {r : Repo C} {job : Job C} {x : Choice C} {t : Turn C} {y y' : GitCalls C}

theorem turn_quiet {stage : Stage C} (hff : ∀ e n p, stage ≠ .inCheckout e n p)
    (hup : ∀ b e m, stage ≠ .bare b e m) (h : r.turn target job x stage = some t) :
    t.repo = r ∧ t.moved = none := by
  cases stage with
  | inCheckout expected new path => exact absurd rfl (hff expected new path)
  | bare base expected made => exact absurd rfl (hup base expected made)
  | start =>
    cases h
    exact ⟨rfl, rfl⟩
  | ended outcome => cases h
  | _ =>
    simp only [Repo.turn] at h
    split at h <;> (try split at h) <;> cases h <;> exact ⟨rfl, rfl⟩

/-- A call after a step is one from before it, a new one, or the one that ran. -/
theorem step_call {m : Move C} (h : y.step target m = some y') {c' : Call C} (hc : c' ∈ y'.calls) :
    (∃ c ∈ y.calls, c' = c.see (y'.repo.branches target)) ∨
      (∃ job, m = .call job ∧ y'.repo = y.repo ∧
        c' = (Call.fresh job (y.repo.branches target)).see (y'.repo.branches target)) ∨
      ∃ i x c t, m = .run i x ∧ y.calls[i]? = some c ∧
        y.repo.turn target c.job x c.stage = some t ∧ y'.repo = t.repo ∧
          c' = (c.after (y.repo.branches target) t).see (y'.repo.branches target) := by
  have hother : ∀ r : Repo C, c' ∈ (({ y with repo := r } : GitCalls C).observe target).calls →
      ∃ c ∈ y.calls, c' = c.see (r.branches target) := by
    intro r hc
    obtain ⟨c, hm, rfl⟩ := mem_map.mp hc
    exact ⟨c, hm, rfl⟩
  cases m with
  | call job =>
    cases h
    obtain ⟨c, hm, rfl⟩ := mem_map.mp hc
    rcases mem_append.mp hm with hm | hm
    · exact .inl ⟨c, hm, rfl⟩
    · exact .inr (.inl ⟨job, rfl, rfl, congrArg _ (mem_singleton.mp hm)⟩)
  | run i x =>
    simp only [GitCalls.step] at h
    split at h
    · cases h
    · rename_i c hi
      split at h
      · cases h
      · rename_i t ht
        cases h
        obtain ⟨d, hm, rfl⟩ := mem_map.mp hc
        rcases mem_or_eq_of_mem_set hm with hm | rfl
        · exact .inl ⟨d, hm, rfl⟩
        · exact .inr (.inr ⟨i, x, c, t, rfl, hi, ht, rfl, rfl⟩)
  | forward branch c =>
    simp only [GitCalls.step] at h
    split at h
    · cases h
      exact .inl (hother _ hc)
    · cases h
  | reset branch c | switch path head | tag name c =>
    cases h
    exact .inl (hother _ hc)

end

end RatKingdom.Git
