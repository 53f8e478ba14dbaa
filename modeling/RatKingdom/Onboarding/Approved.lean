/-
Only the approved patch is applied, as long as what a call takes up is what it left.

A call that finds a dirty target or a commit with the proposal's trailer takes it for its own
interrupted work.  It asks git whether the patch could be taken off again, which edits elsewhere
in the file do not disturb, and of the commit it reads the message and the parent only.
`AsApproved` says that what is taken up so is the parent with the approved diff applied, and
under it every answer of a run is exact (`onboarding_applies_approved`).
-/
import RatKingdom.Lib.First
import RatKingdom.Lib.Run
import RatKingdom.Onboarding.Apply

namespace RatKingdom.Onboarding

open Lib Core List

section
variable {C : Type} [DecidableEq C]

/-- The worktree, the session's journal of proposals, and the answers given so far. -/
structure OnboardingState (C : Type) where
  worktree : Worktree C
  proposals : List (OnboardingProposal C)
  answers : List (OnboardingProposal C × OnboardingApplication C)

def OnboardingState.start (worktree : Worktree C) : OnboardingState C := ⟨worktree, [], []⟩

def OnboardingState.find (s : OnboardingState C) (id : String) : Option (OnboardingProposal C) :=
  s.proposals.find? fun p => p.id = id

def recordApplication (id : String) (application : OnboardingApplication C)
    (proposals : List (OnboardingProposal C)) : List (OnboardingProposal C) :=
  proposals.map fun p => if p.id = id then { p with application := some application } else p

inductive Step (C : Type) where
  | propose (proposal : OnboardingProposal C) (stderr : String)
  /-- A call, cut short after so many writes when `crash` says so; the answer of a finished one
  is recorded unless the daemon stops before that. -/
  | apply (id : String) (job : Job) (crash : Option Nat) (recorded : Bool)
  | edit (worktree : Worktree C)

def answer (s : OnboardingState C) (p : OnboardingProposal C) (w : Worktree C)
    (a : OnboardingApplication C) (recorded : Bool) : OnboardingState C where
  worktree := w
  proposals := if recorded then recordApplication p.id a s.proposals else s.proposals
  answers := s.answers ++ [(p, a)]

def applyStep (host : Host C) (s : OnboardingState C) (p : OnboardingProposal C) (job : Job)
    (crash : Option Nat) (recorded : Bool) : Option (OnboardingState C) :=
  let call := ensureApplication host s.proposals p job
  match crash with
  | some k => (call.crash s.worktree k).map fun w => { s with worktree := w }
  | none =>
    match (call s.worktree).2 with
    | .ok a => some (answer s p (call.final s.worktree) a recorded)
    | .error _ => some { s with worktree := call.final s.worktree }

def step (host : Host C) (s : OnboardingState C) : Step C → Option (OnboardingState C)
  | .propose p stderr =>
    if (preflightProposal host p s.worktree stderr).isOk ∧ p.application = none ∧
      s.find p.id = none then some { s with proposals := s.proposals ++ [p] }
    else none
  | .apply id job crash recorded =>
    (s.find id).bind fun p => applyStep host s p job crash recorded
  | .edit w => some { s with worktree := w }

/-- The commit is the parent with exactly the approved diff applied, and the parent is the
reviewed tree or the commit of another recorded application. -/
def ExactOver (host : Host C) (proposals : List (OnboardingProposal C)) (p : OnboardingProposal C)
    (commit parent : C) : Prop :=
  host.apply p.draft.diff (host.tree parent) = some (host.tree commit) ∧
    (host.treeRevision (host.tree parent) = p.treeRevision ∨
      ∃ c ∈ proposals, c.id ≠ p.id ∧ c.application.map (fun a => a.commit) = some parent)

instance (host : Host C) (proposals : List (OnboardingProposal C)) (p : OnboardingProposal C)
    (commit parent : C) : Decidable (ExactOver host proposals p commit parent) :=
  inferInstanceAs (Decidable (_ ∧ _))

def Exact (host : Host C) (proposals : List (OnboardingProposal C)) (p : OnboardingProposal C)
    (a : OnboardingApplication C) : Prop :=
  ∃ parent ∈ (host.parents a.commit).head?, ExactOver host proposals p a.commit parent

instance (host : Host C) (proposals : List (OnboardingProposal C)) (p : OnboardingProposal C)
    (a : OnboardingApplication C) : Decidable (Exact host proposals p a) :=
  decidable_of_iff ((host.parents a.commit).head?.any fun parent =>
      ExactOver host proposals p a.commit parent) (by simp [Exact, Option.any_eq_true])

def Approved (host : Host C) (s : OnboardingState C) : Prop :=
  ∀ x ∈ s.answers, Exact host s.proposals x.1 x.2

instance (host : Host C) : DecidablePred (Approved host) :=
  fun s => inferInstanceAs (Decidable (∀ _ ∈ _, _))

/-- `HEAD` is accepted for an interrupted application. -/
def Recoverable (host : Host C) (session : List (OnboardingProposal C)) (p : OnboardingProposal C)
    (w : Worktree C) (parent : C) : Prop :=
  statusPaths host w = [] ∧ (requireProposalBase host session p parent).isOk ∧
    (validateTarget host w.files p.draft).isOk
deriving Decidable

/-- The dirty files are accepted for an interrupted application. -/
def Adoptable (host : Host C) (session : List (OnboardingProposal C)) (p : OnboardingProposal C)
    (w : Worktree C) : Prop :=
  statusPaths host w = [p.draft.targetPath] ∧ (requireProposalBase host session p w.head).isOk ∧
    host.reverseChecks p.draft.diff w.files = true ∧ (validateTarget host w.files p.draft).isOk
deriving Decidable

/-- What a call without a recorded application takes for its own work is the approved patch. -/
def AsApproved (host : Host C) (session : List (OnboardingProposal C)) (p : OnboardingProposal C)
    (w : Worktree C) : Prop :=
  if carriesTrailer (host.message w.head) p.digest then
    ∀ parent ∈ (host.parents w.head).head?, Recoverable host session p w parent →
      host.apply p.draft.diff (host.tree parent) = some (host.tree w.head)
  else
    Adoptable host session p w → host.apply p.draft.diff (host.tree w.head) = some w.files

def TakesUp (host : Host C) (s : OnboardingState C) : Step C → Prop
  | .apply id _ _ _ => ∀ p ∈ s.find id, p.application = none →
      AsApproved host s.proposals p s.worktree
  | _ => True

instance (host : Host C) (session : List (OnboardingProposal C)) (p : OnboardingProposal C)
    (w : Worktree C) : Decidable (AsApproved host session p w) :=
  if h : carriesTrailer (host.message w.head) p.digest then
    decidable_of_iff (∀ parent ∈ (host.parents w.head).head?, Recoverable host session p w parent →
          host.apply p.draft.diff (host.tree parent) = some (host.tree w.head))
      (by rw [AsApproved, if_pos h])
  else
    decidable_of_iff (Adoptable host session p w →
        host.apply p.draft.diff (host.tree w.head) = some w.files)
      (by rw [AsApproved, if_neg h])

instance (host : Host C) (s : OnboardingState C) : ∀ x, Decidable (TakesUp host s x)
  | .apply id _ _ _ => inferInstanceAs (Decidable (∀ _ ∈ _, _))
  | .propose _ _ | .edit _ => isTrue trivial

end

open OnboardingState

section
variable {C : Type} {host : Host C} {w : Worktree C}

theorem not_mem_statusPaths {p : String} (h : p ∉ statusPaths host w) :
    (host.tree w.head).lookup p = w.index.lookup p ∧ w.index.lookup p = w.files.lookup p := by
  by_cases hm : p ∈ (host.tree w.head).keys ∪ w.index.keys ∪ w.files.keys
  · have htracked : ¬ trackedChange host w p = true := fun ht =>
      h (mem_append_left _ (mem_filter.mpr ⟨mem_listed.mpr hm, ht⟩))
    have huntracked : ¬ untracked w p = true := fun hu =>
      h (mem_append_right _ (mem_filter.mpr ⟨mem_listed.mpr hm, hu⟩))
    simp only [trackedChange, Bool.or_eq_true, Bool.and_eq_true, decide_eq_true_eq, not_or,
      not_and, not_not] at htracked
    refine ⟨htracked.1, ?_⟩
    cases hi : w.index.lookup p with
    | some blob => exact hi ▸ htracked.2 (by rw [hi]; rfl)
    | none =>
      simp only [untracked, hi, Option.isNone_none, Bool.true_and, Bool.not_eq_true,
        Option.isSome_eq_false_iff, Option.isNone_iff_eq_none] at huntracked
      exact huntracked.symm
  · simp only [Finset.mem_union, not_or, Finmap.mem_keys] at hm
    obtain ⟨⟨hhead, hindex⟩, hfiles⟩ := hm
    rw [Finmap.lookup_eq_none.mpr hhead, Finmap.lookup_eq_none.mpr hindex,
      Finmap.lookup_eq_none.mpr hfiles]
    exact ⟨rfl, rfl⟩

theorem files_of_clean (h : statusPaths host w = []) : w.files = host.tree w.head := by
  refine Finmap.ext_lookup fun p => ?_
  have hp : p ∉ statusPaths host w := by
    rw [h]
    exact not_mem_nil
  obtain ⟨hhead, hindex⟩ := not_mem_statusPaths hp
  exact (hhead.trans hindex).symm

theorem stage_index {target : String} (h : statusPaths host w = [target]) :
    (stage target w).index = w.files := by
  have hrest : ∀ p, p ≠ target → w.index.lookup p = w.files.lookup p := by
    intro p hp
    have hclean : p ∉ statusPaths host w := by
      rw [h]
      exact fun hm => hp (mem_singleton.mp hm)
    exact (not_mem_statusPaths hclean).2
  refine Finmap.ext_lookup fun p => ?_
  unfold stage
  cases hf : w.files.lookup target with
  | some blob =>
    rcases eq_or_ne p target with rfl | hp
    · rw [hf]
      exact Finmap.lookup_insert _
    · rw [← hrest p hp]
      exact Finmap.lookup_insert_of_ne _ hp
  | none =>
    rcases eq_or_ne p target with rfl | hp
    · rw [hf]
      exact Finmap.lookup_erase _ _
    · rw [← hrest p hp]
      exact Finmap.lookup_erase_ne hp

theorem stage_head (target : String) (w : Worktree C) : (stage target w).head = w.head := by
  unfold stage
  cases w.files.lookup target with
  | some blob | none => rfl

theorem requireClean_ok {paths : List String} (h : requireClean paths = .ok ()) : paths = [] := by
  unfold requireClean at h
  split at h
  · rename_i hempty
    exact List.isEmpty_iff.mp hempty
  · cases h

theorem requireOnlyTarget_ok {paths : List String} {target : String}
    (h : requireOnlyTarget paths target = .ok ()) : paths = [target] := by
  unfold requireOnlyTarget at h
  split at h
  · rename_i hpaths
    exact hpaths
  · cases h

end

section
variable {C : Type} [DecidableEq C] {host : Host C} {session : List (OnboardingProposal C)}
  {p : OnboardingProposal C} {job : Job}

theorem requireProposalBase_ok {commit : C}
    (h : requireProposalBase host session p commit = .ok ()) :
    host.treeRevision (host.tree commit) = p.treeRevision ∨
      ∃ c ∈ session, c.id ≠ p.id ∧ c.application.map (fun a => a.commit) = some commit := by
  unfold requireProposalBase at h
  simp only at h
  split at h
  · rename_i htree
    exact .inl htree
  · split at h
    · rename_i hbase
      right
      simp only [Bool.and_eq_true, any_eq_true, decide_eq_true_eq, Option.any_eq_true] at hbase
      obtain ⟨⟨c, hc, hid, a, ha, hcommit⟩, -⟩ := hbase
      refine ⟨c, hc, hid, ?_⟩
      rw [ha, ← hcommit]
      rfl
    · cases h

variable {w : Worktree C} {a : OnboardingApplication C}

omit [DecidableEq C] in
theorem applicationEvidence_commit {target : String}
    (h : (applicationEvidence host job target w).2 = .ok a) : a.commit = w.head := by
  have h := Prog.check_answer h
  obtain ⟨digest, -, h⟩ := Prog.ofExcept_answer h
  cases h
  rfl

theorem recordedApplication_answer {recorded : OnboardingApplication C}
    (h : (recordedApplication host p job recorded w).2 = .ok a) : a = recorded := by
  have h := Prog.check_answer h
  obtain ⟨⟨⟩, -, h⟩ := Prog.ofExcept_answer h
  have h := Prog.check_answer h
  split at h
  · cases h
  · obtain ⟨digest, -, h⟩ := Prog.ofExcept_answer h
    split at h
    · cases h
    · obtain ⟨⟨⟩, -, h⟩ := Prog.ofExcept_answer h
      cases h
      rfl

theorem recoverCommit_exact (htrailer : carriesTrailer (host.message w.head) p.digest = true)
    (happroved : AsApproved host session p w) (h : (recoverCommit host session p job w).2 = .ok a) :
    Exact host session p a := by
  have h := Prog.check_answer h
  obtain ⟨⟨⟩, hclean, h⟩ := Prog.ofExcept_answer h
  have h := Prog.check_answer h
  cases hparent : (host.parents w.head).head? with
  | none =>
    rw [hparent] at h
    cases h
  | some parent =>
    rw [hparent] at h
    obtain ⟨⟨⟩, hbase, h⟩ := Prog.ofExcept_answer h
    obtain ⟨⟨⟩, hvalid, h⟩ := Prog.ofExcept_answer h
    rw [AsApproved, if_pos htrailer] at happroved
    have hrecoverable : Recoverable host session p w parent :=
      ⟨requireClean_ok hclean, by rw [hbase]; rfl, by rw [hvalid]; rfl⟩
    refine ⟨parent, ?_, ?_, requireProposalBase_ok hbase⟩
    · rw [applicationEvidence_commit h]
      exact hparent
    · rw [applicationEvidence_commit h]
      exact happroved parent hparent hrecoverable

omit [DecidableEq C] in
theorem commitIndex_head {message : String} (h : (commitIndex host job message w).2 = .ok ⟨⟩) :
    ((commitIndex host job message).final w).head = host.create w.index w.head message job.now := by
  have h := Prog.read_answer h
  have hfinal : (commitIndex host job message).final w =
      (if w.index = host.tree w.head then .fail (gitFailed "commit" job.stderr)
        else .perform (job.fault .commit) fun w =>
          { w with head := host.create w.index w.head message job.now } : Op C PUnit).final w := rfl
  rw [hfinal]
  split at h
  · cases h
  · rename_i hchanged
    rw [if_neg hchanged, Prog.perform_final h]

variable {a : OnboardingApplication C}

theorem commitPatch_exact {w : Worktree C}
    (hbase : requireProposalBase host session p w.head = .ok ())
    (hpatched : (validateTarget host w.files p.draft).isOk →
      host.apply p.draft.diff (host.tree w.head) = some w.files)
    (h : (commitPatch host p job w).2 = .ok a) : Exact host session p a := by
  have h := Prog.check_answer h
  have h := Prog.read_answer h
  obtain ⟨⟨⟩, htarget, h⟩ := Prog.ofExcept_answer h
  obtain ⟨⟨⟩, hvalid, h⟩ := Prog.ofExcept_answer h
  have h := Prog.perform_answer h
  have hindex := stage_index (requireOnlyTarget_ok htarget)
  obtain ⟨⟨⟩, hcommit, h⟩ := Prog.bind_answer h
  have hhead := commitIndex_head hcommit
  have h := Prog.check_answer h
  have h := Prog.read_answer h
  obtain ⟨⟨⟩, -, h⟩ := Prog.ofExcept_answer h
  have hmade : a.commit = host.create w.files w.head (commitMessage p) job.now := by
    rw [applicationEvidence_commit h, hhead, hindex, stage_head]
  refine ⟨w.head, ?_, ?_, requireProposalBase_ok hbase⟩
  · rw [hmade, host.parents_create]
    rfl
  · rw [hmade, host.tree_create]
    exact hpatched (by rw [hvalid]; rfl)

omit [DecidableEq C] in
/-- The files are the patched ones, or those found where the patch could be taken off. -/
theorem patchFiles_final (h : (patchFiles host p job w).2 = .ok ⟨⟩) :
    ∃ files, (patchFiles host p job).final w = { w with files := files } ∧
      (host.apply p.draft.diff (host.tree w.head) = some files ∨
        files = w.files ∧ statusPaths host w = [p.draft.targetPath] ∧
          host.reverseChecks p.draft.diff w.files = true) := by
  unfold patchFiles at h ⊢
  obtain ⟨⟨⟩, hcheck, h⟩ := Prog.bind_answer h
  rw [Prog.bind_final hcheck, Prog.final_read]
  rw [Prog.check_final hcheck] at h ⊢
  have h := Prog.read_answer h
  simp only at h ⊢
  split at h
  · rename_i hclean
    rw [if_pos hclean]
    obtain ⟨⟨⟩, hcheck, h⟩ := Prog.bind_answer h
    rw [Prog.bind_final hcheck]
    rw [Prog.check_final hcheck] at h ⊢
    cases happly : host.apply p.draft.diff w.files with
    | none =>
      rw [happly] at h
      cases h
    | some files =>
      rw [happly] at h
      simp only at h ⊢
      refine ⟨files, Prog.perform_final h, .inl ?_⟩
      rw [← files_of_clean (List.isEmpty_iff.mp hclean)]
      exact happly
  · rename_i hdirty
    rw [if_neg hdirty]
    obtain ⟨⟨⟩, htarget, h⟩ := Prog.bind_answer h
    rw [Prog.bind_final htarget]
    rw [Prog.ofExcept_final] at h ⊢
    obtain ⟨⟨⟩, hcheck, h⟩ := Prog.bind_answer h
    rw [Prog.bind_final hcheck]
    rw [Prog.check_final hcheck] at h ⊢
    split at h
    · rename_i hreverse
      rw [if_pos hreverse]
      refine ⟨w.files, rfl, .inr ⟨rfl, ?_, hreverse⟩⟩
      cases hr : requireOnlyTarget (statusPaths host w) p.draft.targetPath with
      | error e =>
        rw [hr] at htarget
        cases htarget
      | ok u => exact requireOnlyTarget_ok hr
    · cases h

theorem freshApplication_exact (happroved : AsApproved host session p w)
    (h : (freshApplication host session p job w).2 = .ok a) : Exact host session p a := by
  have h := Prog.check_answer h
  have h := Prog.read_answer h
  split at h
  · rename_i htrailer
    exact recoverCommit_exact htrailer happroved h
  · rename_i htrailer
    have h := Prog.check_answer h
    obtain ⟨⟨⟩, hbase, h⟩ := Prog.ofExcept_answer h
    obtain ⟨⟨⟩, hpatch, h⟩ := Prog.bind_answer h
    obtain ⟨files, hfinal, hfiles⟩ := patchFiles_final hpatch
    rw [hfinal] at h
    refine commitPatch_exact (w := { w with files := files }) hbase (fun hvalid => ?_) h
    rcases hfiles with hpatched | ⟨rfl, htarget, hreverse⟩
    · exact hpatched
    · rw [AsApproved, if_neg htrailer] at happroved
      exact happroved ⟨htarget, by rw [hbase]; rfl, hreverse, hvalid⟩

/-- An answer is the recorded application, or it is exact where the call takes up what was
approved. -/
theorem ensureApplication_exact (happroved : p.application = none → AsApproved host session p w)
    (h : (ensureApplication host session p job w).2 = .ok a) :
    p.application = some a ∨ p.application = none ∧ Exact host session p a := by
  obtain ⟨⟨⟩, -, h⟩ := Prog.ofExcept_answer h
  obtain ⟨⟨⟩, -, h⟩ := Prog.ofExcept_answer h
  cases hrecorded : p.application with
  | some recorded =>
    left
    rw [hrecorded] at h
    rw [recordedApplication_answer h]
  | none =>
    right
    rw [hrecorded] at h
    exact ⟨rfl, freshApplication_exact (happroved hrecorded) h⟩

end

section
variable {C : Type} {host : Host C}

def Extends (earlier later : List (OnboardingProposal C)) : Prop :=
  ∀ c ∈ earlier, ∀ b, c.application = some b → ∃ c' ∈ later, c'.id = c.id ∧ c'.application = some b

variable {p : OnboardingProposal C}

theorem Exact.extends {earlier later : List (OnboardingProposal C)}
    (h : Exact host earlier p a) (hext : Extends earlier later) :
    Exact host later p a := by
  obtain ⟨parent, hparent, hpatched, hbase⟩ := h
  refine ⟨parent, hparent, hpatched, ?_⟩
  rcases hbase with htree | ⟨c, hc, hid, happ⟩
  · exact .inl htree
  · right
    obtain ⟨b, hb, hcommit⟩ := Option.map_eq_some_iff.mp happ
    obtain ⟨c', hc', hid', hb'⟩ := hext c hc b hb
    refine ⟨c', hc', hid' ▸ hid, ?_⟩
    rw [hb', ← hcommit]
    rfl

structure Sound (host : Host C) (s : OnboardingState C) : Prop where
  ids : (s.proposals.map fun p => p.id).Nodup
  recorded : ∀ p ∈ s.proposals, ∀ a, p.application = some a → Exact host s.proposals p a
  answered : Approved host s

theorem sound_start (w : Worktree C) : Sound host (start w) :=
  ⟨nodup_nil, fun _ hp => (not_mem_nil hp).elim, fun _ hx => (not_mem_nil hx).elim⟩

theorem extends_append (proposals : List (OnboardingProposal C)) (p : OnboardingProposal C) :
    Extends proposals (proposals ++ [p]) :=
  fun c hc _ hb => ⟨c, mem_append_left _ hc, rfl, hb⟩

variable {s : OnboardingState C}

theorem Sound.propose {s : OnboardingState C} (h : Sound host s) {p : OnboardingProposal C}
    (hn : p.application = none) (hnew : s.find p.id = none) :
    Sound host { s with proposals := s.proposals ++ [p] } := by
  have hext := extends_append s.proposals p
  refine ⟨?_, fun c hc a ha => ?_, fun x hx => (h.answered x hx).extends hext⟩
  · refine nodup_concat_key h.ids fun c hc heq => ?_
    have := find?_eq_none.mp hnew c hc
    simp [heq] at this
  · rcases mem_append.mp hc with hc | hc
    · exact (h.recorded c hc a ha).extends hext
    · rw [mem_singleton.mp hc, hn] at ha
      cases ha

theorem Sound.worktree (h : Sound host s) (w : Worktree C) :
    Sound host { s with worktree := w } := ⟨h.ids, h.recorded, h.answered⟩

theorem eq_of_id {proposals : List (OnboardingProposal C)} (h : (proposals.map fun p => p.id).Nodup)
    {c : OnboardingProposal C} (hc : c ∈ proposals) (hp : p ∈ proposals) (hid : c.id = p.id) :
    c = p := inj_on_of_nodup_map h hc hp hid

theorem Sound.answer (h : Sound host s) (hp : p ∈ s.proposals) (w : Worktree C)
    (ha : p.application = some a ∨ p.application = none ∧ Exact host s.proposals p a)
    (recorded : Bool) : Sound host (answer s p w a recorded) := by
  have hexact : Exact host s.proposals p a := by
    rcases ha with ha | ⟨-, ha⟩
    · exact h.recorded p hp a ha
    · exact ha
  have hanswered : ∀ later, Extends s.proposals later → ∀ x ∈ s.answers ++ [(p, a)],
      Exact host later x.1 x.2 := by
    intro later hext
    exact forall_mem_concat.mpr ⟨fun x hx => (h.answered x hx).extends hext, hexact.extends hext⟩
  cases recorded with
  | false => exact ⟨h.ids, h.recorded, hanswered _ fun c hc b hb => ⟨c, hc, rfl, hb⟩⟩
  | true =>
    have hext : Extends s.proposals (recordApplication p.id a s.proposals) := by
      intro c hc b hb
      refine ⟨_, mem_map_of_mem hc, ?_⟩
      by_cases hid : c.id = p.id
      · rw [eq_of_id h.ids hc hp hid] at hb ⊢
        rw [if_pos rfl]
        rcases ha with ha | ⟨hn, -⟩
        · exact ⟨rfl, ha ▸ hb⟩
        · rw [hn] at hb
          cases hb
      · rw [if_neg hid]
        exact ⟨rfl, hb⟩
    refine ⟨?_, fun c hc b hb => ?_, hanswered _ hext⟩
    · have hids : (recordApplication p.id a s.proposals).map (fun p => p.id) =
          s.proposals.map fun p => p.id := by
        rw [recordApplication, map_map]
        refine map_congr_left fun c _ => ?_
        by_cases hid : c.id = p.id
        · simp [hid]
        · simp [hid]
      exact hids ▸ h.ids
    · obtain ⟨c₀, hc₀, rfl⟩ := mem_map.mp hc
      by_cases hid : c₀.id = p.id
      · rw [if_pos hid] at hb ⊢
        cases hb
        rw [eq_of_id h.ids hc₀ hp hid]
        exact hexact.extends hext
      · rw [if_neg hid] at hb ⊢
        exact (h.recorded c₀ hc₀ b hb).extends hext

end

section
variable {C : Type} [DecidableEq C] (host : Host C)

theorem sound_step (s : OnboardingState C) (x : Step C) (s' : OnboardingState C)
    (h : Sound host s) (hs : step host s x = some s') (hx : TakesUp host s x) : Sound host s' := by
  cases x with
  | propose p stderr =>
    simp only [step] at hs
    split at hs
    · rename_i hchecks
      cases hs
      exact h.propose hchecks.2.1 hchecks.2.2
    · cases hs
  | edit w =>
    cases hs
    exact h.worktree w
  | apply id job crash recorded =>
    obtain ⟨p, hfind, hs⟩ := Option.bind_eq_some_iff.mp hs
    have hp : p ∈ s.proposals := mem_of_find?_eq_some hfind
    cases crash with
    | some k =>
      obtain ⟨w, -, rfl⟩ := Option.map_eq_some_iff.mp hs
      exact h.worktree w
    | none =>
      cases hanswer : (ensureApplication host s.proposals p job s.worktree).2 with
      | error e =>
        simp only [applyStep, hanswer, Option.some.injEq] at hs
        rw [← hs]
        exact h.worktree _
      | ok a =>
        simp only [applyStep, hanswer, Option.some.injEq] at hs
        rw [← hs]
        exact h.answer hp _ (ensureApplication_exact (hx p hfind) hanswer) recorded

/-- In a run whose calls take up only the approved patch every answer is exact. -/
theorem onboarding_applies_approved (w : Worktree C) (xs : List (Step C))
    (h : Meets (step host) (TakesUp host) (start w) xs) :
    Keeps (step host) (Approved host) (start w) xs :=
  (keeps_of_meets (sound_step host) (sound_start w) h).mono fun _ hs => hs.answered

end

/-- Commits of a history without merges. -/
inductive Line where
  | root (tree : Tree) (message : String)
  | child (tree : Tree) (parent : Line) (message : String) (now : Int)
  deriving DecidableEq

namespace Line

def tree : Line → Tree
  | .root t _ => t
  | .child t _ _ _ => t

def parents : Line → List Line
  | .root _ _ => []
  | .child _ p _ _ => [p]

def message : Line → String
  | .root _ m => m
  | .child _ _ m _ => m

def log : Line → List Line
  | .root t m => [.root t m]
  | .child t p m now => .child t p m now :: log p

end Line

def notesTree (bytes : Bytes) : Tree := (∅ : Tree).insert "NOTES.md" ⟨.regular, bytes⟩

def notes : Bytes := [97, 10, 98, 10, 99, 10, 100, 10, 101, 10]

def patchedNotes : Bytes := [97, 10, 120, 10, 98, 10, 99, 10, 100, 10, 101, 10]

def editedNotes : Bytes := patchedNotes ++ [102, 10]

def notesDiff : String :=
  "--- a/NOTES.md\n+++ b/NOTES.md\n@@ -1,4 +1,5 @@\n a\n+x\n b\n c\n d\n"

def replaceStart (old new bytes : Bytes) : Option Bytes :=
  if old <+: bytes then some (new ++ bytes.drop old.length) else none

def hunkOld : Bytes := notes.take 8

def hunkNew : Bytes := patchedNotes.take 10

def notesHost : Host Line where
  tree := Line.tree
  parents := Line.parents
  commitName := fun _ => "HEAD"
  message := Line.message
  log := Line.log
  create := .child
  tree_create := fun _ _ _ _ => rfl
  parents_create := fun _ _ _ _ => rfl
  treeRevision := fun t =>
    if t = notesTree notes then "5231f5e1e1ecc5e42519734319a385099f103ad4"
    else if t = notesTree patchedNotes then "e67d81f16a278446b9f85ff92830d80da04610c4"
    else "8af1ab49ce5994e6276c0fad27c990c783abfcc6"
  apply := fun diff t =>
    if diff = notesDiff then
      (t.lookup "NOTES.md").bind fun blob =>
        (replaceStart hunkOld hunkNew blob.bytes).map fun bytes =>
          t.insert "NOTES.md" ⟨blob.kind, bytes⟩
    else none
  reverseChecks := fun diff t =>
    diff = notesDiff ∧ (t.lookup "NOTES.md").any fun blob => hunkNew <+: blob.bytes
  numstat := fun diff => if diff = notesDiff then some ["NOTES.md"] else none
  follow := fun _ _ => none
  sha256 := fun bytes =>
    if bytes = patchedNotes then
      "f844339c42c2dd6278d5ed0bdc19d908483a81a0b022ed2dd55fd73b9da52ccc"
    else if bytes = editedNotes then
      "c46a4e68b55639c1b431d5531aed951aa66cd31e8c93dea78e79c0dcb0edb63a"
    else "50c6ea940232313015ce5f5a1707165bf19299cfe78357a594e1497d89263e6a"
  canonicalized := .ok
  validateContract := fun _ _ _ => .ok ()
  validateAutomationFile := fun _ _ _ => .ok ()

def notesProposal : OnboardingProposal Line where
  id := "onb-prop-50c6ea940232313015ce"
  sessionId := "onb-1"
  repositoryIdentity := "repo-1"
  treeRevision := "5231f5e1e1ecc5e42519734319a385099f103ad4"
  draft := ⟨.repoFile, "Note x", ["NOTES.md"], "NOTES.md", .writeRepoFile, notesDiff, .low,
    ["read it"], none⟩
  digest := "50c6ea940232313015ce5f5a1707165bf19299cfe78357a594e1497d89263e6a"
  application := none

def reviewed : Worktree Line := ⟨.root (notesTree notes) "base", notesTree notes, notesTree notes⟩

def applyJob : Job := ⟨"operator", 0, fun _ => none, ""⟩

def applyNotes (crash : Option Nat) : Step Line := .apply notesProposal.id applyJob crash true

/-- A call cut short after it patched the file is taken up by the next one, whose recorded answer
the third repeats. -/
theorem onboarding_applies_approved_resumed :
    Keeps (step notesHost) (Approved notesHost) (start reviewed)
        [.propose notesProposal "", applyNotes (some 1), applyNotes none, applyNotes none] ∧
      (run (step notesHost) (start reviewed)
        [.propose notesProposal "", applyNotes (some 1), applyNotes none, applyNotes none]).any
          fun s => s.answers.length = 2 :=
  ⟨onboarding_applies_approved notesHost reviewed _ (by decide +kernel), by decide +kernel⟩

/-- A line more in the file goes into the commit that is answered as the approved patch. -/
theorem not_onboarding_applies_approved :
    ¬ Keeps (step notesHost) (Approved notesHost) (start reviewed)
      [.propose notesProposal "", .edit { reviewed with files := notesTree editedNotes },
        applyNotes none] :=
  not_keeps_of_run (by decide +kernel)

end RatKingdom.Onboarding
