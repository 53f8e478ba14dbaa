/-
The application of an approved onboarding proposal: `preflight_proposal` and
`ensure_application` in the onboarding worktree, git command by git command.

A git tree is a finite map from paths to blobs, and git names a tree and a commit by their
content, so what a name stands for never changes.  What the functions rely on beyond this
source, which is git itself, SHA-256 and the readers of check and automation files, is a `Host`.
-/
import Mathlib.Data.Finmap
import Mathlib.Data.List.Sort
import Mathlib.Data.String.Basic
import RatKingdom.Core.Text
import RatKingdom.Lib.Guarantee

namespace RatKingdom.Onboarding

open Lib Core List

inductive OnboardingProposalKind where
  | repoFile | castleConfig | registration | workflowActivation | triggerActivation
  | scheduleActivation | hookActivation
  deriving DecidableEq

def OnboardingProposalKind.asStr : OnboardingProposalKind → String
  | .repoFile => "repo_file"
  | .castleConfig => "castle_config"
  | .registration => "registration"
  | .workflowActivation => "workflow_activation"
  | .triggerActivation => "trigger_activation"
  | .scheduleActivation => "schedule_activation"
  | .hookActivation => "hook_activation"

inductive OnboardingProposalAction where
  | writeRepoFile | changeCastleConfig | registerRepository | activateWorkflow | activateTrigger
  | activateSchedule | activateHook
  deriving DecidableEq

def OnboardingProposalAction.asStr : OnboardingProposalAction → String
  | .writeRepoFile => "write_repo_file"
  | .changeCastleConfig => "change_castle_config"
  | .registerRepository => "register_repository"
  | .activateWorkflow => "activate_workflow"
  | .activateTrigger => "activate_trigger"
  | .activateSchedule => "activate_schedule"
  | .activateHook => "activate_hook"

inductive OnboardingProposalRisk where
  | low | medium | high

def OnboardingProposalRisk.asStr : OnboardingProposalRisk → String
  | .low => "low"
  | .medium => "medium"
  | .high => "high"

inductive CheckEnvironmentPolicy where
  | inherit | stripRkSpawn

def CheckEnvironmentPolicy.asStr : CheckEnvironmentPolicy → String
  | .inherit => "inherit"
  | .stripRkSpawn => "strip_rk_spawn"

structure OnboardingNamedCheck where
  name : String
  command : String
  cwd : String
  expectExit : Int
  timeout : String
  environmentPolicy : CheckEnvironmentPolicy
  toolchain : String

structure OnboardingProposalDraft where
  kind : OnboardingProposalKind
  title : String
  evidence : List String
  targetPath : String
  action : OnboardingProposalAction
  diff : String
  risk : OnboardingProposalRisk
  verification : List String
  namedCheck : Option OnboardingNamedCheck

inductive OnboardingAutomationKind where
  | repositoryPolicy | workflow | trigger | schedule | hook | checkRegistry | ciWorkflow

structure OnboardingApplication (C : Type) where
  actor : String
  appliedAt : Int
  commit : C
  treeRevision : String
  targetDigest : String

/-- `OnboardingProposal`: what the digest covers, and the recorded application. -/
structure OnboardingProposal (C : Type) where
  id : String
  sessionId : String
  repositoryIdentity : String
  treeRevision : String
  draft : OnboardingProposalDraft
  digest : String
  application : Option (OnboardingApplication C)

inductive BlobKind where
  | regular | executable | symlink
  deriving DecidableEq

structure Blob where
  kind : BlobKind
  bytes : Bytes
  deriving DecidableEq

abbrev Tree := Finmap fun _ : String => Blob

/-- The onboarding worktree: the commit `HEAD` names, the index and the files. -/
structure Worktree (C : Type) where
  head : C
  index : Tree
  files : Tree

/-- What the functions below take from git and from the rest of the daemon. -/
structure Host (C : Type) where
  tree : C → Tree
  parents : C → List C
  commitName : C → String
  message : C → String
  /-- The commits `git log` lists from a revision on. -/
  log : C → List C
  /-- The commit over a parent with a tree and a message, made at a given time. -/
  create : Tree → C → String → Int → C
  tree_create : ∀ t p m now, tree (create t p m now) = t
  parents_create : ∀ t p m now, parents (create t p m now) = [p]
  treeRevision : Tree → String
  /-- `git apply` of a diff to the files of a worktree. -/
  apply : String → Tree → Option Tree
  /-- `git apply --reverse --check`. -/
  reverseChecks : String → Tree → Bool
  /-- The paths `git apply --numstat -z` reports. -/
  numstat : String → Option (List String)
  follow : Tree → Bytes → Option Bytes
  sha256 : Bytes → String
  canonicalized : OnboardingProposalDraft → Except String OnboardingProposalDraft
  validateContract : Tree → String → OnboardingNamedCheck → Except String Unit
  validateAutomationFile : Tree → String → OnboardingProposalDraft → Except String Unit

/-- The git commands of a call that can fail for reasons of their own. -/
inductive Site where
  | status | headMessage | revParse | applyCheck | apply | recheck | add | commit | recheckClean
  | evidence

structure Job where
  actor : String
  now : Int
  fault : Site → Option (Fault String)
  stderr : String

abbrev Op (C : Type) := Prog (Worktree C) String

section
variable {C : Type}

def hashField (value : String) : Bytes := toBeBytes (utf8 value).length ++ utf8 value

def hashList (values : List String) : Bytes := toBeBytes values.length ++ values.flatMap hashField

def hashNamedCheck : Option OnboardingNamedCheck → Bytes
  | none => []
  | some check =>
    hashField "named_check" ++ hashField check.name ++ hashField check.command ++
      hashField check.cwd ++ hashField (toString check.expectExit) ++ hashField check.timeout ++
      hashField check.environmentPolicy.asStr ++ hashField check.toolchain

def proposalDigest (host : Host C) (sessionId repositoryIdentity treeRevision : String)
    (draft : OnboardingProposalDraft) : String :=
  host.sha256 (utf8 "rat-kingdom-onboarding-proposal-v1" ++ [0] ++ hashField sessionId ++
    hashField repositoryIdentity ++ hashField treeRevision ++ hashField draft.kind.asStr ++
    hashField draft.title ++ hashList draft.evidence ++ hashField draft.targetPath ++
    hashField draft.action.asStr ++ hashField draft.diff ++ hashField draft.risk.asStr ++
    hashList draft.verification ++ hashNamedCheck draft.namedCheck)

def proposalId (digest : String) : String := "onb-prop-" ++ String.ofList (digest.toList.take 20)

def validateIntegrity (host : Host C) (proposal : OnboardingProposal C) : Except String Unit := do
  let draft ← host.canonicalized proposal.draft
  let expected := proposalDigest host proposal.sessionId proposal.repositoryIdentity
    proposal.treeRevision draft
  if expected ≠ proposal.digest ∨ proposalId expected ≠ proposal.id then
    throw ("proposal " ++ proposal.id ++ " content no longer matches its canonical digest")

def checksTarget : String := ".rk/checks.cue"

def isCiWorkflowTarget (target : String) : Bool :=
  let pre := ".github/workflows/".toList
  let rest := target.toList.drop pre.length
  pre <+: target.toList && !rest.isEmpty && !rest.contains '/' &&
    (".yml".toList <:+ rest || ".yaml".toList <:+ rest)

def automationKind (draft : OnboardingProposalDraft) : Option OnboardingAutomationKind :=
  match draft.kind with
  | .repoFile =>
    if draft.targetPath = ".rk/repo.cue" then some .repositoryPolicy
    else if draft.targetPath = ".rk/checks.cue" then some .checkRegistry
    else if isCiWorkflowTarget draft.targetPath then some .ciWorkflow
    else none
  | .workflowActivation => some .workflow
  | .triggerActivation => some .trigger
  | .scheduleActivation => some .schedule
  | .hookActivation => some .hook
  | .castleConfig => none
  | .registration => none

def writesRepoFile (draft : OnboardingProposalDraft) : Bool :=
  draft.kind = .repoFile && draft.action = .writeRepoFile

def validateSupportedTarget (draft : OnboardingProposalDraft) : Except String Unit :=
  if writesRepoFile draft then pure ()
  else if draft.targetPath = checksTarget ∧ draft.namedCheck.isSome then pure ()
  else if (automationKind draft).isSome then pure ()
  else throw ("repo onboarding apply does not support " ++ draft.kind.asStr ++ " / " ++
    draft.targetPath)

def validateTarget (host : Host C) (files : Tree) (draft : OnboardingProposalDraft) :
    Except String Unit :=
  match draft.namedCheck with
  | some contract => host.validateContract files draft.targetPath contract
  | none =>
    if writesRepoFile draft then
      match files.lookup draft.targetPath with
      | none => throw ("read staged repo file " ++ draft.targetPath ++
          ": No such file or directory (os error 2)")
      | some blob =>
        if blob.kind = .symlink then
          throw ("staged repo-file target must be a regular file: " ++ draft.targetPath)
        else pure ()
    else host.validateAutomationFile files draft.targetPath draft

def fileDigest (host : Host C) (files : Tree) (path : String) : Except String String :=
  match files.lookup path with
  | none => throw ("read " ++ path ++ ": No such file or directory (os error 2)")
  | some blob =>
    match (if blob.kind = .symlink then host.follow files blob.bytes else some blob.bytes) with
    | none => throw ("read " ++ path ++ ": No such file or directory (os error 2)")
    | some bytes => pure (host.sha256 bytes)

def listed (s : Finset String) : List String :=
  Quot.liftOn s.val (List.insertionSort (· ≤ ·)) fun a b h => by
    have hperm : (a.insertionSort (· ≤ ·)).Perm (b.insertionSort (· ≤ ·)) :=
      (perm_insertionSort _ a).trans (h.trans (perm_insertionSort _ b).symm)
    exact hperm.eq_of_pairwise (fun _ _ _ _ => le_antisymm)
      (pairwise_insertionSort _ a) (pairwise_insertionSort _ b)

theorem mem_listed {s : Finset String} {p : String} : p ∈ listed s ↔ p ∈ s := by
  rcases s with ⟨⟨l⟩, hl⟩
  exact (perm_insertionSort (· ≤ ·) l).mem_iff

/-- A tracked path is reported when the index differs from `HEAD` or from the file. -/
def trackedChange (host : Host C) (w : Worktree C) (p : String) : Bool :=
  (host.tree w.head).lookup p ≠ w.index.lookup p ||
    ((w.index.lookup p).isSome && w.index.lookup p ≠ w.files.lookup p)

def untracked (w : Worktree C) (p : String) : Bool :=
  (w.index.lookup p).isNone && (w.files.lookup p).isSome

def statusPaths (host : Host C) (w : Worktree C) : List String :=
  let paths := listed ((host.tree w.head).keys ∪ w.index.keys ∪ w.files.keys)
  paths.filter (trackedChange host w) ++ paths.filter (untracked w)

def requireClean (paths : List String) : Except String Unit :=
  if paths.isEmpty then pure ()
  else throw ("dirty onboarding worktree: " ++ ", ".intercalate paths)

def requireOnlyTarget (paths : List String) (target : String) : Except String Unit :=
  if paths = [target] then pure ()
  else throw ("approved patch must change only " ++ target ++ "; observed " ++
    (if paths.isEmpty then "no changed paths" else ", ".intercalate paths))

def gitFailed (args stderr : String) : String := "git " ++ args ++ " failed: " ++ stderr

def preflightProposal (host : Host C) (proposal : OnboardingProposal C) (w : Worktree C)
    (stderr : String) : Except String Unit := do
  validateIntegrity host proposal
  validateSupportedTarget proposal.draft
  requireClean (statusPaths host w)
  let currentTree := host.treeRevision (host.tree w.head)
  if currentTree ≠ proposal.treeRevision then
    throw ("stale onboarding tree before proposal: proposed " ++ proposal.treeRevision ++
      ", current " ++ currentTree)
  if (host.apply proposal.draft.diff w.files).isNone then
    throw (gitFailed "apply --check -" stderr)
  match host.numstat proposal.draft.diff with
  | none => throw (gitFailed "apply --numstat -z -" stderr)
  | some paths => requireOnlyTarget paths proposal.draft.targetPath

/-- `str::lines`, up to the carriage returns that trimming a line takes off. -/
def splitLines : List Char → List (List Char)
  | [] => [[]]
  | c :: cs =>
    if c = '\n' then [] :: splitLines cs
    else
      match splitLines cs with
      | [] => [[c]]
      | l :: ls => (c :: l) :: ls

def trailer (digest : String) : String := "Onboarding-Digest: " ++ digest

/-- Some line of the message of `HEAD` is the trailer of the proposal. -/
def carriesTrailer (message digest : String) : Bool :=
  (splitLines message.toList).any fun line => trim (String.ofList line) = trailer digest

def requireProposalBase [DecidableEq C] (host : Host C) (session : List (OnboardingProposal C))
    (proposal : OnboardingProposal C) (commit : C) : Except String Unit :=
  let tree := host.treeRevision (host.tree commit)
  if tree = proposal.treeRevision then pure ()
  else
    let recordedPredecessor := session.any fun candidate =>
      candidate.id ≠ proposal.id && candidate.application.any fun a => a.commit = commit
    let reviewedTreeIsAncestor := (host.log commit).any fun c =>
      host.treeRevision (host.tree c) = proposal.treeRevision
    if recordedPredecessor && reviewedTreeIsAncestor then pure ()
    else throw ("stale onboarding tree before apply: proposed " ++ proposal.treeRevision ++
      ", current " ++ tree)

def applicationEvidence (host : Host C) (job : Job) (target : String) :
    Op C (OnboardingApplication C) := do
  Prog.check (job.fault .evidence)
  let w ← Prog.read
  let digest ← Prog.ofExcept (fileDigest host w.files target)
  pure ⟨job.actor, job.now, w.head, host.treeRevision (host.tree w.head), digest⟩

def recordedApplication [DecidableEq C] (host : Host C) (proposal : OnboardingProposal C)
    (job : Job) (application : OnboardingApplication C) : Op C (OnboardingApplication C) := do
  Prog.check (job.fault .status)
  let w ← Prog.read
  Prog.ofExcept (requireClean (statusPaths host w))
  Prog.check (job.fault .revParse)
  if w.head ≠ application.commit then
    Prog.fail ("onboarding branch drift after apply: recorded " ++
      host.commitName application.commit ++ ", current " ++ host.commitName w.head)
  else do
    let digest ← Prog.ofExcept (fileDigest host w.files proposal.draft.targetPath)
    if digest ≠ application.targetDigest then
      Prog.fail (proposal.draft.targetPath ++ " drift after apply: recorded " ++
        application.targetDigest ++ ", current " ++ digest)
    else do
      Prog.ofExcept (validateTarget host w.files proposal.draft)
      pure application

/-- The branch of a `HEAD` that carries the proposal's trailer. -/
def recoverCommit [DecidableEq C] (host : Host C) (session : List (OnboardingProposal C))
    (proposal : OnboardingProposal C) (job : Job) : Op C (OnboardingApplication C) := do
  Prog.check (job.fault .status)
  let w ← Prog.read
  Prog.ofExcept (requireClean (statusPaths host w))
  Prog.check (job.fault .revParse)
  match (host.parents w.head).head? with
  | none => Prog.fail (gitFailed "rev-parse HEAD^^\x7btree\x7d" job.stderr)
  | some parent => do
    Prog.ofExcept (requireProposalBase host session proposal parent)
    Prog.ofExcept (validateTarget host w.files proposal.draft)
    applicationEvidence host job proposal.draft.targetPath

def dirtyError (paths : List String) : String :=
  "dirty onboarding worktree does not exactly match the approved patch: " ++ ", ".intercalate paths

/-- The patch is applied to a clean worktree; a dirty one is taken for one it was applied to. -/
def patchFiles (host : Host C) (proposal : OnboardingProposal C) (job : Job) : Op C PUnit := do
  Prog.check (job.fault .status)
  let w ← Prog.read
  let dirtyPaths := statusPaths host w
  if dirtyPaths.isEmpty then do
    Prog.check (job.fault .applyCheck)
    match host.apply proposal.draft.diff w.files with
    | none => Prog.fail (gitFailed "apply --check -" job.stderr)
    | some files => Prog.perform (job.fault .apply) fun w => { w with files := files }
  else do
    Prog.ofExcept (requireOnlyTarget dirtyPaths proposal.draft.targetPath)
    Prog.check (job.fault .applyCheck)
    if host.reverseChecks proposal.draft.diff w.files then pure ⟨⟩
    else Prog.fail (dirtyError dirtyPaths)

/-- `git add -- path`: the index takes the file over, or its removal. -/
def stage (path : String) (w : Worktree C) : Worktree C :=
  match w.files.lookup path with
  | some blob => { w with index := w.index.insert path blob }
  | none => { w with index := w.index.erase path }

def commitMessage (proposal : OnboardingProposal C) : String :=
  let subject := match proposal.draft.namedCheck with
    | some check => check.name
    | none => proposal.draft.targetPath
  "onboarding: apply " ++ subject ++ "\n\nOnboarding-Proposal: " ++ proposal.id ++
    "\nOnboarding-Digest: " ++ proposal.digest

/-- `git commit`, which refuses to make a commit without a change. -/
def commitIndex (host : Host C) (job : Job) (message : String) : Op C PUnit := do
  let w ← Prog.read
  if w.index = host.tree w.head then Prog.fail (gitFailed "commit" job.stderr)
  else
    Prog.perform (job.fault .commit) fun w =>
      { w with head := host.create w.index w.head message job.now }

def commitPatch (host : Host C) (proposal : OnboardingProposal C) (job : Job) :
    Op C (OnboardingApplication C) := do
  Prog.check (job.fault .recheck)
  let w ← Prog.read
  Prog.ofExcept (requireOnlyTarget (statusPaths host w) proposal.draft.targetPath)
  Prog.ofExcept (validateTarget host w.files proposal.draft)
  Prog.perform (job.fault .add) (stage proposal.draft.targetPath)
  commitIndex host job (commitMessage proposal)
  Prog.check (job.fault .recheckClean)
  let w' ← Prog.read
  Prog.ofExcept (requireClean (statusPaths host w'))
  applicationEvidence host job proposal.draft.targetPath

def freshApplication [DecidableEq C] (host : Host C) (session : List (OnboardingProposal C))
    (proposal : OnboardingProposal C) (job : Job) : Op C (OnboardingApplication C) := do
  Prog.check (job.fault .headMessage)
  let w ← Prog.read
  if carriesTrailer (host.message w.head) proposal.digest then
    recoverCommit host session proposal job
  else do
    Prog.check (job.fault .revParse)
    Prog.ofExcept (requireProposalBase host session proposal w.head)
    patchFiles host proposal job
    commitPatch host proposal job

def ensureApplication [DecidableEq C] (host : Host C) (session : List (OnboardingProposal C))
    (proposal : OnboardingProposal C) (job : Job) : Op C (OnboardingApplication C) := do
  Prog.ofExcept (validateIntegrity host proposal)
  Prog.ofExcept (validateSupportedTarget proposal.draft)
  match proposal.application with
  | some application => recordedApplication host proposal job application
  | none => freshApplication host session proposal job

end

end RatKingdom.Onboarding
