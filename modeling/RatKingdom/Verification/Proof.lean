/-
Verification proofs: `verify_repo_check` of `managed_verification.rs` beside a worktree
that changes under it.

A call samples `git status`, then `HEAD`, looks for a proof of that commit, registers,
waits for admission, runs the command and records a proof under the commit it sampled
first.  The worktree is what an agent works in, so edits, commits and checkouts may come
between any two of these steps.

A recorded proof keeps the states its worktree went through while its command ran.
`Certified` says that they were all the certified commit, clean.
-/
import RatKingdom.Lib.Run

namespace RatKingdom.Verification

open List Function

/-- What the two samples can see of a worktree: its commit and whether it is clean. -/
structure Worktree where
  head : String
  clean : Bool
deriving DecidableEq

structure Check where
  name : String
  command : String
  toolchain : Option String
  environmentPolicy : String
deriving DecidableEq

/-- What a finished command says of the check. -/
inductive CheckVerdict where
  | pass | fail | timeout | infra
deriving DecidableEq

/-- A recorded proof, with the states of the worktree from the start of its command to
the end. -/
structure Proof where
  repoName : String
  key : String
  candidateSha : String
  check : Check
  ran : List Worktree
deriving DecidableEq

/-- A `landing_gate_pass` event, with the proof keys of its checks by name. -/
structure GatePass where
  repoName : String
  candidateSha : String
  checkProofKeys : List (String × String)
deriving DecidableEq

/-- How a call ended. -/
inductive Reply where
  | reusedProof (p : Proof)
  | reusedGatePass (g : GatePass)
  | refused | cancelled | failed
  | settled (verdict : CheckVerdict)
deriving DecidableEq

/-- Where a call stands.  `candidate` is the sampled commit of a clean worktree; `ran`
holds the worktree states since the command started. -/
inductive Stage where
  | begun | statusClean
  | sampled (candidate : Option String)
  | queued (candidate : Option String)
  | running (candidate : Option String) (ran : List Worktree)
  | ended (candidate : Option String) (ran : List Worktree) (verdict : CheckVerdict)
  | replied (reply : Reply)
deriving DecidableEq

structure VerifyCall where
  dir : String
  repoName : String
  check : Check
  stage : Stage

/-- The worktrees, and the `verify` calls on them. -/
structure Verifier where
  worktrees : String → Worktree
  calls : List VerifyCall
  proofs : List Proof
  gatePasses : List GatePass

open Verifier

/-- A change of the worktree is an edit, a commit or a checkout; `git` tells whether the
command of a sample succeeded. -/
inductive Deed where
  | change (dir : String) (w : Worktree)
  | gatePass (g : GatePass)
  | call (dir repoName : String) (check : Check)
  | status (i : Nat) (git : Bool)
  | head (i : Nat) (git : Bool)
  | lookup (i : Nat) (fenced : Bool)
  | acquire (i : Nat) (capacity : Bool)
  | contend (i : Nat)
  | finish (i : Nat) (verdict : CheckVerdict)
  | record (i : Nat) (written : Bool)
  | cancel (i : Nat)
  | error (i : Nat)

def Stage.sees (w : Worktree) : Stage → Stage
  | .running candidate ran => .running candidate (ran ++ [w])
  | stage => stage

def VerifyCall.sees (dir : String) (w : Worktree) (c : VerifyCall) : VerifyCall :=
  if c.dir = dir then { c with stage := c.stage.sees w } else c

namespace Verifier

section
-- the digest of a repository, a commit and a check; none when it cannot be built
variable (proofKey : String → String → Check → Option String)

/-- `lookup_verification_proof`: a proof of the exact key, then a gate pass of the same
commit with that key for the check. -/
def lookupVerificationProof (s : Verifier) (repoName candidateSha : String) (check : Check) :
    Option Reply :=
  (proofKey repoName candidateSha check).bind fun key =>
    match s.proofs.find? fun p => p.repoName = repoName ∧ p.key = key with
    | some p => some (.reusedProof p)
    | none =>
      (s.gatePasses.find? fun g => g.repoName = repoName ∧ g.candidateSha = candidateSha ∧
        g.checkProofKeys.lookup check.name = some key).map .reusedGatePass

/-- `record_verification_proof`; a failed write is dropped. -/
def recordVerificationProof (s : Verifier) (repoName candidateSha : String) (check : Check)
    (ran : List Worktree) (written : Bool) : Verifier :=
  match proofKey repoName candidateSha check with
  | none => s
  | some key =>
    if written then
      { s with proofs := s.proofs ++
        [{ repoName := repoName, key := key, candidateSha := candidateSha, check := check, ran :=
          ran }] }
    else s

def staged (s : Verifier) (i : Nat) (c : VerifyCall) (stage : Stage) : List VerifyCall :=
  s.calls.set i { c with stage := stage }

/-- One step of the call `c` at `i`. -/
def act (s : Verifier) (i : Nat) (c : VerifyCall) : Deed → Option Verifier
  | .change _ _ | .gatePass _ | .call _ _ _ => none
  -- `clean_candidate_sha`: first `git status --porcelain` ...
  | .status _ git =>
    if c.stage = .begun then
      let clean := git && (s.worktrees c.dir).clean
      some { s with calls := s.staged i c (if clean then .statusClean else .sampled none) }
    else none
  -- ... then `git rev-parse HEAD`
  | .head _ git =>
    if c.stage = .statusClean then
      let sha := (s.worktrees c.dir).head
      some { s with calls := s.staged i c (.sampled (if git ∧ sha ≠ "" then some sha else none)) }
    else none
  -- reuse a proof, or register unless the repository is fenced
  | .lookup _ fenced =>
    match c.stage with
    | .sampled candidate =>
      match candidate.bind fun sha => s.lookupVerificationProof proofKey c.repoName sha c.check with
      | some reply => some { s with calls := s.staged i c (.replied reply) }
      | none =>
        some { s with calls := s.staged i c (if fenced then .replied .refused else .queued candidate) }
    | _ => none
  -- admission: the command starts, or the wait ran out
  | .acquire _ capacity =>
    match c.stage with
    | .queued candidate =>
      let stage :=
        if capacity then .running candidate [s.worktrees c.dir] else .ended candidate [] .infra
      some { s with calls := s.staged i c stage }
    | _ => none
  -- the one free retry starts the command again
  | .contend _ =>
    match c.stage with
    | .running candidate _ =>
      some { s with calls := s.staged i c (.running candidate [s.worktrees c.dir]) }
    | _ => none
  | .finish _ verdict =>
    match c.stage with
    | .running candidate ran => some { s with calls := s.staged i c (.ended candidate ran verdict) }
    | _ => none
  | .record _ written =>
    match c.stage with
    | .ended candidate ran verdict =>
      let s' := { s with calls := s.staged i c (.replied (.settled verdict)) }
      match candidate with
      | some sha =>
        if verdict = .pass then
          some (s'.recordVerificationProof proofKey c.repoName sha c.check ran written)
        else some s'
      | none => some s'
    | _ => none
  -- a cancellation while the call waits or runs
  | .cancel _ =>
    match c.stage with
    | .queued _ => some { s with calls := s.staged i c (.replied .cancelled) }
    | .running _ _ => some { s with calls := s.staged i c (.replied .cancelled) }
    | _ => none
  -- the command could not be started or read
  | .error _ =>
    match c.stage with
    | .queued _ => some { s with calls := s.staged i c (.replied .failed) }
    | .running _ _ => some { s with calls := s.staged i c (.replied .failed) }
    | _ => none

end

end Verifier

def Deed.call? : Deed → Option Nat
  | .change _ _ | .gatePass _ | .call _ _ _ => none
  | .status i _ | .head i _ | .lookup i _ | .acquire i _ | .contend i | .finish i _ | .record i _
  | .cancel i | .error i => some i

def Verifier.step (proofKey : String → String → Check → Option String) (s : Verifier) (d : Deed) :
    Option Verifier :=
  match d with
  | .change dir w =>
    some { s with
      worktrees := update s.worktrees dir w
      calls := s.calls.map (VerifyCall.sees dir w) }
  | .gatePass g => some { s with gatePasses := s.gatePasses ++ [g] }
  | .call dir repoName check =>
    some { s with calls := s.calls ++
      [{ dir := dir, repoName := repoName, check := check, stage := .begun }] }
  | d => do
    let i ← d.call?
    let c ← s.calls[i]?
    s.act proofKey i c d

def Verifier.start (worktrees : String → Worktree) : Verifier :=
  { worktrees := worktrees, calls := [], proofs := [], gatePasses := [] }

/-- The command ran, and throughout its run the worktree was the certified commit, clean. -/
def Proof.Certified (p : Proof) : Prop :=
  p.ran ≠ [] ∧ ∀ w ∈ p.ran, w = { head := p.candidateSha, clean := true }

/-- The call has found the worktree clean and its command has not ended. -/
def Stage.open : Stage → Bool
  | .statusClean => true
  | .sampled candidate => candidate.isSome
  | .queued candidate => candidate.isSome
  | .running candidate _ => candidate.isSome
  | _ => false

def Verifier.still (s : Verifier) : Deed → Prop
  | .change dir w => w = s.worktrees dir ∨ ∀ c ∈ s.calls, c.dir = dir → c.stage.open = false
  | _ => True

/-- What is known of the worktree `now` of a call in this stage. -/
def Stage.Fits (now : Worktree) : Stage → Prop
  | .statusClean => now.clean = true
  | .sampled (some sha) => now = { head := sha, clean := true }
  | .queued (some sha) => now = { head := sha, clean := true }
  | .running (some sha) ran => now = { head := sha, clean := true } ∧ ran ≠ [] ∧
      ∀ w ∈ ran, w = { head := sha, clean := true }
  | .ended (some sha) ran .pass => ran ≠ [] ∧ ∀ w ∈ ran, w = { head := sha, clean := true }
  | _ => True

structure Verifier.Sound (s : Verifier) : Prop where
  calls : ∀ c ∈ s.calls, c.stage.Fits (s.worktrees c.dir)
  proofs : ∀ p ∈ s.proofs, p.Certified

theorem Stage.Fits.seen {now : Worktree} {stage : Stage} (h : stage.Fits now) :
    (stage.sees now).Fits now := by
  cases stage with
  | running candidate ran =>
    cases candidate with
    | none => trivial
    | some sha =>
      obtain ⟨hnow, -, hran⟩ := h
      refine ⟨hnow, by simp, ?_⟩
      exact Lib.forall_mem_concat.mpr ⟨hran, hnow⟩
  | _ => exact h

theorem Stage.Fits.closed {now w : Worktree} {stage : Stage} (h : stage.Fits now)
    (hclosed : stage.open = false) : (stage.sees w).Fits w := by
  cases stage with
  | begun | replied reply => trivial
  | statusClean => cases hclosed
  | sampled candidate | queued candidate | running candidate ran =>
    cases candidate with
    | none => trivial
    | some sha => cases hclosed
  | ended candidate ran verdict =>
    cases candidate with
    | none => trivial
    | some sha =>
      cases verdict with
      | pass => exact h
      | _ => trivial

section
variable {proofKey : String → String → Check → Option String} {s s' : Verifier}

theorem Verifier.Sound.goes (hs : s.Sound) (i : Nat) {c : VerifyCall} {stage : Stage}
    (hfit : stage.Fits (s.worktrees c.dir)) : Verifier.Sound { s with calls := s.staged i c stage }
    where
  calls := by
    intro c' hc'
    rcases mem_or_eq_of_mem_set hc' with hold | rfl
    · exact hs.calls c' hold
    · exact hfit
  proofs := hs.proofs

theorem Verifier.Sound.change (hs : s.Sound) {dir : String} {w : Worktree}
    (hstill : s.still (.change dir w)) :
    Verifier.Sound { s with worktrees := update s.worktrees dir w
                            calls := s.calls.map (.sees dir w) } where
  calls := by
    intro c' hc'
    obtain ⟨c, hc, rfl⟩ := mem_map.mp hc'
    have hf := hs.calls c hc
    rw [VerifyCall.sees]
    by_cases hdir : c.dir = dir
    · subst hdir
      rw [if_pos rfl]
      show (c.stage.sees w).Fits (update s.worktrees c.dir w c.dir)
      rw [update_self]
      rcases hstill with rfl | hclosed
      · exact hf.seen
      · exact hf.closed (hclosed c hc rfl)
    · rw [if_neg hdir]
      show c.stage.Fits (update s.worktrees dir w c.dir)
      rw [update_of_ne hdir]
      exact hf
  proofs := hs.proofs

theorem Verifier.Sound.record (hs : s.Sound) {repoName sha : String} {check : Check}
    {ran : List Worktree} {written : Bool}
    (hran : ran ≠ [] ∧ ∀ w ∈ ran, w = { head := sha, clean := true }) :
    (s.recordVerificationProof proofKey repoName sha check ran written).Sound := by
  rw [recordVerificationProof]
  cases proofKey repoName sha check with
  | none => exact hs
  | some key =>
    cases written with
    | false => exact hs
    | true =>
      refine ⟨hs.calls, ?_⟩
      exact Lib.forall_mem_concat.mpr ⟨hs.proofs, hran⟩

/-- Every step of a call keeps the verifier sound. -/
theorem Verifier.Sound.act (hs : s.Sound) {i : Nat} {c : VerifyCall} (hc : c ∈ s.calls) {d : Deed}
    (hstep : s.act proofKey i c d = some s') : s'.Sound := by
  have hfit := hs.calls c hc
  cases d with
  | change dir w | gatePass g | call dir repoName check => cases hstep
  | status j git =>
    obtain ⟨-, hs'⟩ := Option.ite_none_right_eq_some.mp hstep
    cases hs'
    apply hs.goes i
    by_cases hclean : (git && (s.worktrees c.dir).clean) = true
    · simp only [hclean, if_true]
      rw [Bool.and_eq_true] at hclean
      exact hclean.2
    · simp only [if_neg hclean]
      trivial
  | head j git =>
    obtain ⟨hst, hs'⟩ := Option.ite_none_right_eq_some.mp hstep
    cases hs'
    apply hs.goes i
    rw [hst] at hfit
    by_cases hsha : git = true ∧ (s.worktrees c.dir).head ≠ ""
    · rw [if_pos hsha]
      show s.worktrees c.dir = { head := (s.worktrees c.dir).head, clean := true }
      rw [← show (s.worktrees c.dir).clean = true from hfit]
    · rw [if_neg hsha]
      trivial
  | lookup j fenced =>
    cases hst : c.stage with
    | sampled candidate =>
      simp only [Verifier.act, hst] at hstep
      rw [hst] at hfit
      split at hstep
      · cases hstep
        exact hs.goes i trivial
      · cases hstep
        apply hs.goes i
        cases fenced with
        | true => trivial
        | false =>
          cases candidate with
          | none => trivial
          | some sha => exact hfit
    | _ => simp [Verifier.act, hst] at hstep
  | acquire j capacity =>
    cases hst : c.stage with
    | queued candidate =>
      simp only [Verifier.act, hst] at hstep
      rw [hst] at hfit
      cases hstep
      apply hs.goes i
      cases capacity with
      | false => cases candidate <;> trivial
      | true =>
        cases candidate with
        | none => trivial
        | some sha =>
          refine ⟨hfit, by simp, ?_⟩
          intro w hw
          rw [mem_singleton.mp hw]
          exact hfit
    | _ => simp [Verifier.act, hst] at hstep
  | contend j =>
    cases hst : c.stage with
    | running candidate ran =>
      simp only [Verifier.act, hst] at hstep
      rw [hst] at hfit
      cases hstep
      apply hs.goes i
      cases candidate with
      | none => trivial
      | some sha =>
        refine ⟨hfit.1, by simp, ?_⟩
        intro w hw
        rw [mem_singleton.mp hw]
        exact hfit.1
    | _ => simp [Verifier.act, hst] at hstep
  | finish j verdict =>
    cases hst : c.stage with
    | running candidate ran =>
      simp only [Verifier.act, hst] at hstep
      rw [hst] at hfit
      cases hstep
      apply hs.goes i
      cases candidate with
      | none => trivial
      | some sha =>
        cases verdict with
        | pass => exact hfit.2
        | _ => trivial
    | _ => simp [Verifier.act, hst] at hstep
  | record j written =>
    cases hst : c.stage with
    | ended candidate ran verdict =>
      rw [hst] at hfit
      have hgone : Verifier.Sound { s with calls := s.staged i c (.replied (.settled verdict)) } :=
        hs.goes i trivial
      cases candidate with
      | none =>
        simp only [Verifier.act, hst] at hstep
        cases hstep
        exact hgone
      | some sha =>
        simp only [Verifier.act, hst] at hstep
        by_cases hpass : verdict = .pass
        · rw [if_pos hpass] at hstep
          cases hstep
          subst hpass
          exact hgone.record hfit
        · rw [if_neg hpass] at hstep
          cases hstep
          exact hgone
    | _ => simp [Verifier.act, hst] at hstep
  | cancel j | error j =>
    cases hst : c.stage with
    | queued candidate | running candidate ran =>
      simp only [Verifier.act, hst] at hstep
      cases hstep
      exact hs.goes i trivial
    | _ => simp [Verifier.act, hst] at hstep

theorem Verifier.Sound.step (hs : s.Sound) {d : Deed} (hstep : s.step proofKey d = some s')
    (hstill : s.still d) : s'.Sound := by
  cases d with
  | change dir w =>
    cases hstep
    exact hs.change hstill
  | gatePass g =>
    cases hstep
    exact ⟨hs.calls, hs.proofs⟩
  | call dir repoName check =>
    cases hstep
    refine ⟨?_, hs.proofs⟩
    refine Lib.forall_mem_concat.mpr ⟨hs.calls, ?_⟩
    trivial
  | _ =>
    obtain ⟨c, hc, hact⟩ := Option.bind_eq_some_iff.mp hstep
    exact hs.act (mem_of_getElem? hc) hact

end

/-- Whatever digest keys the proofs: in every run in which no worktree changes between
a call's clean status sample and the end of its command, every recorded proof is of a
command that ran on its commit, clean, from start to end. -/
theorem proofs_certify (proofKey : String → String → Check → Option String)
    (worktrees : String → Worktree) (ds : List Deed)
    (h : Lib.Meets (step proofKey) still (start worktrees) ds) :
    Lib.Keeps (step proofKey) (fun s => ∀ p ∈ s.proofs, p.Certified) (start worktrees)
      ds := by
  have hstart : (start worktrees).Sound := ⟨nofun, nofun⟩
  exact (Lib.keeps_of_meets (fun _ _ _ hs hstep hstill => hs.step hstep hstill) hstart h).mono
    fun _ hs => hs.proofs

def verifyCheck : Check :=
  { name := "verify", command := "mise run verify", toolchain := none, environmentPolicy := "inherit" }

def plainKey (repoName candidate : String) (check : Check) : Option String :=
  some (repoName ++ "/" ++ candidate ++ "/" ++ check.name)

def cleanTree : String → Worktree := fun _ => { head := "aaaa", clean := true }

/-- A call whose command runs while its worktree becomes `w`. -/
def verifyWhile (w : Worktree) : List Deed :=
  [.call "/wt" "castle" verifyCheck, .status 0 true, .head 0 true, .lookup 0 false, .acquire 0 true,
    .change "/wt" w, .finish 0 .pass, .record 0 true]

theorem commit_during_check :
    ¬ Lib.Keeps (step plainKey) (fun s => ∀ p ∈ s.proofs, p.Certified) (start cleanTree)
      (verifyWhile { head := "bbbb", clean := true }) := by
  intro hk
  have hrun : ∃ s, Lib.run (step plainKey) (.start cleanTree)
      (verifyWhile { head := "bbbb", clean := true }) = some s ∧ s.proofs =
      [{ repoName := "castle", key := "castle/aaaa/verify", candidateSha := "aaaa",
         check := verifyCheck,
         ran := [{ head := "aaaa", clean := true }, { head := "bbbb", clean := true }] }] :=
    ⟨_, rfl, rfl⟩
  obtain ⟨s, hs, hproofs⟩ := hrun
  have hall := hk.last hs
  rw [hproofs] at hall
  have hw := (hall _ mem_cons_self).2 { head := "bbbb", clean := true } (by simp)
  exact absurd (congrArg Worktree.head hw) (by decide)

/-- The same call with the worktree left as it was. -/
theorem proofs_certify_still :
    Lib.Keeps (step plainKey) (fun s => ∀ p ∈ s.proofs, p.Certified) (start cleanTree)
      (verifyWhile { head := "aaaa", clean := true }) ∧
    (Lib.run (step plainKey) (.start cleanTree)
      (verifyWhile { head := "aaaa", clean := true })).any (fun s => s.proofs.length == 1) = true := by
  refine ⟨proofs_certify plainKey cleanTree _ ?_, by decide +kernel⟩
  intro s₁ h₁
  refine ⟨trivial, fun s₂ h₂ => ⟨trivial, fun s₃ h₃ => ⟨trivial, fun s₄ h₄ => ⟨trivial,
    fun s₅ h₅ => ⟨trivial, fun s₆ h₆ => ⟨?_, fun s₇ h₇ => ⟨trivial, fun s₈ h₈ =>
      ⟨trivial, trivial⟩⟩⟩⟩⟩⟩⟩⟩
  cases h₁
  cases h₂
  cases h₃
  cases h₄
  cases h₅
  exact .inl rfl

end RatKingdom.Verification
