/-
What the key of a verification proof says of the check.

A proof is looked up under the digest of a candidate, a repository and four fields of the
check.  The runner reads more of the definition than these: the directory the command runs
in, and the exit it is to end with, are not among them.
-/
import RatKingdom.Onboarding.Apply
import RatKingdom.Telemetry.Span
import RatKingdom.Verification.Proof

namespace RatKingdom.Verification

open Core
open Onboarding (CheckEnvironmentPolicy)
open Telemetry (nullable)

namespace Registered

/-- `rk_workflow::Check`, as `checks.cue` defines it. -/
structure Check where
  name : String
  command : String
  /-- Relative to the root of the worktree; the root if there is none. -/
  cwd : Option String := none
  expectExit : Option Int := none
  timeout : Option String := none
  environmentPolicy : CheckEnvironmentPolicy := .inherit
  toolchain : Option String := none
  sharedCargoTarget : Bool := false

def Check.keyed (c : Check) : Verification.Check :=
  { name := c.name, command := c.command, toolchain := c.toolchain
    environmentPolicy := c.environmentPolicy.asStr }

end Registered

/-- `canonical_digest`: SHA-256 over the canonical bytes of a value, taken to be without
collisions. -/
structure CanonicalDigest (D : Type) where
  digest : Value → D
  digest_inj : ∀ a b, digest a = digest b → a = b

def verificationProofKey {D : Type} (d : CanonicalDigest D) (repoName candidate : String)
    (check : Check) : Option D :=
  some (d.digest (.object [("candidate", .string candidate), ("check", .string check.name),
      ("command", .string check.command),
      ("environment_policy", .string check.environmentPolicy),
      ("repo", .string repoName),
      ("toolchain", nullable .string check.toolchain)]))

/-- The fields that decide what is run and when it has passed. -/
structure RunAlike (c c' : Registered.Check) : Prop where
  command : c.command = c'.command
  cwd : c.cwd = c'.cwd
  toolchain : c.toolchain = c'.toolchain
  environmentPolicy : c.environmentPolicy = c'.environmentPolicy
  expectExit : c.expectExit = c'.expectExit

structure KeyedAlike (c c' : Registered.Check) : Prop where
  name : c.name = c'.name
  command : c.command = c'.command
  toolchain : c.toolchain = c'.toolchain
  environmentPolicy : c.environmentPolicy = c'.environmentPolicy

theorem nullable_string_inj {a b : Option String}
    (h : nullable Value.string a = nullable Value.string b) : a = b := by
  cases a <;> cases b <;> simp_all [nullable]

theorem asStr_inj {p q : CheckEnvironmentPolicy} (h : p.asStr = q.asStr) : p = q := by
  cases p <;> cases q
  case inherit.inherit => rfl
  case stripRkSpawn.stripRkSpawn => rfl
  all_goals exact absurd h (by decide)

theorem KeyedAlike.keyed_eq {c c' : Registered.Check} (h : KeyedAlike c c') :
    c.keyed = c'.keyed := by
  unfold Registered.Check.keyed
  rw [h.name, h.command, h.toolchain, h.environmentPolicy]

variable {D : Type} (d : CanonicalDigest D) (repoName candidate : String) (c c' : Registered.Check)

theorem verificationProofKey_eq_iff :
    verificationProofKey d repoName candidate c.keyed =
        verificationProofKey d repoName candidate c'.keyed ↔ KeyedAlike c c' := by
  constructor
  · intro h
    have hvalue := d.digest_inj _ _ (Option.some.inj h)
    simp only [Value.object.injEq, List.cons.injEq, Prod.mk.injEq, Value.string.injEq, true_and,
      and_true] at hvalue
    obtain ⟨hn, hcommand, hpolicy, htoolchain⟩ := hvalue
    exact ⟨hn, hcommand, nullable_string_inj htoolchain, asStr_inj hpolicy⟩
  · intro h
    rw [h.keyed_eq]

theorem proof_reuse_sound_iff :
    (verificationProofKey d repoName candidate c.keyed =
        verificationProofKey d repoName candidate c'.keyed → RunAlike c c') ↔
      (KeyedAlike c c' → c.cwd = c'.cwd ∧ c.expectExit = c'.expectExit) := by
  rw [verificationProofKey_eq_iff]
  constructor
  · intro h hkeyed
    exact ⟨(h hkeyed).cwd, (h hkeyed).expectExit⟩
  · intro h hkeyed
    obtain ⟨hcwd, hexit⟩ := h hkeyed
    exact ⟨hkeyed.command, hcwd, hkeyed.toolchain, hkeyed.environmentPolicy, hexit⟩

def packageTests (package : String) : Registered.Check :=
  { name := "unit-tests", command := "cargo test", cwd := some package }

theorem another_directory_reuses_proof :
    ¬ (verificationProofKey ⟨id, fun _ _ h => h⟩ "rk" "4f0c2a1" (packageTests "crates/a").keyed =
        verificationProofKey ⟨id, fun _ _ h => h⟩ "rk" "4f0c2a1" (packageTests "crates/b").keyed →
      RunAlike (packageTests "crates/a") (packageTests "crates/b")) := by
  intro h
  exact absurd (h rfl).cwd (by decide)

end RatKingdom.Verification
