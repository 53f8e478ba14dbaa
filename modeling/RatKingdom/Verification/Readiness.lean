/-
Managed runs behind a handoff fence: the run registry of `managed_verification.rs`
and the readiness answers of `landing/handoff.rs`.

`try_register` checks the fence and inserts the run under one hold of the registry's
mutex, while the fence itself lives in the store, under another lock.  A request
engages the fence first and takes its snapshot second; the status handler takes its
snapshot first and reads the fence second.  The machine below takes every one of these
as a step of its own, so that any two calls may interleave between them.

The log holds what happened in order, and `lowered` counts how often the fence of a
repository stopped blocking: by a release, by its deadline, or with a store that could
not be read again.
-/
import RatKingdom.Landing.FenceRuns

namespace RatKingdom.Verification

open Core (DateTime)
open Landing (HandoffFenceRecord HandoffFenceStore ManagedRunBlocker ManagedWorkSnapshot
  FenceReport WriteFault Found fenceStatusJson)

structure ManagedVerificationRun where
  generation : Option String
  agent : String
  repo : String
  kind : String
  requestKey : String

def ManagedVerificationRun.blocker (run : ManagedVerificationRun) : ManagedRunBlocker :=
  { kind := run.kind, agent := run.agent, repo := run.repo }

def blockerLe (a b : ManagedRunBlocker) : Bool :=
  if a.repo ≠ b.repo then decide (a.repo < b.repo)
  else if a.kind ≠ b.kind then decide (a.kind < b.kind)
  else decide (a.agent ≤ b.agent)

def activeAll (runs : List (Nat × ManagedVerificationRun)) : List ManagedRunBlocker :=
  (runs.map fun r => r.2.blocker).mergeSort blockerLe

/-- The remote call a snapshot is taken for. -/
inductive Asker where
  | request | release | status

/-- Where a fence call stands.  `engaged` and `lifted` hold the repository's admission
gate exclusively. -/
inductive Asking where
  | engaged (repo : String) (record : HandoffFenceRecord) (since : Nat)
  | lifted (repo : String) (record : Option HandoffFenceRecord)
  | looked (repo : String) (managed : ManagedWorkSnapshot)
  | probed (asker : Asker) (repo : String) (record : Option HandoffFenceRecord)
      (managed : ManagedWorkSnapshot)
  | done

/-- What happened.  A snapshot carries how often the fence had been lowered when the
call engaged it and when the snapshot was taken, a registration how often it had been
lowered by then. -/
inductive Event where
  | registered (id : Nat) (run : ManagedVerificationRun) (lowered : Nat)
  | refused (run : ManagedVerificationRun)
  | unregistered (id : Nat)
  | snapshot (call : Nat) (asker : Asker) (repo : String) (managed : ManagedWorkSnapshot)
      (since lowered : Nat)
  | answered (call : Nat) (report : FenceReport)
  | restarted

/-- The fences and runs of a host, with the calls that ask for them. -/
structure Readiness where
  store : HandoffFenceStore
  runs : List (Nat × ManagedVerificationRun)
  nextId : Nat
  /-- The run of a `try_register` call that has passed the fence check and still holds
  the registry's mutex. -/
  registering : Option ManagedVerificationRun
  calls : List Asking
  now : DateTime
  lowered : String → Nat
  log : List Event

def Readiness.start (now : DateTime) : Readiness where
  store := { data := fun _ => none, loadFailure := none, file := none, corrupt := [] }
  runs := []
  nextId := 0
  registering := none
  calls := []
  now := now
  lowered := fun _ => 0
  log := []

inductive FenceMove where
  | tick (later : Nat)
  | check (run : ManagedVerificationRun)
  | insert
  | unregister (id : Nat)
  | request (repo holder : String) (ttlSecs : Int) (minted : String) (fault : Option WriteFault)
  | release (repo holder fenceId : String) (fault : Option WriteFault)
  | probe (call : Nat) (releasePrepareInFlight : Bool)
  | look (repo : String) (releasePrepareInFlight : Bool)
  | read (call : Nat)
  | answer (call : Nat) (landingKeys : List String)
  | restart (found : Found)

namespace Readiness

/-- `admission_fenced`: what the installed predicate answers now. -/
def admissionFenced (y : Readiness) (repo : String) : Bool :=
  ((y.store.data repo).map fun record => record.blocksAdmission y.now).getD false

def become (y : Readiness) (store : HandoffFenceStore) (now : DateTime) : Readiness :=
  let y' := { y with store := store, now := now }
  { y' with lowered := fun repo =>
      if y.admissionFenced repo && !y'.admissionFenced repo then y.lowered repo + 1
      else y.lowered repo }

def gated (y : Readiness) (repo : String) : Bool :=
  y.calls.any fun
    | .engaged r _ _ => r = repo
    | .lifted r _ => r = repo
    | _ => false

def managedWorkSnapshot (y : Readiness) (repo : String) (releasePrepareInFlight : Bool) :
    ManagedWorkSnapshot :=
  .new repo (activeAll y.runs) releasePrepareInFlight

def step (y : Readiness) : FenceMove → Option Readiness
  | .tick later => some (y.become y.store (y.now + later))
  -- `try_register` up to the fence's answer
  | .check run =>
    if y.registering.isSome then none
    else if y.admissionFenced run.repo then some { y with log := y.log ++ [.refused run] }
    else some { y with registering := some run }
  | .insert =>
    y.registering.map fun run =>
      { y with
        runs := y.runs ++ [(y.nextId, run)]
        nextId := y.nextId + 1
        registering := none
        log := y.log ++ [.registered y.nextId run (y.lowered run.repo)] }
  | .unregister id =>
    if y.registering.isSome then none
    else some { y with
      runs := y.runs.filter fun r => r.1 ≠ id
      log := y.log ++ [.unregistered id] }
  -- `fence_request` takes the gate and engages
  | .request repo holder ttlSecs minted fault =>
    if y.gated repo then none
    else
      match y.store.request repo holder ttlSecs y.now minted fault with
      | (s, .error _) => some (y.become s y.now)
      | (s, .ok record) =>
        some { y.become s y.now with
          calls := y.calls ++ [.engaged repo record (y.lowered repo)] }
  | .release repo holder fenceId fault =>
    if y.gated repo then none
    else
      match y.store.release repo holder fenceId y.now fault with
      | (s, .error _) => some (y.become s y.now)
      | (s, .ok ()) =>
        some { y.become s y.now with calls := y.calls ++ [.lifted repo (s.data repo)] }
  -- the snapshot of a request or a release, after which it leaves the gate
  | .probe call prepare =>
    if y.registering.isSome then none
    else
      match y.calls[call]? with
      | some (.engaged repo record since) =>
        let managed := y.managedWorkSnapshot repo prepare
        some { y with
          calls := y.calls.set call (.probed .request repo (some record) managed)
          log := y.log ++ [.snapshot call .request repo managed since (y.lowered repo)] }
      | some (.lifted repo record) =>
        let managed := y.managedWorkSnapshot repo prepare
        some { y with
          calls := y.calls.set call (.probed .release repo record managed)
          log := y.log ++ [.snapshot call .release repo managed (y.lowered repo) (y.lowered repo)] }
      | _ => none
  -- `fence_status`: the handler's snapshot comes before the record is read
  | .look repo prepare =>
    if y.registering.isSome then none
    else
      let managed := y.managedWorkSnapshot repo prepare
      some { y with
        calls := y.calls ++ [.looked repo managed]
        log := y.log ++
          [.snapshot y.calls.length .status repo managed (y.lowered repo) (y.lowered repo)] }
  | .read call =>
    match y.calls[call]? with
    | some (.looked repo managed) =>
      some { y with calls := y.calls.set call (.probed .status repo (y.store.data repo) managed) }
    | _ => none
  | .answer call landingKeys =>
    match y.calls[call]? with
    | some (.probed _ _ record managed) =>
      some { y with
        calls := y.calls.set call .done
        log := y.log ++
          [.answered call (fenceStatusJson y.store record y.now landingKeys managed)] }
    | _ => none
  -- a restart drops the registry and every open call and reloads the store
  | .restart found =>
    some { y.become (y.store.load found) y.now with
      runs := []
      nextId := 0
      registering := none
      calls := y.calls.map fun _ => .done
      log := y.log ++ [.restarted] }

end Readiness

def Event.replay (runs : List (Nat × ManagedVerificationRun)) :
    Event → List (Nat × ManagedVerificationRun)
  | .registered id run _ => runs ++ [(id, run)]
  | .unregistered id => runs.filter fun r => r.1 ≠ id
  | .restarted => []
  | _ => runs

def running (log : List Event) : List (Nat × ManagedVerificationRun) := log.foldl Event.replay []

def AnsweredReady (es : List Event) (call : Nat) : Prop :=
  ∃ report, Event.answered call report ∈ es ∧ report.ready = true

/-- Every run of `repo` registered in `es` registered after its fence had been lowered
once more than `n` times. -/
def Barred (es : List Event) (repo : String) (n : Nat) : Prop :=
  ∀ id run m, Event.registered id run m ∈ es → run.repo = repo → n < m

/-- What a snapshot in the log must show: the runs of every repository at that moment,
no run of the fenced repository that a request's snapshot missed while the fence it
engaged was up, and none after a snapshot that was answered as ready. -/
structure Truthful (log : List Event) : Prop where
  listed : ∀ pre call asker repo managed since n post,
    log = pre ++ .snapshot call asker repo managed since n :: post →
    ∃ prepare, managed = .new repo (activeAll (running pre)) prepare
  barred : ∀ pre call repo managed since n post,
    log = pre ++ .snapshot call .request repo managed since n :: post → Barred post repo since
  ready : ∀ pre call asker repo managed since n post,
    log = pre ++ .snapshot call asker repo managed since n :: post → AnsweredReady post call →
    Barred post repo n ∧ running pre = []

end RatKingdom.Verification
