/-
The handoff fence store of `landing/handoff.rs`: one record per repository, kept
in memory and in one file.

A request engages or renews a repository's fence, a release lifts it for the one
who presents its opaque id, and a store whose file could not be read at start
stays explicitly unavailable until a write replaces the file.  The file is
modelled with what a reload can find there and with every call of a write that
can fail.
-/
import RatKingdom.Core.Text
import RatKingdom.Lib.Run

namespace RatKingdom.Landing

open Core (DateTime)

inductive HandoffFenceState where
  | requested | released
deriving DecidableEq

structure HandoffFenceRecord where
  repo : String
  holder : String
  /-- The freshly minted identity of this request, which `release` matches on. -/
  fenceId : String
  generation : Nat
  state : HandoffFenceState
  requestedAt : DateTime
  deadlineAt : DateTime

def HandoffFenceRecord.blocksAdmission (r : HandoffFenceRecord) (now : DateTime) : Bool :=
  decide (r.state = .requested ∧ now ≤ r.deadlineAt)

abbrev Fences := String → Option HandoffFenceRecord

inductive WriteFault where
  | createDir (error : String)
  | metadata (error : String)
  | quarantineName
  | preserve (error : String)
  | write (error : String)
  | rename (error : String)

inductive FenceError where
  | held (repo holder : String) (deadlineAt : DateTime)
  | foreign (repo holder fenceId presented presentedId : String)
  | io (fault : WriteFault)

def WriteFault.text (quarantine : String) : WriteFault → String
  | .createDir error => error
  | .metadata error =>
    s!"refusing to rewrite the landing handoff fence store: cannot tell whether unreadable contents need preserving ({error})"
  | .quarantineName =>
    "could not find a free quarantine name for the landing handoff fence store"
  | .preserve error =>
    s!"refusing to rewrite the landing handoff fence store: its unreadable contents could not be preserved to {quarantine} ({error}); the original is untouched and the store stays unavailable"
  | .write error => error
  | .rename error => error

def FenceError.text (showTime : DateTime → String) (quarantine : String) : FenceError → String
  | .held repo holder deadlineAt =>
    s!"landing handoff fence for {repo} is held by {holder} until {showTime deadlineAt}"
  | .foreign repo holder fenceId presented presentedId =>
    s!"landing handoff fence for {repo} is held by {holder} (fence {fenceId}); presented {presented} (fence {presentedId})"
  | .io fault => fault.text quarantine

/-- The store, with the file at its path and the unreadable contents it has moved
aside. -/
structure HandoffFenceStore where
  data : Fences
  /-- Why the file could not be read, until a write replaces it. -/
  loadFailure : Option String
  file : Option Fences
  corrupt : List Fences

/-- What a starting daemon finds at the path: nothing, the bytes as they were
written, or bytes it cannot read or parse. -/
inductive Found where
  | missing | readable
  | unreadable (reason : String)

def HandoffFenceStore.load (s : HandoffFenceStore) : Found → HandoffFenceStore
  | .missing => { s with data := fun _ => none, loadFailure := none, file := none }
  | .readable => { s with data := s.file.getD fun _ => none, loadFailure := none }
  | .unreadable reason => { s with data := fun _ => none, loadFailure := some reason }

/-- Move the unreadable file aside, when there is one to preserve. -/
def HandoffFenceStore.preserve (s : HandoffFenceStore) (fault : Option WriteFault) :
    Except WriteFault HandoffFenceStore :=
  match s.loadFailure with
  | none => .ok s
  | some _ =>
    match fault with
    | some (.metadata e) => .error (.metadata e)
    | fault =>
      match s.file with
      -- already gone: nothing to preserve
      | none => .ok s
      | some bytes =>
        match fault with
        | some .quarantineName => .error .quarantineName
        | some (.preserve e) => .error (.preserve e)
        | _ => .ok { s with file := none, corrupt := s.corrupt ++ [bytes] }

/-- Write the fences to a temporary file and rename it over the old one.  The
contents that could not be read are moved aside first, and they stay aside when
the write itself then fails. -/
def HandoffFenceStore.persist (s : HandoffFenceStore) (fault : Option WriteFault) :
    HandoffFenceStore × Except WriteFault Unit :=
  match fault with
  | some (.createDir e) => (s, .error (.createDir e))
  | fault =>
    match s.preserve fault with
    | .error e => (s, .error e)
    | .ok s' =>
      match fault with
      | some (.write e) => (s', .error (.write e))
      | some (.rename e) => (s', .error (.rename e))
      | _ => ({ s' with file := some s.data, loadFailure := none }, .ok ())

def HandoffFenceStore.put (s : HandoffFenceStore) (repo : String)
    (record : Option HandoffFenceRecord) : HandoffFenceStore :=
  { s with data := Function.update s.data repo record }

def fenceTtl (ttlSecs : Int) : Int := max 1 (min ttlSecs 3600) * DateTime.nanosPerSecond

def requested (data : Fences) (repo holder : String) (ttlSecs : Int) (now : DateTime)
    (minted : String) : Except FenceError HandoffFenceRecord :=
  let fresh (generation : Nat) : HandoffFenceRecord :=
    { repo := repo, holder := holder, fenceId := minted, generation := generation
      state := .requested, requestedAt := now, deadlineAt := now + fenceTtl ttlSecs }
  match data repo with
  | some existing =>
    if existing.holder = holder ∧ existing.blocksAdmission now then
      .ok { existing with deadlineAt := now + fenceTtl ttlSecs }
    else if existing.blocksAdmission now then
      .error (.held repo existing.holder existing.deadlineAt)
    else .ok (fresh (existing.generation + 1))
  | none => .ok (fresh 1)

def HandoffFenceStore.request (s : HandoffFenceStore) (repo holder : String) (ttlSecs : Int)
    (now : DateTime) (minted : String) (fault : Option WriteFault) :
    HandoffFenceStore × Except FenceError HandoffFenceRecord :=
  match requested s.data repo holder ttlSecs now minted with
  | .error e => (s, .error e)
  | .ok record =>
    let previous := s.data repo
    match (s.put repo (some record)).persist fault with
    | (s', .error fault) => (s'.put repo previous, .error (.io fault))
    | (s', .ok ()) => (s', .ok record)

def HandoffFenceStore.release (s : HandoffFenceStore) (repo holder fenceId : String)
    (now : DateTime) (fault : Option WriteFault) : HandoffFenceStore × Except FenceError Unit :=
  match s.data repo with
  | none => (s, .ok ())
  | some existing =>
    if existing.blocksAdmission now = false then (s, .ok ())
    else if existing.holder ≠ holder ∨ existing.fenceId ≠ fenceId then
      (s, .error (.foreign repo existing.holder existing.fenceId holder fenceId))
    else
      let lifted := { existing with state := .released }
      match (s.put repo (some lifted)).persist fault with
      | (s', .error fault) =>
        (s'.put repo (some { lifted with state := .requested }), .error (.io fault))
      | (s', .ok ()) => (s', .ok ())

inductive FenceState where
  | unavailable | released | expired | ready | repoDrained | draining

structure ManagedRunBlocker where
  kind : String
  agent : String
  repo : String

structure ManagedWorkSnapshot where
  repoRuns : List ManagedRunBlocker
  otherRepoRuns : List ManagedRunBlocker
  releasePrepareInFlight : Bool

def ManagedWorkSnapshot.new (repo : String) (allRuns : List ManagedRunBlocker)
    (releasePrepareInFlight : Bool) : ManagedWorkSnapshot :=
  { repoRuns := allRuns.filter fun run => run.repo = repo
    otherRepoRuns := allRuns.filter fun run => run.repo ≠ repo
    releasePrepareInFlight := releasePrepareInFlight }

def ManagedWorkSnapshot.repoClear (m : ManagedWorkSnapshot) : Bool := m.repoRuns.isEmpty

def ManagedWorkSnapshot.daemonClear (m : ManagedWorkSnapshot) : Bool :=
  m.repoClear && m.otherRepoRuns.isEmpty && !m.releasePrepareInFlight

structure FenceReport where
  state : FenceState
  ready : Bool
  repoDrainReady : Bool
  rolloverReady : Bool
  fenced : Bool
  error : Option String
  record : Option HandoffFenceRecord

/-- `landingKeys` are the drain lanes of the repository that are held now. -/
def fenceStatusJson (s : HandoffFenceStore) (record : Option HandoffFenceRecord) (now : DateTime)
    (landingKeys : List String) (managed : ManagedWorkSnapshot) : FenceReport :=
  let repoDrainReady := landingKeys.isEmpty && managed.repoClear
  let rolloverReady := landingKeys.isEmpty && managed.daemonClear
  match s.loadFailure with
  | some reason =>
    { state := .unavailable, ready := false, repoDrainReady := false, rolloverReady := false
      fenced := false, error := some reason, record := none }
  | none =>
    match record with
    | none =>
      { state := .released, ready := false, repoDrainReady := false, rolloverReady := false
        fenced := false, error := none, record := none }
    | some record =>
      let engaged := record.blocksAdmission now
      let state : FenceState :=
        match record.state with
        | .released => .released
        | .requested =>
          if record.deadlineAt < now then .expired
          else if rolloverReady then .ready
          else if repoDrainReady then .repoDrained
          else .draining
      { state := state, ready := engaged && rolloverReady
        repoDrainReady := engaged && repoDrainReady, rolloverReady := engaged && rolloverReady
        fenced := engaged, error := none, record := some record }

def HandoffFenceStore.fenceStatus (s : HandoffFenceStore) (repo : String) (now : DateTime)
    (landingKeys : List String) (managed : ManagedWorkSnapshot) : FenceReport :=
  fenceStatusJson s (s.data repo) now landingKeys managed

end RatKingdom.Landing
