/-
What most operations of a cycle do, for any relation they stay within.

Most of a cycle waits for a turn and journals a record.  A relation that holds over a turn
and over a record is `Still`, and then it holds over every part of a cycle that is made of
the two.  A relation that speaks of the fire window is not kept where the window is
written; `Loose` relations are.
-/
import RatKingdom.Reactor.Cycle

namespace RatKingdom.Reactor

open Core Lib

/-- What the trigger path journals: its markers carry the trigger's own name in the key. -/
def Plain : Record → Prop
  | .foreign _ => True
  | .marker key (.fired trigger _) => trigger = key.head
  | .attempt _ _ => True
  | .queued _ => True
  | .note _ _ _ _ => True
  | _ => False

/-- What a cycle journals.  A marker of the trigger path carries the trigger's name in its
key, a marker of an SDLC reaction the reaction's; an alert is marked for a transition in
`alerts`. -/
def Ours (alerts : RecordId → Prop) : Record → Prop
  | .marker key (.fired trigger _) => trigger = key.head
  | .marker key (.reacted _) =>
    key.head = "sdlc-ci" ∨ (key.head = "sdlc-alert" ∧ alerts key.tuple)
  | _ => True

theorem ours_of_plain {alerts : RecordId → Prop} (r : Record) (h : Plain r) : Ours alerts r := by
  cases r with
  | marker key mark =>
    cases mark with
    | fired trigger inst => exact h
    | reacted kind => exact h.elim
  | _ => trivial

/-- A relation that holds over a turn and over a record in `p`. -/
structure Still (p : Record → Prop) (R : Host → Host → Prop) : Prop where
  refl : ∀ h, R h h
  trans : ∀ a b d, R a b → R b d → R a d
  turn : Moves R nextTurn
  append : ∀ h r, p r → (∀ t, r ≠ .foreign t) → R h { h with journal := h.journal ++ [r] }

/-- One that holds over a write of the fire window as well. -/
structure Loose (p : Record → Prop) (R : Host → Host → Prop) : Prop extends Still p R where
  fires : ∀ h fires, R h { h with fires }

namespace Still
variable {c : Castle} {p : Record → Prop} {R : Host → Host → Prop}

theorem narrow {q : Record → Prop} (hq : Still p R) (hqp : ∀ r, q r → p r) : Still q R :=
  { hq with append := fun h r hr => hq.append h r (hqp r hr) }

section
variable {α β : Type} {m : Op α} {f : α → Op β} (hq : Still p R)
include hq

theorem bind (hm : Moves R m) (hf : ∀ a, Moves R (f a)) : Moves R (m >>= f) := .bind hq.trans hm hf

theorem pure (a : α) : Moves R (pure a : Op α) := Moves.pure hq.refl a

theorem get : Moves R (Act.get : Op Host) := Moves.get hq.refl

theorem raise (e : String) : Moves R (Act.raise e : Op α) := Moves.raise hq.refl e

theorem proceed (site : Site) : Moves R (proceed site) := by
  apply hq.bind hq.turn
  intro turn
  cases turn.fate site with
  | done => exact hq.pure turn
  | fails => exact hq.raise _
  | dies => exact hq.refl

theorem out (site : Site) {r : Record} (hr : p r) (hown : ∀ t, r ≠ .foreign t) :
    Moves R (out site r) := by
  apply hq.bind (hq.proceed site)
  intro _
  apply Moves.modify
  exact fun h => hq.append h r hr hown

theorem outBestEffort {r : Record} (hr : p r) (hown : ∀ t, r ≠ .foreign t) :
    Moves R (outBestEffort r) :=
  hq.bind (.attempt (hq.out .note hr hown)) fun _ => hq.pure _

theorem now : Moves R now := hq.bind hq.turn fun _ => hq.bind hq.get fun _ => hq.pure _

end

section
variable (hq : Still p R) (hp : ∀ r, Plain r → p r)
include hq hp

theorem note (identity trigger : String) (tuple : RecordId) (reason : String) :
    Moves R (Reactor.outBestEffort (.note identity trigger tuple reason)) :=
  hq.outBestEffort (hp _ trivial) fun _ h => by cases h

theorem markFiredKey (site : Site) (trigger : Trigger) (tuple : RecordId) (inst : String) :
    Moves R (markFiredKey site (trigger.key tuple) trigger.name inst) :=
  hq.out site (hp _ rfl) fun _ h => by cases h

theorem recordFireAttempt (key : Key) : Moves R (recordFireAttempt key) := by
  apply hq.bind hq.get
  intro h
  apply hq.bind (hq.out .attempt (hp (.attempt _ _) trivial) fun _ h => by cases h)
  exact fun _ => hq.pure _

theorem giveUpOrRetry (trigger : Trigger) (tuple : RecordId) (reason : String) :
    Moves R (giveUpOrRetry (trigger.key tuple) trigger.name tuple reason) := by
  apply hq.bind (hq.recordFireAttempt hp _)
  intro attempt
  split
  · apply hq.bind (hq.note hp _ _ _ _)
    exact fun _ => hq.raise _
  · apply hq.bind (hq.note hp _ _ _ _)
    intro _
    apply hq.bind (hq.markFiredKey hp _ trigger tuple _)
    exact fun _ => hq.pure _

theorem noteNonMainLandTarget (trigger : Trigger) (tuple : RecordId)
    (params : List (String × Value)) :
    Moves R (noteNonMainLandTarget trigger tuple params) := by
  unfold Reactor.noteNonMainLandTarget
  split
  · exact hq.pure _
  · split
    · exact hq.pure _
    · exact hq.note hp _ _ _ _

end

section
variable {alerts : RecordId → Prop} (hq : Still (Ours alerts) R)
include hq

theorem writeCiReaction (t : Tuple) {r : Record} (hr : Ours alerts r)
    (hown : ∀ t, r ≠ .foreign t) (kind : String) : Moves R (writeCiReaction t r kind) := by
  apply hq.bind (hq.out .ciFact hr hown)
  intro _
  apply hq.bind
  · apply hq.out
    · exact .inl rfl
    · exact fun _ h => by cases h
  · exact fun _ => hq.pure _

theorem reactToSdlcCiTransition (t : Tuple) : Moves R (reactToSdlcCiTransition t) := by
  unfold Reactor.reactToSdlcCiTransition
  split
  · exact hq.pure _
  apply hq.bind hq.get
  intro h
  split
  · exact hq.pure _
  split
  · exact hq.pure _
  split
  · exact hq.pure _
  next subject _ current _ =>
    unfold reactToCiKind
    simp only
    split
    · exact @writeCiReaction R alerts hq t (.ciDiagnostic _) trivial (fun _ h => by cases h) _
    split
    · apply hq.bind hq.get
      intro h
      split
      · exact @writeCiReaction R alerts hq t (.ciRecovered _) trivial (fun _ h => by cases h) _
      · exact hq.pure _
    · exact hq.pure _

end

section
variable (hq : Still p R) {transition : RecordId} {kind : String}
  (hproc : p (.alertProcessed (alertKey transition) kind transition))
  (hmark : p (.marker (alertKey transition) (.reacted ("alert-" ++ kind))))
include hq

include hproc in
theorem markAlertProcessed : Moves R (markAlertProcessed transition kind) := by
  apply hq.bind hq.get
  intro h
  split
  · exact hq.pure _
  · exact hq.out _ hproc fun _ h => by cases h

include hmark in
theorem markAlertFired : Moves R (markAlertFired transition kind) := by
  apply hq.bind hq.get
  intro h
  split
  · exact hq.pure _
  · exact hq.out _ hmark fun _ h => by cases h

include hproc hmark in
theorem markSdlcAlertReacted : Moves R (markSdlcAlertReacted transition kind) :=
  hq.bind (hq.markAlertProcessed hproc) fun _ => hq.markAlertFired hmark

end

theorem settleAlert {transition : RecordId} (hq : Still (Ours (· = transition)) R) (kind : String) :
    Moves R (settleAlert transition kind) :=
  hq.bind (hq.markSdlcAlertReacted trivial (.inr ⟨rfl, rfl⟩)) fun _ => hq.pure _

theorem diagnoseAlert {t : Tuple} (hq : Still (Ours (· = t.id)) R)
    (r : Space.SdlcTransitionRecord) : Moves R (diagnoseAlert c t r) := by
  apply hq.bind hq.get
  intro h
  split
  · exact hq.pure _
  split
  · exact hq.pure _
  split
  · exact hq.settleAlert _
  split
  · exact hq.settleAlert _
  split
  · exact hq.settleAlert _
  split
  · exact hq.settleAlert _
  · apply hq.bind hq.get
    intro h
    apply hq.bind
    · apply hq.out
      · exact trivial
      · exact fun _ h => by cases h
    · intro _
      refine hq.bind ?_ fun _ => hq.pure _
      exact hq.markSdlcAlertReacted trivial (.inr ⟨rfl, rfl⟩)

theorem reactToSdlcAlertTransition {t : Tuple} (hq : Still (Ours (· = t.id)) R) :
    Moves R (reactToSdlcAlertTransition c t) := by
  unfold Reactor.reactToSdlcAlertTransition
  split
  · exact hq.pure _
  apply hq.bind hq.get
  intro h
  split
  · exact hq.pure _
  split
  · exact hq.pure _
  split
  · exact hq.pure _
  split
  · exact hq.settleAlert _
  split
  · exact hq.settleAlert _
  · exact hq.diagnoseAlert _

end Still

namespace Loose
variable {c : Castle} {p : Record → Prop} {R : Host → Host → Prop} (hq : Loose p R)
include hq

theorem rateLimited (trigger : Trigger) : Moves R (rateLimited c trigger) := by
  unfold Reactor.rateLimited
  split
  · exact hq.pure _
  · apply hq.bind hq.now
    intro time
    apply hq.bind (.modify fun h => hq.fires h _)
    intro _
    exact hq.bind hq.get fun _ => hq.pure _

theorem recordFire (name : String) : Moves R (recordFire name) := by
  apply hq.bind hq.now
  intro time
  exact .modify fun h => hq.fires h _

variable (hp : ∀ r, Plain r → p r)
include hp

theorem enqueueLanding (trigger : Trigger) (tuple : RecordId) :
    Moves R (enqueueLanding (trigger.key tuple) trigger tuple) := by
  apply hq.bind (.attempt (hq.proceed .landing))
  intro answer
  split
  · apply hq.bind (hq.markFiredKey hp _ trigger tuple _)
    intro _
    exact hq.bind (hq.recordFire _) fun _ => hq.pure _
  · apply hq.bind (hq.markFiredKey hp _ trigger tuple _)
    exact fun _ => hq.pure _
  · exact hq.giveUpOrRetry hp trigger tuple _

theorem fireLandAction (trigger : Trigger) (repoName : String) (t : Tuple) :
    Moves R (fireLandAction c (trigger.key t.id) trigger repoName t) := by
  have hretry := fun reason => hq.giveUpOrRetry hp trigger t.id reason
  unfold Reactor.fireLandAction
  simp only
  split
  · exact hretry _
  split
  · exact hretry _
  split
  · apply hq.bind (hq.markFiredKey hp _ trigger t.id _)
    exact fun _ => hq.pure _
  split
  · exact hretry _
  split
  · exact hretry _
  · apply hq.bind
    · exact hq.bind hq.turn fun _ => hq.pure _
    · intro refused
      cases refused with
      | some e => exact hretry _
      | none => exact hq.enqueueLanding hp trigger t.id

variable (hfire : ∀ trigger repoName repoPath t,
  Moves R (fireWorkflow c (trigger.key t.id) trigger repoName repoPath t))
include hfire

theorem dispatch (registry : RepoRegistry) (loaded : Loaded) (t : Tuple) :
    Moves R (dispatch c registry loaded t) := by
  have hretry := fun reason => hq.giveUpOrRetry hp loaded.trigger t.id reason
  apply hq.bind (hq.rateLimited loaded.trigger)
  intro limited
  split
  · apply hq.bind (hq.note hp _ _ _ _)
    exact fun _ => hretry _
  · simp only
    split
    · exact hretry _
    · cases loaded.trigger.action with
      | land => exact hq.fireLandAction hp loaded.trigger _ t
      | workflow => exact hfire loaded.trigger _ _ t

theorem tryFire (registry : RepoRegistry) (loaded : Loaded) (t : Tuple) :
    Moves R (tryFire c registry loaded t) := by
  unfold Reactor.tryFire
  simp only
  split
  · exact hq.pure _
  split
  · exact .raise hq.refl _
  split
  · exact hq.pure _
  · apply hq.bind
    · exact hq.bind hq.get fun _ => hq.pure _
    · intro fired
      split
      · exact hq.pure _
      · exact hq.dispatch hp hfire registry loaded t

theorem fireTriggers (registry : RepoRegistry) (t : Tuple) (tally : Tally) :
    Moves R (fireTriggers c registry t tally) := by
  unfold Reactor.fireTriggers
  split
  · exact hq.pure _
  · apply Moves.foldlM hq.refl hq.trans
    intro tally loaded _
    apply hq.bind (Moves.attempt (hq.tryFire hp hfire registry loaded t))
    intro done
    match done with
    | .ok true | .ok false | .error _ => exact hq.pure _

end Loose

theorem Still.guarded {α : Type} {p : Record → Prop} {R : Host → Host → Prop} (hq : Still p R)
    {m : Op α} (hm : Moves R m) (tally : Tally) : Moves R (guarded tally m) := by
  apply hq.bind (.attempt hm)
  intro done
  cases done with
  | ok _ | error _ => exact hq.pure _

section
variable {p : Record → Prop} {R : Host → Host → Prop} (hq : Still p R)
  (hcursor : ∀ h cursorFile, R h { h with cursorFile })
include hq hcursor

theorem Still.saveCursor (sequence : Nat) : Moves R (saveCursor sequence) := by
  apply hq.bind hq.turn
  intro turn
  cases turn.fate .cursor with
  | done => exact .modify fun h => hcursor h _
  | fails => exact hq.bind (.modify fun h => hcursor h _) fun _ => hq.raise _
  | dies => exact hq.bind (.modify fun h => hcursor h _) fun _ => hq.refl

theorem Still.initializeCursor : Moves R initializeCursor := by
  apply hq.bind hq.get
  intro h
  split
  · exact hq.pure _
  split
  · exact hq.saveCursor hcursor _
  · exact hq.pure _

end

section
variable {c : Castle} {R : Host → Host → Prop} (hq : Loose (fun _ => True) R)
include hq

theorem Loose.ci (t : Tuple) : Moves R (reactToSdlcCiTransition t) :=
  (hq.narrow (q := Ours fun _ => False) fun _ _ => trivial).reactToSdlcCiTransition t

theorem Loose.alert (t : Tuple) : Moves R (reactToSdlcAlertTransition c t) :=
  (hq.narrow (q := Ours (· = t.id)) fun _ _ => trivial).reactToSdlcAlertTransition

theorem Loose.backlog {body : Tuple → Op Bool} (hbody : ∀ t, Moves R (body t)) (p : Tuple → Bool) :
    Moves R (do
      let h ← Act.get
      (h.scan p).foldlM (fun fired t => do
        let reacted ← body t
        pure (if reacted then fired + 1 else fired)) 0 : Op Nat) := by
  apply hq.bind hq.get
  intro h
  apply Moves.foldlM hq.refl hq.trans
  intro fired t _
  exact hq.bind (hbody t) fun _ => hq.pure _

variable (hfire : ∀ trigger repoName repoPath t,
  Moves R (fireWorkflow c (trigger.key t.id) trigger repoName repoPath t))
include hfire

theorem Loose.reactToRecord (registry : RepoRegistry) (tally : Tally) (r : Record) :
    Moves R (reactToRecord c registry tally r) := by
  unfold Reactor.reactToRecord
  split
  next t =>
    split
    · exact hq.pure _
    apply hq.bind (.attempt (hq.proceed .builtin))
    intro _
    apply hq.bind (hq.guarded (hq.ci t) tally)
    intro tally
    apply hq.bind (hq.guarded (hq.alert t) tally)
    intro tally
    apply hq.bind (hq.fireTriggers (fun _ _ => trivial) hfire registry t tally)
    intro tally
    unfold linkResolution
    split
    · exact hq.guarded (hq.proceed .builtin) tally
    · exact hq.pure _
  · exact hq.pure _

theorem Loose.runCycle (hcursor : ∀ h cursorFile, R h { h with cursorFile })
    (hreads : ∀ h reads, R h { h with reads }) (hdrain : Moves R (drainQueuedFires c c.triggers))
    (registry : Option RepoRegistry) : Moves R (runCycle c registry) := by
  apply hq.bind hq.get
  intro h
  simp only
  split
  · exact hq.raise _
  apply hq.bind (.modify fun h => hreads h _)
  intro _
  cases registry with
  | none => exact hq.raise _
  | some registry =>
    apply hq.bind (.foldlM hq.refl hq.trans
      (fun tally r _ => hq.reactToRecord hfire registry tally r) _)
    intro tally
    apply hq.bind
    · unfold advanceCursor
      split
      · exact hq.saveCursor hcursor _
      · exact hq.pure _
    · intro _
      apply hq.bind (hq.backlog hq.ci _)
      intro ci
      apply hq.bind (hq.backlog hq.alert _)
      intro alerts
      apply hq.bind hdrain
      intro drained
      exact hq.bind (.attempt (hq.proceed .builtin)) fun _ => hq.pure _

end

end RatKingdom.Reactor
