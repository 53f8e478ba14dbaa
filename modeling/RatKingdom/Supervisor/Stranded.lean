/-
No failed generation is left over.

A record that failed without a recovery is a sweep's, and one with a recovery that nobody has
decided is a continuation's.  A recovery that was continued is neither until its session shakes
hands: a session that ends before leaves a record that all three pass over.
-/
import RatKingdom.Supervisor.Sweeps
import RatKingdom.Supervisor.Decided
import RatKingdom.Supervisor.Takeover

namespace RatKingdom.Supervisor

open Core Lib Agents Agents.Registry Option NameSlot

section
variable {Usd : Type}

def Revival.escalated (s : Revival Usd) (record : Agent Usd) : Bool :=
  s.respawnState.any RespawnState.escalated ||
    record.transportOutage.any TransportOutageState.ceilingHit

/-- A failed generation that is neither abandoned, merged nor escalated is taken up by one of the
three.  A dismissed one is not `Failed` any more. -/
def Revival.LedOn (s : Revival Usd) : Prop :=
  ∀ record ∈ s.slot.record, record.isAutoRespawnCandidate = true → record.abandoned = false →
    record.mergeCommit = none → s.escalated record = false →
    Sweep.respawn.lists record = true ∨ Sweep.transportRetry.lists record = true ∨
      record.continuable s.worktree = true
deriving Decidable

/-- The events after which a session's record may be `Failed`. -/
def HarnessEvent.ends : HarnessEvent Usd → Bool
  | .exited _ => true
  | .completed _ isError _ _ _ => isError
  | _ => false

def Agent.secured (record : Agent Usd) : Prop :=
  record.state = .stopped ∨ record.state = .completed ∨
    continuedAck record.recovery = none ∨ record.transportOutage.isSome = true
deriving Decidable

/-- No continuation ends before it has shaken hands, and no sweep launches what has been parked
since it drew its list. -/
def Revival.Calm (s : Revival Usd) : RevivalMove Usd → Prop
  | .arm i _ => ∀ p ∈ s.pending[i]?, p.2.ends = true → s.slot.own p.1.session = true →
      ∀ record ∈ s.slot.record, record.secured
  | .launched launched _ _ => launched = true →
      ∀ record ∈ s.slot.record, ∀ recovery ∈ record.recovery, recovery.ack.isSome = true
  | .restart _ => ∀ record ∈ s.saved, record.secured
  | _ => True

structure Agent.Kept (record : Agent Usd) : Prop where
  task : record.task.isSome = true
  fenced : ∀ recovery ∈ record.recovery, recovery.spawn = record.spawn
  idle : ∀ recovery ∈ record.recovery, recovery.ack = none → record.pid = none
  led : record.isAutoRespawnCandidate = true →
    continuedAck record.recovery = none ∨ record.transportOutage.isSome = true
  fresh : record.state = .spawning → record.recovery = none

variable {record record' : Agent Usd}

theorem isLive_of_candidate (h : record.isAutoRespawnCandidate = true) :
    record.state.isLive = false := by
  cases Bool.or_eq_true_iff.mp h with
  | inl horphaned | inr horphaned =>
    rw [of_decide_eq_true horphaned]
    rfl

theorem continuedAck_eq_none {recovery : RecoveryRecord} (h : continuedAck (some recovery) = none) :
    recovery.ack = none ∨ (recovery.ack.any fun ack => ack.outcome = .abandoned) = true := by
  cases hack : recovery.ack with
  | none => exact .inl rfl
  | some ack =>
    right
    simp only [continuedAck, bind_some, hack, ite_eq_left_iff] at h
    by_cases ho : ack.outcome = .abandoned
    · simp [ho]
    · exact absurd (h ho) (some_ne_none _)

theorem Agent.Kept.taken (h : record.Kept) {worktree : Option String} (hw : worktree.isSome = true)
    (hc : record.isAutoRespawnCandidate = true) (ha : record.abandoned = false) :
    Sweep.respawn.lists record = true ∨ Sweep.transportRetry.lists record = true ∨
      record.continuable worktree = true := by
  cases ho : record.transportOutage with
  | some outage =>
    right; left
    simp [Sweep.lists, ho, hc]
  | none =>
    cases hr : record.recovery with
    | none =>
      left
      simp [Sweep.lists, ho, hr, hc]
    | some recovery =>
      right; right
      have hled : continuedAck record.recovery = none := by
        cases h.led hc with
        | inl hn => exact hn
        | inr hsome =>
          rw [ho] at hsome
          cases hsome
      rw [hr] at hled
      have hack : recovery.ack = none := by
        cases continuedAck_eq_none hled with
        | inl hn => exact hn
        | inr habandoned =>
          unfold Agent.abandoned at ha
          rw [hr, any_some, habandoned] at ha
          cases ha
      have hm : recovery ∈ record.recovery := hr
      simp [Agent.continuable, hr, hack, h.fenced recovery hm, h.idle recovery hm hack,
        isLive_of_candidate hc, hw, h.task]

section
variable (h : record.Kept) (hspawn : record'.spawn = record.spawn)
  (htask : record'.task = record.task)
include h hspawn htask

theorem Agent.Kept.of_eq (hrecovery : record'.recovery = record.recovery)
    (houtage : record'.transportOutage = record.transportOutage)
    (hpid : record'.pid = record.pid ∨ record'.pid = none)
    (hstate : record'.state = record.state ∨ record'.state ≠ .spawning ∧
      (record'.isAutoRespawnCandidate = true → continuedAck record.recovery = none ∨
        record.transportOutage.isSome = true)) : record'.Kept where
  task := by
    rw [htask]
    exact h.task
  fenced := by
    rw [hrecovery, hspawn]
    exact h.fenced
  idle := by
    intro recovery hr hack
    rw [hrecovery] at hr
    cases hpid with
    | inl hsame =>
      rw [hsame]
      exact h.idle recovery hr hack
    | inr hn => exact hn
  led := by
    intro hc
    rw [hrecovery, houtage]
    cases hstate with
    | inl hsame =>
      apply h.led
      unfold Agent.isAutoRespawnCandidate at hc ⊢
      rw [hsame] at hc
      exact hc
    | inr hnew => exact hnew.2 hc
  fresh := by
    intro hs
    rw [hrecovery]
    cases hstate with
    | inl hsame => exact h.fresh (hsame.symm.trans hs)
    | inr hnew => exact absurd hs hnew.1

theorem Agent.Kept.same (hrecovery : record'.recovery = record.recovery)
    (houtage : record'.transportOutage = record.transportOutage) (hpid : record'.pid = record.pid)
    (hstate : record'.state = record.state) : record'.Kept :=
  h.of_eq hspawn htask hrecovery houtage (.inl hpid) (.inl hstate)

theorem Agent.Kept.running (hstate : record'.state = .running)
    (hfenced : ∀ recovery ∈ record'.recovery, recovery.spawn = record.spawn)
    (hidle : ∀ recovery ∈ record'.recovery, recovery.ack = none → record'.pid = none) :
    record'.Kept where
  task := by
    rw [htask]
    exact h.task
  fenced := by
    rw [hspawn]
    exact hfenced
  idle := hidle
  led := by
    intro hc
    have hl := isLive_of_candidate hc
    rw [hstate] at hl
    cases hl
  fresh := by
    intro hs
    rw [hstate] at hs
    cases hs

theorem Agent.Kept.shaken (hpid : record'.pid = record.pid) (hstate : record'.state = record.state)
    (hrecovery : record'.recovery = none ∨
      record'.recovery = record.recovery ∧ continuedAck record.recovery = none) :
    record'.Kept := by
  cases hrecovery with
  | inl hn =>
    constructor
    · rw [htask]
      exact h.task
    · intro recovery hr
      rw [hn] at hr
      cases hr
    · intro recovery hr
      rw [hn] at hr
      cases hr
    · intro _
      rw [hn]
      exact .inl rfl
    · intro _
      exact hn
  | inr hsame =>
    constructor
    · rw [htask]
      exact h.task
    · rw [hsame.1, hspawn]
      exact h.fenced
    · rw [hsame.1, hpid]
      exact h.idle
    · intro _
      rw [hsame.1]
      exact .inl hsame.2
    · rw [hsame.1, hstate]
      exact h.fresh

end

theorem Agent.Kept.counted (h : record.Kept) (outage : Option TransportOutageState)
    (ho : record.transportOutage.isSome = true → outage.isSome = true) :
    Agent.Kept { record with transportOutage := outage } where
  task := h.task
  fenced := h.fenced
  idle := h.idle
  led := by
    intro hc
    cases h.led hc with
    | inl hn => exact .inl hn
    | inr hsome => exact .inr (ho hsome)
  fresh := h.fresh

theorem Agent.secured.led (h : record.secured) (hstopped : record.state ≠ .stopped)
    (hcompleted : record.state ≠ .completed) :
    continuedAck record.recovery = none ∨ record.transportOutage.isSome = true := by
  rcases h with hs | hc | hled
  · exact absurd hs hstopped
  · exact absurd hc hcompleted
  · exact hled

def NameSlot.Kept (s : NameSlot Usd) : Prop := ∀ record ∈ s.record, record.Kept

section
variable {s : NameSlot Usd} {launch : Launch} {io : EventIo} {office : Office Usd}
  {mutate : Agent Usd → Agent Usd}

theorem update_kept (hm : ∀ record ∈ s.record, (mutate record).Kept) :
    (s.update io mutate).1.Kept := by
  unfold NameSlot.update
  cases hr : s.record with
  | none =>
    intro record hrecord
    rw [hr] at hrecord
    cases hrecord
  | some record =>
    intro record' hrecord'
    cases hrecord'
    exact (hm record hr).same rfl rfl rfl rfl rfl rfl

theorem update_kept_of {s' : NameSlot Usd} {updated : Option (Agent Usd)}
    (h : s.update io mutate = (s', updated)) (hm : ∀ record ∈ s.record, (mutate record).Kept) :
    s'.Kept := by
  have hkept : (s.update io mutate).1.Kept := update_kept hm
  rw [h] at hkept
  exact hkept

theorem update_written {snapshot : Agent Usd} (h : (s.update io mutate).2 = some snapshot) :
    ∃ record, (s.update io mutate).1.record = some snapshot ∧
      snapshot = { mutate record with updatedAt := io.now } := by
  unfold NameSlot.update at h ⊢
  split at h
  · cases h
  · rename_i record hr
    split at h
    · cases h
      exact ⟨record, rfl, rfl⟩
    · cases h

theorem updateQuiet_kept (hm : ∀ record ∈ s.record, (mutate record).Kept) :
    (s.updateQuiet mutate).Kept := by
  intro record' hrecord'
  obtain ⟨record, hr, rfl⟩ := map_eq_some_iff.mp hrecord'
  exact hm record hr

variable {event : HarnessEvent Usd}

theorem resumeOn_kept (h : s.Kept) : (s.resumeOn launch event io).Kept := by
  unfold resumeOn resumeIfPaused
  split
  · split
    · apply update_kept
      intro record hr
      refine (h record hr).of_eq rfl rfl rfl rfl (.inl rfl) (.inr ⟨?_, ?_⟩)
      · nofun
      · nofun
    · exact h
  · exact h

theorem started_kept (h : s.Kept) (session : SpawnId) (sessionId : Option String) :
    (s.started session sessionId io).Kept := by
  unfold NameSlot.started
  split
  · apply update_kept
    intro record hr
    dsimp only
    split
    · exact (h record hr).shaken rfl rfl rfl rfl (.inl rfl)
    · rename_i hn
      exact (h record hr).shaken rfl rfl rfl rfl (.inr ⟨rfl, hn⟩)
  · exact h

theorem enforceBudget_kept (h : s.Kept) (record : Agent Usd) :
    (s.enforceBudget office record io).Kept := by
  unfold enforceBudget
  split
  · exact h
  · exact h
  · split
    · exact h
    · split
      · exact h
      · have hstop : ∀ record' ∈ s.record, Agent.Kept (if record'.state.isLive = true then
              { record' with
                state := .stopped, crashed := false
                result := some (office.budgetStopDetail record) }
            else record') := by
          intro record' hr
          split
          · refine (h record' hr).of_eq rfl rfl rfl rfl (.inl rfl) (.inr ⟨?_, ?_⟩)
            · nofun
            · nofun
          · exact h record' hr
        dsimp only
        split
        · rename_i s' updated hupdate
          have hkept : s'.Kept := update_kept_of hupdate hstop
          split
          · exact hkept
          · exact hkept
        · rename_i s' hupdate
          exact update_kept_of hupdate hstop

theorem usage_kept (h : s.Kept) (session : SpawnId) (usage : TokenUsage) :
    (s.usage office session usage io).Kept := by
  have hadd : ∀ (f : Agent Usd → Usd) (g : Agent Usd → LivenessObservation),
      ∀ record ∈ s.record, Agent.Kept
        { record with usage := record.usage.add usage, costUsd := f record, liveness := g record } := by
    intro f g record hr
    exact (h record hr).same rfl rfl rfl rfl rfl rfl
  unfold NameSlot.usage
  split
  · split
    · rename_i s' record hupdate
      exact enforceBudget_kept (update_kept_of hupdate (hadd _ _)) record
    · rename_i s' hupdate
      exact update_kept_of hupdate (hadd _ _)
  · exact h

theorem floored_kept (floor : Option (Usd × TokenUsage)) (h : record.Kept) :
    (floored office floor record).Kept := by
  unfold floored
  split
  · exact h
  · exact h.same rfl rfl rfl rfl rfl rfl

theorem settledSpend_kept (session : SpawnId) (usage : TokenUsage) (costUsd : Option Usd)
    (sessionId : Option String) (h : record.Kept) :
    (s.settledSpend office session usage costUsd sessionId record).Kept := by
  unfold settledSpend
  have hspent : ∀ (spent : TokenUsage) (cost : Usd),
      Agent.Kept { record with usage := spent, costUsd := cost } := by
    intro spent cost
    exact h.same rfl rfl rfl rfl rfl rfl
  exact (floored_kept s.budgetStopFloor (hspent _ _)).same rfl rfl rfl rfl rfl rfl

theorem completed_kept (h : s.Kept) (result : String) (isError : Bool) (usage : TokenUsage)
    (costUsd : Option Usd) (sessionId : Option String)
    (hsec : isError = true → s.own launch.session = true → ∀ record ∈ s.record, record.secured) :
    (s.completed office launch result isError usage costUsd sessionId io).Kept := by
  unfold completed
  split
  · rename_i hown
    split
    · exact h
    · rename_i pre hpre
      dsimp only
      split
      · apply update_kept
        intro record hr
        apply settledSpend_kept
        split
        · exact (h record hr).same rfl rfl rfl rfl rfl rfl
        · exact h record hr
      · rename_i hopen
        rw [Bool.or_eq_true_iff, not_or, decide_eq_true_iff, decide_eq_true_iff] at hopen
        have hturn : ∀ publish : Bool, ∀ record ∈ s.record, Agent.Kept { record with
              state := if isError then .failed else if publish then .completed else .paused
              result := some result } := by
          intro publish record hr
          have hsame : record = pre := some.inj (Eq.symm hr |>.trans hpre)
          cases isError with
          | true =>
            refine (h record hr).of_eq rfl rfl rfl rfl (.inl rfl) (.inr ⟨?_, ?_⟩)
            · nofun
            · intro _
              rw [← hsame] at hopen
              exact (hsec rfl hown record hr).led hopen.1 hopen.2
          | false =>
            refine (h record hr).of_eq rfl rfl rfl rfl (.inl rfl) (.inr ⟨?_, ?_⟩)
            · cases publish with
              | true | false =>
                intro hs
                cases hs
            · cases publish with
              | true | false =>
                intro hc
                cases hc
        split
        · rename_i s' hupdate
          apply update_kept_of hupdate
          intro record hr
          exact settledSpend_kept _ _ _ _ (hturn _ record hr)
        · rename_i s' record hupdate
          have hkept : s'.Kept := by
            apply update_kept_of hupdate
            intro record hr
            exact settledSpend_kept _ _ _ _ (hturn _ record hr)
          split
          · exact hkept
          · exact hkept
  · exact h

/-- Every event but an exit. -/
theorem handleEvent_kept (h : s.Kept) (event : HarnessEvent Usd) (hexit : ∀ code, event ≠ .exited code)
    (hsec : event.ends = true → s.own launch.session = true → ∀ record ∈ s.record, record.secured) :
    (s.handleEvent office launch io event).Kept := by
  cases event with
  | started sessionId => exact started_kept h launch.session sessionId
  | assistantText text | toolUse name =>
    simp only [handleEvent, recordOutputProgress]
    split
    · apply updateQuiet_kept
      intro record hr
      exact (h record hr).same rfl rfl rfl rfl rfl rfl
    · exact h
  | stderr text =>
    simp only [handleEvent, stderr]
    split
    · apply update_kept
      intro record hr
      exact (h record hr).same rfl rfl rfl rfl rfl rfl
    · exact h
  | usage usage => exact usage_kept h launch.session usage
  | retry attempt error =>
    simp only [handleEvent, recordReconnectEvent]
    split
    · apply updateQuiet_kept
      intro record hr
      exact (h record hr).same rfl rfl rfl rfl rfl rfl
    · exact h
  | completed result isError usage costUsd sessionId =>
    exact completed_kept h result isError usage costUsd sessionId hsec
  | exited code => exact absurd rfl (hexit code)
  | controlDelivered envelope =>
    simp only [handleEvent, controlDelivered]
    split
    · exact h
    · exact h
  | transportFailure outcome =>
    simp only [handleEvent, recordTransportOutage]
    split
    · apply update_kept
      intro record hr
      exact (h record hr).counted _ fun _ => rfl
    · exact h

theorem exitedSheet_kept (floor : Option (Usd × TokenUsage)) (code : Option Int)
    (h : record.Kept) (hsec : record.secured) :
    (exitedAgent office floor code record).Kept := by
  apply floored_kept
  split
  · rename_i hl
    have hopen : record.state ≠ .stopped ∧ record.state ≠ .completed := by
      constructor
      all_goals
        intro hs
        rw [hs] at hl
        cases hl
    have hled := hsec.led hopen.1 hopen.2
    split
    all_goals
      refine h.of_eq rfl rfl rfl rfl (.inr rfl) (.inr ⟨?_, fun _ => hled⟩)
      intro hs
      cases hs
  · exact h.of_eq rfl rfl rfl rfl (.inr rfl) (.inl rfl)

structure Agent.Gone (record snapshot : Agent Usd) : Prop where
  pid : record.pid = none
  still : record.state.isLive = false
  spawn : record.spawn = snapshot.spawn

theorem floored_gone (floor : Option (Usd × TokenUsage)) (hpid : record.pid = none)
    (hstill : record.state.isLive = false) :
    (floored office floor record).Gone (floored office floor record) := by
  unfold floored
  split
  · exact ⟨hpid, hstill, rfl⟩
  · exact ⟨hpid, hstill, rfl⟩

theorem exitedSheet_gone (floor : Option (Usd × TokenUsage)) (code : Option Int) :
    (exitedAgent office floor code record).Gone (exitedAgent office floor code record) := by
  apply floored_gone
  · split
    · split
      · rfl
      · rfl
    · rfl
  · split
    · split
      · rfl
      · rfl
    · rename_i hstill
      exact Bool.eq_false_iff.mpr hstill

theorem exits_kept (h : s.Kept) (code : Option Int) (hsec : ∀ record ∈ s.record, record.secured) :
    (s.exits office launch code io).1.Kept := by
  unfold exits
  split
  · exact h
  · apply update_kept
    intro record hr
    exact exitedSheet_kept _ _ (h record hr) (hsec record hr)

theorem exits_gone (code : Option Int) {snapshot : Agent Usd}
    (hs : (s.exits office launch code io).2 = some snapshot) :
    ∀ record ∈ (s.exits office launch code io).1.record, record.Gone snapshot := by
  unfold exits at hs ⊢
  split at hs
  · cases hs
  · rename_i hsome
    rw [if_neg hsome]
    obtain ⟨record, hrecord, hsnapshot⟩ := update_written hs
    intro record' hr'
    rw [hrecord] at hr'
    cases hr'
    have hgone : (exitedAgent office s.budgetStopFloor code record).Gone
        (exitedAgent office s.budgetStopFloor code record) := exitedSheet_gone _ _
    rw [hsnapshot]
    exact ⟨hgone.pid, hgone.still, rfl⟩

theorem inspects_kept (h : s.Kept) (snapshot : Agent Usd)
    (hgone : ∀ record ∈ s.record, record.Gone snapshot) :
    (s.inspects launch snapshot io).Kept := by
  have hdetect : (s.detectPostCommitOutage snapshot io).Kept := by
    unfold detectPostCommitOutage
    split
    · exact h
    · split
      · exact h
      · rename_i recovery houtage
        apply update_kept
        intro record hr
        have hg := hgone record hr
        constructor
        · exact (h record hr).task
        · intro recovery' hr'
          cases hr'
          exact hg.spawn.symm
        · intro recovery' hr' _
          exact hg.pid
        · intro _
          exact .inl rfl
        · intro hs
          have hstill := hg.still
          rw [hs] at hstill
          cases hstill
  unfold inspects
  dsimp only
  split
  · exact hdetect
  · exact hdetect

end

structure Revival.Held (s : Revival Usd) : Prop where
  worktree : s.worktree.isSome = true
  record : s.slot.Kept
  saved : ∀ record ∈ s.saved, record.Kept
  inspecting : ∀ p ∈ s.inspecting, ∀ record ∈ s.slot.record, record.Gone p.2

namespace Revival

section
variable {s : Revival Usd} {io : EventIo} {office : Office Usd} {cfg : SupervisorConfig}

theorem Held.ledOn (h : s.Held) : s.LedOn := by
  intro record hr hc ha _ _
  exact (h.record record hr).taken h.worktree hc ha

theorem Held.settle {slot : NameSlot Usd} (h : s.Held) (hkept : slot.Kept)
    (hgone : ∀ p ∈ s.inspecting, ∀ record ∈ slot.record, record.Gone p.2) :
    (s.settle slot io).Held where
  worktree := h.worktree
  record := hkept
  saved := by
    intro record hr
    unfold Revival.settle at hr
    split at hr
    · exact hkept record hr
    · exact h.saved record hr
  inspecting := hgone

theorem Held.settle_idle {slot : NameSlot Usd} (h : s.Held) (hkept : slot.Kept)
    (hidle : s.inspecting = none) : (s.settle slot io).Held := by
  apply h.settle hkept
  intro p hp
  rw [hidle] at hp
  cases hp

theorem Held.update {mutate : Agent Usd → Agent Usd} (h : s.Held)
    (hkept : ∀ record, record.Kept → (mutate record).Kept)
    (hgone : ∀ record snapshot, record.Gone snapshot → (mutate record).Gone snapshot) :
    (s.settle (s.slot.update io mutate).1 io).Held := by
  apply h.settle (update_kept fun record hr => hkept record (h.record record hr))
  intro p hp record' hr'
  unfold NameSlot.update at hr'
  split at hr'
  · exact h.inspecting p hp record' hr'
  · rename_i record hr
    cases hr'
    have hg := hgone record p.2 (h.inspecting p hp record hr)
    exact ⟨hg.pid, hg.still, hg.spawn⟩

theorem Held.of_eq {s' : Revival Usd} (h : s.Held) (hworktree : s'.worktree = s.worktree)
    (hrecord : s'.slot.record = s.slot.record) (hsaved : s'.saved = s.saved)
    (hinspecting : s'.inspecting = s.inspecting) : s'.Held := by
  constructor
  · rw [hworktree]
    exact h.worktree
  · intro record hr
    rw [hrecord] at hr
    exact h.record record hr
  · rw [hsaved]
    exact h.saved
  · intro p hp record hr
    rw [hinspecting] at hp
    rw [hrecord] at hr
    exact h.inspecting p hp record hr

theorem publish_held {observable : Bool} {reset : Agent Usd → Agent Usd} (h : s.Held)
    (hidle : s.inspecting = none) (hreset : ∀ record ∈ s.slot.record, (reset record).Kept) :
    (s.publish observable reset io).Held := by
  unfold Revival.publish
  split
  · rename_i slot hupdate
    exact h.settle_idle (update_kept_of hupdate hreset) hidle
  · rename_i slot record hupdate
    have hkept : slot.Kept := update_kept_of hupdate hreset
    have hlaunched : ∀ (control : Option SpawnId) (watches : List (AttemptWatch Usd)),
        (s.settle { slot with
          completion := none, token := some s.recovery.nextId, control, watches } io).Held := by
      intro control watches
      exact h.settle_idle hkept hidle
    exact (hlaunched _ _).of_eq rfl rfl rfl rfl

theorem spawned_held {observable : Bool} {pid : Option Nat} (h : s.Held)
    (hspawning : (s.slot.record.any fun record => record.state = .spawning) = true)
    (hidle : s.inspecting = none) :
    (s.publish observable (fun record =>
      { record with state := .running, pid := if observable then pid else none }) io).Held := by
  apply publish_held h hidle
  intro record hr
  rw [mem_def.mp hr, any_some, decide_eq_true_iff] at hspawning
  have hn : record.recovery = none := (h.record record hr).fresh hspawning
  refine (h.record record hr).running rfl rfl rfl ?_ ?_
  · exact (h.record record hr).fenced
  · intro recovery hrecovery
    rw [hn] at hrecovery
    cases hrecovery

theorem spawnFailed_held {detail : String} (h : s.Held)
    (hspawning : (s.slot.record.any fun record => record.state = .spawning) = true) :
    (s.spawnFailed detail io).Held := by
  have hstate : ∀ record ∈ s.slot.record, record.state = .spawning := by
    intro record hr
    rw [mem_def.mp hr, any_some, decide_eq_true_iff] at hspawning
    exact hspawning
  have hfailed : ∀ record ∈ s.slot.record, Agent.Kept
      { record with state := .failed, result := some detail, pid := none } := by
    intro record hr
    refine (h.record record hr).of_eq rfl rfl rfl rfl (.inr rfl) (.inr ⟨?_, ?_⟩)
    · nofun
    · intro _
      rw [(h.record record hr).fresh (hstate record hr)]
      exact .inl rfl
  apply h.settle (update_kept hfailed)
  intro p hp record' hr'
  -- A spawning record is live, so no exit of it is being looked into.
  cases hr : s.slot.record with
  | none =>
    rw [hr] at hspawning
    cases hspawning
  | some record =>
    have hstill := (h.inspecting p hp record hr).still
    rw [hstate record hr] at hstill
    cases hstill

variable {launch : Launch}

theorem arm_eq (hexit : ∀ code, event ≠ .exited code) :
    s.arm office launch io event = s.settle (s.slot.handleEvent office launch io event) io := by
  cases event with
  | exited code => exact absurd rfl (hexit code)
  | _ => rfl

theorem exit_held {code : Option Int} (h : s.Held) (hidle : s.inspecting = none)
    (hsec : s.slot.own launch.session = true → ∀ record ∈ s.slot.record, record.secured) :
    (s.arm office launch io (.exited code)).Held := by
  simp only [Revival.arm]
  split
  · rename_i hown
    have hkept : (s.slot.exits office launch code io).1.Kept := exits_kept h.record code (hsec hown)
    have hsettled : (s.settle (s.slot.exits office launch code io).1 io).Held :=
      h.settle_idle hkept hidle
    constructor
    · exact h.worktree
    · exact hkept
    · exact hsettled.saved
    · intro p hp record hr
      obtain ⟨snapshot, hs, rfl⟩ := map_eq_some_iff.mp hp
      exact exits_gone code hs record hr
  · exact h.settle_idle h.record hidle

theorem arm_held {launch : Launch} (h : s.Held) (hidle : s.inspecting = none)
    (hsec : event.ends = true → s.slot.own launch.session = true →
      ∀ record ∈ s.slot.record, record.secured) :
    (s.arm office launch io event).Held := by
  by_cases hexit : ∃ code, event = .exited code
  · obtain ⟨code, rfl⟩ := hexit
    exact exit_held h hidle (hsec rfl)
  · have hother : ∀ code, event ≠ .exited code := fun code hcode => hexit ⟨code, hcode⟩
    rw [arm_eq hother]
    exact h.settle_idle (handleEvent_kept h.record event hother hsec) hidle

theorem lists_held (h : s.Held) (sweep : Sweep) : (s.lists cfg sweep).Held := by
  unfold Revival.lists
  split
  · split
    · exact h.of_eq rfl rfl rfl rfl
    · exact h
  · exact h

theorem decides_held (h : s.Held) (sweep : Sweep) (record : Agent Usd) (io : SweepIo) :
    (s.decides cfg sweep record io).Held := by
  unfold Revival.decides
  dsimp only
  split
  · cases sweep with
    | respawn | transportRetry => exact h.of_eq rfl rfl rfl rfl
  · split
    · exact h.of_eq rfl rfl rfl rfl
    · split
      · exact h.of_eq rfl rfl rfl rfl
      · cases sweep with
        | respawn | transportRetry => exact h.of_eq rfl rfl rfl rfl
    · cases sweep with
      | respawn => exact h.of_eq rfl rfl rfl rfl
      | transportRetry =>
        have hidle : Held { s with sweep := .idle } := h.of_eq rfl rfl rfl rfl
        apply hidle.update
        · intro record' hkept
          apply hkept.counted
          intro ho
          rw [isSome_map]
          exact ho
        · intro record' snapshot hg
          exact ⟨hg.pid, hg.still, hg.spawn⟩

theorem respawns_held (h : s.Held) (ready : Bool) (attempt : SpawnId) :
    (s.respawns ready attempt io).Held := by
  unfold Revival.respawns
  split
  · exact h.of_eq rfl rfl rfl rfl
  · split
    · exact h.of_eq rfl rfl rfl rfl
    · have hupdated : (s.settle (s.slot.update io fun record =>
          { record with currentAttempt := some attempt }).1 io).Held := by
        apply h.update
        · intro record' hkept
          exact hkept.same rfl rfl rfl rfl rfl rfl
        · intro record' snapshot hg
          exact ⟨hg.pid, hg.still, hg.spawn⟩
      exact hupdated.of_eq rfl rfl rfl rfl

theorem launched_held (h : s.Held) (launched : Bool) (pid : Option Nat)
    (hidle : s.inspecting = none)
    (hacked : launched = true →
      ∀ record ∈ s.slot.record, ∀ recovery ∈ record.recovery, recovery.ack.isSome = true) :
    (s.launched launched pid io).Held := by
  have hdone : Held { s with sweep := .idle } := h.of_eq rfl rfl rfl rfl
  unfold Revival.launched
  split
  · rename_i hlaunched
    apply publish_held hdone hidle
    intro record hr
    refine (h.record record hr).running rfl rfl rfl (h.record record hr).fenced ?_
    intro recovery hrecovery hn
    have hsome := hacked hlaunched record hr recovery hrecovery
    rw [hn] at hsome
    cases hsome
  · exact hdone

section
variable {d d' : Recovery Usd} {i : Nat}

theorem read_seat {cio : ContinueIo} (hs : d.step (.read i cio) = some d') : d'.slot = d.slot := by
  obtain ⟨c, -, hread⟩ := bind_eq_some_iff.mp hs
  unfold Recovery.read at hread
  split at hread
  · split at hread
    · cases hread
      exact continueRead_seat _ _
    · cases hread
  · cases hread
    exact abandonRead_seat
  · cases hread

theorem launching_seat {launched : Except String Unit}
    (hs : d.step (.launch i launched) = some d') : d'.slot = d.slot := by
  obtain ⟨c, -, hlaunch⟩ := bind_eq_some_iff.mp hs
  unfold Recovery.launching at hlaunch
  split at hlaunch
  · cases hlaunch
    exact launch_seat _ _ _
  · cases hlaunch

variable {outcome : RecoveryOutcome}

theorem acknowledged_kept {actionId : String} {now : DateTime} (h : record.Kept)
    (hled : outcome = .abandoned ∨ record.isAutoRespawnCandidate = false) :
    (Recovery.acknowledge actionId outcome now record).Kept := by
  unfold Recovery.acknowledge
  constructor
  · exact h.task
  · intro recovery hr
    obtain ⟨old, hold, rfl⟩ := map_eq_some_iff.mp hr
    exact h.fenced old hold
  · intro recovery hr hn
    obtain ⟨old, hold, rfl⟩ := map_eq_some_iff.mp hr
    cases hn
  · intro hc
    cases hled with
    | inl habandoned =>
      left
      cases record.recovery with
      | none => rfl
      | some recovery => simp [continuedAck, habandoned]
    | inr hnot =>
      rw [show record.isAutoRespawnCandidate = true from hc] at hnot
      cases hnot
  · intro hs
    rw [map_eq_none_iff]
    exact h.fresh hs

variable {c : RecoveryCall} {pid : Option Nat}

theorem continued_kept {harness : String} {now : DateTime} (h : record.Kept) :
    (Recovery.continued c harness outcome pid now record).Kept := by
  refine h.running rfl rfl rfl ?_ ?_
  · intro recovery hr
    obtain ⟨old, hold, rfl⟩ := map_eq_some_iff.mp hr
    exact h.fenced old hold
  · intro recovery hr hn
    obtain ⟨old, hold, rfl⟩ := map_eq_some_iff.mp hr
    cases hn

variable {failure : String}

theorem publish_kept {harness : String} (h : d.slot.Kept) :
    (d.publish i c harness outcome pid io failure).slot.Kept := by
  have hcontinued : ∀ record ∈ d.slot.record,
      (Recovery.continued c harness outcome pid io.now record).Kept :=
    fun record hr => continued_kept (h record hr)
  unfold Recovery.publish
  split
  · rename_i slot hupdate
    have hkept : slot.Kept := update_kept_of hupdate hcontinued
    exact hkept
  · rename_i slot record hupdate
    have hkept : slot.Kept := update_kept_of hupdate hcontinued
    exact hkept

theorem abandonWrite_seat :
    (d.abandonWrite i c io failure).slot =
      (d.slot.update io (Recovery.acknowledge c.actionId .abandoned io.now)).1 := by
  unfold Recovery.abandonWrite
  split
  · rfl
  · rfl

theorem decided_held (h : s.Held) {recovery : Recovery Usd} (hkept : recovery.slot.Kept)
    (hgone : ∀ p ∈ s.inspecting, ∀ record ∈ recovery.slot.record, record.Gone p.2) :
    (s.decided recovery io).Held := by
  have hdesk : Held { s with recovery, saved := if io.writes then recovery.slot.record else s.saved
      } := by
    constructor
    · exact h.worktree
    · exact hkept
    · intro record hr
      split at hr
      · exact hkept record hr
      · exact h.saved record hr
    · exact hgone
  unfold Revival.decided
  dsimp only
  split
  · exact hdesk
  · split
    · exact hdesk
    · exact hdesk.of_eq rfl rfl rfl rfl

theorem write_held (h : s.Held) {recovery : Recovery Usd} (hwaits : s.waits i = false)
    (hs : s.recovery.step (.write i pid io failure) = some recovery) :
    (s.decided recovery io).Held := by
  obtain ⟨c, hc, hwrite⟩ := bind_eq_some_iff.mp hs
  unfold Recovery.write at hwrite
  split at hwrite
  · -- A continuation waits for the guard of an exit.
    rename_i harness outcome target hst haction
    cases hwrite
    have hidle : s.inspecting = none := by
      unfold Revival.waits at hwaits
      rw [hc, any_some, haction] at hwaits
      have hfree : s.sweep.isLaunching = false ∧ s.inspecting = none := by simpa using hwaits
      exact hfree.2
    apply decided_held h (publish_kept h.record)
    intro p hp
    rw [hidle] at hp
    cases hp
  · cases hwrite
    apply decided_held h
    · rw [abandonWrite_seat]
      apply update_kept
      intro record hr
      exact acknowledged_kept (h.record record hr) (.inl rfl)
    · intro p hp record' hr'
      rw [abandonWrite_seat] at hr'
      unfold NameSlot.update at hr'
      split at hr'
      · exact h.inspecting p hp record' hr'
      · rename_i record hr
        cases hr'
        have hg := h.inspecting p hp record hr
        exact ⟨hg.pid, hg.still, hg.spawn⟩
  · cases hwrite

end

theorem orphaned_kept {now : DateTime} (h : record.Kept) (hsec : record.secured) :
    (Recovery.orphaned now record).Kept := by
  unfold Recovery.orphaned
  split
  · rename_i hl
    refine h.of_eq rfl rfl rfl rfl (.inr rfl) (.inr ⟨?_, fun _ => ?_⟩)
    · nofun
    · apply hsec.led
      all_goals
        intro hs
        rw [hs] at hl
        cases hl
  · exact h

theorem restart_held (h : s.Held) (hsec : ∀ record ∈ s.saved, record.secured) :
    (s.restart io).Held := by
  have hkept : ∀ record ∈ s.saved.map (Recovery.orphaned io.now), record.Kept := by
    intro record' hr'
    obtain ⟨record, hr, rfl⟩ := map_eq_some_iff.mp hr'
    exact orphaned_kept (h.saved record hr) (hsec record hr)
  constructor
  · exact h.worktree
  · exact hkept
  · intro record hr
    unfold Revival.restart at hr
    split at hr
    · exact hkept record hr
    · exact h.saved record hr
  · intro p hp
    cases hp

theorem held_step {s' : Revival Usd} {m : RevivalMove Usd} (h : s.Held)
    (hs : s.step office cfg m = some s') (hg : s.Calm m) : s'.Held := by
  cases m with
  | spawned observable pid io =>
    simp only [Revival.step] at hs
    split at hs
    · rename_i hcan
      rw [Bool.and_eq_true, isNone_iff_eq_none] at hcan
      cases hs
      exact spawned_held h hcan.1 hcan.2
    · cases hs
  | spawnFailed detail io =>
    simp only [Revival.step] at hs
    split at hs
    · rename_i hcan
      cases hs
      exact spawnFailed_held h hcan
    · cases hs
  | event i event io =>
    simp only [Revival.step] at hs
    split at hs
    · rename_i hidle
      obtain ⟨launch, -, rfl⟩ := map_eq_some_iff.mp hs
      have hsettled : (s.settle (s.slot.resumeOn launch event io) io).Held :=
        h.settle_idle (resumeOn_kept h.record) (isNone_iff_eq_none.mp hidle)
      exact hsettled.of_eq rfl rfl rfl rfl
    · cases hs
  | arm i io =>
    simp only [Revival.step] at hs
    split at hs
    · rename_i hidle
      obtain ⟨p, hp, rfl⟩ := map_eq_some_iff.mp hs
      have harmed : (s.arm office p.1 io p.2).Held :=
        arm_held h (isNone_iff_eq_none.mp hidle) (hg p hp)
      exact harmed.of_eq rfl rfl rfl rfl
    · cases hs
  | inspects io =>
    obtain ⟨p, hp, rfl⟩ := map_eq_some_iff.mp hs
    have hkept : (s.slot.inspects p.1 p.2 io).Kept :=
      inspects_kept h.record p.2 (h.inspecting p hp)
    constructor
    · exact h.worktree
    · exact hkept
    · intro record hr
      unfold Revival.settle at hr
      split at hr
      · exact hkept record hr
      · exact h.saved record hr
    · intro q hq
      cases hq
  | lists sweep =>
    simp only [Revival.step] at hs
    split at hs
    · cases hs
      exact lists_held h sweep
    · cases hs
  | decides io =>
    simp only [Revival.step] at hs
    split at hs
    · cases hs
      exact decides_held h _ _ io
    · cases hs
  | respawns ready attempt io =>
    simp only [Revival.step] at hs
    split at hs
    · split at hs
      · cases hs
        exact respawns_held h ready attempt
      · cases hs
    · cases hs
  | launched launched pid io =>
    simp only [Revival.step] at hs
    split at hs
    · split at hs
      · rename_i hidle
        cases hs
        exact launched_held h launched pid (isNone_iff_eq_none.mp hidle) hg
      · cases hs
    · cases hs
  | forgets | call action actionId =>
    cases hs
    exact h.of_eq rfl rfl rfl rfl
  | read i io =>
    simp only [Revival.step] at hs
    split at hs
    · cases hs
    · obtain ⟨recovery, hdesk, rfl⟩ := map_eq_some_iff.mp hs
      have hseat := read_seat hdesk
      exact h.of_eq rfl (congrArg record hseat) rfl rfl
  | launch i launched =>
    obtain ⟨recovery, hdesk, rfl⟩ := map_eq_some_iff.mp hs
    have hseat := launching_seat hdesk
    exact h.of_eq rfl (congrArg record hseat) rfl rfl
  | write i pid io failure =>
    simp only [Revival.step] at hs
    split at hs
    · cases hs
    · rename_i hwaits
      obtain ⟨recovery, hdesk, rfl⟩ := map_eq_some_iff.mp hs
      exact write_held h (Bool.eq_false_iff.mpr hwaits) hdesk
  | restart io =>
    cases hs
    exact restart_held h hg

end

theorem opened_held (base : Agent Usd) (task worktree : String) :
    (Revival.opened base task worktree).Held := by
  have hspawned : Agent.Kept { base with
      task := some task, state := .spawning, pid := none
      transportOutage := none, recovery := none, recoveryReceipt := none } := by
    constructor
    · rfl
    · nofun
    · nofun
    · nofun
    · intro _
      rfl
  constructor
  · rfl
  · intro record hr
    cases hr
    exact hspawned
  · intro record hr
    cases hr
    exact hspawned
  · intro p hp
    cases hp

/-- In every state of a run, a generation that failed is taken up by a sweep or by a
continuation. -/
theorem failed_led_on (office : Office Usd) (cfg : SupervisorConfig) (base : Agent Usd)
    (task worktree : String) (ms : List (RevivalMove Usd))
    (hm : Meets (Revival.step office cfg) Revival.Calm (Revival.opened base task worktree) ms) :
    Keeps (Revival.step office cfg) Revival.LedOn (Revival.opened base task worktree) ms := by
  have hheld : Keeps (Revival.step office cfg) Revival.Held (.opened base task worktree) ms :=
    keeps_of_meets (fun _ _ _ hs hstep hguard => held_step hs hstep hguard)
      (opened_held base task worktree) hm
  exact hheld.mono fun _ => Held.ledOn

end Revival

end

instance {Usd : Type} (s : Revival Usd) : ∀ m, Decidable (s.Calm m)
  | .spawned .. | .spawnFailed .. | .event .. => isTrue trivial
  | .arm i _ => inferInstanceAs (Decidable (∀ _ ∈ _, _))
  | .inspects _ | .lists _ | .decides _ | .respawns .. => isTrue trivial
  | .launched launched _ _ => inferInstanceAs (Decidable (_ = true → _))
  | .forgets | .call .. | .read .. | .launch .. | .write .. => isTrue trivial
  | .restart _ => inferInstanceAs (Decidable (∀ _ ∈ _, _))

def threeTries : SupervisorConfig := ⟨true, 3, 60, 5, 30⟩

def outageFound : EventIo :=
  { now := 3, writes := true, outage := some ⟨"rat/whisker/t-1", "c0ffee", 0, none⟩ }

def untilContinued : List (RevivalMove Nat) :=
  [.spawned true (some 70) written, .event 0 (.started (some "s-1")) written, .arm 0 written,
    .event 0 (.exited (some 1)) written, .arm 0 written, .inspects outageFound,
    .call (.resume none) "go", .read 0 ready, .launch 0 (.ok ()),
    .write 0 (some 77) written ""]

/-- The session of the continuation exits before it has said a word. -/
theorem silent_continuation_stranded :
    ¬ Keeps (Revival.step cents threeTries) Revival.LedOn
      (Revival.opened whiskerAgent "T-1" "/rats/whisker")
      (untilContinued ++ [.event 0 (.exited (some 1)) written, .arm 0 written,
        .inspects written]) := by
  apply not_keeps_of_run
  decide +kernel

/-- It shakes hands first; the daemon then restarts, and a sweep launches the generation again. -/
theorem failed_led_on_after_handshake :
    Keeps (Revival.step cents threeTries) Revival.LedOn
      (Revival.opened whiskerAgent "T-1" "/rats/whisker")
      (untilContinued ++ [.event 0 (.started (some "s-2")) written, .arm 0 written,
        .restart written, .lists .respawn,
        .decides ⟨false, false, 0, false, true, written⟩, .respawns true 4 written,
        .launched true (some 90) written, .event 0 (.exited (some 1)) written, .arm 0 written,
        .inspects written]) :=
  Revival.failed_led_on cents threeTries whiskerAgent "T-1" "/rats/whisker" _ (by decide +kernel)

end RatKingdom.Supervisor
