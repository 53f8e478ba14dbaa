/-
A recovery is decided once.

Whoever finds a decision on record replays or refuses it.  A call that found none has still to
write its own: the decision is made once when nothing was decided between its look and its
launch or write.
-/
import RatKingdom.Supervisor.Recovery

namespace RatKingdom.Supervisor

open Core Lib Agents Agents.Registry List Option Recovery

section
variable {Usd : Type}

def Agent.recorded (record : Agent Usd) : Option RecoveryAck :=
  match record.recovery with
  | some recovery => recovery.ack
  | none => (record.recoveryReceipt.filter fun receipt => receipt.spawn = record.spawn).map
      RecoveryReceipt.ack

def RecoveryAck.says (ack : RecoveryAck) (decision : String × RecoveryOutcome) : Prop :=
  ack.actionId = decision.1 ∧ ack.outcome = decision.2

/-- A call that was made after an acknowledgement answers with that decision, or refuses. -/
def RecoveryCall.Repeats (c : RecoveryCall) (b : String × RecoveryOutcome) : Prop :=
  c.stage = .begun ∨ c.stage = .lost ∨ (c.actionId = b.1 ∧ c.stage = .answered (.ok b.2)) ∨
    (c.actionId ≠ b.1 ∧ ∃ text, c.stage = .answered (.error text))

/-- One decision is acknowledged, a call after it acts no more, and nothing is launched after an
abandonment. -/
structure Recovery.Decided (d : Recovery Usd) : Prop where
  one : ∀ c ∈ d.calls, ∀ c' ∈ d.calls, ∀ o o', c.stage = .answered (.ok o) →
    c'.stage = .answered (.ok o') → c.actionId = c'.actionId ∧ o = o'
  repeats : ∀ c ∈ d.calls, ∀ b, c.before = some b → c.Repeats b
  quiet : d.launchedAfterAbandon = false

def Agent.undecided (record : Agent Usd) (c : RecoveryCall) : Bool :=
  record.recovery.any fun recovery => recovery.ack.all fun ack =>
    c.action = .abandon ∧ ack.actionId = c.actionId ∧ ack.outcome = .abandoned

/-- Between a call's look and its launch or its write nothing else is decided, the registry is
written, and a continuation is not repeated for a review whose dispatch has been closed. -/
def Recovery.Calm (d : Recovery Usd) : RecoveryMove Usd → Prop
  | .read i io => ∀ c ∈ d.calls[i]?, ∀ record ∈ d.slot.record, ∀ ack ∈ record.recorded,
      ack.actionId = c.actionId → c.action ≠ .abandon → io.dispatch.isOk = true
  | .launch i _ => ∀ c ∈ d.calls[i]?, ∀ record ∈ d.slot.record, record.undecided c = true
  | .write i _ io _ => io.writes = true ∧
      ∀ c ∈ d.calls[i]?, ∀ record ∈ d.slot.record, record.undecided c = true
  | .started _ _ io => io.writes = true
  | _ => True

def RecoveryStage.isPending : RecoveryStage → Bool
  | .checked _ _ => true
  | .launched _ _ => true
  | _ => false

structure Facts (d : Recovery Usd) (record : Agent Usd) : Prop where
  fenced : ∀ recovery ∈ record.recovery, ∀ ack ∈ recovery.ack, ack.outcome ≠ .abandoned →
    recovery.spawn = record.spawn
  ready : ∀ c ∈ d.calls, c.stage.isPending = true → c.action ≠ .abandon →
    ∀ recovery ∈ record.recovery, recovery.spawn = record.spawn
  pending : ∀ c ∈ d.calls, c.stage.isPending = true → c.before = none
  acked : ∀ b, d.acknowledged = some b → ∃ ack, record.recorded = some ack ∧ ack.says b
  answers : ∀ c ∈ d.calls, ∀ o, c.stage = .answered (.ok o) → d.acknowledged = some (c.actionId, o)
  before : ∀ c ∈ d.calls, ∀ b, c.before = some b → d.acknowledged = some b
  repeats : ∀ c ∈ d.calls, ∀ b, c.before = some b → c.Repeats b
  quiet : d.launchedAfterAbandon = false

variable {d : Recovery Usd} {record record' : Agent Usd} {i : Nat} {c : RecoveryCall}

section
variable (h : Facts d record)
include h

theorem Facts.decided : d.Decided where
  one := by
    intro c hc c' hc' o o' hs hs'
    have heq := (h.answers c hc o hs).symm.trans (h.answers c' hc' o' hs')
    injection heq with heq
    injection heq with hk ho
    exact ⟨hk, ho⟩
  repeats := h.repeats
  quiet := h.quiet

theorem Facts.same (hspawn : record'.spawn = record.spawn)
    (hrec : record'.recovery = record.recovery)
    (hreceipt : record'.recoveryReceipt = record.recoveryReceipt) : Facts d record' := by
  have hrecorded : record'.recorded = record.recorded := by
    unfold Agent.recorded
    rw [hspawn, hrec, hreceipt]
  constructor
  · rw [hrec, hspawn]
    exact h.fenced
  · rw [hrec, hspawn]
    exact h.ready
  · exact h.pending
  · rw [hrecorded]
    exact h.acked
  · exact h.answers
  · exact h.before
  · exact h.repeats
  · exact h.quiet

theorem Facts.not_acknowledged (hr : record.recorded = none) : d.acknowledged = none := by
  cases ha : d.acknowledged with
  | none => rfl
  | some b =>
    obtain ⟨ack, hack, -⟩ := h.acked b ha
    rw [hr] at hack
    cases hack

theorem Facts.not_before (hc : c ∈ d.calls) (hr : record.recorded = none) : c.before = none := by
  cases hb : c.before with
  | none => rfl
  | some b =>
    have := h.before c hc b hb
    rw [h.not_acknowledged hr] at this
    cases this

theorem Facts.recovery (slot : NameSlot Usd) (dispatching : Option Nat) (nextId : SpawnId) :
    Facts { d with slot, dispatching, nextId } record :=
  ⟨h.fenced, h.ready, h.pending, h.acked, h.answers, h.before, h.repeats, h.quiet⟩

theorem facts_goto (hc : c ∈ d.calls) {stage : RecoveryStage} (hb : c.before = none)
    (hready : c.action ≠ .abandon → ∀ recovery ∈ record.recovery, recovery.spawn = record.spawn)
    (hno : ∀ o, stage ≠ .answered (.ok o)) :
    Facts (d.goto i c stage) record where
  fenced := h.fenced
  ready := by
    intro x hx hst hact
    rcases mem_or_eq_of_mem_set hx with hx | rfl
    · exact h.ready x hx hst hact
    · exact hready hact
  pending := by
    intro x hx hst
    rcases mem_or_eq_of_mem_set hx with hx | rfl
    · exact h.pending x hx hst
    · exact hb
  acked := h.acked
  answers := by
    intro x hx o hst
    rcases mem_or_eq_of_mem_set hx with hx | rfl
    · exact h.answers x hx o hst
    · exact absurd hst (hno o)
  before := by
    intro x hx b hxb
    rcases mem_or_eq_of_mem_set hx with hx | rfl
    · exact h.before x hx b hxb
    · exact h.before c hc b hxb
  repeats := by
    intro x hx b hxb
    rcases mem_or_eq_of_mem_set hx with hx | rfl
    · exact h.repeats x hx b hxb
    · rw [hb] at hxb
      cases hxb
  quiet := h.quiet

theorem facts_error (hc : c ∈ d.calls) {text : String}
    (hb : ∀ b, c.before = some b → c.actionId ≠ b.1) : Facts (d.fails i c text) record where
  fenced := h.fenced
  ready := by
    intro x hx hst hact
    rcases mem_or_eq_of_mem_set hx with hx | rfl
    · exact h.ready x hx hst hact
    · cases hst
  pending := by
    intro x hx hst
    rcases mem_or_eq_of_mem_set hx with hx | rfl
    · exact h.pending x hx hst
    · cases hst
  acked := by
    intro b hab
    simp only [fails, answer, orElse_eq_orElse, orElse_eq_or, or_none] at hab
    exact h.acked b hab
  answers := by
    intro x hx o hst
    simp only [fails, answer, orElse_eq_orElse, orElse_eq_or, or_none]
    rcases mem_or_eq_of_mem_set hx with hx | rfl
    · exact h.answers x hx o hst
    · cases hst
  before := by
    intro x hx b hxb
    simp only [fails, answer, orElse_eq_orElse, orElse_eq_or, or_none]
    rcases mem_or_eq_of_mem_set hx with hx | rfl
    · exact h.before x hx b hxb
    · exact h.before c hc b hxb
  repeats := by
    intro x hx b hxb
    rcases mem_or_eq_of_mem_set hx with hx | rfl
    · exact h.repeats x hx b hxb
    · exact .inr (.inr (.inr ⟨hb b hxb, text, rfl⟩))
  quiet := h.quiet

end

variable {outcome : RecoveryOutcome}

/-- A call returns the decision that is on record. -/
theorem facts_ok (h : Facts d record) (hc : c ∈ d.calls) {ack : RecoveryAck}
    (hr : record.recorded = some ack) (htold : ack.says (c.actionId, outcome)) :
    Facts (d.answer i c (.ok outcome)) record := by
  have hall : ∀ b, d.acknowledged = some b → b = (c.actionId, outcome) := by
    intro b hb
    obtain ⟨ack', hr', hk, ho⟩ := h.acked b hb
    rw [hr] at hr'
    cases hr'
    exact Prod.ext (hk.symm.trans htold.1) (ho.symm.trans htold.2)
  have hnew : (d.answer i c (.ok outcome)).acknowledged = some (c.actionId, outcome) := by
    simp only [answer, goto, orElse_eq_orElse, orElse_eq_or]
    cases ha : d.acknowledged with
    | none => rfl
    | some b =>
      rw [hall b ha]
      rfl
  have hkeep : ∀ b, d.acknowledged = some b →
      (d.answer i c (.ok outcome)).acknowledged = some b := by
    intro b hb
    rw [hnew, hall b hb]
  constructor
  · exact h.fenced
  · intro x hx hst hact
    rcases mem_or_eq_of_mem_set hx with hx | rfl
    · exact h.ready x hx hst hact
    · cases hst
  · intro x hx hst
    rcases mem_or_eq_of_mem_set hx with hx | rfl
    · exact h.pending x hx hst
    · cases hst
  · intro b hb
    rw [hnew] at hb
    cases hb
    exact ⟨ack, hr, htold⟩
  · intro x hx o hst
    rcases mem_or_eq_of_mem_set hx with hx | rfl
    · exact hkeep _ (h.answers x hx o hst)
    · cases hst
      exact hnew
  · intro x hx b hxb
    rcases mem_or_eq_of_mem_set hx with hx | rfl
    · exact hkeep b (h.before x hx b hxb)
    · exact hkeep b (h.before c hc b hxb)
  · intro x hx b hxb
    rcases mem_or_eq_of_mem_set hx with hx | rfl
    · exact h.repeats x hx b hxb
    · rw [hall b (h.before c hc b hxb)]
      exact .inr (.inr (.inl ⟨rfl, rfl⟩))
  · exact h.quiet

theorem decided_some {a : Answer} (h : d.decided c.actionId record = some a) :
    (∃ ack, record.recorded = some ack ∧ a = replayOrRefuse d.name c.actionId ack) ∨
      (record.recorded = none ∧ ∃ text, a = .error text) := by
  unfold decided at h
  unfold Agent.recorded
  cases hrec : record.recovery with
  | some recovery =>
    rw [hrec] at h
    obtain ⟨ack, hack, rfl⟩ := map_eq_some_iff.mp h
    exact .inl ⟨ack, hack, rfl⟩
  | none =>
    rw [hrec] at h
    cases h
    unfold replayReceiptOrRefuse
    cases hreceipt : record.recoveryReceipt with
    | none => exact .inr ⟨rfl, _, rfl⟩
    | some receipt =>
      by_cases hspawn : receipt.spawn = record.spawn
      · exact .inl ⟨receipt.ack, by simp [hspawn], by simp [hspawn]⟩
      · exact .inr ⟨by simp [hspawn], _, if_neg hspawn⟩

theorem decided_none (h : d.decided c.actionId record = none) : record.recorded = none := by
  unfold decided at h
  unfold Agent.recorded
  cases hrec : record.recovery with
  | some recovery =>
    rw [hrec] at h
    exact map_eq_none_iff.mp h
  | none =>
    rw [hrec] at h
    cases h

theorem facts_decided (h : Facts d record) (hc : c ∈ d.calls) {a : Answer}
    (ha : d.decided c.actionId record = some a) : Facts (d.answer i c a) record := by
  rcases decided_some ha with ⟨ack, hr, rfl⟩ | ⟨hr, text, rfl⟩
  · unfold replayOrRefuse
    by_cases hk : ack.actionId = c.actionId
    · rw [if_pos hk]
      exact facts_ok h hc hr ⟨hk, rfl⟩
    · rw [if_neg hk]
      apply facts_error h hc
      intro b hb heq
      obtain ⟨ack', hr', hk', -⟩ := h.acked b (h.before c hc b hb)
      rw [hr] at hr'
      cases hr'
      exact hk (hk'.trans heq.symm)
  · apply facts_error h hc
    intro b hb
    rw [h.not_before hc hr] at hb
    cases hb

theorem facts_continueRead (h : Facts d record) (hd : d.slot.record = some record)
    (hc : c ∈ d.calls) {target : Option String} {io : ContinueIo}
    (hio : ∀ ack ∈ record.recorded, ack.actionId = c.actionId → io.dispatch.isOk = true) :
    Facts (d.continueRead i c target io) record := by
  have herr : record.recorded = none → ∀ text, Facts (d.fails i c text) record := by
    intro hr text
    apply facts_error h hc
    intro b hb
    rw [h.not_before hc hr] at hb
    cases hb
  unfold continueRead
  simp only [hd]
  cases hdis : io.dispatch with
  | error text =>
    apply facts_error h hc
    intro b hb heq
    obtain ⟨ack, hr, hk, -⟩ := h.acked b (h.before c hc b hb)
    have hok := hio ack hr (hk.trans heq.symm)
    rw [hdis] at hok
    cases hok
  | ok u =>
    simp only
    cases hdec : d.decided c.actionId record with
    | some a => exact facts_decided h hc hdec
    | none =>
      have hr := decided_none hdec
      simp only
      by_cases hstale : (record.recovery.any fun recovery => recovery.spawn ≠ record.spawn) = true
      · rw [if_pos hstale]
        exact herr hr _
      · rw [if_neg hstale]
        by_cases hl : (record.state.isLive || record.pid.isSome) = true
        · rw [if_pos hl]
          exact herr hr _
        · rw [if_neg hl]
          cases io.prepared with
          | error text => exact herr hr text
          | ok u =>
            have hfresh : ∀ recovery ∈ record.recovery, recovery.spawn = record.spawn := by
              intro recovery hrec
              by_contra hne
              apply hstale
              rw [mem_def.mp hrec]
              exact decide_eq_true hne
            have hg : Facts (d.goto i c (.checked (target.getD record.harness)
                (if target.getD record.harness = record.harness then
                  .resumedSameProvider record.spawn
                else .continuedAlternateProvider (target.getD record.harness) record.spawn)))
                record :=
              facts_goto h hc (h.not_before hc hr) (fun _ => hfresh) (fun o ho => by cases ho)
            exact hg.recovery _ _ _

theorem facts_abandonRead (h : Facts d record) (hd : d.slot.record = some record)
    (hc : c ∈ d.calls) (hact : c.action = .abandon) : Facts (d.abandonRead i c) record := by
  unfold abandonRead
  simp only [hd]
  cases hdec : d.decided c.actionId record with
  | some a => exact facts_decided h hc hdec
  | none =>
    exact facts_goto h hc (h.not_before hc (decided_none hdec)) (fun hno => absurd hact hno)
      (fun o ho => by cases ho)

theorem recorded_of_undecided (hact : c.action ≠ .abandon) (hu : record.undecided c = true) :
    record.recorded = none := by
  obtain ⟨recovery, hrec, hack⟩ := any_eq_true _ _ |>.mp hu
  unfold Agent.recorded
  rw [hrec]
  cases ha : recovery.ack with
  | none => exact ha
  | some ack =>
    rw [ha] at hack
    exact absurd (of_decide_eq_true hack).1 hact

theorem facts_launch (h : Facts d record) (hc : c ∈ d.calls) (hp : c.stage.isPending = true)
    (hact : c.action ≠ .abandon) (hu : record.undecided c = true) {harness : String}
    (launched : Except String Unit) :
    Facts (d.launch i c harness outcome launched) record := by
  unfold Recovery.launch
  cases launched with
  | error text =>
    apply facts_error h hc
    intro b hb
    rw [h.pending c hc hp] at hb
    cases hb
  | ok u =>
    have hn := h.not_acknowledged (recorded_of_undecided hact hu)
    have hg : Facts (d.goto i c (.launched harness outcome)) record :=
      facts_goto h hc (h.pending c hc hp) (fun _ => h.ready c hc hp hact) (fun o ho => by cases ho)
    refine ⟨hg.fenced, hg.ready, hg.pending, hg.acked, hg.answers, hg.before, hg.repeats, ?_⟩
    simp only [hn, any_none, Bool.or_false]
    exact h.quiet

/-- The decision is written on the record. -/
theorem facts_write (h : Facts d record) {outcome : RecoveryOutcome} {now : DateTime}
    (hspawn : record'.spawn = record.spawn)
    (hrec : record'.recovery = record.recovery.map fun recovery =>
      { recovery with ack := some ⟨c.actionId, outcome, now⟩ })
    (hu : record.undecided c = true)
    (hready : outcome ≠ .abandoned →
      c.action ≠ .abandon ∧ ∀ recovery ∈ record.recovery, recovery.spawn = record.spawn)
    (hab : c.action = .abandon → outcome = .abandoned) :
    Facts d record' ∧ record'.recorded = some ⟨c.actionId, outcome, now⟩ := by
  obtain ⟨recovery, hsome, hack⟩ := any_eq_true _ _ |>.mp hu
  have hsome' : record.recovery = some recovery := hsome
  rw [hsome', map_some] at hrec
  have hrecorded : record'.recorded = some ⟨c.actionId, outcome, now⟩ := by
    unfold Agent.recorded
    rw [hrec]
  refine ⟨?_, hrecorded⟩
  constructor
  · intro r hr ack ha hne
    rw [hrec] at hr
    cases hr
    cases ha
    rw [hspawn]
    exact (hready hne).2 recovery hsome'
  · intro x hx hst hact r hr
    rw [hrec] at hr
    cases hr
    rw [hspawn]
    exact h.ready x hx hst hact recovery hsome'
  · exact h.pending
  · intro b hb
    refine ⟨_, hrecorded, ?_⟩
    obtain ⟨ack, hr, htold⟩ := h.acked b hb
    unfold Agent.recorded at hr
    rw [hsome'] at hr
    have hra : recovery.ack = some ack := hr
    rw [hra] at hack
    obtain ⟨hact, hk, ho⟩ := of_decide_eq_true hack
    rw [hab hact]
    exact ⟨hk.symm.trans htold.1, ho.symm.trans htold.2⟩
  · exact h.answers
  · exact h.before
  · exact h.repeats
  · exact h.quiet

/-- The recovery keeps its facts, about whatever record is under the name. -/
def Recovery.Kept (d : Recovery Usd) : Prop := ∃ record, d.slot.record = some record ∧ Facts d record

variable {io : EventIo}

theorem update_some {s : NameSlot Usd} (hs : s.record = some record) (hw : io.writes = true)
    (mutate : Agent Usd → Agent Usd) :
    s.update io mutate = ({ s with record := some { mutate record with updatedAt := io.now } },
      some { mutate record with updatedAt := io.now }) := by
  unfold NameSlot.update
  rw [hs, hw]
  rfl

theorem kept_update {mutate : Agent Usd → Agent Usd} (h : Facts d (mutate record))
    (hd : d.slot.record = some record) (hw : io.writes = true) :
    Recovery.Kept { d with slot := (d.slot.update io mutate).1 } := by
  rw [update_some hd hw mutate]
  have hsame : Facts d { mutate record with updatedAt := io.now } := h.same rfl rfl rfl
  exact ⟨_, rfl, hsame.recovery _ d.dispatching d.nextId⟩

theorem kept_publish (h : Facts d record) (hd : d.slot.record = some record) (hc : c ∈ d.calls)
    (hp : c.stage.isPending = true) (hact : c.action ≠ .abandon) (hu : record.undecided c = true)
    {harness : String} {pid : Option Nat} (hw : io.writes = true) (failure : String) :
    (d.publish i c harness outcome pid io failure).Kept := by
  have hwrite : Facts d { continued c harness outcome pid io.now record with
        updatedAt := io.now } ∧
      Agent.recorded { continued c harness outcome pid io.now record with
        updatedAt := io.now } = some ⟨c.actionId, outcome, io.now⟩ :=
    facts_write h rfl rfl hu (fun _ => ⟨hact, h.ready c hc hp hact⟩) (fun hno => absurd hno hact)
  have hok : ∀ slot, Facts (({ d with slot, nextId := d.nextId + 1 } : Recovery Usd).answer i c
      (.ok outcome)) { continued c harness outcome pid io.now record with
        updatedAt := io.now } :=
    fun slot => facts_ok (d := { d with slot, nextId := d.nextId + 1 })
      (hwrite.1.recovery slot d.dispatching (d.nextId + 1)) hc hwrite.2 ⟨rfl, rfl⟩
  unfold Recovery.publish
  rw [update_some hd hw]
  exact ⟨_, rfl, hok _⟩

theorem kept_abandonWrite (h : Facts d record) (hd : d.slot.record = some record) (hc : c ∈ d.calls)
    (hu : record.undecided c = true) (hw : io.writes = true) (failure : String) :
    (d.abandonWrite i c io failure).Kept := by
  have hwrite : Facts d { acknowledge c.actionId .abandoned io.now record with
        updatedAt := io.now } ∧
      Agent.recorded { acknowledge c.actionId .abandoned io.now record with
        updatedAt := io.now } = some ⟨c.actionId, .abandoned, io.now⟩ :=
    facts_write h rfl rfl hu (fun hno => absurd rfl hno) (fun _ => rfl)
  have hok : ∀ slot, Facts (({ d with slot } : Recovery Usd).answer i c (.ok .abandoned))
      { acknowledge c.actionId .abandoned io.now record with updatedAt := io.now } :=
    fun slot => facts_ok (d := { d with slot }) (hwrite.1.recovery slot d.dispatching d.nextId) hc
      hwrite.2 ⟨rfl, rfl⟩
  unfold abandonWrite
  simp only [update_some hd hw, hw, Bool.true_or, if_true]
  exact ⟨_, rfl, hok _⟩

theorem facts_started (h : Facts d record) {sessionId : Option String}
    {recovery : RecoveryRecord} {ack : RecoveryAck} (hrec : record.recovery = some recovery)
    (hack : recovery.ack = some ack) (hne : ack.outcome ≠ .abandoned) :
    Facts d { record with
      sessionId, transportOutage := none, recovery := none
      recoveryReceipt := some ⟨recovery.spawn, ack⟩ } := by
  have hspawn : recovery.spawn = record.spawn := h.fenced recovery hrec ack hack hne
  have hold : record.recorded = some ack := by
    unfold Agent.recorded
    rw [hrec]
    exact hack
  constructor
  · intro r hr
    cases hr
  · intro x _ _ _ r hr
    cases hr
  · exact h.pending
  · intro b hb
    obtain ⟨ack', hr', htold⟩ := h.acked b hb
    rw [hold] at hr'
    cases hr'
    refine ⟨ack, ?_, htold⟩
    simp [Agent.recorded, hspawn]
  · exact h.answers
  · exact h.before
  · exact h.repeats
  · exact h.quiet

theorem continuedAck_cases (recovery : Option RecoveryRecord) :
    NameSlot.continuedAck recovery = none ∨ ∃ r ack, recovery = some r ∧ r.ack = some ack ∧
      ack.outcome ≠ .abandoned ∧ NameSlot.continuedAck recovery = some (r.spawn, ack) := by
  unfold NameSlot.continuedAck
  cases recovery with
  | none => exact .inl rfl
  | some r =>
    cases hack : r.ack with
    | none => exact .inl (by simp [hack])
    | some ack =>
      by_cases hab : ack.outcome = .abandoned
      · exact .inl (by simp [hack, hab])
      · exact .inr ⟨r, ack, rfl, hack, hab, by simp [hack, hab]⟩

theorem kept_started (h : Facts d record) (hd : d.slot.record = some record) (session : SpawnId)
    (sessionId : Option String) (hw : io.writes = true) :
    Recovery.Kept { d with slot := d.slot.started session sessionId io } := by
  unfold NameSlot.started
  by_cases hown : d.slot.own session = true
  · rw [if_pos hown]
    apply kept_update _ hd hw
    rcases continuedAck_cases record.recovery with hn | ⟨recovery, ack, hrec, hack, hne, hsome⟩
    · simp only [hn]
      exact h.same rfl rfl rfl
    · simp only [hsome]
      exact facts_started h hrec hack hne
  · rw [if_neg hown]
    exact ⟨record, hd, h.recovery _ d.dispatching d.nextId⟩

theorem facts_call (h : Facts d record) (action : RecoveryAction) (actionId : String) :
    Facts { d with calls := d.calls ++ [⟨action, actionId, .begun, d.acknowledged⟩] } record where
  fenced := h.fenced
  ready := by
    refine forall_mem_concat.mpr ⟨h.ready, ?_⟩
    intro hst hact
    cases hst
  pending := by
    refine forall_mem_concat.mpr ⟨h.pending, ?_⟩
    intro hst
    cases hst
  acked := h.acked
  answers := by
    refine forall_mem_concat.mpr ⟨h.answers, ?_⟩
    intro o hst
    cases hst
  before := by
    exact forall_mem_concat.mpr ⟨h.before, fun _ hxb => hxb⟩
  repeats := by
    exact forall_mem_concat.mpr ⟨h.repeats, fun _ _ => .inl rfl⟩
  quiet := h.quiet

theorem lose_cases (c : RecoveryCall) :
    (∃ a, c.stage = .answered a ∧ lose c = c) ∨ lose c = { c with stage := .lost } := by
  unfold lose
  cases c.stage with
  | answered a => exact .inl ⟨a, rfl, rfl⟩
  | begun | checked harness outcome | launched harness outcome | lost => exact .inr rfl

theorem facts_restart (h : Facts d record) : Facts { d with calls := d.calls.map lose } record := by
  have hlost : ∀ x ∈ d.calls.map lose, (x ∈ d.calls ∧ ∃ a, x.stage = .answered a) ∨
        ∃ c ∈ d.calls, x = { c with stage := .lost } := by
    intro x hx
    obtain ⟨c, hc, rfl⟩ := mem_map.mp hx
    rcases lose_cases c with ⟨a, ha, heq⟩ | heq
    · rw [heq]
      exact .inl ⟨hc, a, ha⟩
    · exact .inr ⟨c, hc, heq⟩
  constructor
  · exact h.fenced
  · intro x hx hst hact
    rcases hlost x hx with ⟨hx, -⟩ | ⟨c, -, rfl⟩
    · exact h.ready x hx hst hact
    · cases hst
  · intro x hx hst
    rcases hlost x hx with ⟨hx, -⟩ | ⟨c, -, rfl⟩
    · exact h.pending x hx hst
    · cases hst
  · exact h.acked
  · intro x hx o hst
    rcases hlost x hx with ⟨hx, -⟩ | ⟨c, -, rfl⟩
    · exact h.answers x hx o hst
    · cases hst
  · intro x hx b hxb
    rcases hlost x hx with ⟨hx, -⟩ | ⟨c, hc, rfl⟩
    · exact h.before x hx b hxb
    · exact h.before c hc b hxb
  · intro x hx b hxb
    rcases hlost x hx with ⟨hx, -⟩ | ⟨c, -, rfl⟩
    · exact h.repeats x hx b hxb
    · exact .inr (.inl rfl)
  · exact h.quiet

theorem continueRead_seat (target : Option String) (io : ContinueIo) :
    (d.continueRead i c target io).slot = d.slot := by
  unfold continueRead
  cases d.slot.record with
  | none => rfl
  | some record =>
    cases io.dispatch with
    | error text => rfl
    | ok u =>
      simp only
      cases d.decided c.actionId record with
      | some a => rfl
      | none =>
        simp only
        split
        · rfl
        · split
          · rfl
          · cases io.prepared <;> rfl

theorem abandonRead_seat : (d.abandonRead i c).slot = d.slot := by
  unfold abandonRead
  cases d.slot.record with
  | none => rfl
  | some record =>
    simp only
    cases d.decided c.actionId record <;> rfl

theorem launch_seat (harness : String) (outcome : RecoveryOutcome) (launched : Except String Unit) :
    (d.launch i c harness outcome launched).slot = d.slot := by
  cases launched <;> rfl

variable {d' : Recovery Usd}

section
variable (hf : Facts d record) (hd : d.slot.record = some record) (hc : d.calls[i]? = some c)
include hf hd hc

theorem kept_read {io : ContinueIo} (hs : d.read i c io = some d') (hg : d.Calm (.read i io)) :
    d'.Kept := by
  have hm : c ∈ d.calls := mem_of_getElem? hc
  unfold Recovery.read at hs
  split at hs
  · rename_i target hst hact
    split at hs
    · cases hs
      refine ⟨record, (congrArg NameSlot.record (continueRead_seat target io)).trans hd, ?_⟩
      apply facts_continueRead hf hd hm
      intro ack hack hk
      apply hg c hc record hd ack hack hk
      rw [hact]
      intro heq
      cases heq
    · cases hs
  · rename_i hst hact
    cases hs
    exact ⟨record, (congrArg NameSlot.record abandonRead_seat).trans hd,
      facts_abandonRead hf hd hm hact⟩
  · cases hs

theorem kept_launching {launched : Except String Unit} (hs : d.launching i c launched = some d')
    (hg : d.Calm (.launch i launched)) : d'.Kept := by
  unfold launching at hs
  split at hs
  · rename_i harness outcome target hst hact
    cases hs
    refine ⟨record, (congrArg NameSlot.record (launch_seat harness outcome launched)).trans hd, ?_⟩
    apply facts_launch hf (mem_of_getElem? hc)
    · rw [hst]
      rfl
    · rw [hact]
      intro heq
      cases heq
    · exact hg c hc record hd
  · cases hs

theorem kept_write {pid : Option Nat} {failure : String}
    (hs : d.write i c pid io failure = some d') (hg : d.Calm (.write i pid io failure)) :
    d'.Kept := by
  have hm : c ∈ d.calls := mem_of_getElem? hc
  obtain ⟨hw, hu⟩ := hg
  unfold write at hs
  split at hs
  · rename_i harness outcome target hst hact
    cases hs
    apply kept_publish hf hd hm
    · rw [hst]
      rfl
    · rw [hact]
      intro heq
      cases heq
    · exact hu c hc record hd
    · exact hw
  · cases hs
    exact kept_abandonWrite hf hd hm (hu c hc record hd) hw failure
  · cases hs

end

theorem orphaned_eq (now : DateTime) (record : Agent Usd) :
    (orphaned now record).spawn = record.spawn ∧ (orphaned now record).recovery = record.recovery ∧
      (orphaned now record).recoveryReceipt = record.recoveryReceipt := by
  unfold orphaned
  split <;> exact ⟨rfl, rfl, rfl⟩

theorem kept_step {m : RecoveryMove Usd} (h : d.Kept) (hs : d.step m = some d') (hg : d.Calm m) :
    d'.Kept := by
  obtain ⟨record, hd, hf⟩ := h
  cases m with
  | call action actionId =>
    cases hs
    exact ⟨record, hd, facts_call hf action actionId⟩
  | read i io =>
    obtain ⟨c, hc, hread⟩ := bind_eq_some_iff.mp hs
    exact kept_read hf hd hc hread hg
  | launch i launched =>
    obtain ⟨c, hc, hlaunch⟩ := bind_eq_some_iff.mp hs
    exact kept_launching hf hd hc hlaunch hg
  | write i pid io failure =>
    obtain ⟨c, hc, hwrite⟩ := bind_eq_some_iff.mp hs
    exact kept_write hf hd hc hwrite hg
  | started session sessionId io =>
    cases hs
    exact kept_started hf hd session sessionId hg
  | elsewhere mutate token =>
    cases hs
    refine ⟨elsewhere mutate record, ?_, ?_⟩
    · simp only [hd, map_some]
    · have hsame : Facts d (elsewhere mutate record) := hf.same rfl rfl rfl
      exact hsame.recovery _ d.dispatching d.nextId
  | restart now =>
    cases hs
    obtain ⟨hspawn, hrec, hreceipt⟩ := orphaned_eq now record
    refine ⟨orphaned now record, ?_, ?_⟩
    · simp only [hd, map_some]
    · exact ((facts_restart hf).same hspawn hrec hreceipt).recovery _ none d.nextId

theorem opened_kept {slot : NameSlot Usd} {name : String} (hd : slot.record = some record)
    {recovery : RecoveryRecord} (hrec : record.recovery = some recovery)
    (hack : recovery.ack = none) : (opened name slot).Kept := by
  refine ⟨record, hd, ?_⟩
  constructor
  · intro r hr ack ha
    rw [hrec] at hr
    cases hr
    rw [hack] at ha
    cases ha
  · intro c hc
    cases hc
  · intro c hc
    cases hc
  · intro b hb
    cases hb
  · intro c hc
    cases hc
  · intro c hc
    cases hc
  · intro c hc
    cases hc
  · rfl

/-- Where nothing is decided between a call's look and its launch or its write, the registry is
written, and no continuation is repeated under a review whose dispatch is closed, a recovery is
decided once. -/
theorem recovery_decided_once (name : String) (slot : NameSlot Usd) (record : Agent Usd)
    (recovery : RecoveryRecord) (hd : slot.record = some record)
    (hrec : record.recovery = some recovery) (hack : recovery.ack = none)
    (moves : List (RecoveryMove Usd)) (h : Meets step Recovery.Calm (opened name slot) moves) :
    Keeps step Recovery.Decided (opened name slot) moves :=
  (keeps_of_meets (fun _ _ _ hk hs hg => kept_step hk hs hg) (opened_kept hd hrec hack) h).mono
    fun _ hk => hk.elim fun _ hf => hf.2.decided

end

instance {Usd : Type} (d : Recovery Usd) : ∀ m, Decidable (d.Calm m)
  | .call _ _ => isTrue trivial
  | .read i io => inferInstanceAs (Decidable (∀ _ ∈ _, _))
  | .launch i _ => inferInstanceAs (Decidable (∀ _ ∈ _, _))
  | .write i _ io _ => inferInstanceAs (Decidable (_ ∧ _))
  | .started _ _ io => inferInstanceAs (Decidable (io.writes = true))
  | .elsewhere _ _ | .restart _ => isTrue trivial

def parked : Agent Nat :=
  { whisker with
    state := .failed, harness := "claude", costUsd := 0
    recovery := some ⟨"rat/whisker/t-1", "c0ffee", 9, none⟩ }

def parkedSlot : NameSlot Nat := { record := some parked }

def ready : ContinueIo := ⟨.ok (), .ok ()⟩

def written : EventIo := { now := 5, writes := true }

def crossed : List (RecoveryMove Nat) :=
  [.call .abandon "leave", .call (.resume none) "go", .read 0 ready, .read 1 ready,
    .launch 1 (.ok ()), .write 1 (some 77) written "", .write 0 none written ""]

/-- Both outcomes are acknowledged, and the record of a session that runs says abandoned. -/
theorem both_acknowledged : ¬ Keeps step Recovery.Decided (opened "Whisker" parkedSlot) crossed := by
  intro hk
  have hend : ((run step (.opened "Whisker" parkedSlot) crossed).any fun d =>
      d.calls.map RecoveryCall.stage = [.answered (.ok .abandoned),
        .answered (.ok (.resumedSameProvider 9))]) = true := by
    decide +kernel
  obtain ⟨d, hrun, hstages⟩ := run_of_any hend
  have hone := (hk.last hrun).one
  have hs := of_decide_eq_true hstages
  obtain ⟨c, hc, hcs⟩ := mem_map.mp
    (hs ▸ mem_cons_self : RecoveryStage.answered (.ok .abandoned) ∈ d.calls.map _)
  obtain ⟨c', hc', hcs'⟩ := mem_map.mp (hs ▸ mem_cons_of_mem _ mem_cons_self :
      RecoveryStage.answered (.ok (.resumedSameProvider 9)) ∈ d.calls.map _)
  cases (hone c hc c' hc' _ _ hcs hcs').2

/-- One after the other: the abandonment is refused, and a repeat of the continuation after the
handshake gets its answer again. -/
theorem recovery_decided_once_in_turn :
    Keeps step Recovery.Decided (opened "Whisker" parkedSlot)
      [.call (.resume none) "go", .read 0 ready, .launch 0 (.ok ()),
        .write 0 (some 77) written "", .call .abandon "leave", .read 1 ready,
        .started 0 (some "s-1") written, .call (.resume none) "go", .read 2 ready, .restart 6,
        .call (.resume none) "again", .read 3 ready] :=
  recovery_decided_once "Whisker" parkedSlot parked ⟨"rat/whisker/t-1", "c0ffee", 9, none⟩ rfl rfl
    rfl _ (by decide +kernel)

end RatKingdom.Supervisor
