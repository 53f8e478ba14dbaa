/-
What a superseded session can still do.

A launch takes a name over under the guard that every arm of `handle_event` asks for, so no event
of the session before reaches it.  The grace timer of a launch that is done asks first and acts
later, without the guard: a launch that is published in between loses its control handle to it.
-/
import RatKingdom.Supervisor.Events

namespace RatKingdom.Supervisor

open Core Lib Agents Agents.Registry Option

/-- A name with the sessions launched under it. -/
structure Sessions (Usd : Type) where
  slot : NameSlot Usd
  /-- The launches published under the name, the newest first. -/
  launches : List Launch := []
  pumps : List Launch := []
  pending : List (Launch × HarnessEvent Usd) := []
  nextId : SpawnId := 0

open Sessions

inductive SessionOp (Usd : Type) where
  | event (pump : Nat) (event : HarnessEvent Usd) (io : EventIo)
  | arm (pending : Nat) (io : EventIo)
  | wakes (timer : Nat)
  | looks (timer : Nat)
  | kills (timer : Nat) (held : Bool)
  /-- Of a session that can be observed, or of a pane. -/
  | publish (observable : Bool) (reset : Agent Usd → Agent Usd) (io : EventIo)
  | elsewhere (slot : NameSlot Usd) (dropsControl : Bool)

namespace NameSlot
variable {Usd : Type}

def setTimer (s : NameSlot Usd) (i : Nat) (timer : DoneKill) (stage : TimerStage) : NameSlot Usd :=
  { s with timers := s.timers.set i { timer with stage } }

end NameSlot

namespace Sessions
variable {Usd : Type}

/-- `kill_lingering_after_done`, up to the token. -/
def wakes (s : Sessions Usd) (i : Nat) : Option (Sessions Usd) :=
  match s.slot.timers[i]? with
  | some timer =>
    if timer.stage = .armed then
      let stage :=
        if (s.slot.record.any fun record => record.createdAt = timer.launch.generation) &&
            s.slot.token = some timer.launch.session then .matched
        else .ended
      some { s with slot := s.slot.setTimer i timer stage }
    else none
  | none => none

def looks (s : Sessions Usd) (i : Nat) : Option (Sessions Usd) :=
  match s.slot.timers[i]? with
  | some timer =>
    if timer.stage = .matched then
      let stage := if s.slot.control.isSome then .announcing else .ended
      some { s with slot := s.slot.setTimer i timer stage }
    else none
  | none => none

/-- `kill_lingering_after_done`, from the announcement on: the handle under the name is removed
and its process group killed. -/
def kills (s : Sessions Usd) (i : Nat) (held : Bool) : Option (Sessions Usd) :=
  match s.slot.timers[i]? with
  | some timer =>
    if timer.stage = .announcing then
      let slot := s.slot.setTimer i timer .ended
      some { s with slot := if held then slot else { slot with control := none } }
    else none
  | none => none

/-- `publish_launch`: an update that is not written hands nothing over. -/
def publish (s : Sessions Usd) (observable : Bool) (reset : Agent Usd → Agent Usd) (io : EventIo) :
    Sessions Usd :=
  match s.slot.update io reset with
  | (slot, none) => { s with slot }
  | (slot, some record) =>
    let launch : Launch := ⟨s.nextId, record.createdAt, record.spawn⟩
    { s with
      slot := { slot with
        completion := none
        token := some s.nextId
        control := if observable then some s.nextId else none
        watches := if observable then
          slot.watches ++ [⟨s.nextId, record.costUsd, record.usage⟩] else slot.watches }
      launches := launch :: s.launches
      pumps := if observable then launch :: s.pumps else s.pumps
      nextId := s.nextId + 1 }

def step (office : Office Usd) (s : Sessions Usd) : SessionOp Usd → Option (Sessions Usd)
  | .event i event io =>
    s.pumps[i]?.map fun launch =>
      { s with
        slot := s.slot.resumeOn launch event io
        pending := s.pending ++ [(launch, event)] }
  | .arm i io =>
    s.pending[i]?.map fun (launch, event) =>
      { s with
        slot := s.slot.handleEvent office launch io event
        pending := s.pending.eraseIdx i }
  | .wakes i => s.wakes i
  | .looks i => s.looks i
  | .kills i held => s.kills i held
  | .publish observable reset io => some (s.publish observable reset io)
  | .elsewhere slot dropsControl =>
    -- The name is handed over and its control handle installed by launches alone.
    some { s with slot := { slot with
      token := s.slot.token
      control := if dropsControl then none else s.slot.control
      timers := s.slot.timers } }

end Sessions

def Sessions.opened {Usd : Type} (slot : NameSlot Usd) : Sessions Usd :=
  { slot := { slot with token := none, control := none, timers := [] } }

section
variable {Usd : Type}

/-- The session on whose behalf a step is taken. -/
def Sessions.actor (s : Sessions Usd) : SessionOp Usd → Option SpawnId
  | .event i _ _ => s.pumps[i]?.map Launch.session
  | .arm i _ => s.pending[i]?.map fun p => p.1.session
  | .wakes i => s.slot.timers[i]?.map fun t => t.launch.session
  | .looks i => s.slot.timers[i]?.map fun t => t.launch.session
  | .kills i _ => s.slot.timers[i]?.map fun t => t.launch.session
  | .publish .. => none
  | .elsewhere .. => none

/-- A launch was published under the name after this session's. -/
def Sessions.Superseded (s : Sessions Usd) (session : SpawnId) : Prop :=
  ∃ launch, s.launches.head? = some launch ∧ launch.session ≠ session

/-- Whatever a superseded session does next spares the launch that holds the name. -/
def Undisturbed (office : Office Usd) (s : Sessions Usd) : Prop :=
  ∀ op s' session, s.actor op = some session → s.Superseded session →
    s.step office op = some s' → Spares s.slot s'.slot

def TimerStage.isOpen : TimerStage → Bool
  | .matched => true
  | .announcing => true
  | .armed => false
  | .ended => false

def settledTimers (s : Sessions Usd) : SessionOp Usd → Prop
  | .publish true _ _ => ∀ t ∈ s.slot.timers, t.stage.isOpen = false
  | _ => True

/-- A timer that has asked in vain since has nothing left to remove. -/
structure Guarded (s : Sessions Usd) : Prop where
  token : s.slot.token = s.launches.head?.map Launch.session
  timers : ∀ t ∈ s.slot.timers, t.stage.isOpen = true →
    s.slot.token = some t.launch.session ∨ s.slot.control = none

variable {office : Office Usd} {s s' : Sessions Usd}

theorem Guarded.superseded_not_own (h : Guarded s) {session : SpawnId} (hs : s.Superseded session) :
    s.slot.own session = false := by
  obtain ⟨launch, hhead, hne⟩ := hs
  unfold NameSlot.own
  rw [h.token, hhead]
  exact decide_eq_false hne

theorem Guarded.superseded_token (h : Guarded s) {session : SpawnId} (hs : s.Superseded session) :
    s.slot.token ≠ some session := by
  obtain ⟨launch, hhead, hne⟩ := hs
  rw [h.token, hhead]
  exact fun he => hne (some.inj he)

theorem setTimer_spares (slot : NameSlot Usd) (i : Nat) (timer : DoneKill) (stage : TimerStage) :
    Spares slot (slot.setTimer i timer stage) := ⟨rfl, rfl, rfl, rfl⟩

theorem Guarded.undisturbed (h : Guarded s) : Undisturbed office s := by
  intro op s' session hactor hs hstep
  have hown := h.superseded_not_own hs
  have htoken := h.superseded_token hs
  cases op with
  | event i event io =>
    obtain ⟨launch, hlaunch, rfl⟩ := map_eq_some_iff.mp hstep
    simp only [actor, hlaunch, map_some, some.injEq] at hactor
    rw [← hactor] at hown
    exact resumeOn_spares hown
  | arm i io =>
    obtain ⟨⟨launch, event⟩, hpending, rfl⟩ := map_eq_some_iff.mp hstep
    simp only [actor, hpending, map_some, some.injEq] at hactor
    rw [← hactor] at hown
    exact handleEvent_spares hown event
  | wakes i =>
    simp only [step, wakes] at hstep
    split at hstep
    · split at hstep
      · cases hstep
        exact setTimer_spares s.slot i _ _
      · cases hstep
    · cases hstep
  | looks i =>
    simp only [step, looks] at hstep
    split at hstep
    · split at hstep
      · cases hstep
        exact setTimer_spares s.slot i _ _
      · cases hstep
    · cases hstep
  | kills i held =>
    simp only [step, kills] at hstep
    split at hstep
    · rename_i timer htimer
      obtain ⟨hst, hstep⟩ := ite_none_right_eq_some.mp hstep
      cases hstep
      simp only [actor, htimer, map_some, some.injEq] at hactor
      cases held with
      | true => exact setTimer_spares s.slot i timer .ended
      | false =>
        -- The name has changed hands since the question, so the handle is gone already.
        have hn := h.timers timer (List.mem_of_getElem? htimer) (by rw [hst]; rfl)
        rw [hactor] at hn
        exact ⟨rfl, (hn.resolve_left htoken).symm, rfl, rfl⟩
    · cases hstep
  | publish observable reset io | elsewhere slot dropsControl => cases hactor

theorem Guarded.tends (h : Guarded s) {slot : NameSlot Usd} (ht : Tends s.slot slot)
    (pending : List (Launch × HarnessEvent Usd)) : Guarded { s with slot, pending } := by
  refine ⟨ht.token.trans h.token, ?_⟩
  intro t hm hopen
  cases ht.timers t hm with
  | inl hold =>
    cases h.timers t hold hopen with
    | inl hsame => exact .inl (ht.token.trans hsame)
    | inr hn =>
      cases ht.control with
      | inl hsame => exact .inr (hsame.trans hn)
      | inr hgone => exact .inr hgone
  | inr harmed =>
    rw [harmed] at hopen
    cases hopen

theorem Guarded.setTimer (h : Guarded s) {i : Nat} {timer : DoneKill} {stage : TimerStage}
    (hopen : stage.isOpen = true →
      s.slot.token = some timer.launch.session ∨ s.slot.control = none) :
    Guarded { s with slot := s.slot.setTimer i timer stage } := by
  refine ⟨h.token, ?_⟩
  intro t hm ho
  cases List.mem_or_eq_of_mem_set hm with
  | inl hold => exact h.timers t hold ho
  | inr hnew =>
    rw [hnew] at ho
    rw [hnew]
    exact hopen ho

theorem Guarded.publish (h : Guarded s) {observable : Bool} {reset : Agent Usd → Agent Usd}
    {io : EventIo} (hg : settledTimers s (.publish observable reset io)) :
    Guarded (s.publish observable reset io) := by
  unfold Sessions.publish
  split
  · rename_i slot hupdate
    exact h.tends (update_tends_of hupdate) s.pending
  · rename_i slot record hupdate
    have ht := update_tends_of hupdate
    refine ⟨rfl, ?_⟩
    intro t hm hopen
    cases observable with
    | false => exact .inr rfl
    | true =>
      cases ht.timers t hm with
      | inl hold =>
        rw [hg t hold] at hopen
        cases hopen
      | inr harmed =>
        rw [harmed] at hopen
        cases hopen

theorem Guarded.step (h : Guarded s) {op : SessionOp Usd} (hg : settledTimers s op)
    (hs : s.step office op = some s') : Guarded s' := by
  cases op with
  | event i event io =>
    obtain ⟨launch, -, rfl⟩ := map_eq_some_iff.mp hs
    exact h.tends resumeOn_tends _
  | arm i io =>
    obtain ⟨⟨launch, event⟩, -, rfl⟩ := map_eq_some_iff.mp hs
    exact h.tends (handleEvent_tends event) _
  | wakes i =>
    simp only [Sessions.step, Sessions.wakes] at hs
    split at hs
    · split at hs
      · cases hs
        apply h.setTimer
        intro ho
        split at ho
        · rename_i hchecks
          rw [Bool.and_eq_true] at hchecks
          exact .inl (of_decide_eq_true hchecks.2)
        · cases ho
      · cases hs
    · cases hs
  | looks i =>
    simp only [Sessions.step, Sessions.looks] at hs
    split at hs
    · rename_i timer htimer
      split at hs
      · rename_i hst
        cases hs
        apply h.setTimer
        intro _
        exact h.timers timer (List.mem_of_getElem? htimer) (by rw [hst]; rfl)
      · cases hs
    · cases hs
  | kills i held =>
    simp only [Sessions.step, Sessions.kills] at hs
    split at hs
    · rename_i timer htimer
      split at hs
      · cases hs
        have hover : Guarded { s with slot := s.slot.setTimer i timer .ended } :=
          h.setTimer nofun
        cases held with
        | true => exact hover
        | false => exact ⟨hover.token, fun _ _ _ => .inr rfl⟩
      · cases hs
    · cases hs
  | publish observable reset io =>
    cases hs
    exact h.publish hg
  | elsewhere slot dropsControl =>
    cases hs
    refine ⟨h.token, ?_⟩
    intro t hm hopen
    cases h.timers t hm hopen with
    | inl hsame => exact .inl hsame
    | inr hn =>
      apply Or.inr
      show (if dropsControl then none else s.slot.control) = none
      rw [hn, ite_self]

theorem opened_guarded (slot : NameSlot Usd) : Guarded (opened slot) := by
  refine ⟨rfl, ?_⟩
  intro t ht
  cases ht

/-- Along every run in which no launch is published between a timer's question and its removal,
no superseded session touches the launch that holds the name. -/
theorem superseded_session_spares (office : Office Usd) (slot : NameSlot Usd)
    (ops : List (SessionOp Usd))
    (hg : Meets (step office) settledTimers (opened slot) ops) :
    Keeps (step office) (Undisturbed office) (opened slot) ops := by
  have hkeeps : Keeps (step office) Guarded (.opened slot) ops :=
    keeps_of_meets (fun s op s' h hs hg => h.step hg hs) (opened_guarded slot) hg
  exact hkeeps.mono fun s h => h.undisturbed

end

instance {Usd : Type} (s : Sessions Usd) : ∀ op, Decidable (settledTimers s op)
  | .publish true _ _ => inferInstanceAs (Decidable (∀ _ ∈ _, _))
  | .publish false _ _ | .event .. | .arm .. | .wakes _ | .looks _ | .kills .. | .elsewhere .. =>
    isTrue trivial

def cents : Office Nat where
  zero := 0
  add := fun a b => a + b
  exceeds := fun a b => a > b
  price := fun _ _ => none
  check := fun _ _ _ => .ok
  budgetStopDetail := fun _ => "budget stop"
  outputFingerprint := fun kind text => kind.length + text.length

def whiskerAgent : Agent Nat :=
  { whisker with harness := "claude", costUsd := 0, currentAttempt := some 0 }

def declaredSlot : NameSlot Nat := { record := some whiskerAgent, done := [declared 0] }

def onTime : EventIo := { now := 0, writes := true }

def toRunning (record : Agent Nat) : Agent Nat :=
  { record with state := .running, result := none, crashed := false, stderrTail := none }

def killedAfterTakeover : List (SessionOp Nat) :=
  [.publish true toRunning onTime, .event 0 (.completed "whole" false {} none none) onTime,
    .arm 0 onTime, .wakes 0, .looks 0, .publish true toRunning onTime]

theorem timer_removes_control :
    ¬ Keeps (step cents) (Undisturbed cents) (opened declaredSlot)
      killedAfterTakeover := by
  intro hk
  have hend : ((run (step cents) (.opened declaredSlot) killedAfterTakeover).any
      fun s => (s.slot.control = some 1 && s.launches.head?.any fun l => l.session = 1) &&
        (s.actor (.kills 0 false) = some 0 && (s.kills 0 false).any fun s' =>
          s'.slot.control = none)) = true := by
    decide +kernel
  obtain ⟨s, hrun, hends⟩ := run_of_any hend
  simp only [Bool.and_eq_true, decide_eq_true_eq] at hends
  obtain ⟨⟨hcontrol, hhead⟩, hactor, hkill⟩ := hends
  obtain ⟨launch, hlaunch, hone⟩ := (any_eq_true _ _).mp hhead
  obtain ⟨s', hs', hn⟩ := (any_eq_true _ _).mp hkill
  have hsuperseded : s.Superseded 0 := by
    refine ⟨launch, hlaunch, ?_⟩
    rw [of_decide_eq_true hone]
    decide
  have hspares := hk.last hrun (.kills 0 false) s' 0 hactor hsuperseded hs'
  rw [hspares.control, hcontrol] at hn
  exact absurd hn (by decide)

def spokenAfterTakeover : List (SessionOp Nat) :=
  [.publish true toRunning onTime, .event 0 (.completed "whole" false {} none none) onTime,
    .arm 0 onTime, .wakes 0, .looks 0, .kills 0 false, .publish true toRunning onTime,
    .event 1 (.assistantText "late") onTime, .arm 0 onTime, .event 1 (.exited (some 0)) onTime,
    .arm 0 onTime, .event 0 (.usage { input := 5 }) onTime, .arm 0 onTime]

theorem superseded_session_spares_late :
    Keeps (step cents) (Undisturbed cents) (opened declaredSlot)
      spokenAfterTakeover := by
  apply superseded_session_spares
  decide +kernel

end RatKingdom.Supervisor
