/-
The kills a supervisor issues by itself.

Three paths remove the control handle under a name and kill what it controls: the grace timer of
a launch that is done, the hard stop of the sweep and the budget stop.  The budget stop holds
the guard that a takeover needs.  The others look first and remove later, and the sweep never asks
which session holds the name.
-/
import RatKingdom.Supervisor.Takeover

namespace RatKingdom.Supervisor

open Core Lib Agents Agents.Registry List Option

inductive SweepAction where
  | none
  | soft (kind detail : String)
  | hard (kind detail : String)

inductive SweepStage where
  | listed | condemned | ended
  deriving DecidableEq

structure SweepPass (Usd : Type) where
  record : Agent Usd
  holder : Option SpawnId
  stage : SweepStage

/-- A kill, with the session on whose record or completion it was decided. -/
structure Kill where
  victim : SpawnId
  meant : Option SpawnId

/-- The sessions of a name, with the sweeps over them and the kills so far. -/
structure Reaper (Usd : Type) where
  sessions : Sessions Usd
  sweeps : List (SweepPass Usd) := []
  kills : List Kill := []

open Reaper

inductive ReaperOp (Usd : Type) where
  | sessions (op : SessionOp Usd)
  /-- `sweep` lists the record, if it is live. -/
  | lists
  /-- It comes to the record, and `decide_sweep` has its say. -/
  | verdict (sweep : Nat) (action : SweepAction)
  | removes (sweep : Nat)

namespace Reaper
variable {Usd : Type}

def killed (s s' : Sessions Usd) : SessionOp Usd → Option Kill
  | .kills i false =>
    (s.slot.timers[i]?.filter fun timer => timer.stage = .announcing).bind fun timer =>
      s.slot.control.map fun victim => ⟨victim, some timer.launch.session⟩
  | .arm i _ =>
    s.pending[i]?.bind fun (launch, event) =>
      match event with
      | .usage _ =>
        if s'.slot.control.isNone then s.slot.control.map fun victim => ⟨victim, some launch.session⟩
        else none
      | _ => none
  | _ => none

def lists (s : Reaper Usd) : Option (Reaper Usd) :=
  match s.sessions.slot.record with
  | some record =>
    if record.state.isLive then
      some { s with sweeps := s.sweeps ++ [⟨record, s.sessions.slot.token, .listed⟩] }
    else none
  | none => none

/-- A record without a control handle is passed over, and so is one whose work is declared
done. -/
def verdict (s : Reaper Usd) (i : Nat) (action : SweepAction) : Option (Reaper Usd) :=
  match s.sweeps[i]? with
  | some pass =>
    if pass.stage = .listed then
      let stage : SweepStage :=
        match action with
        | .hard _ _ =>
          if s.sessions.slot.control.isSome && (findTaskDone s.sessions.slot.done pass.record.spawn
              pass.record.currentAttempt).isNone then .condemned
          else .ended
        | _ => .ended
      some { s with sweeps := s.sweeps.set i { pass with stage } }
    else none
  | none => none

def removes (s : Reaper Usd) (i : Nat) : Option (Reaper Usd) :=
  match s.sweeps[i]? with
  | some pass =>
    if pass.stage = .condemned then
      some { s with
        sessions := { s.sessions with slot := { s.sessions.slot with control := none } }
        sweeps := s.sweeps.set i { pass with stage := .ended }
        kills := s.kills ++ (s.sessions.slot.control.map fun victim => ⟨victim, pass.holder⟩).toList }
    else none
  | none => none

def step (office : Office Usd) (s : Reaper Usd) : ReaperOp Usd → Option (Reaper Usd)
  | .sessions op => (s.sessions.step office op).map fun sessions =>
    { s with sessions, kills := s.kills ++ (killed s.sessions sessions op).toList }
  | .lists => s.lists
  | .verdict i action => s.verdict i action
  | .removes i => s.removes i

def opened (slot : NameSlot Usd) : Reaper Usd := { sessions := Sessions.opened slot }

end Reaper

section
variable {Usd : Type}

def Reaper.Aimed (s : Reaper Usd) : Prop := ∀ k ∈ s.kills, k.meant = some k.victim
deriving Decidable

/-- No session is published between a question and the removal that follows it, and a hard stop
is decided on while the name has not changed hands since the record was listed. -/
def Reaper.Unhurried (s : Reaper Usd) : ReaperOp Usd → Prop
  | .sessions (.publish true _ _) =>
    (∀ t ∈ s.sessions.slot.timers, t.stage.isOpen = false) ∧ ∀ p ∈ s.sweeps, p.stage ≠ .condemned
  | .verdict i (.hard _ _) => ∀ p ∈ s.sweeps[i]?, s.sessions.slot.token = p.holder
  | _ => True

/-- The handle under a name is its holder's, and what a sweep condemned holds the name or has no
handle left. -/
structure Watched (s : Reaper Usd) : Prop where
  guarded : Guarded s.sessions
  held : ∀ v, s.sessions.slot.control = some v → s.sessions.slot.token = some v
  condemned : ∀ p ∈ s.sweeps, p.stage = .condemned →
    s.sessions.slot.token = p.holder ∨ s.sessions.slot.control = none
  aimed : s.Aimed

variable {office : Office Usd} {s s' : Sessions Usd} {op : SessionOp Usd}

/-- What a step does with the name and the handle under it. -/
theorem handle_cases (hs : s.step office op = some s') :
    (s'.slot.token = s.slot.token ∧ (s'.slot.control = s.slot.control ∨ s'.slot.control = none)) ∨
      s'.slot.control = none ∨
      ∃ reset io, op = .publish true reset io ∧
        ∃ id, s'.slot.token = some id ∧ s'.slot.control = some id := by
  cases op with
  | event i event io =>
    obtain ⟨launch, -, rfl⟩ := map_eq_some_iff.mp hs
    have ht : Tends s.slot (s.slot.resumeOn launch event io) := resumeOn_tends
    exact .inl ⟨ht.token, ht.control⟩
  | arm i io =>
    obtain ⟨⟨launch, event⟩, -, rfl⟩ := map_eq_some_iff.mp hs
    have ht : Tends s.slot (s.slot.handleEvent office launch io event) := handleEvent_tends event
    exact .inl ⟨ht.token, ht.control⟩
  | wakes i =>
    simp only [Sessions.step, Sessions.wakes] at hs
    split at hs
    · split at hs
      · cases hs
        exact .inl ⟨rfl, .inl rfl⟩
      · cases hs
    · cases hs
  | looks i =>
    simp only [Sessions.step, Sessions.looks] at hs
    split at hs
    · split at hs
      · cases hs
        exact .inl ⟨rfl, .inl rfl⟩
      · cases hs
    · cases hs
  | kills i held =>
    simp only [Sessions.step, Sessions.kills] at hs
    split at hs
    · split at hs
      · cases hs
        cases held with
        | true => exact .inl ⟨rfl, .inl rfl⟩
        | false => exact .inl ⟨rfl, .inr rfl⟩
      · cases hs
    · cases hs
  | publish observable reset io =>
    cases hs
    unfold Sessions.publish
    split
    · rename_i slot hupdate
      have ht := update_tends_of hupdate
      exact .inl ⟨ht.token, ht.control⟩
    · cases observable with
      | false => exact .inr (.inl rfl)
      | true => exact .inr (.inr ⟨reset, io, rfl, s.nextId, rfl, rfl⟩)
  | elsewhere slot dropsControl =>
    cases hs
    cases dropsControl with
    | false => exact .inl ⟨rfl, .inl rfl⟩
    | true => exact .inl ⟨rfl, .inr rfl⟩

/-- A timer and a budget stop kill their own session. -/
theorem killed_aimed (hg : Guarded s) (hheld : ∀ v, s.slot.control = some v → s.slot.token = some v)
    (hs : s.step office op = some s') {k : Kill} (hk : killed s s' op = some k) :
    k.meant = some k.victim := by
  cases op with
  | kills i held =>
    cases held with
    | true => cases hk
    | false =>
      obtain ⟨timer, htimer, hcontrol⟩ := bind_eq_some_iff.mp hk
      obtain ⟨victim, hvictim, rfl⟩ := map_eq_some_iff.mp hcontrol
      obtain ⟨hget, hst⟩ := filter_eq_some_iff.mp htimer
      have hopen : timer.stage.isOpen = true := by
        rw [of_decide_eq_true hst]
        rfl
      rcases hg.timers timer (mem_of_getElem? hget) hopen with htoken | hn
      · rw [hheld victim hvictim] at htoken
        exact htoken.symm
      · rw [hvictim] at hn
        cases hn
  | arm i io =>
    obtain ⟨⟨launch, event⟩, hpending, rfl⟩ := map_eq_some_iff.mp hs
    unfold killed at hk
    simp only [hpending, bind_some] at hk
    cases event with
    | usage usage =>
      simp only at hk
      obtain ⟨hn, hk⟩ := ite_none_right_eq_some.mp hk
      obtain ⟨victim, hvictim, rfl⟩ := map_eq_some_iff.mp hk
      cases hown : s.slot.own launch.session with
      | false =>
        -- A superseded session's usage leaves the handle alone.
        have hspares : Spares s.slot (s.slot.handleEvent office launch io (.usage usage)) :=
          handleEvent_spares hown (.usage usage)
        rw [hspares.control, hvictim] at hn
        cases hn
      | true =>
        unfold NameSlot.own at hown
        rw [hheld victim hvictim] at hown
        exact congrArg some (of_decide_eq_true hown).symm
    | started _ | assistantText _ | toolUse _ | stderr _ | retry _ _ | completed _ _ _ _ _
    | exited _ | controlDelivered _ | transportFailure _ => cases hk
  | event i event io | wakes i | looks i | publish observable reset io
  | elsewhere slot dropsControl => cases hk

variable {y y' : Reaper Usd}

theorem Reaper.Unhurried.settled (h : y.Unhurried (.sessions op)) : settledTimers y.sessions op := by
  unfold settledTimers
  split
  · exact h.1
  · trivial

theorem watched_house (h : Watched y) (hg : y.Unhurried (.sessions op)) {sessions : Sessions Usd}
    (hs : y.sessions.step office op = some sessions) :
    Watched { y with sessions, kills := y.kills ++ (killed y.sessions sessions op).toList } := by
  have hcases := handle_cases hs
  refine ⟨h.guarded.step hg.settled hs, ?_, ?_, ?_⟩
  · intro v hv
    rcases hcases with ⟨htoken, hsame | hn⟩ | hn | ⟨_, _, _, id, htoken, hcontrol⟩
    · exact htoken.trans (h.held v (hsame.symm.trans hv))
    · rw [hv] at hn
      cases hn
    · rw [hv] at hn
      cases hn
    · exact htoken.trans (hcontrol.symm.trans hv)
  · intro p hp hst
    rcases hcases with ⟨htoken, hcontrol⟩ | hn | ⟨reset, io, rfl, -⟩
    · rcases h.condemned p hp hst with hholds | hgone
      · exact .inl (htoken.trans hholds)
      · rcases hcontrol with hsame | hn
        · exact .inr (hsame.trans hgone)
        · exact .inr hn
    · exact .inr hn
    · exact absurd hst (hg.2 p hp)
  · exact forall_mem_append.mpr
      ⟨h.aimed, fun _ hk => killed_aimed h.guarded h.held hs (mem_toList.mp hk)⟩

theorem watched_step {op : ReaperOp Usd} (h : Watched y) (hs : y.step office op = some y')
    (hg : y.Unhurried op) : Watched y' := by
  cases op with
  | sessions op =>
    obtain ⟨sessions, hhouse, rfl⟩ := map_eq_some_iff.mp hs
    exact watched_house h hg hhouse
  | lists =>
    simp only [step, lists] at hs
    split at hs
    · split at hs
      · cases hs
        refine ⟨h.guarded, h.held, ?_, h.aimed⟩
        refine forall_mem_concat.mpr ⟨h.condemned, ?_⟩
        intro hst
        cases hst
      · cases hs
    · cases hs
  | verdict i action =>
    simp only [step, verdict] at hs
    split at hs
    · rename_i pass hpass
      split at hs
      · cases hs
        refine ⟨h.guarded, h.held, ?_, h.aimed⟩
        intro p hp hst
        rcases mem_or_eq_of_mem_set hp with hp | rfl
        · exact h.condemned p hp hst
        · cases action with
          | none | soft kind detail => cases hst
          | hard kind detail => exact .inl (hg pass hpass)
      · cases hs
    · cases hs
  | removes i =>
    simp only [step, removes] at hs
    split at hs
    · rename_i pass hpass
      obtain ⟨hst, hs⟩ := ite_none_right_eq_some.mp hs
      cases hs
      refine ⟨⟨h.guarded.token, fun _ _ _ => .inr rfl⟩, ?_, fun _ _ _ => .inr rfl, ?_⟩
      · nofun
      · refine forall_mem_append.mpr ⟨h.aimed, ?_⟩
        intro k hk
        obtain ⟨victim, hvictim, rfl⟩ := map_eq_some_iff.mp (mem_toList.mp hk)
        rcases h.condemned pass (mem_of_getElem? hpass) hst with hholds | hn
        · exact hholds.symm.trans (h.held victim hvictim)
        · rw [hvictim] at hn
          cases hn
    · cases hs

theorem opened_watched (slot : NameSlot Usd) : Watched (opened slot) := by
  refine ⟨opened_guarded slot, ?_, ?_, ?_⟩
  · nofun
  · intro p hp
    cases hp
  · nofun

/-- Where no session is published between a question and the removal that follows it, and no hard
stop is decided on after the name has changed hands, every automated kill reaches the session it
was decided about. -/
theorem kills_aimed (office : Office Usd) (slot : NameSlot Usd) (ops : List (ReaperOp Usd))
    (h : Meets (step office) Reaper.Unhurried (opened slot) ops) :
    Keeps (step office) Reaper.Aimed (opened slot) ops :=
  (keeps_of_meets (fun _ _ _ hw hs hg => watched_step hw hs hg) (opened_watched slot) h).mono
    fun _ hw => hw.aimed

end

instance {Usd : Type} (s : Reaper Usd) : ∀ op, Decidable (s.Unhurried op)
  | .sessions (.publish true _ _) => inferInstanceAs (Decidable (_ ∧ _))
  | .sessions (.publish false _ _) | .sessions (.event ..) | .sessions (.arm ..) | .sessions (.wakes _)
  | .sessions (.looks _) | .sessions (.kills ..) | .sessions (.elsewhere ..) | .lists => isTrue trivial
  | .verdict i (.hard _ _) => inferInstanceAs (Decidable (∀ _ ∈ _, _))
  | .verdict _ .none | .verdict _ (.soft _ _) | .removes _ => isTrue trivial

def runningSlot : NameSlot Nat := { record := some whiskerAgent }

/-- A session is stuck and listed; it exits and is launched again before the sweep comes to
its record. -/
def sweptAfterRelaunch : List (ReaperOp Nat) :=
  [.sessions (.publish true toRunning onTime), .lists, .sessions (.event 0 (.exited (some 1)) onTime),
    .sessions (.arm 0 onTime), .sessions (.publish true toRunning onTime),
    .verdict 0 (.hard "stuck" "silent"), .removes 0]

/-- The sweep kills session 1 for the silence of session 0. -/
theorem sweep_kills_successor :
    ¬ Keeps (step cents) Reaper.Aimed (opened runningSlot) sweptAfterRelaunch := by
  decide +kernel

/-- A sweep that stops the session it has listed, before the next one is published. -/
theorem kills_aimed_swept :
    Keeps (step cents) Reaper.Aimed (opened runningSlot)
      [.sessions (.publish true toRunning onTime), .lists, .verdict 0 (.hard "stuck" "silent"),
        .removes 0, .sessions (.publish true toRunning onTime), .lists,
        .verdict 1 (.soft "stuck" "silent")] :=
  kills_aimed cents runningSlot _ (by decide +kernel)

end RatKingdom.Supervisor
