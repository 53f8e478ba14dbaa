/-
Which `task_done` completes a launch.

A launch in a pane has no events: a watcher waits for the first `task_done` of the spawn, of
whatever attempt, and completes the record with it.  The handler of a turn result and the
reconcile pass ask about the attempt that was current when they looked.
-/
import RatKingdom.Supervisor.Completion

namespace RatKingdom.Supervisor

open Core Lib Agents Agents.Registry List

/-- `watch_attached_completion`, between its awaits. -/
inductive Watcher where
  | waiting
  | read (tuple : TaskDone)
  | settled (record : AgentRecord)
  | ended

structure Attended where
  shift : Shift
  watchers : List Watcher := []
  previous : Option SpawnId := none
  /-- The respawn that publishes is one into a pane. -/
  attaching : Bool := false

open Attended

inductive AttendedOp where
  | shift (op : ShiftOp)
  /-- A respawn into a pane, which may have survived. -/
  | publishAttached (created : Bool)
  | publishedAttached
  | watch (watcher : Nat)
  | timesOut (watcher : Nat)

def watchedRecord (tuple : TaskDone) (record : AgentRecord) : AgentRecord :=
  { record with state := .completed, result := tuple.summary.or (some "done") }

def attachedRecord (created : Bool) (previous : Option SpawnId) (record : AgentRecord) :
    AgentRecord :=
  { record with
    state := .running, pid := none, result := none, crashed := false
    currentAttempt := if created then record.currentAttempt else previous }

namespace Attended

def watch (s : Attended) (i : Nat) : Option Attended :=
  match s.watchers[i]? with
  | some .waiting =>
    (s.shift.done.find? fun t => t.spawn = s.shift.record.spawn).map fun tuple =>
      { s with watchers := s.watchers.set i (.read tuple) }
  | some (.read tuple) =>
    let record := watchedRecord tuple s.shift.record
    some { s with
      shift := { s.shift with record, moved := s.shift.note (some tuple) true }
      watchers := s.watchers.set i (.settled record) }
  | some (.settled record) =>
    some { s with
      shift := { s.shift with results := s.shift.results ++ [resultOf record false true] }
      watchers := s.watchers.set i .ended }
  | some .ended => none
  | none => none

def step (s : Attended) : AttendedOp → Option Attended
  | .shift .restart =>
    (s.shift.step .restart).map fun shift => { shift }
  | .shift .begin =>
    (s.shift.step .begin).map fun shift =>
      { s with shift, previous := s.shift.record.currentAttempt }
  | .shift .published =>
    if s.attaching then none else (s.shift.step .published).map fun shift => { s with shift }
  | .shift op => (s.shift.step op).map fun shift => { s with shift }
  | .publishAttached created =>
    match s.shift.handler with
    | .idle =>
      if s.shift.respawn = .begun then
        some { s with
          attaching := true
          shift := { s.shift with
            respawn := .publishing
            record := attachedRecord created s.previous s.shift.record } }
      else none
    | _ => none
  | .publishedAttached =>
    if s.attaching then
      some { s with
        attaching := false
        watchers := s.watchers ++ [.waiting]
        shift := { s.shift with
          respawn := .idle
          completion := none
          -- A token of no session.
          token := some s.shift.nextId
          nextId := s.shift.nextId + 1 } }
    else none
  | .watch i => s.watch i
  | .timesOut i =>
    match s.watchers[i]? with
    | some .waiting => some { s with watchers := s.watchers.set i .ended }
    | _ => none

end Attended

def Attended.launched (record : AgentRecord) (harnessTerminal inPane : Bool) : Attended :=
  if inPane then
    { shift :=
        { record := { record with state := .running, currentAttempt := some 0 }
          harnessTerminal, nextId := 2 }
      watchers := [.waiting] }
  else { shift := Shift.launched record harnessTerminal }

/-- A tuple that moved the record from a live state to completed is of its spawn and of the
attempt that was current then. -/
def OwnTuple (s : Attended) : Prop :=
  ∀ e ∈ s.shift.moved, e.1.spawn = s.shift.record.spawn ∧ e.1.attempt = e.2

def Watcher.isOpen : Watcher → Bool
  | .waiting => true
  | .read _ => true
  | .settled _ => false
  | .ended => false

namespace Attended

def watching (s : Attended) : Bool := s.watchers.any Watcher.isOpen

def Only (s : Attended) (attempt : Option SpawnId) : Prop :=
  ∀ t ∈ s.shift.done, t.spawn = s.shift.record.spawn → t.attempt = attempt
deriving Decidable

end Attended

/-- No attempt begins, and no pane is taken up again, while a handler or a pass is under way that
may have looked for a `task_done`; and no `task_done` of the spawn is there, while a watcher
looks for one, but of the attempt that is current. -/
def heeded (s : Attended) : AttendedOp → Prop
  | .shift .begin => calmBegin s.shift .begin ∧
      (s.watching = true → ∀ t ∈ s.shift.done, t.spawn ≠ s.shift.record.spawn)
  | .shift (.taskDone tuple) => s.watching = true →
      tuple.spawn = s.shift.record.spawn → tuple.attempt = s.shift.record.currentAttempt
  | .publishAttached false => s.shift.pass.isIdle = true ∧ (s.watching = true → s.Only s.previous)
  | .publishedAttached => s.Only s.shift.record.currentAttempt
  | _ => True

section
variable {s s' : Shift}

/-- The log of completions grows by a tuple of the current launch at most. -/
def Shift.Logs (s : Shift) (moved : List (TaskDone × Option SpawnId)) : Prop :=
  moved = s.moved ∨ ∃ t, s.Answers t ∧ moved = s.moved ++ [(t, s.record.currentAttempt)]

theorem note_logs {found : Option TaskDone} (hfound : ∀ t, found = some t → s.Answers t)
    (completed : Bool) : s.Logs (s.note found completed) := by
  cases found with
  | none => exact .inl rfl
  | some t =>
    unfold Shift.note
    dsimp only
    split
    · exact .inr ⟨t, hfound t rfl, rfl⟩
    · exact .inl rfl

theorem answers_some {tuple : TaskDone} (h : s.Answers tuple) :
    ∀ t, some tuple = some t → s.Answers t := by
  intro t ht
  cases ht
  exact h

variable {op : ShiftOp}

theorem Move.logs (h : Fitted s) (hm : Move s op s') : s.Logs s'.moved := by
  have hh := h.handler
  have hp := h.pass
  cases hm with
  | settles hturn =>
    rw [hturn] at hh
    exact note_logs hh.1 _
  | reconciles hfound =>
    rw [hfound] at hp
    exact note_logs (answers_some hp.2) true
  | _ => exact .inl rfl

theorem Move.open (h : s'.respawn.isOpen = true) (hop : op ≠ .begin) (hm : Move s op s') :
    s.respawn.isOpen = true := by
  cases hm with
  | begins => exact absurd rfl hop
  | publishes hidle hrespawn =>
    rw [hrespawn]
    rfl
  | respawns | published | launchFails | restarts => cases h
  | _ => exact h

end

section
variable {s : Attended}

structure Kept (s : Attended) : Prop where
  fitted : Fitted s.shift
  own : OwnTuple s
  only : s.watching = true → s.Only s.shift.record.currentAttempt
  read : ∀ t, Watcher.read t ∈ s.watchers → t ∈ s.shift.done ∧ t.spawn = s.shift.record.spawn
  previous : s.shift.respawn.isOpen = true → ∃ a, s.previous = some a ∧ a < s.shift.nextId

theorem Kept.continues (h : Kept s) {shift : Shift} (hc : Continues s.shift shift)
    (hfitted : Fitted shift)
    (hmoved : s.shift.Logs shift.moved)
    (hopen : shift.respawn.isOpen = true → s.shift.respawn.isOpen = true)
    (hdone : s.watching = true → ∀ t ∈ shift.done, t ∉ s.shift.done →
      t.spawn = s.shift.record.spawn → t.attempt = s.shift.record.currentAttempt) :
    Kept { s with shift } := by
  refine ⟨hfitted, ?_, ?_, ?_, ?_⟩
  · intro e he
    rw [show ({ s with shift } : Attended).shift.moved = shift.moved from rfl] at he
    rw [show ({ s with shift } : Attended).shift.record.spawn = s.shift.record.spawn from
      hc.same.spawn]
    cases hmoved with
    | inl hsame =>
      rw [hsame] at he
      exact h.own e he
    | inr hnew =>
      obtain ⟨t, ht, hlog⟩ := hnew
      rw [hlog] at he
      cases mem_append.mp he with
      | inl hold => exact h.own e hold
      | inr hl =>
        rw [mem_singleton.mp hl]
        exact ⟨ht.spawn, ht.attempt⟩
  · intro hwatching t ht hspawn
    have hspawn : t.spawn = s.shift.record.spawn := hspawn.trans hc.same.spawn
    apply Eq.trans _ hc.same.attempt.symm
    by_cases hold : t ∈ s.shift.done
    · exact h.only hwatching t hold hspawn
    · exact hdone hwatching t ht hold hspawn
  · intro t ht
    obtain ⟨hin, hspawn⟩ := h.read t ht
    exact ⟨hc.done t hin, hspawn.trans hc.same.spawn.symm⟩
  · intro ho
    obtain ⟨a, ha, hlt⟩ := h.previous (hopen ho)
    exact ⟨a, ha, Nat.lt_of_lt_of_le hlt hc.nextId⟩

theorem Kept.move (h : Kept s) {shift : Shift} (hop : op ≠ .begin)
    (hg : heeded s (.shift op)) (hm : Move s.shift op shift) : Kept { s with shift } := by
  have hcalm : calmBegin s.shift op := by
    cases op with
    | begin => exact absurd rfl hop
    | _ => trivial
  apply h.continues (hm.continues hop) (h.fitted.move hcalm hm) (hm.logs h.fitted)
    (fun ho => hm.open ho hop)
  intro hwatching t ht hnew
  cases hm with
  | begins => exact absurd rfl hop
  | taskDone tuple =>
    cases mem_append.mp ht with
    | inl hold => exact absurd hold hnew
    | inr hl =>
      rw [mem_singleton.mp hl]
      exact hg hwatching
  | _ => exact absurd ht hnew

theorem Kept.begin (h : Kept s) {shift : Shift} (hg : heeded s (.shift .begin))
    (hm : Move s.shift .begin shift) :
    Kept { s with shift, previous := s.shift.record.currentAttempt } := by
  have hfitted := h.fitted.move hg.1 hm
  obtain ⟨a, ha, hlt⟩ := h.fitted.current
  cases hm with
  | superseded => exact ⟨hfitted, h.own, h.only, h.read, fun _ => ⟨a, ha, hlt⟩⟩
  | begins =>
    refine ⟨hfitted, h.own, ?_, h.read, fun _ => ⟨a, ha, Nat.lt_succ_of_lt hlt⟩⟩
    intro hwatching t ht hspawn
    exact absurd hspawn (hg.2 hwatching t ht)

theorem Kept.publishAttached (h : Kept s) {created : Bool} (hidle : s.shift.handler = .idle)
    (hbegun : s.shift.respawn = .begun) (hg : heeded s (.publishAttached created)) :
    Kept { s with
      attaching := true
      shift := { s.shift with
        respawn := .publishing
        record := attachedRecord created s.previous s.shift.record } } := by
  have hopen : s.shift.respawn.isOpen = true := by
    rw [hbegun]
    rfl
  obtain ⟨a, ha, hlt⟩ := h.previous hopen
  have hhandler : s.shift.handler.Fits { s.shift with
      respawn := .publishing, record := attachedRecord created s.previous s.shift.record } := by
    rw [hidle]
    trivial
  cases created with
  | true =>
    have hc : Continues s.shift { s.shift with
        respawn := .publishing, record := attachedRecord true s.previous s.shift.record } :=
      continues_of_record ⟨rfl, rfl, rfl⟩ rfl rfl rfl
    have hf := h.fitted.continues hc h.fitted.handler h.fitted.pass
    have hk := h.continues hc hf (.inl rfl) (fun _ => hopen) fun _ t ht hnew => absurd ht hnew
    exact ⟨hk.fitted, hk.own, hk.only, hk.read, hk.previous⟩
  | false =>
    obtain ⟨hpass, honly⟩ := hg
    refine ⟨⟨⟨a, ha, hlt⟩, hhandler, ?_⟩, h.own, honly, h.read, fun _ => ⟨a, ha, hlt⟩⟩
    show s.shift.pass.Fits _
    rw [Pass.eq_idle hpass]
    trivial

theorem Kept.publishedAttached (h : Kept s) (hg : heeded s .publishedAttached) :
    Kept { s with
      attaching := false
      watchers := s.watchers ++ [.waiting]
      shift := { s.shift with
        respawn := .idle
        completion := none
        token := some s.shift.nextId
        nextId := s.shift.nextId + 1 } } := by
  have hc : Continues s.shift { s.shift with
      respawn := .idle, completion := none, token := some s.shift.nextId
      nextId := s.shift.nextId + 1 } :=
    ⟨.refl s.shift.record, rfl, fun t ht => ht, Nat.le_succ _⟩
  have hf := h.fitted.continues hc h.fitted.handler h.fitted.pass
  refine ⟨hf, h.own, fun _ => hg, ?_, nofun⟩
  intro t ht
  apply h.read t
  simpa using ht

theorem mem_set_read {watchers : List Watcher} {i : Nat} {w : Watcher} {t : TaskDone}
    (h : Watcher.read t ∈ watchers.set i w) : Watcher.read t ∈ watchers ∨ w = .read t := by
  cases mem_or_eq_of_mem_set h with
  | inl hold => exact .inl hold
  | inr hnew => exact .inr hnew.symm

theorem watching_of_mem {w : Watcher} (hw : w ∈ s.watchers) (ho : w.isOpen = true) :
    s.watching = true := by
  unfold watching
  rw [any_eq_true]
  exact ⟨w, hw, ho⟩

theorem watching_of_set {i : Nat} {w : Watcher} {shift : Shift}
    (h : watching { s with shift, watchers := s.watchers.set i w } = true) :
    s.watching = true ∨ w.isOpen = true := by
  unfold watching at h
  rw [any_eq_true] at h
  obtain ⟨v, hv, ho⟩ := h
  cases mem_or_eq_of_mem_set hv with
  | inl hold => exact .inl (watching_of_mem hold ho)
  | inr hnew =>
    rw [hnew] at ho
    exact .inr ho

theorem Kept.advance {i : Nat} {w w' : Watcher} {shift : Shift} (hi : s.watchers[i]? = some w)
    (hk : Kept { s with shift }) (hopen : w'.isOpen = true → w.isOpen = true)
    (hread : ∀ t, w' = .read t → t ∈ shift.done ∧ t.spawn = shift.record.spawn) :
    Kept { s with shift, watchers := s.watchers.set i w' } := by
  refine ⟨hk.fitted, hk.own, ?_, ?_, hk.previous⟩
  · intro hwatching
    apply hk.only
    cases watching_of_set hwatching with
    | inl hwas => exact hwas
    | inr hnew => exact watching_of_mem (mem_of_getElem? hi) (hopen hnew)
  · intro t ht
    cases mem_set_read ht with
    | inl hold => exact hk.read t hold
    | inr hnew => exact hread t hnew

theorem Kept.watch (h : Kept s) {i : Nat} {s' : Attended} (hs : s.watch i = some s') :
    Kept s' := by
  unfold Attended.watch at hs
  cases hi : s.watchers[i]? with
  | none =>
    rw [hi] at hs
    cases hs
  | some w =>
    rw [hi] at hs
    cases w with
    | waiting =>
      obtain ⟨tuple, hfind, rfl⟩ := Option.map_eq_some_iff.mp hs
      refine .advance hi h (fun _ => rfl) ?_
      intro t ht
      cases ht
      exact ⟨mem_of_find?_eq_some hfind, by simpa using find?_some hfind⟩
    | read tuple =>
      cases hs
      have hm : .read tuple ∈ s.watchers := mem_of_getElem? hi
      obtain ⟨hin, hspawn⟩ := h.read tuple hm
      have hanswers : s.shift.Answers tuple :=
        ⟨hin, hspawn, h.only (watching_of_mem hm rfl) tuple hin hspawn⟩
      have hc : Continues s.shift { s.shift with
          record := watchedRecord tuple s.shift.record
          moved := s.shift.note (some tuple) true } :=
        continues_of_record ⟨rfl, rfl, rfl⟩ rfl rfl rfl
      have hf := h.fitted.continues hc h.fitted.handler h.fitted.pass
      have hk := h.continues hc hf (note_logs (answers_some hanswers) true) id
        fun _ t ht hnew => absurd ht hnew
      exact .advance hi hk (nofun) nofun
    | settled record =>
      cases hs
      have hc : Continues s.shift { s.shift with
          results := s.shift.results ++ [resultOf record false true] } :=
        continues_of_record (.refl s.shift.record) rfl rfl rfl
      have hf := h.fitted.continues hc h.fitted.handler h.fitted.pass
      have hk := h.continues hc hf (.inl rfl) id fun _ t ht hnew => absurd ht hnew
      exact .advance hi hk (nofun) nofun
    | ended => cases hs

theorem step_shift (hrestart : op ≠ .restart) (hbegin : op ≠ .begin)
    (hpublished : op ≠ .published) :
    s.step (.shift op) = (s.shift.step op).map fun shift => { s with shift } := by
  cases op with
  | restart => exact absurd rfl hrestart
  | begin => exact absurd rfl hbegin
  | published => exact absurd rfl hpublished
  | _ => rfl

theorem Kept.forget {shift : Shift} (h : Kept { s with shift })
    (hshut : shift.respawn.isOpen = false) : Kept { shift } := by
  refine ⟨h.fitted, h.own, fun hw => absurd hw Bool.false_ne_true, ?_, ?_⟩
  · nofun
  · intro ho
    rw [show ({ shift } : Attended).shift.respawn = shift.respawn from rfl, hshut] at ho
    cases ho

theorem Kept.shift (h : Kept s) {s' : Attended} (hg : heeded s (.shift op))
    (hstep : s.step (.shift op) = some s') : Kept s' := by
  by_cases hbegin : op = .begin
  · subst hbegin
    obtain ⟨shift, hs, rfl⟩ := Option.map_eq_some_iff.mp hstep
    exact h.begin hg (step_moves hs)
  · by_cases hrestart : op = .restart
    · subst hrestart
      change (s.shift.step .restart).map (fun shift => ({ shift } : Attended)) = some s' at hstep
      obtain ⟨shift, hs, rfl⟩ := Option.map_eq_some_iff.mp hstep
      apply (h.move hbegin hg (step_moves hs)).forget
      cases hs
      rfl
    · by_cases hpublished : op = .published
      · subst hpublished
        simp only [step] at hstep
        split at hstep
        · cases hstep
        · obtain ⟨shift, hs, rfl⟩ := Option.map_eq_some_iff.mp hstep
          exact h.move hbegin hg (step_moves hs)
      · rw [step_shift hrestart hbegin hpublished] at hstep
        obtain ⟨shift, hs, rfl⟩ := Option.map_eq_some_iff.mp hstep
        exact h.move hbegin hg (step_moves hs)

theorem Kept.step (h : Kept s) {op : AttendedOp} {s' : Attended} (hg : heeded s op)
    (hs : s.step op = some s') : Kept s' := by
  cases op with
  | shift op => exact h.shift hg hs
  | publishAttached created =>
    simp only [Attended.step] at hs
    split at hs
    · rename_i hidle
      split at hs
      · rename_i hbegun
        cases hs
        exact h.publishAttached hidle hbegun hg
      · cases hs
    · cases hs
  | publishedAttached =>
    simp only [Attended.step] at hs
    split at hs
    · cases hs
      exact h.publishedAttached hg
    · cases hs
  | watch i => exact h.watch hs
  | timesOut i =>
    simp only [Attended.step] at hs
    split at hs
    · rename_i hi
      cases hs
      exact .advance hi h (nofun) nofun
    · cases hs

end

theorem launched_kept (record : AgentRecord) (harnessTerminal inPane : Bool) :
    Kept (launched record harnessTerminal inPane) := by
  cases inPane with
  | true =>
    refine ⟨⟨⟨0, rfl, Nat.zero_lt_two⟩, trivial, trivial⟩, ?_, ?_, ?_,
      fun ho => absurd ho Bool.false_ne_true⟩
    · nofun
    · nofun
    · intro t ht
      cases mem_singleton.mp ht
  | false =>
    refine ⟨launched_fitted record harnessTerminal, ?_, fun hw => absurd hw Bool.false_ne_true, ?_,
      fun ho => absurd ho Bool.false_ne_true⟩
    · nofun
    · nofun

theorem completed_by_own_tuple (record : AgentRecord) (harnessTerminal inPane : Bool)
    (ops : List AttendedOp)
    (hg : Meets step heeded (launched record harnessTerminal inPane) ops) :
    Keeps step OwnTuple (launched record harnessTerminal inPane) ops := by
  have hkeeps : Keeps step Kept (.launched record harnessTerminal inPane) ops :=
    keeps_of_meets (fun s op s' h hs hg => h.step hg hs)
      (launched_kept record harnessTerminal inPane) hg
  exact hkeeps.mono fun s h => h.own

instance (s : Attended) : ∀ op, Decidable (heeded s op)
  | .shift .begin => inferInstanceAs (Decidable ((s.shift.handler.isIdle = true ∧
      s.shift.pass.isIdle = true) ∧
      (s.watching = true → ∀ t ∈ s.shift.done, t.spawn ≠ s.shift.record.spawn)))
  | .shift (.taskDone tuple) => inferInstanceAs (Decidable (_ = true → _))
  | .publishAttached false => inferInstanceAs (Decidable (_ ∧ _))
  | .publishAttached true => isTrue trivial
  | .publishedAttached => inferInstanceAs (Decidable (s.Only s.shift.record.currentAttempt))
  | .watch _ | .timesOut _ | .shift (.completed ..) | .shift (.exited ..) | .shift .handle
  | .shift .list | .shift (.reconcile _) | .shift .respawn | .shift .publish | .shift .published
  | .shift .launchFails | .shift (.stop _) | .shift .restart => isTrue trivial

/-- The record of an onboarder, the one role whose resume may be in a pane. -/
def onboarder : AgentRecord := { whisker with role := "onboarder" }

/-- The first launch declares its task done and ends its turn in an error; the second, in a
pane, is completed by the first one's tuple. -/
def doneByPredecessor : List AttendedOp :=
  [.shift (.taskDone (declared 0)), .shift (.completed 1 true "overloaded"), .shift .handle,
    .shift .handle, .shift .handle, .shift .handle, .shift .respawn, .shift .begin,
    .publishAttached true, .publishedAttached, .watch 0, .watch 0]

theorem predecessor_completes :
    ¬ Keeps step OwnTuple (launched onboarder false false) doneByPredecessor := by
  intro hk
  have hend : ((run step (.launched onboarder false false) doneByPredecessor).any
      fun s => decide ((declared 0, some 2) ∈ s.shift.moved)) = true := by
    decide +kernel
  obtain ⟨s, hrun, hmoved⟩ := run_of_any hend
  have hown := (hk.last hrun (declared 0, some 2) (of_decide_eq_true hmoved)).2
  exact absurd hown (by decide)

def doneInPane : List AttendedOp :=
  [.shift (.exited 1 "exit 1"), .shift .handle, .shift .list, .shift (.reconcile 0),
    .shift .respawn, .shift .begin, .publishAttached true, .publishedAttached,
    .shift (.taskDone (declared 2)), .watch 0, .watch 0, .watch 0]

theorem completed_by_own_tuple_in_pane :
    Keeps step OwnTuple (launched onboarder false false) doneInPane := by
  apply completed_by_own_tuple
  decide +kernel

end RatKingdom.Supervisor
