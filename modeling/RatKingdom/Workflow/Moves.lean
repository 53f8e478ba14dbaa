/-
What the steps of the engine do to an instance's run.

`step_idle` says it of the task, the decisions and the drawn child ids for every
step but the task's own; `Setup.exec_cases` opens a step of the task into its move.
`Mirror` is what every step keeps of the copies of the record: the one in memory
and the one a restart would read hold the same cursor and the same context.
-/
import RatKingdom.Workflow.Engine

namespace RatKingdom.Workflow

open Run Instance

section
variable (f : Instance → Instance) (ok : Bool) (d : Run)

theorem tryUpdate_shape : ∃ a b, (d.tryUpdate f ok).2 = { d with live := a, diskLive := b } := by
  unfold tryUpdate
  split
  · exact ⟨d.live, d.diskLive, rfl⟩
  · split
    · exact ⟨d.live, d.diskLive, rfl⟩
    · split
      · exact ⟨_, _, rfl⟩
      · exact ⟨d.live, d.diskLive, rfl⟩

theorem tryUpdate_persisted (h : (d.tryUpdate f ok).1 = .persisted) :
    ∃ i r, d.live = some i ∧ f i ≠ i ∧ (d.tryUpdate f ok).2 = { d with
          live := some { f i with revision := r }, diskLive := some { f i with revision := r } } := by
  unfold tryUpdate at h ⊢
  cases hl : d.live with
  | none => rw [hl] at h; cases h
  | some i =>
    rw [hl] at h
    by_cases hi : f i = i
    · simp only [hi, if_true] at h
      cases h
    · cases ok with
      | true => exact ⟨i, min (i.revision + 1) (2 ^ 64 - 1), rfl, hi, by simp [hi]⟩
      | false => simp [hi] at h

theorem tryUpdate_lost (h : (d.tryUpdate f ok).1 ≠ .persisted) : (d.tryUpdate f ok).2 = d := by
  unfold tryUpdate at h ⊢
  split
  · rfl
  · rename_i i hl
    by_cases hi : f i = i
    · simp [hi]
    · cases ok with
      | true => simp [hl, hi] at h
      | false => simp [hi]

theorem tryUpdate_unchanged (h : (d.tryUpdate f ok).1 = .unchanged) :
    ∃ i, d.live = some i ∧ f i = i := by
  unfold tryUpdate at h
  cases hl : d.live with
  | none => rw [hl] at h; cases h
  | some i =>
    rw [hl] at h
    by_cases hi : f i = i
    · exact ⟨i, rfl, hi⟩
    · cases ok <;> simp [hi] at h

end

theorem terminate_shape (status : InstanceStatus) (error : Option String) (ok : Bool) (d : Run) :
    ∃ a b, d.terminate status error ok = { d with live := a, diskLive := b } := by
  unfold terminate
  split
  · exact ⟨d.live, d.diskLive, rfl⟩
  · split
    · exact ⟨d.live, d.diskLive, rfl⟩
    · obtain ⟨a, b, h⟩ :=
        tryUpdate_shape (fun i => { i with status := status, error := error }) ok d
      split
      · rename_i d' he
        rw [he] at h
        rw [show d' = { d with live := a, diskLive := b } from h]
        exact ⟨_, b, rfl⟩
      · rename_i d' _ he
        rw [he] at h
        exact ⟨a, b, h⟩

theorem write_shape (c : Option Change) (ok : Bool) (d : Run) :
    ∃ a b, (d.write c ok).2 = { d with live := a, diskLive := b } := by
  cases c with
  | none => exact ⟨d.live, d.diskLive, rfl⟩
  | some c => exact tryUpdate_shape c.apply ok d

theorem Setup.exec_cases {w : Setup} {e : Exec} {ok : Bool} {d d' : Run}
    (h : w.step d (.exec e ok) = some d') :
    ∃ t m, d.task = some t ∧ w.move d t e = some m ∧ d' = d.apply e m ok := by
  simp only [Setup.step, Setup.exec] at h
  cases ht : d.task with
  | none => rw [ht] at h; cases h
  | some t =>
    rw [ht] at h
    obtain ⟨m, hm, rfl⟩ := Option.map_eq_some_iff.mp h
    exact ⟨t, m, rfl, hm, rfl⟩

section
variable (e : Exec) (m : Move) (ok : Bool) (d : Run)

@[simp] theorem apply_task : (d.apply e m ok).task = m.next (d.write m.change ok).1 := rfl

@[simp] theorem apply_decisions : (d.apply e m ok).decisions = d.decisions ++ m.out.toList := rfl

@[simp] theorem apply_minted : (d.apply e m ok).minted = d.minted ++ m.mint.toList := rfl

@[simp] theorem apply_live : (d.apply e m ok).live = (d.write m.change ok).2.live := rfl

@[simp] theorem apply_diskLive :
    (d.apply e m ok).diskLive = (d.write m.change ok).2.diskLive := rfl

@[simp] theorem apply_archived : (d.apply e m ok).archived = d.archived := by
  obtain ⟨a, b, h⟩ := write_shape m.change ok d
  show (d.write m.change ok).2.archived = _
  rw [h]

@[simp] theorem apply_diskArchived : (d.apply e m ok).diskArchived = d.diskArchived := by
  obtain ⟨a, b, h⟩ := write_shape m.change ok d
  show (d.write m.change ok).2.diskArchived = _
  rw [h]

@[simp] theorem apply_pending : (d.apply e m ok).pending = d.pending := by
  obtain ⟨a, b, h⟩ := write_shape m.change ok d
  show (d.write m.change ok).2.pending = _
  rw [h]

@[simp] theorem apply_begun : (d.apply e m ok).begun = d.begun := by
  obtain ⟨a, b, h⟩ := write_shape m.change ok d
  show (d.write m.change ok).2.begun = _
  rw [h]

end

/-- What a step of anything but the task does to the task, to what is due to start,
to the decisions and to the drawn ids. -/
structure Idle (l : Label) (d d' : Run) : Prop where
  task : d'.task = d.task ∨ d'.task = none ∨
    (l = .start ∧ d'.task = some { index := (d.live.map currentStep).getD 0,
                                   control := .top })
  begun : (l ≠ .start ∧ l ≠ .restart ∧ d'.begun = d.begun) ∨
    (l = .start ∧ d.pending = some .ready ∧ d'.begun = true ∧ d'.pending = none) ∨
    (l = .restart ∧ d'.begun = false ∧ d'.task = none)
  pending : d'.pending ≠ none → d.pending ≠ none ∨ d'.begun = false ∨
    (d.live = none ∧ d.archived = none)
  decisions : (d'.decisions = d.decisions ∧ d'.stamp = d.stamp) ∨
    ∃ approved text, l = .approve approved text ∧ d'.stamp = d.stamp + 1 ∧
      d'.decisions = d.decisions ++ [{ id := d.stamp, approved := approved, text := text }]
  minted : d'.minted = d.minted

theorem Idle.of_same {l : Label} {d d' : Run} (hl : l ≠ .start ∧ l ≠ .restart)
    (ht : d'.task = d.task ∨ d'.task = none) (hb : d'.begun = d.begun)
    (hp : d'.pending ≠ none → d.pending ≠ none ∨ d'.begun = false ∨
      (d.live = none ∧ d.archived = none))
    (hd : d'.decisions = d.decisions) (hs : d'.stamp = d.stamp) (hm : d'.minted = d.minted) :
    Idle l d d' where
  task := ht.elim .inl fun h => .inr (.inl h)
  begun := .inl ⟨hl.1, hl.2, hb⟩
  pending := hp
  decisions := .inl ⟨hd, hs⟩
  minted := hm

def Instance.core (i : Instance) : Nat × WorkflowContext := (i.currentStep, i.context)

def Run.held (d : Run) : Option (Nat × WorkflowContext) := (d.live.or d.archived).map core

def Run.kept (d : Run) : Option (Nat × WorkflowContext) := (d.diskLive.or d.diskArchived).map core

def Mirror (d : Run) : Prop := d.held = d.kept

theorem mirror_fresh : Mirror fresh := rfl

theorem held_of_core {d : Run} {x : Nat × WorkflowContext} (h : d.live.map core = some x) :
    d.held = some x := by
  obtain ⟨i, hi, rfl⟩ := Option.map_eq_some_iff.mp h
  simp [held, hi]

theorem kept_of_core {d : Run} {x : Nat × WorkflowContext} (h : d.diskLive.map core = some x) :
    d.kept = some x := by
  obtain ⟨i, hi, rfl⟩ := Option.map_eq_some_iff.mp h
  simp [kept, hi]

theorem held_of_live {d : Run} {i : Instance} (h : d.live = some i) : d.held = some i.core :=
  held_of_core (congrArg (Option.map core) h)

theorem kept_of_diskLive {d : Run} {i : Instance} (h : d.diskLive = some i) :
    d.kept = some i.core :=
  kept_of_core (congrArg (Option.map core) h)

theorem mirror_of_core {d : Run} {x : Nat × WorkflowContext}
    (h : d.live.map core = some x) (hk : d.diskLive.map core = some x) :
    Mirror d :=
  (held_of_core h).trans (kept_of_core hk).symm

theorem held_eq_none {d : Run} : d.held = none ↔ d.live = none ∧ d.archived = none := by
  unfold held
  cases d.live <;> cases d.archived <;> simp

section
variable {f : Instance → Instance} {d : Run}

theorem tryUpdate_mirror (ok : Bool) (h : Mirror d) : Mirror (d.tryUpdate f ok).2 := by
  by_cases hp : (d.tryUpdate f ok).1 = .persisted
  · obtain ⟨i, r, -, -, he⟩ := tryUpdate_persisted f ok d hp
    rw [he]
    exact mirror_of_core rfl rfl
  · rw [tryUpdate_lost f ok d hp]
    exact h

theorem tryUpdate_held (ok : Bool) (hf : ∀ i, (f i).core = i.core) :
    (d.tryUpdate f ok).2.held = d.held := by
  by_cases hp : (d.tryUpdate f ok).1 = .persisted
  · obtain ⟨i, r, hl, -, he⟩ := tryUpdate_persisted f ok d hp
    rw [he, held_of_live hl]
    exact held_of_core (congrArg some (hf i))
  · rw [tryUpdate_lost f ok d hp]

end

theorem failRecovery_held (detail : String) (d : Run) :
    (failRecoveryInMemory detail d).held = d.held := by
  cases hl : d.live with
  | none => simp [failRecoveryInMemory, held, hl]
  | some i =>
    rw [held_of_live hl]
    exact held_of_core (by simp only [failRecoveryInMemory, hl]; rfl)

theorem terminate_held (status : InstanceStatus) (error : Option String) (ok : Bool) (d : Run) :
    (d.terminate status error ok).held = d.held ∧
      (Mirror d → Mirror (d.terminate status error ok)) := by
  have hu : (d.tryUpdate (fun i => { i with status := status, error := error }) ok).2.held =
      d.held := tryUpdate_held ok fun _ => rfl
  unfold terminate
  split
  · exact ⟨rfl, id⟩
  · split
    · exact ⟨rfl, id⟩
    · split
      · rename_i d' he
        rw [he] at hu
        refine ⟨(failRecovery_held _ d').trans hu, fun h => ?_⟩
        have hm : Mirror d' := by
          have := @tryUpdate_mirror (fun i => { i with status := status, error := error }) d ok h
          rwa [he] at this
        exact (failRecovery_held _ d').trans hm
      · rename_i d' _ he
        rw [he] at hu
        refine ⟨hu, fun h => ?_⟩
        have := @tryUpdate_mirror (fun i => { i with status := status, error := error }) d ok h
        rwa [he] at this

/-- The record stays, or is the one of a launch. -/
def Rests (d d' : Run) : Prop :=
  Mirror d → Mirror d' ∧ (d'.held = d.held ∨
    (d.held = none ∧ d'.held = some (0, {}) ∧ d'.task = d.task))

theorem Rests.refl {d : Run} : Rests d d := fun hm => ⟨hm, .inl rfl⟩

theorem terminate_rests {l : Label} (hl : l ≠ .start ∧ l ≠ .restart) (status : InstanceStatus)
    (error : Option String) (ok : Bool) (d : Run) {task : Option Task}
    (ht : task = d.task ∨ task = none) :
    Idle l d ({ d with task }.terminate status error ok) ∧
      Rests d ({ d with task }.terminate status error ok) := by
  obtain ⟨hh, hk⟩ := terminate_held status error ok { d with task }
  refine ⟨?_, fun hm => ⟨hk hm, .inl hh⟩⟩
  obtain ⟨a, b, hs⟩ := terminate_shape status error ok { d with task }
  rw [hs]
  exact .of_same hl ht rfl .inl rfl rfl rfl

theorem tryUpdate_rests {l : Label} (hl : l ≠ .start ∧ l ≠ .restart) {f : Instance → Instance}
    (hf : ∀ i, (f i).core = i.core) (ok : Bool) {d : Run} (hp : d.pending ≠ none)
    (pending : Option Pending) :
    Idle l d { (d.tryUpdate f ok).2 with pending } ∧
      Rests d { (d.tryUpdate f ok).2 with pending } := by
  refine ⟨?_, fun hm => ⟨tryUpdate_mirror ok hm, .inl (tryUpdate_held ok hf)⟩⟩
  obtain ⟨a, b, hs⟩ := tryUpdate_shape f ok d
  rw [hs]
  exact .of_same hl (.inl rfl) rfl (fun _ => .inl hp) rfl rfl rfl

section
variable {d d' : Run} {ok : Bool}

theorem launch_rests {depth : Nat} (h : d.launch depth ok = some d') :
    Idle (.launch depth ok) d d' ∧ Rests d d' := by
  have hn : Label.launch depth ok ≠ .start ∧ Label.launch depth ok ≠ .restart := by simp
  unfold launch at h
  obtain ⟨ha, h⟩ := Option.ite_none_left_eq_some.mp h
  split at h
  · cases h
    refine ⟨.of_same hn (.inl rfl) rfl (fun _ => .inr (.inr (by simpa using ha))) rfl rfl rfl,
      fun _ => ⟨mirror_of_core rfl rfl, .inr ⟨?_, held_of_core rfl, rfl⟩⟩⟩
    rw [held_eq_none]
    simpa using ha
  · cases h
    exact ⟨.of_same hn (.inl rfl) rfl .inl rfl rfl rfl, .refl⟩

theorem enter_rests (h : d.enter = some d') : Idle .enter d d' ∧ Rests d d' := by
  unfold enter at h
  split at h
  · split at h
    · rename_i hb
      cases h
      exact ⟨.of_same (by simp) (.inl rfl) rfl (fun _ => .inr (.inl hb.2.2.1)) rfl rfl rfl, .refl⟩
    · cases h
  · cases h

theorem disown_rests (h : d.disown ok = some d') : Idle (.disown ok) d d' ∧ Rests d d' := by
  unfold disown at h
  split at h
  · split at h
    · cases h
      exact terminate_rests (by simp) _ _ ok d (.inl rfl)
    · cases h
  · cases h

theorem resume_rests {loads : Bool} (h : d.resume loads ok = some d') :
    Idle (.resume loads ok) d d' ∧ Rests d d' := by
  have hn : Label.resume loads ok ≠ .start ∧ Label.resume loads ok ≠ .restart := by simp
  unfold resume at h
  split at h
  · rename_i hp
    have hp' : d.pending ≠ none := by rw [hp]; simp
    split at h
    all_goals
      cases h
      refine tryUpdate_rests hn ?_ ok hp' _
      exact fun _ => rfl
  · cases h

theorem start_rests (h : d.start = some d') : Idle .start d d' ∧ Rests d d' := by
  unfold start at h
  split at h
  · rename_i hp
    cases h
    exact
      ⟨{ task := .inr (.inr ⟨rfl, rfl⟩)
         begun := .inr (.inl ⟨rfl, hp, rfl, rfl⟩)
         pending := by intro h; exact absurd rfl h
         decisions := .inl ⟨rfl, rfl⟩
         minted := rfl }, fun hm => ⟨hm, .inl rfl⟩⟩
  · cases h

theorem finish_rests (h : d.finish ok = some d') : Idle (.finish ok) d d' ∧ Rests d d' := by
  unfold finish at h
  split at h
  · split at h
    all_goals
      cases h
      exact terminate_rests (by simp) _ _ ok d (.inr rfl)
  · cases h

theorem panic_rests (h : d.panic = some d') : Idle .panic d d' ∧ Rests d d' := by
  unfold Run.panic at h
  split at h
  · cases h
    exact ⟨.of_same (by simp) (.inr rfl) rfl .inl rfl rfl rfl, fun hm => ⟨hm, .inl rfl⟩⟩
  · cases h

theorem archive_rests {o : Shelving} (h : d.archive o = some d') :
    Idle (.archive o) d d' ∧ Rests d d' := by
  have hn : Label.archive o ≠ .start ∧ Label.archive o ≠ .restart := by simp
  unfold archive at h
  split at h
  · rename_i i hi
    have hheld : d.held = some i.core := held_of_live hi
    obtain ⟨-, h⟩ := Option.ite_none_right_eq_some.mp h
    refine ⟨by cases o <;> cases h <;> exact .of_same hn (.inl rfl) rfl .inl rfl rfl rfl,
      fun hm => ?_⟩
    cases o with
    | copied =>
      cases h
      refine ⟨?_, .inl rfl⟩
      -- the live file still wins, or there was none and the copy is the record
      cases hk : d.diskLive with
      | none =>
        show d.held = _
        rw [hheld]
        simp [kept]
      | some j =>
        show d.held = _
        have hj : d.kept = some j.core := kept_of_diskLive hk
        rw [hm, hj]
        simp [kept]
    | restored => cases h; exact ⟨hheld.trans (kept_of_core rfl).symm, .inl rfl⟩
    | stranded => cases h; exact ⟨hheld, .inl rfl⟩
    | moved => cases h; exact ⟨rfl, .inl hheld.symm⟩
  · cases h

theorem unarchive_rests {o : Unshelving} (h : d.unarchive o = some d') :
    Idle (.unarchive o) d d' ∧ Rests d d' := by
  have hn : Label.unarchive o ≠ .start ∧ Label.unarchive o ≠ .restart := by simp
  unfold unarchive at h
  split at h
  · rename_i i hl' ha
    have hheld : d.held = some i.core := by simp [held, hl', ha]
    refine ⟨by cases o <;> cases h <;> exact .of_same hn (.inl rfl) rfl .inl rfl rfl rfl,
      fun _ => ?_⟩
    cases o with
    | both | retained => cases h; exact ⟨hheld.trans (kept_of_core rfl).symm, .inl rfl⟩
    | moved =>
      cases h
      exact ⟨mirror_of_core rfl rfl, .inl ((held_of_core rfl).trans hheld.symm)⟩
  · cases h

theorem approve_rests {approved : Bool} {text : String} (h : d.approve approved text = some d') :
    Idle (.approve approved text) d d' ∧ Rests d d' := by
  unfold approve at h
  split at h
  · cases h
    exact
      ⟨{ task := .inl rfl
         begun := .inl ⟨by simp, by simp, rfl⟩
         pending := .inl
         decisions := .inr ⟨approved, text, rfl, rfl, rfl⟩
         minted := rfl }, .refl⟩
  · cases h

theorem restart_rests : Idle .restart d d.restart ∧ Rests d d.restart := by
  have hk : d.restart.held = d.kept := by
    unfold restart held kept
    cases d.diskLive <;> rfl
  exact
    ⟨{ task := .inr (.inl rfl)
       begun := .inr (.inr ⟨rfl, rfl, rfl⟩)
       pending := fun _ => .inr (.inl rfl)
       decisions := .inl ⟨rfl, rfl⟩
       minted := rfl }, fun hm => ⟨hk, .inl (hk.trans hm.symm)⟩⟩

end

section
variable {w : Setup} {d d' : Run} {l : Label} (h : w.step d l = some d')
  (hl : ∀ e ok, l ≠ .exec e ok)
include h hl

/-- What a step of anything but the task does.  Only the launch changes the record. -/
theorem step_spec : Idle l d d' ∧ Rests d d' := by
  cases l with
  | exec e ok => exact absurd rfl (hl e ok)
  | launch depth ok => exact launch_rests h
  | enter => exact enter_rests h
  | disown ok => exact disown_rests h
  | resume loads ok => exact resume_rests h
  | start => exact start_rests h
  | finish ok => exact finish_rests h
  | panic => exact panic_rests h
  | sweep ok =>
    cases h
    exact terminate_rests (by simp) _ _ ok d (.inl rfl)
  | archive o => exact archive_rests h
  | unarchive o => exact unarchive_rests h
  | approve approved text => exact approve_rests h
  | restart =>
    cases h
    exact restart_rests

theorem step_idle : Idle l d d' := (step_spec h hl).1

theorem step_held : Rests d d' := (step_spec h hl).2

end

/-- A step of the task changes the record by the update of its move, when that is
persisted. -/
theorem exec_held {e : Exec} {m : Move} {ok : Bool} {d : Run} (hm : Mirror d) :
    Mirror (d.apply e m ok) ∧
      (((d.write m.change ok).1 = .persisted ∧ ∃ c i, m.change = some c ∧ d.live = some i ∧
          (d.apply e m ok).held = some (c.apply i).core ∧
          (d.apply e m ok).live.map Instance.context = some (c.onContext i.context)) ∨
        ((d.write m.change ok).1 ≠ .persisted ∧ (d.apply e m ok).held = d.held ∧
          (d.apply e m ok).live = d.live)) := by
  have hh : (d.apply e m ok).held = (d.write m.change ok).2.held := by
    obtain ⟨a, b, hs⟩ := write_shape m.change ok d
    simp [held, hs]
  have hk : (d.apply e m ok).kept = (d.write m.change ok).2.kept := by
    obtain ⟨a, b, hs⟩ := write_shape m.change ok d
    simp [kept, hs]
  unfold Mirror
  rw [hh, hk, apply_live]
  cases hc : m.change with
  | none => exact ⟨hm, .inr ⟨nofun, rfl, rfl⟩⟩
  | some c =>
    refine ⟨tryUpdate_mirror ok hm, ?_⟩
    by_cases hp : (d.write (some c) ok).1 = .persisted
    · obtain ⟨i, r, hl, -, he⟩ := tryUpdate_persisted c.apply ok d hp
      refine .inl ⟨hp, c, i, rfl, hl, ?_, ?_⟩
      · show (d.tryUpdate c.apply ok).2.held = _
        rw [he]
        exact held_of_core rfl
      · show (d.tryUpdate c.apply ok).2.live.map Instance.context = _
        rw [he]
        rfl
    · have he : (d.write (some c) ok).2 = d := tryUpdate_lost c.apply ok d hp
      exact .inr ⟨hp, by rw [he], by rw [he]⟩

end RatKingdom.Workflow
