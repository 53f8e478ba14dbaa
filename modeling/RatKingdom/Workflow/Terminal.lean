/-
A terminal status, once persisted, and what still runs.

Both writers of a terminal status are guarded, so a status that is on disk is never
overwritten by the other.  What the guards do not see is the task: the stale-instance
sweep marks the record and leaves the task running, and an archive pass copies a
failure that is in memory only.  `terminal_stays` holds in the runs in which the sweep
finds no task behind the instance it fails and no archive pass stops between its two
files over such a failure; `sweep_leaves_task` is a run in which a step starts after
the verdict.
-/
import RatKingdom.Workflow.Moves

namespace RatKingdom.Workflow

open Option Run

/-- The first terminal status written, and whether a step was started after it. -/
structure Ending where
  settled : Option InstanceStatus
  late : Bool

def Ending.empty : Ending where
  settled := none
  late := false

def Run.ended (d : Run) : Option InstanceStatus :=
  ((d.diskLive.toList ++ d.diskArchived.toList).map Instance.status).find? InstanceStatus.isTerminal

def Label.begins : Label → Bool
  | .exec .begin _ => true
  | _ => false

def mark (_ : Run) (l : Label) (d' : Run) (b : Ending) : Ending where
  settled := b.settled.or d'.ended
  late := b.late || (b.settled.isSome && l.begins)

def Run.Copy (d : Run) (i : Instance) : Prop :=
  d.live = some i ∨ d.archived = some i ∨ d.diskLive = some i ∨ d.diskArchived = some i

structure Final (s : Run × Ending) : Prop where
  same : ∀ st, s.2.settled = some st → ∀ i, s.1.Copy i → i.status = st
  quiet : s.2.late = false

/-- The condition on a sweep: no task executes the running instance or is due to; and
on an archive pass that stops after its copies: the live file is terminal too. -/
def EndsOnce (s : Run × Ending) : Label → Prop
  | .sweep _ => ∀ i ∈ s.1.live, i.status = .running →
      s.1.task.isNone = true ∧ s.1.pending.isNone = true
  | .archive .copied => ∀ i ∈ s.1.diskLive, i.status.isTerminal = true
  | _ => True

instance (s : Run × Ending) (l : Label) : Decidable (EndsOnce s l) := by
  unfold EndsOnce; split <;> infer_instance

/-- Before a terminal status is written the live file is running and nothing is
archived; afterwards nothing runs and every copy agrees. -/
structure Ended (s : Run × Ending) : Prop where
  before : s.2.settled = none →
    (∀ i, s.1.diskLive = some i → i.status = .running) ∧ s.1.diskArchived = none ∧
      s.1.archived = none
  after : ∀ st, s.2.settled = some st →
    st.isTerminal = true ∧ (∀ i, s.1.Copy i → i.status = st) ∧ s.1.task = none ∧ s.1.pending = none
  runs : s.1.task ≠ none ∨ s.1.pending ≠ none → ∃ i, s.1.live = some i ∧ i.status = .running
  alone : s.1.pending ≠ none → s.1.task = none
  begun : s.1.task ≠ none → s.1.begun = true
  quiet : s.2.late = false

theorem ended_fresh : Ended (fresh, .empty) where
  before := fun _ => ⟨(by intro i hi; cases hi), rfl, rfl⟩
  after := by intro st h; cases h
  runs := by rintro (h | h) <;> exact absurd rfl h
  alone := fun _ => rfl
  begun := fun h => absurd rfl h
  quiet := rfl

theorem Ended.final {s : Run × Ending} (h : Ended s) : Final s where
  same := fun st hst => (h.after st hst).2.1
  quiet := h.quiet

theorem ended_eq_none {d : Run} : d.ended = none ↔
    (∀ i, d.diskLive = some i → i.status = .running) ∧
      ∀ i, d.diskArchived = some i → i.status = .running := by
  have hrun : ∀ st : InstanceStatus, st.isTerminal = false ↔ st = .running := by
    intro st; cases st <;> simp [InstanceStatus.isTerminal]
  unfold ended
  cases d.diskLive <;> cases d.diskArchived <;> simp [hrun]

theorem ended_status {d : Run} {st : InstanceStatus} (h : d.ended = some st) :
    st.isTerminal = true ∧
      ∃ i, (d.diskLive = some i ∨ d.diskArchived = some i) ∧ i.status = st := by
  refine ⟨List.find?_some h, ?_⟩
  obtain ⟨i, hi, rfl⟩ := List.mem_map.mp (List.mem_of_find?_eq_some h)
  obtain hi | hi := List.mem_append.mp hi
  · exact ⟨i, .inl (mem_toList.mp hi), rfl⟩
  · exact ⟨i, .inr (mem_toList.mp hi), rfl⟩

section
variable {s : Run × Ending} {d : Run} {l : Label}

theorem Ended.open (h : Ended s) {i : Instance} (hl : s.1.live = some i)
    (hr : i.status = .running) : s.2.settled = none := by
  cases hs : s.2.settled with
  | none => rfl
  | some st =>
    obtain ⟨ht, hc, -⟩ := h.after st hs
    have hi := hc i (.inl hl)
    rw [← hi, hr] at ht
    cases ht

theorem Ended.idle_of_terminal (h : Ended s) {i : Instance} (hl : s.1.live = some i)
    (hr : i.status.isTerminal = true) : s.1.task = none ∧ s.1.pending = none := by
  have hn : ¬ (s.1.task ≠ none ∨ s.1.pending ≠ none) := by
    intro hx
    obtain ⟨j, hj, hjr⟩ := h.runs hx
    rw [hl] at hj
    cases hj
    rw [hjr] at hr
    cases hr
  rw [not_or, not_not, not_not] at hn
  exact hn

theorem Ended.stays_open (h : Ended s) (hs : s.2.settled = none)
    (hdisk : ∀ i, d.diskLive = some i → i.status = .running) (hda : d.diskArchived = none)
    (ha : d.archived = none)
    (hruns : d.task ≠ none ∨ d.pending ≠ none → ∃ i, d.live = some i ∧ i.status = .running)
    (halone : d.pending ≠ none → d.task = none) (hbegun : d.task ≠ none → d.begun = true) :
    Ended (d, mark s.1 l d s.2) := by
  have he : d.ended = none := by
    rw [ended_eq_none]
    refine ⟨hdisk, ?_⟩
    rw [hda]
    intro i hi
    cases hi
  have hset : (mark s.1 l d s.2).settled = none := by simp [mark, hs, he]
  exact
    { before := fun _ => ⟨hdisk, hda, ha⟩
      after := by intro st hst; rw [hset] at hst; cases hst
      runs := hruns
      alone := halone
      begun := hbegun
      quiet := by simp [mark, hs, h.quiet] }

/-- A step that leaves all copies with one terminal status and nothing running. -/
theorem Ended.closes (h : Ended s) {st : InstanceStatus} (hst : st.isTerminal = true)
    (hs : s.2.settled = none ∨ s.2.settled = some st) (hcopy : ∀ i, d.Copy i → i.status = st)
    (hsome : s.2.settled = none → ∃ i, d.diskLive = some i ∨ d.diskArchived = some i)
    (htask : d.task = none) (hpend : d.pending = none) (hl : l.begins = false) :
    Ended (d, mark s.1 l d s.2) := by
  have hset : (mark s.1 l d s.2).settled = some st := by
    obtain hs | hs := hs
    · cases he : d.ended with
      | none =>
        -- a file holds a copy, and it is terminal
        obtain ⟨i, hi⟩ := hsome hs
        have hrun : i.status = .running := by
          obtain hi | hi := hi
          · exact (ended_eq_none.mp he).1 i hi
          · exact (ended_eq_none.mp he).2 i hi
        have hi' : i.status = st := hcopy i (by
          obtain hi | hi := hi
          · exact .inr (.inr (.inl hi))
          · exact .inr (.inr (.inr hi)))
        rw [← hi', hrun] at hst
        cases hst
      | some st' =>
        obtain ⟨-, i, hi, rfl⟩ := ended_status he
        have hi' : i.status = st := hcopy i (by
          obtain hi | hi := hi
          · exact .inr (.inr (.inl hi))
          · exact .inr (.inr (.inr hi)))
        simp [mark, hs, he, hi']
    · simp [mark, hs]
  exact
    { before := by intro hn; rw [hset] at hn; cases hn
      after := by
        intro st' hst'
        rw [hset] at hst'
        cases hst'
        exact ⟨hst, hcopy, htask, hpend⟩
      runs := by
        rintro (hx | hx)
        · exact absurd htask hx
        · exact absurd hpend hx
      alone := fun hx => absurd hpend hx
      begun := fun hx => absurd htask hx
      quiet := by simp [mark, hl, h.quiet] }

theorem Ended.same (h : Ended s) (hlive : d.live = s.1.live) (hdisk : d.diskLive = s.1.diskLive)
    (ha : d.archived = s.1.archived) (hda : d.diskArchived = s.1.diskArchived)
    (htask : d.task = s.1.task ∨ d.task = none) (hpend : d.pending = s.1.pending ∨ d.pending = none)
    (hb : d.begun = s.1.begun) (hl : l.begins = false) : Ended (d, mark s.1 l d s.2) := by
  have hcopy : ∀ i, d.Copy i ↔ s.1.Copy i := by
    intro i
    unfold Run.Copy
    rw [hlive, hdisk, ha, hda]
  have htask' : d.task ≠ none → d.task = s.1.task := htask.resolve_right
  have hpend' : d.pending ≠ none → d.pending = s.1.pending := hpend.resolve_right
  cases hs : s.2.settled with
  | none =>
    obtain ⟨h1, h2, h3⟩ := h.before hs
    apply h.stays_open hs (hdisk ▸ h1) (hda.trans h2) (ha.trans h3)
    · intro hx
      rw [hlive]
      apply h.runs
      obtain hx | hx := hx
      · exact .inl (htask' hx ▸ hx)
      · exact .inr (hpend' hx ▸ hx)
    · intro hx
      have ht := h.alone (hpend' hx ▸ hx)
      obtain hy | hy := htask
      · exact hy.trans ht
      · exact hy
    · intro hx
      rw [hb]
      exact h.begun (htask' hx ▸ hx)
  | some st =>
    obtain ⟨hst, hc, ht, hp⟩ := h.after st hs
    apply h.closes hst (.inr hs) (fun i hi => hc i ((hcopy i).mp hi))
    · intro hn; rw [hn] at hs; cases hs
    · obtain hx | hx := htask
      · exact hx.trans ht
      · exact hx
    · obtain hx | hx := hpend
      · exact hx.trans hp
      · exact hx
    · exact hl

end

theorem tryUpdate_two (f : Instance → Instance) (ok : Bool) (d : Run) :
    (d.tryUpdate f ok).2 = d ∨ ∃ i r, d.live = some i ∧ (d.tryUpdate f ok).2 = { d with
          live := some { f i with revision := r }, diskLive := some { f i with revision := r } } := by
  by_cases hp : (d.tryUpdate f ok).1 = .persisted
  · obtain ⟨i, r, hl, -, he⟩ := tryUpdate_persisted f ok d hp
    exact .inr ⟨i, r, hl, he⟩
  · exact .inl (tryUpdate_lost f ok d hp)

theorem tryUpdate_changed {f : Instance → Instance} {d : Run} {i : Instance}
    (hl : d.live = some i) (hf : f i ≠ i) (ok : Bool) :
    ∃ r, d.tryUpdate f ok = if ok then
        (.persisted, { d with
            live := some { f i with revision := r }, diskLive := some { f i with revision := r } })
      else (.failed, d) := by
  refine ⟨min (i.revision + 1) (2 ^ 64 - 1), ?_⟩
  unfold tryUpdate
  rw [hl]
  simp only [hf, if_false]

/-- A guarded terminal write leaves a record that is not running alone, settles a
running one, or fails it in memory only. -/
theorem terminate_cases (status : InstanceStatus) (error : Option String) (ok : Bool) (d : Run)
    (hst : status.isTerminal = true) :
    d.terminate status error ok = d ∨ ∃ i, d.live = some i ∧ i.status = .running ∧
      ((∃ j : Instance, j.status = status ∧
          d.terminate status error ok = { d with live := some j, diskLive := some j }) ∨
        ∃ j : Instance, d.terminate status error ok = { d with live := some j }) := by
  cases hl : d.live with
  | none => exact .inl (by simp [terminate, hl])
  | some i =>
    cases hi : i.status with
    | completed | failed => exact .inl (by simp [terminate, hl, hi, InstanceStatus.isTerminal])
    | running =>
      refine .inr ⟨i, rfl, hi, ?_⟩
      have hf : ({ i with status := status, error := error } : Instance) ≠ i := by
        intro he
        have hs : status = i.status := congrArg Instance.status he
        rw [hs, hi] at hst
        cases hst
      obtain ⟨r, hu⟩ :=
        @tryUpdate_changed (fun i => { i with status := status, error := error }) d i hl hf ok
      simp only [terminate, hl, hi, InstanceStatus.isTerminal, Bool.false_eq_true, if_false]
      rw [hu]
      cases ok with
      | true => exact .inl ⟨{ i with status := status, error := error, revision := r }, rfl, rfl⟩
      | false =>
        right
        simp only [Bool.false_eq_true, if_false, failRecoveryInMemory, hl, map_some]
        exact ⟨_, rfl⟩

section
variable {w : Setup} {s : Run × Ending} {d : Run}

/-- A guarded terminal write where no task is left. -/
theorem Ended.terminate (h : Ended s) {l : Label} {status : InstanceStatus}
    (error : Option String) (ok : Bool) (hst : status.isTerminal = true) {d : Run}
    (hd : d = s.1 ∨ d = { s.1 with task := none })
    (hidle : ∀ i, d.live = some i → i.status = .running → d.task = none ∧ d.pending = none)
    (hl : l.begins = false) :
    Ended (d.terminate status error ok, mark s.1 l (d.terminate status error ok) s.2) := by
  have hlive : d.live = s.1.live := by obtain rfl | rfl := hd <;> rfl
  have hdisk : d.diskLive = s.1.diskLive := by obtain rfl | rfl := hd <;> rfl
  have ha : d.archived = s.1.archived := by obtain rfl | rfl := hd <;> rfl
  have hda : d.diskArchived = s.1.diskArchived := by obtain rfl | rfl := hd <;> rfl
  have hpend : d.pending = s.1.pending := by obtain rfl | rfl := hd <;> rfl
  have hbegun : d.begun = s.1.begun := by obtain rfl | rfl := hd <;> rfl
  have htask : d.task = s.1.task ∨ d.task = none := by
    obtain rfl | rfl := hd
    · exact .inl rfl
    · exact .inr rfl
  obtain he | ⟨i, hi, hr, hcase⟩ := terminate_cases status error ok d hst
  · rw [he]
    exact h.same hlive hdisk ha hda htask (.inl hpend) hbegun hl
  · have hopen : s.2.settled = none := h.open (hlive ▸ hi) hr
    obtain ⟨h1, h2, h3⟩ := h.before hopen
    obtain ⟨ht, hp⟩ := hidle i hi hr
    obtain ⟨j, hj, he⟩ | ⟨j, he⟩ := hcase
    · rw [he]
      apply h.closes hst (.inl hopen)
      · rintro x (hx | hx | hx | hx)
        · cases hx; exact hj
        · rw [show d.archived = none from ha.trans h3] at hx; cases hx
        · cases hx; exact hj
        · rw [show d.diskArchived = none from hda.trans h2] at hx; cases hx
      · exact fun _ => ⟨j, .inl rfl⟩
      · exact ht
      · exact hp
      · exact hl
    · rw [he]
      apply h.stays_open hopen
      · exact fun x hx => h1 x (hdisk ▸ hx)
      · exact hda.trans h2
      · exact ha.trans h3
      · rintro (hx | hx)
        · exact absurd ht hx
        · exact absurd hp hx
      · exact fun hx => absurd hp hx
      · exact fun hx => absurd ht hx

variable {ok : Bool}

theorem Ended.exec (h : Ended s) {e : Exec} (hs : w.step s.1 (.exec e ok) = some d) :
    Ended (d, mark s.1 (.exec e ok) d s.2) := by
  obtain ⟨t, m, ht, hm, rfl⟩ := Setup.exec_cases hs
  have htask : s.1.task ≠ none := by rw [ht]; simp
  obtain ⟨i, hi, hr⟩ := h.runs (.inl htask)
  have hopen := h.open hi hr
  obtain ⟨h1, h2, h3⟩ := h.before hopen
  have hpend : s.1.pending = none := by
    cases hp : s.1.pending with
    | none => rfl
    | some p => exact absurd (h.alone (by rw [hp]; simp)) htask
  -- the update keeps the status
  have hw : (s.1.write m.change ok).2 = s.1 ∨ ∃ j : Instance, j.status = .running ∧
      (s.1.write m.change ok).2 = { s.1 with live := some j, diskLive := some j } := by
    cases hc : m.change with
    | none => exact .inl rfl
    | some c =>
      obtain he | ⟨i', r, hi', he⟩ := tryUpdate_two c.apply ok s.1
      · exact .inl he
      · rw [hi] at hi'
        cases hi'
        exact .inr ⟨{ c.apply i with revision := r }, hr, he⟩
  have hl : ∃ j, (s.1.apply e m ok).live = some j ∧ j.status = .running := by
    rw [apply_live]
    obtain he | ⟨j, hj, he⟩ := hw
    · exact ⟨i, by rw [he]; exact hi, hr⟩
    · exact ⟨j, by rw [he], hj⟩
  apply h.stays_open hopen
  · intro x hx
    rw [apply_diskLive] at hx
    obtain he | ⟨j, hj, he⟩ := hw
    · rw [he] at hx
      exact h1 x hx
    · rw [he] at hx
      cases hx
      exact hj
  · rw [apply_diskArchived]; exact h2
  · rw [apply_archived]; exact h3
  · exact fun _ => hl
  · rw [apply_pending]
    exact fun hx => absurd hpend hx
  · rw [apply_begun]
    exact fun _ => h.begun htask

theorem Ended.archive (h : Ended s) {o : Shelving} (hs : w.step s.1 (.archive o) = some d)
    (hg : EndsOnce s (.archive o)) : Ended (d, mark s.1 (.archive o) d s.2) := by
  simp only [Setup.step, Run.archive] at hs
  split at hs
  · rename_i i hi
    obtain ⟨hterm, hs⟩ := ite_none_right_eq_some.mp hs
    obtain ⟨ht, hp⟩ := h.idle_of_terminal hi hterm
    have hset : s.2.settled = none ∨ s.2.settled = some i.status := by
      cases hx : s.2.settled with
      | none => exact .inl rfl
      | some st => exact .inr (by rw [(h.after st hx).2.1 i (.inl hi)])
    -- the copies that were there before have the status already
    have hold : ∀ x, s.1.archived = some x ∨ s.1.diskArchived = some x → x.status = i.status := by
      intro x hx
      cases hy : s.2.settled with
      | none =>
        obtain ⟨-, h2, h3⟩ := h.before hy
        obtain hx | hx := hx
        · rw [h3] at hx; cases hx
        · rw [h2] at hx; cases hx
      | some st =>
        obtain ⟨-, hc, -⟩ := h.after st hy
        rw [hc i (.inl hi)]
        obtain hx | hx := hx
        · exact hc x (.inr (.inl hx))
        · exact hc x (.inr (.inr (.inr hx)))
    have hfile : (o = .copied → ∀ x, s.1.diskLive = some x → x.status = i.status) := by
      rintro rfl x hx
      cases hy : s.2.settled with
      | none =>
        have hterm' := hg x hx
        rw [(h.before hy).1 x hx] at hterm'
        cases hterm'
      | some st =>
        obtain ⟨-, hc, -⟩ := h.after st hy
        rw [hc i (.inl hi)]
        exact hc x (.inr (.inr (.inl hx)))
    have hcopies : (∀ x, d.Copy x → x.status = i.status) ∧
        (∃ x, d.diskLive = some x ∨ d.diskArchived = some x) ∧ d.task = s.1.task ∧
        d.pending = s.1.pending := by
      cases o with
      | copied =>
        cases hs
        refine ⟨?_, ⟨i, .inr rfl⟩, rfl, rfl⟩
        rintro x (hx | hx | hx | hx)
        · rw [hi] at hx; cases hx; rfl
        · exact hold x (.inl hx)
        · exact hfile rfl x hx
        · cases hx; rfl
      | restored =>
        cases hs
        refine ⟨?_, ⟨i, .inr rfl⟩, rfl, rfl⟩
        rintro x (hx | hx | hx | hx)
        · rw [hi] at hx; cases hx; rfl
        · exact hold x (.inl hx)
        · cases hx; rfl
        · cases hx; rfl
      | stranded =>
        cases hs
        refine ⟨?_, ⟨i, .inr rfl⟩, rfl, rfl⟩
        rintro x (hx | hx | hx | hx)
        · rw [hi] at hx; cases hx; rfl
        · exact hold x (.inl hx)
        · cases hx
        · cases hx; rfl
      | moved =>
        cases hs
        refine ⟨?_, ⟨i, .inr rfl⟩, rfl, rfl⟩
        rintro x (hx | hx | hx | hx)
        · cases hx
        · cases hx; rfl
        · cases hx
        · cases hx; rfl
    obtain ⟨hc, hsome, ht', hp'⟩ := hcopies
    exact h.closes hterm hset hc (fun _ => hsome) (ht'.trans ht) (hp'.trans hp) rfl
  · cases hs

theorem Ended.unarchive (h : Ended s) {o : Unshelving} (hs : w.step s.1 (.unarchive o) = some d) :
    Ended (d, mark s.1 (.unarchive o) d s.2) := by
  simp only [Setup.step, Run.unarchive] at hs
  split at hs
  · rename_i i hl hi
    have hset : ∃ st, s.2.settled = some st := by
      cases hx : s.2.settled with
      | none =>
        rw [(h.before hx).2.2] at hi
        cases hi
      | some st => exact ⟨st, rfl⟩
    obtain ⟨st, hst⟩ := hset
    obtain ⟨hterm, hc, ht, hp⟩ := h.after st hst
    have hi' : i.status = st := hc i (.inr (.inl hi))
    have hopen : s.2.settled = none → ∃ x, d.diskLive = some x ∨ d.diskArchived = some x := by
      intro hn; rw [hn] at hst; cases hst
    cases o with
    | both =>
      cases hs
      refine h.closes hterm (.inr hst) ?_ hopen ht hp rfl
      rintro x (hx | hx | hx | hx)
      · exact hc x (.inl hx)
      · exact hc x (.inr (.inl hx))
      · cases hx; exact hi'
      · exact hc x (.inr (.inr (.inr hx)))
    | retained =>
      cases hs
      refine h.closes hterm (.inr hst) ?_ hopen ht hp rfl
      rintro x (hx | hx | hx | hx)
      · exact hc x (.inl hx)
      · exact hc x (.inr (.inl hx))
      · cases hx; exact hi'
      · cases hx
    | moved =>
      cases hs
      refine h.closes hterm (.inr hst) ?_ hopen ht hp rfl
      rintro x (hx | hx | hx | hx)
      · cases hx; exact hi'
      · cases hx
      · cases hx; exact hi'
      · cases hx
  · cases hs

theorem Ended.launch (h : Ended s) {depth : Nat} (hthere : s.2.settled ≠ none → s.1.held ≠ none)
    (hs : w.step s.1 (.launch depth ok) = some d) :
    Ended (d, mark s.1 (.launch depth ok) d s.2) := by
  simp only [Setup.step, Run.launch] at hs
  obtain ⟨hn, hs⟩ := ite_none_left_eq_some.mp hs
  split at hs
  · cases hs
    have hl : s.1.live = none := by
      cases hx : s.1.live with
      | none => rfl
      | some i => rw [hx] at hn; exact absurd rfl hn
    have ha : s.1.archived = none := by
      cases hx : s.1.archived with
      | none => rfl
      | some i => rw [hl, hx] at hn; exact absurd rfl hn
    have hnone : s.1.task = none ∧ s.1.pending = none := by
      have hx : ¬ (s.1.task ≠ none ∨ s.1.pending ≠ none) := by
        intro hx
        obtain ⟨i, hi, -⟩ := h.runs hx
        rw [hl] at hi
        cases hi
      rw [not_or, not_not, not_not] at hx
      exact hx
    cases hset : s.2.settled with
    | none =>
      apply h.stays_open hset
      · intro i hi; cases hi; rfl
      · exact (h.before hset).2.1
      · exact ha
      · exact fun _ => ⟨newInstance depth, rfl, rfl⟩
      · exact fun _ => hnone.1
      · exact fun hx => absurd hnone.1 hx
    | some st =>
      have hheld := hthere (by rw [hset]; simp)
      exact absurd (held_eq_none.mpr ⟨hl, ha⟩) hheld
  · cases hs
    exact h.same rfl rfl rfl rfl (.inl rfl) (.inl rfl) rfl rfl

theorem Ended.unattended (h : Ended s) (hb : s.1.begun = false) : s.1.task = none := by
  cases ht : s.1.task with
  | none => rfl
  | some t =>
    have := h.begun (by rw [ht]; simp)
    rw [hb] at this
    cases this

theorem Ended.enter (h : Ended s) (hs : w.step s.1 .enter = some d) :
    Ended (d, mark s.1 .enter d s.2) := by
  simp only [Setup.step, Run.enter] at hs
  split at hs
  · rename_i i hi
    obtain ⟨hc, hs⟩ := ite_none_right_eq_some.mp hs
    obtain ⟨hr, -, hb, -⟩ := hc
    cases hs
    have hopen := h.open hi hr
    obtain ⟨h1, h2, h3⟩ := h.before hopen
    have ht := h.unattended hb
    refine h.stays_open hopen h1 h2 h3 ?_ ?_ ?_
    · exact fun _ => ⟨i, hi, hr⟩
    · exact fun _ => ht
    · exact fun hx => absurd ht hx
  · cases hs

theorem Ended.disown (h : Ended s) (hs : w.step s.1 (.disown ok) = some d) :
    Ended (d, mark s.1 (.disown ok) d s.2) := by
  simp only [Setup.step, Run.disown] at hs
  split at hs
  · split at hs
    · rename_i hc
      obtain ⟨-, -, hb, hp⟩ := hc
      cases hs
      exact h.terminate _ ok rfl (.inl rfl) (fun _ _ _ => ⟨h.unattended hb, hp⟩) rfl
    · cases hs
  · cases hs

theorem Ended.resume (h : Ended s) {loads ok : Bool} (hs : w.step s.1 (.resume loads ok) = some d) :
    Ended (d, mark s.1 (.resume loads ok) d s.2) := by
  simp only [Setup.step, Run.resume] at hs
  split at hs
  · rename_i hp
    have hp' : s.1.pending ≠ none := by rw [hp]; simp
    obtain ⟨i, hi, hr⟩ := h.runs (.inr hp')
    have ht := h.alone hp'
    have hopen := h.open hi hr
    obtain ⟨h1, h2, h3⟩ := h.before hopen
    split at hs
    · cases hs
      obtain he | ⟨i', r, hi', he⟩ := tryUpdate_two (Change.awaiting none).apply ok s.1
      · rw [he]
        refine h.stays_open hopen h1 h2 h3 ?_ ?_ ?_
        · exact fun _ => ⟨i, hi, hr⟩
        · exact fun _ => ht
        · exact fun hx => absurd ht hx
      · rw [hi] at hi'
        cases hi'
        rw [he]
        apply h.stays_open hopen
        · intro x hx; cases hx; exact hr
        · exact h2
        · exact h3
        · exact fun _ => ⟨_, rfl, hr⟩
        · exact fun _ => ht
        · exact fun hx => absurd ht hx
    · cases hs
      obtain he | ⟨i', r, -, he⟩ := tryUpdate_two (fun i =>
        { i with
          status := .failed
          error := some "resume failed: could not reload definition"
          awaiting := none }) ok s.1
      · rw [he]
        refine h.stays_open hopen h1 h2 h3 ?_ ?_ ?_
        · rintro (hx | hx)
          · exact absurd ht hx
          · exact absurd rfl hx
        · exact fun hx => absurd rfl hx
        · exact fun hx => absurd ht hx
      · rw [he]
        refine @Ended.closes s _ _ h .failed rfl (.inl hopen) ?_ (fun _ => ⟨_, .inl rfl⟩) ht rfl rfl
        rintro x (hx | hx | hx | hx)
        · cases hx; rfl
        · rw [show s.1.archived = none from h3] at hx; cases hx
        · cases hx; rfl
        · rw [show s.1.diskArchived = none from h2] at hx; cases hx
  · cases hs

theorem Ended.start (h : Ended s) (hs : w.step s.1 .start = some d) :
    Ended (d, mark s.1 .start d s.2) := by
  simp only [Setup.step, Run.start] at hs
  split at hs
  · rename_i hp
    obtain ⟨i, hi, hr⟩ := h.runs (.inr (by rw [hp]; simp))
    have hopen := h.open hi hr
    obtain ⟨h1, h2, h3⟩ := h.before hopen
    cases hs
    refine h.stays_open hopen h1 h2 h3 ?_ ?_ ?_
    · exact fun _ => ⟨i, hi, hr⟩
    · exact fun hx => absurd rfl hx
    · exact fun _ => rfl
  · cases hs

theorem Ended.finish (h : Ended s) (hs : w.step s.1 (.finish ok) = some d) :
    Ended (d, mark s.1 (.finish ok) d s.2) := by
  simp only [Setup.step, Run.finish] at hs
  split at hs
  · rename_i ht
    have hpend : s.1.pending = none := by
      cases hp : s.1.pending with
      | none => rfl
      | some p =>
        have := h.alone (by rw [hp]; simp)
        rw [ht] at this
        cases this
    split at hs
    · cases hs
      exact h.terminate none ok rfl (.inr rfl) (fun _ _ _ => ⟨rfl, hpend⟩) rfl
    · cases hs
      exact h.terminate _ ok rfl (.inr rfl) (fun _ _ _ => ⟨rfl, hpend⟩) rfl
  · cases hs

theorem Ended.panic (h : Ended s) (hs : w.step s.1 .panic = some d) :
    Ended (d, mark s.1 .panic d s.2) := by
  simp only [Setup.step, Run.panic] at hs
  split at hs
  · cases hs
    exact h.same rfl rfl rfl rfl (.inr rfl) (.inl rfl) rfl rfl
  · cases hs

theorem Ended.sweep (h : Ended s) (hs : w.step s.1 (.sweep ok) = some d)
    (hg : EndsOnce s (.sweep ok)) : Ended (d, mark s.1 (.sweep ok) d s.2) := by
  cases hs
  refine h.terminate _ ok rfl (.inl rfl) ?_ rfl
  intro i hi hr
  obtain ⟨ht, hp⟩ := hg i hi hr
  exact ⟨isNone_iff_eq_none.mp ht, isNone_iff_eq_none.mp hp⟩

theorem Ended.approve (h : Ended s) {approved : Bool} {text : String}
    (hs : w.step s.1 (.approve approved text) = some d) :
    Ended (d, mark s.1 (.approve approved text) d s.2) := by
  simp only [Setup.step, Run.approve] at hs
  split at hs
  · cases hs
    exact h.same rfl rfl rfl rfl (.inl rfl) (.inl rfl) rfl rfl
  · cases hs

theorem Ended.restart (h : Ended s) (hs : w.step s.1 .restart = some d) :
    Ended (d, mark s.1 .restart d s.2) := by
  cases hs
  have hlive : s.1.restart.live = s.1.diskLive := rfl
  cases hset : s.2.settled with
  | none =>
    obtain ⟨h1, h2, h3⟩ := h.before hset
    refine h.stays_open hset h1 h2 ?_ ?_ ?_ ?_
    · show (if s.1.diskLive.isSome then none else s.1.diskArchived) = none
      rw [h2]
      exact ite_self none
    · rintro (hx | hx)
      · exact absurd rfl hx
      · cases hl : s.1.diskLive with
        | none =>
          simp [restart, hl] at hx
        | some i => exact ⟨i, hlive.trans hl, h1 i hl⟩
    · exact fun _ => rfl
    · exact fun hx => absurd rfl hx
  | some st =>
    obtain ⟨hst, hc, ht, hp⟩ := h.after st hset
    have hpend : s.1.restart.pending = none := by
      cases hl : s.1.diskLive with
      | none => simp [restart, hl]
      | some i =>
        have hi : i.status = st := hc i (.inr (.inr (.inl hl)))
        have hn : i.status ≠ .running := by
          intro hr
          rw [← hi, hr] at hst
          cases hst
        simp [restart, hl, hn]
    refine h.closes hst (.inr hset) ?_ ?_ rfl hpend rfl
    · rintro i (hi | hi | hi | hi)
      · exact hc i (.inr (.inr (.inl hi)))
      · have hi' : (if s.1.diskLive.isSome then none else s.1.diskArchived) = some i := hi
        split at hi'
        · cases hi'
        · exact hc i (.inr (.inr (.inr hi')))
      · exact hc i (.inr (.inr (.inl hi)))
      · exact hc i (.inr (.inr (.inr hi)))
    · intro hn
      rw [hn] at hset
      cases hset

end

/-- The invariant, with a record that is there once its end is settled. -/
structure Closed (s : Run × Ending) : Prop where
  ended : Ended s
  mirror : Mirror s.1
  there : s.2.settled ≠ none → s.1.held ≠ none

theorem closed_fresh : Closed (fresh, .empty) where
  ended := ended_fresh
  mirror := mirror_fresh
  there := fun h => absurd rfl h

theorem held_of_ended {d : Run} (hm : Mirror d) (he : d.ended ≠ none) : d.held ≠ none := by
  obtain ⟨st, hst⟩ := ne_none_iff_exists'.mp he
  obtain ⟨-, i, hi, -⟩ := ended_status hst
  rw [hm]
  unfold kept
  cases hl : d.diskLive with
  | some j => simp
  | none =>
    obtain hi | hi := hi
    · rw [hl] at hi; cases hi
    · simp [hi]

theorem step_there {w : Setup} {d d' : Run} {l : Label} (h : w.step d l = some d')
    (hm : Mirror d) : Mirror d' ∧ (d.held ≠ none → d'.held ≠ none) := by
  by_cases hl : ∃ e ok, l = .exec e ok
  · obtain ⟨e, ok, rfl⟩ := hl
    obtain ⟨t, m, -, -, rfl⟩ := Setup.exec_cases h
    obtain ⟨hm', ⟨-, c, i, -, -, hh, -⟩ | ⟨-, hh, -⟩⟩ := @exec_held e m ok d hm
    · exact ⟨hm', fun _ => by rw [hh]; simp⟩
    · exact ⟨hm', fun hx => by rw [hh]; exact hx⟩
  · obtain ⟨hm', hh | ⟨hn, -, -⟩⟩ := step_held h (fun e ok he => hl ⟨e, ok, he⟩) hm
    · exact ⟨hm', fun hx => by rw [hh]; exact hx⟩
    · exact ⟨hm', fun hx => absurd hn hx⟩

theorem closed_step (w : Setup) (s : Run × Ending) (l : Label) (s' : Run × Ending)
    (h : Closed s) (hs : Lib.watched w.step mark s l = some s') (hg : EndsOnce s l) :
    Closed s' := by
  obtain ⟨d, b⟩ := s'
  obtain ⟨hd, rfl⟩ := Lib.watched_eq_some hs
  obtain ⟨hm, hh⟩ := step_there hd h.mirror
  refine { ended := ?_, mirror := hm, there := ?_ }
  · cases l with
    | launch depth ok => exact h.ended.launch h.there hd
    | enter => exact h.ended.enter hd
    | disown ok => exact h.ended.disown hd
    | resume loads ok => exact h.ended.resume hd
    | start => exact h.ended.start hd
    | exec e ok => exact h.ended.exec hd
    | finish ok => exact h.ended.finish hd
    | panic => exact h.ended.panic hd
    | sweep ok => exact h.ended.sweep hd hg
    | archive o => exact h.ended.archive hd hg
    | unarchive o => exact h.ended.unarchive hd
    | approve approved text => exact h.ended.approve hd
    | restart => exact h.ended.restart hd
  · intro hset
    cases hx : s.2.settled with
    | some st => exact hh (h.there (by rw [hx]; simp))
    | none =>
      apply held_of_ended hm
      simpa [mark, hx] using hset

/-- In every run whose sweeps find no task behind the instance they fail, and whose
archive passes do not stop between the files of an instance that failed in memory
only, a persisted terminal status is the status of every copy from then on, and no
step is started after it. -/
theorem terminal_stays (w : Setup) (ls : List Label)
    (hg : Lib.Meets (Lib.watched w.step mark) EndsOnce (fresh, .empty) ls) :
    Lib.Keeps (Lib.watched w.step mark) Final (fresh, .empty) ls :=
  (Lib.keeps_of_meets (closed_step w) closed_fresh hg).mono fun _ h => h.ended.final

def timed : Setup where
  steps := [.timer, .timer]
  requireApprovalForLanding := false

def takesUp : List Label := [.exec .pick true, .exec .begin true]

/-- A run to its end, a sweep after it, the archive, a restart and the way back. -/
theorem terminal_stays_archived :
    Lib.Keeps (Lib.watched timed.step mark) Final (fresh, .empty)
      ([.launch 0 true, .start] ++ takesUp ++ [.exec (.answer .passed) true, .exec .go true] ++
        takesUp ++ [.exec (.answer .passed) true, .exec .go true, .exec .pick true, .finish true,
          .sweep true, .archive .moved, .restart, .unarchive .moved]) :=
  terminal_stays timed _ (by decide +kernel)

def sweptRun : List Label :=
  [.launch 0 true, .start] ++ takesUp ++
    [.sweep true, .exec (.answer .passed) true, .exec .go true] ++ takesUp

theorem sweep_leaves_task :
    ¬ Lib.Keeps (Lib.watched timed.step mark) Final (fresh, .empty) sweptRun := by
  intro hk
  have hrun : ((Lib.run (Lib.watched timed.step mark) (.fresh, .empty) sweptRun).any
      fun s => s.2.late) = true := by decide +kernel
  obtain ⟨s, hs, hl⟩ := Lib.run_of_any hrun
  rw [(hk.last hs).quiet] at hl
  cases hl

end RatKingdom.Workflow
