/-
The order in which the fires of a trigger run.

The queue is drained by the number a row was queued under, and the numbers of a trigger's
waiting rows grow with their positions as long as the counter never falls back below one
of them.  A tuple is queued only while its trigger is at the cap, though.  A slot that
frees between two drains goes to the next tuple that matches, and the rows that waited for
it are overtaken.
-/
import RatKingdom.Reactor.Handled

namespace RatKingdom.Reactor

open Core Lib List

def Fire.overtakes (f : Fire) : Bool :=
  f.waiting.any fun row => row.trigger = f.trigger && row.key ≠ f.key &&
    !f.waiting.any fun own => own.key = f.key && own.id < row.id

def Admission.orderly (a : Admission) : Bool :=
  if a.full then a.waiting.all fun row => row.trigger ≠ a.trigger || row.seq ≤ a.counter
  else !a.overtakes

namespace Host

/-- Every admission check so far met its condition. -/
def HeldBack (h : Host) : Prop := ∀ a ∈ h.admissions, a.orderly = true
deriving Decidable

/-- No instance was created ahead of a fire that had waited longer. -/
def InOrder (h : Host) : Prop := ∀ f ∈ h.dispatches, f.overtakes = false
deriving Decidable

def fire (h : Host) (key : Key) (trigger : Trigger) : Fire :=
  { key, trigger := trigger.name, waiting := h.queue }

structure Lined (h : Host) : Prop where
  ids : ∀ row ∈ h.queue, row.id < h.journal.length
  order : h.queue.Pairwise fun a b => a.id < b.id ∧ (a.trigger = b.trigger → a.seq < b.seq)

/-- What a run keeps. -/
def Ranked (h : Host) : Prop := h.HeldBack → h.Lined ∧ h.InOrder

/-- A further row of `trigger` under `n` would be the last of the trigger. -/
def Above (h : Host) (trigger : String) (n : Nat) : Prop :=
  ∀ row ∈ h.queue, row.trigger = trigger → row.seq < n

end Host

structure Aside (h h' : Host) : Prop where
  queue : h'.queue = h.queue
  journal : h.journal.length ≤ h'.journal.length
  admissions : h'.admissions = h.admissions
  dispatches : h'.dispatches = h.dispatches

/-- A fact about the queue and what is noted. -/
def Firm (S : Host → Prop) : Prop := ∀ h h', Aside h h' → S h → S h'

section
variable {c : Castle} {S T : Host → Prop} {α β : Type}

theorem Aside.refl (h : Host) : Aside h h := ⟨rfl, Nat.le_refl _, rfl, rfl⟩

theorem Aside.trans (a b d : Host) (hab : Aside a b) (hbd : Aside b d) : Aside a d where
  queue := hbd.queue.trans hab.queue
  journal := Nat.le_trans hab.journal hbd.journal
  admissions := hbd.admissions.trans hab.admissions
  dispatches := hbd.dispatches.trans hab.dispatches

theorem nextTurn_aside : Moves Aside nextTurn := by
  intro h
  unfold nextTurn
  cases h.turns with
  | nil => exact .refl h
  | cons turn rest =>
    have ha := arrivals_arrive turn.arrivals h
    obtain ⟨journal, rows, he⟩ := ha.rest
    obtain ⟨more, hmore, -⟩ := ha.journal
    have hpass : h.pass turn = Host.settle { h with journal, rows } turn := by rw [Host.pass, he]
    have hlen : h.journal.length ≤ journal.length := by
      have hj : journal = h.journal ++ more := by rw [← hmore, he]
      rw [hj, length_append]
      omega
    show Aside h { h.pass turn with turns := rest }
    rw [hpass]
    exact ⟨rfl, hlen, rfl, rfl⟩

theorem aside_loose : Loose (fun _ => True) Aside where
  refl := .refl
  trans := .trans
  turn := nextTurn_aside
  append := by
    intro h r _ _
    refine ⟨rfl, ?_, rfl, rfl⟩
    show h.journal.length ≤ (h.journal ++ [r]).length
    rw [length_append]
    omega
  fires := fun _ _ => ⟨rfl, Nat.le_refl _, rfl, rfl⟩

theorem Firm.and (hS : Firm S) (hT : Firm T) : Firm fun h => S h ∧ T h :=
  fun h h' g hh => ⟨hS h h' g hh.1, hT h h' g hh.2⟩

theorem spec_aside {m : Op α} (hS : Firm S) (hm : Moves Aside m) :
    Spec S m (fun _ => S) fun _ => S := Spec.of_final fun h hs => hS h _ (hm h) hs

theorem Host.HeldBack.aside {h h' : Host} (g : Aside h h') (hb : h'.HeldBack) : h.HeldBack := by
  unfold Host.HeldBack at hb ⊢
  rw [← g.admissions]
  exact hb

theorem firm_ranked : Firm Host.Ranked := by
  intro h h' g hr hb
  have hkept := hr (hb.aside g)
  refine ⟨⟨?_, ?_⟩, ?_⟩
  · intro row hrow
    rw [g.queue] at hrow
    exact Nat.lt_of_lt_of_le (hkept.1.ids row hrow) g.journal
  · rw [g.queue]
    exact hkept.1.order
  · unfold Host.InOrder
    rw [g.dispatches]
    exact hkept.2

theorem firm_queue {Q : List QueuedFire → Prop} : Firm fun h => h.HeldBack → Q h.queue := by
  intro h h' g hq hb
  rw [g.queue]
  exact hq (hb.aside g)

theorem foldl_stays {α β : Type} {f : β → α → β} {b : β} {l : List α} (h : ∀ a ∈ l, f b a = b) :
    l.foldl f b = b := by
  induction l with
  | nil => rfl
  | cons a l ih =>
    rw [foldl_cons, h a mem_cons_self]
    exact ih fun a ha => h a (mem_cons_of_mem _ ha)

theorem first_of_ordered {rows : List QueuedFire} (h : rows.Pairwise fun a b => a.before b = true) :
    QueuedFire.first rows = rows.head? := by
  cases rows with
  | nil => rfl
  | cons row rest =>
    unfold QueuedFire.first
    exact foldl_stays fun b hb => if_pos ((pairwise_cons.mp h).1 b hb)

theorem nextQueued_first {h : Host} (hl : h.Lined) {trigger : Trigger} {row : QueuedFire}
    (hn : h.nextQueued trigger.name = some row) :
    (h.fire row.key trigger).overtakes = false := by
  have hsub := hl.order.sublist
    (filter_sublist (p := fun row => decide (row.trigger = trigger.name)))
  have htrig : ∀ a ∈ h.queue.filter fun row => decide (row.trigger = trigger.name),
      a.trigger = trigger.name := by
    intro a ha
    simpa using (mem_filter.mp ha).2
  unfold Host.nextQueued at hn
  rw [first_of_ordered] at hn
  · cases hf : h.queue.filter fun row => decide (row.trigger = trigger.name) with
    | nil =>
      rw [hf] at hn
      cases hn
    | cons first rest =>
      rw [hf] at hn hsub
      cases hn
      have hm : row ∈ h.queue := by
        apply (mem_filter.mp (_ : row ∈ h.queue.filter _)).1
        · exact fun row => decide (row.trigger = trigger.name)
        · rw [hf]
          exact mem_cons_self
      unfold Fire.overtakes Host.fire
      rw [any_eq_false]
      intro other hother hover
      simp only [Bool.and_eq_true, decide_eq_true_eq, Bool.not_eq_true', any_eq_false] at hover
      have hin : other ∈ row :: rest := by
        rw [← hf]
        exact mem_filter.mpr ⟨hother, by simpa using hover.1.1⟩
      rcases mem_cons.mp hin with he | hin
      · exact hover.1.2 (by rw [he])
      · have hlt := ((pairwise_cons.mp hsub).1 other hin).1
        exact hover.2 row hm ⟨rfl, hlt⟩
  · apply hsub.imp_of_mem
    intro a b ha hb hab
    have hseq := hab.2 ((htrig a ha).trans (htrig b hb).symm)
    simp [QueuedFire.before, hseq]

theorem deleteQueued_ranked (site : Site) (id : RecordId) :
    Spec Host.Ranked (deleteQueued site id) (fun _ => Host.Ranked) fun _ => Host.Ranked := by
  apply Spec.bind (spec_aside firm_ranked (aside_loose.proceed site))
  intro _
  apply Spec.modify
  intro h hr hb
  have hkept := hr hb
  have hsub : (h.queue.filter fun row => decide (row.id ≠ id)).Sublist h.queue :=
    filter_sublist
  exact ⟨⟨fun row hrow => hkept.1.ids row (hsub.subset hrow), hkept.1.order.sublist hsub⟩, hkept.2⟩

theorem runOwnedWithIdFromTrigger_ranked (id : String) (key : Key) (trigger : Trigger)
    (workflow repo : String) (params : List (String × Value)) :
    Spec (fun h => h.Ranked ∧ (h.HeldBack → (h.fire key trigger).overtakes = false))
      (runOwnedWithIdFromTrigger id key trigger workflow repo params) (fun _ => Host.Ranked)
      fun _ => Host.Ranked := by
  have hfirm : Firm fun h => h.Ranked ∧ (h.HeldBack → (h.fire key trigger).overtakes = false) :=
    firm_ranked.and (firm_queue (Q := fun waiting =>
      Fire.overtakes { key, trigger := trigger.name, waiting } = false))
  apply Spec.bind ((spec_aside hfirm (aside_loose.proceed .launch)).mono (fun _ h => h)
    (fun _ _ h => h) fun _ _ h => h.1)
  intro _
  apply Spec.bind (Spec.get (Q := fun (read h : Host) => read = h ∧ h.Ranked ∧
    (h.HeldBack → (h.fire key trigger).overtakes = false)) fun h hh => ⟨rfl, hh⟩)
  intro read
  split
  · refine .bind (.modify fun h hh => ?_) fun _ => .pure fun _ h => h
    intro hb
    have hkept := hh.2.1 hb
    exact ⟨⟨hkept.1.ids, hkept.1.order⟩, hkept.2⟩
  · refine .bind (.modify fun h hh => ?_) fun _ => .pure fun _ h => h
    intro hb
    have hkept := hh.2.1 hb
    exact ⟨⟨hkept.1.ids, hkept.1.order⟩, forall_mem_concat.mpr ⟨hkept.2, hh.2.2 hb⟩⟩

theorem dispatchQueued_ranked (trigger : Trigger) (row : QueuedFire) :
    Spec (fun h => h.Ranked ∧ h.nextQueued trigger.name = some row) (dispatchQueued c trigger row)
      (fun _ => Host.Ranked) fun _ => Host.Ranked := by
  have hrun := runOwnedWithIdFromTrigger_ranked (c.stableWorkflowInstanceId row.key) row.key trigger
    row.run row.repoPath row.params
  apply Spec.bind ((hrun.pre ?_).attempt fun _ h => h)
  · intro launched
    cases launched with
    | ok inst =>
      apply Spec.bind (deleteQueued_ranked .drainedRow row.id)
      intro _
      apply Spec.bind (spec_aside firm_ranked (aside_loose.recordFire trigger.name))
      exact fun _ => .pure fun _ h => h
    | error e =>
      apply Spec.bind (spec_aside firm_ranked
        (aside_loose.recordFireAttempt (fun _ _ => trivial) _))
      intro attempt
      split
      · apply Spec.bind (spec_aside firm_ranked (aside_loose.note (fun _ _ => trivial) _ _ _ _))
        exact fun _ => Spec.raise fun _ h => h
      · apply Spec.bind (spec_aside firm_ranked (aside_loose.note (fun _ _ => trivial) _ _ _ _))
        intro _
        exact Spec.bind (deleteQueued_ranked .abandonedRow row.id) fun _ => Spec.pure fun _ h => h
  · intro h ⟨hr, hn⟩
    exact ⟨hr, fun hb => nextQueued_first (hr hb).1 hn⟩

theorem heldBack_admitted {h : Host} {key : Key} {trigger : Trigger}
    (hb : (h.admitted key trigger).HeldBack) :
    h.HeldBack ∧ Admission.orderly { key, trigger := trigger.name, waiting := h.queue
                                     full := h.atCap trigger, counter := h.counter } = true :=
  ⟨fun a ha => hb a (mem_append_left _ ha), hb _ (mem_append_right _ mem_cons_self)⟩

theorem nextQueueSeq_above (trigger : String) :
    Spec (fun h => h.Ranked ∧ (h.HeldBack → h.Above trigger (h.counter + 1))) nextQueueSeq
      (fun seq h => h.Ranked ∧ (h.HeldBack → h.Above trigger seq)) fun _ => Host.Ranked := by
  apply Spec.bind (Spec.get (Q := fun (read h : Host) => h.Ranked ∧
    (h.HeldBack → h.Above trigger (read.counter + 1))) fun h hh => hh)
  intro read
  have hfirm : Firm fun h => h.Ranked ∧ (h.HeldBack → h.Above trigger (read.counter + 1)) :=
    firm_ranked.and (firm_queue (Q := fun waiting =>
      ∀ row ∈ waiting, row.trigger = trigger → row.seq < read.counter + 1))
  have hsave : ∀ (h : Host) (file cache : Option Nat),
      (h.Ranked ∧ (h.HeldBack → h.Above trigger (read.counter + 1))) →
        Host.Ranked { h with queueSeqFile := file, queueSeq := cache } := by
    intro h file cache hh hb
    have hkept := hh.1 hb
    exact ⟨⟨hkept.1.ids, hkept.1.order⟩, hkept.2⟩
  apply Spec.bind ((spec_aside hfirm nextTurn_aside).mono (fun _ h => h) (fun _ _ h => h)
    fun _ _ h => h.1)
  intro turn
  cases turn.fate .queueSeq with
  | done =>
    refine .bind (.modify fun h hh => ?_) fun _ => .pure fun _ h => h
    exact ⟨hsave h _ _ hh, hh.2⟩
  | fails =>
    refine .bind (.modify (Q := fun _ => Host.Ranked) fun h hh => ?_) fun _ =>
      .raise fun _ h => h
    exact hsave h _ h.queueSeq hh
  | dies =>
    refine .bind (.modify (Q := fun _ => Host.Ranked) fun h hh => ?_) fun _ =>
      .die fun _ h => h
    exact hsave h _ h.queueSeq hh

theorem enqueueFire_ranked (key : Key) (trigger : Trigger) (repoName repoPath : String)
    (params : List (String × Value)) (tuple : RecordId) :
    Spec (fun h => h.Ranked ∧ (h.HeldBack → h.Above trigger.name (h.counter + 1)))
      (enqueueFire key trigger repoName repoPath params tuple) (fun _ => Host.Ranked)
      fun _ => Host.Ranked := by
  apply Spec.bind (nextQueueSeq_above trigger.name)
  intro seq
  have hfirm : Firm fun h => h.Ranked ∧ (h.HeldBack → h.Above trigger.name seq) :=
    firm_ranked.and (firm_queue (Q := fun waiting =>
      ∀ row ∈ waiting, row.trigger = trigger.name → row.seq < seq))
  apply Spec.bind ((spec_aside hfirm (aside_loose.proceed .queueRow)).mono (fun _ h => h)
    (fun _ _ h => h) fun _ _ h => h.1)
  intro _
  apply Spec.modify
  intro h ⟨hr, habove⟩ hb
  have hkept := hr hb
  refine ⟨⟨?_, ?_⟩, hkept.2⟩
  · intro row hrow
    show row.id < (h.journal ++ [_]).length
    rw [length_append, length_singleton]
    rcases mem_append.mp hrow with hrow | hrow
    · exact Nat.lt_succ_of_lt (hkept.1.ids row hrow)
    · rw [mem_singleton.mp hrow]
      exact Nat.lt_succ_self _
  · show (h.queue ++ [_]).Pairwise _
    rw [pairwise_append]
    refine ⟨hkept.1.order, pairwise_singleton _ _, ?_⟩
    intro a ha b hb'
    rw [mem_singleton.mp hb']
    exact ⟨hkept.1.ids a ha, fun he => habove hb a ha he⟩

theorem fireWorkflow_ranked (trigger : Trigger) (repoName repoPath : String) (t : Tuple) :
    Spec Host.Ranked (fireWorkflow c (trigger.key t.id) trigger repoName repoPath t)
      (fun _ => Host.Ranked) fun _ => Host.Ranked := by
  apply Spec.bind (Spec.get (Q := fun (read h : Host) => read = h ∧ h.Ranked) fun h hh => ⟨rfl, hh⟩)
  intro read
  apply Spec.bind (Spec.modify (Q := fun _ h => h.Ranked ∧
    (h.HeldBack → if read.atCap trigger then h.Above trigger.name (h.counter + 1)
      else (h.fire (trigger.key t.id) trigger).overtakes = false)) ?_)
  · intro _
    by_cases hcap : read.atCap trigger = true
    · simp only [hcap, if_true]
      apply Spec.bind (enqueueFire_ranked _ _ _ _ _ _)
      intro _
      apply Spec.bind (spec_aside firm_ranked
        (aside_loose.markFiredKey (fun _ _ => trivial) _ trigger t.id _))
      intro _
      apply Spec.bind (spec_aside firm_ranked (aside_loose.note (fun _ _ => trivial) _ _ _ _))
      exact fun _ => Spec.pure fun _ h => h
    · simp only [hcap]
      apply Spec.bind ((runOwnedWithIdFromTrigger_ranked _ _ _ _ _ _).attempt fun _ h => h)
      intro launched
      cases launched with
      | error e =>
        exact spec_aside firm_ranked (aside_loose.giveUpOrRetry (fun _ _ => trivial) trigger t.id _)
      | ok inst =>
        apply Spec.bind (spec_aside firm_ranked
          (aside_loose.noteNonMainLandTarget (fun _ _ => trivial) trigger t.id _))
        intro _
        apply Spec.bind (spec_aside firm_ranked
          (aside_loose.markFiredKey (fun _ _ => trivial) _ trigger t.id _))
        intro _
        apply Spec.bind (spec_aside firm_ranked (aside_loose.recordFire trigger.name))
        exact fun _ => Spec.pure fun _ h => h
  · intro h ⟨he, hr⟩
    rw [he]
    refine ⟨fun hb => ?_, fun hb => ?_⟩
    · have hkept := hr (heldBack_admitted hb).1
      exact ⟨⟨hkept.1.ids, hkept.1.order⟩, hkept.2⟩
    · have horderly := (heldBack_admitted hb).2
      unfold Admission.orderly at horderly
      by_cases hcap : h.atCap trigger = true
      · rw [if_pos hcap]
        simp only [hcap, if_true, all_eq_true] at horderly
        intro row hrow htrig
        have hseq := horderly row hrow
        simp only [htrig, ne_eq, not_true_eq_false, decide_false, Bool.false_or,
          decide_eq_true_eq] at hseq
        exact Nat.lt_succ_of_le hseq
      · rw [if_neg hcap]
        show Fire.overtakes { key := trigger.key t.id, trigger := trigger.name, waiting := h.queue } =
          false
        simpa [hcap] using horderly

/-- What is kept by everything that leaves the queue alone. -/
def Retains (S : Host → Prop) (h h' : Host) : Prop := S h → S h'

theorem retains_loose (hS : Firm S) : Loose (fun _ => True) (Retains S) where
  refl := fun _ => id
  trans := fun _ _ _ hab hbd => hbd ∘ hab
  turn := fun h => hS h _ (nextTurn_aside h)
  append := fun h r hr hown => hS h _ (aside_loose.append h r hr hown)
  fires := fun h fires => hS h _ (aside_loose.fires h fires)

theorem drainTrigger_ranked (trigger : Trigger) (cap fuel dispatched : Nat) :
    Spec Host.Ranked (drainTrigger c trigger cap fuel dispatched) (fun _ => Host.Ranked)
      fun _ => Host.Ranked := by
  induction fuel generalizing dispatched with
  | zero => exact .pure fun _ h => h
  | succ fuel ih =>
    apply Spec.bind (Spec.get (Q := fun (read h : Host) => read = h ∧ h.Ranked) fun h hh => ⟨rfl, hh⟩)
    intro read
    split
    · exact .pure fun _ h => h.2
    · split
      · exact .pure fun _ h => h.2
      next row hrow =>
        have hfirm : Firm fun h => h.Ranked ∧ h.nextQueued trigger.name = some row := by
          apply firm_ranked.and
          intro h h' g hn
          unfold Host.nextQueued at hn ⊢
          rw [g.queue]
          exact hn
        have hread : ∀ h, read = h ∧ h.Ranked → h.Ranked ∧ h.nextQueued trigger.name = some row :=
          fun h hh => ⟨hh.2, hh.1 ▸ hrow⟩
        apply Spec.bind ((spec_aside hfirm (aside_loose.rateLimited trigger)).mono hread
          (fun _ _ h => h) fun _ _ h => h.1)
        intro limited
        split
        · apply Spec.bind ((spec_aside firm_ranked
            (aside_loose.note (fun _ _ => trivial) _ _ _ _)).pre fun _ h => h.1)
          exact fun _ => Spec.pure fun _ h => h
        · apply Spec.bind ((dispatchQueued_ranked trigger row).attempt fun _ h => h)
          intro sent
          match sent with
          | .ok true | .ok false => exact ih _
          | .error _ => exact .pure fun _ h => h

theorem drainQueuedFires_ranked (triggers : List Loaded) :
    Spec Host.Ranked (drainQueuedFires c triggers) (fun _ => Host.Ranked) fun _ => Host.Ranked := by
  apply Spec.foldlM (I := fun _ _ => Host.Ranked)
  intro _ loaded dispatched _
  cases loaded.trigger.maxInFlight with
  | none => exact .pure fun _ h => h
  | some cap =>
    apply Spec.bind (Spec.get (Q := fun _ => Host.Ranked) fun _ h => h)
    intro h
    exact drainTrigger_ranked loaded.trigger cap _ _

theorem ranked_cursor (h : Host) (cursorFile : Option Nat) :
    Retains Host.Ranked h { h with cursorFile } := firm_ranked h _ ⟨rfl, Nat.le_refl _, rfl, rfl⟩

theorem runCycle_ranked (registry : Option RepoRegistry) :
    Moves (Retains Host.Ranked) (runCycle c registry) :=
  (retains_loose firm_ranked).runCycle (fun _ _ _ _ _ => (fireWorkflow_ranked _ _ _ _).final)
    ranked_cursor (fun h _ => firm_ranked h _ ⟨rfl, Nat.le_refl _, rfl, rfl⟩)
    (fun _ => (drainQueuedFires_ranked c.triggers).final) registry

theorem execute_ranked {m : Op α} (hm : Moves (Retains Host.Ranked) m) {h : Host} (up : Bool)
    (turns : List Turn) (hr : h.Ranked) : Host.Ranked ({ h with up }.execute turns m) := by
  have hscript : Host.Ranked { h with up, turns } := firm_ranked h _ ⟨rfl, Nat.le_refl _, rfl, rfl⟩ hr
  have hfin := hm _ hscript
  unfold Host.execute
  revert hfin
  match m { h with up, turns } with
  | (.ok a, h') | (.error (.error e), h') | (.error .gone, h') =>
    exact firm_ranked h' _ ⟨rfl, Nat.le_refl _, rfl, rfl⟩

theorem step_ranked {h h' : Host} {l : Label} (hr : h.Ranked) (hs : step c h l = some h') :
    h'.Ranked := by
  have hloose := retains_loose firm_ranked
  cases l with
  | start turn =>
    simp only [step] at hs
    split at hs
    · cases hs
    · cases hs
      exact execute_ranked (hloose.initializeCursor ranked_cursor) true [turn] hr
  | cycle registry turns =>
    simp only [step] at hs
    split at hs
    · cases hs
      exact execute_ranked (runCycle_ranked registry) h.up turns hr
    · cases hs
  | quiet turn =>
    cases hs
    exact execute_ranked hloose.turn h.up [turn] hr
  | stop =>
    simp only [step] at hs
    split at hs
    · cases hs
      exact firm_ranked h _ ⟨rfl, Nat.le_refl _, rfl, rfl⟩ hr
    · cases hs

theorem empty_ranked : Host.empty.Ranked := fun _ =>
  ⟨⟨fun _ h => (not_mem_nil h).elim, List.Pairwise.nil⟩, fun _ h => (not_mem_nil h).elim⟩

end

/-- In every run in which no tuple is let past its cap ahead of a fire that waits, and none
is queued under a counter below a number that waits, the fires of a trigger run in the
order they were queued in. -/
theorem queued_fires_oldest_first (c : Castle) (labels : List Label)
    (hb : Keeps (step c) Host.HeldBack Host.empty labels) :
    Keeps (step c) Host.InOrder Host.empty labels :=
  .under (fun _ _ _ hr hs => step_ranked hr hs) (fun _ hr hb => (hr hb).2) empty_ranked hb

def narrowCastle : Castle :=
  { reviewCastle "review" with
    triggers := [⟨{ name := "review", matcher := { category := some "event" }, run := "review"
                    maxInFlight := some 1 }, none⟩] }

/-- Two events come in and the second is queued.  The first review ends, and `late` comes
in at the same time. -/
def reviewEnds (late : List Tuple) : List Label :=
  let cycle := .cycle (some [("barn", "/barn")]) []
  [.start {}, .quiet { arrivals := [event 1 "barn" "task_done" [], event 2 "barn" "task_done" []] },
    cycle, .quiet { finished := ["review@1"], arrivals := late }, cycle]

/-- The slot the first review leaves goes to the third event, past the second. -/
theorem late_event_overtakes :
    ¬ Keeps (step narrowCastle) Host.InOrder Host.empty
      (reviewEnds [event 3 "barn" "task_done" []]) :=
  not_keeps_of_run (by decide +kernel)

theorem queued_fires_oldest_first_drained :
    Keeps (step narrowCastle) Host.HeldBack Host.empty (reviewEnds []) ∧
      Keeps (step narrowCastle) Host.InOrder Host.empty (reviewEnds []) := by
  have hb : Keeps (step narrowCastle) Host.HeldBack .empty (reviewEnds []) := by decide +kernel
  exact ⟨hb, queued_fires_oldest_first narrowCastle _ hb⟩

end RatKingdom.Reactor
