/-
How much one trigger can launch.

A launch is made behind two checks: fewer live instances than `maxInFlight`, and fewer
entries in the fire window than `maxFires`.  The first bounds what is live after it.  The
second counts what was recorded, and a fire is recorded only after the write behind its
launch went through: as long as none of these writes fails, the window has an entry at
least as young as every fresh launch in it, and the launches of any span of that length
are as few as the entries are.
-/
import RatKingdom.Reactor.Handled

namespace RatKingdom.Reactor

open Core Lib List Host

namespace Castle
variable (c : Castle)

/-- A fresh launch of `trigger` in the window that begins at `start`. -/
def launchedIn (trigger : Trigger) (start : Nat) (l : Launch) : Bool :=
  l.fresh && l.trigger = trigger && start ≤ l.time && l.time < start + c.window

structure Bounded (h : Host) : Prop where
  live : ∀ l ∈ h.launches, ∀ cap, l.trigger.maxInFlight = some cap → l.live ≤ cap
  spread : ∀ trigger start, h.launches.countP (c.launchedIn trigger start) ≤ c.fireCap trigger

end Castle

/-- The fresh launches under `name` that are younger than `window` at `time`. -/
def Host.freshSince (h : Host) (name : String) (window time : Nat) : Nat :=
  h.launches.countP fun l => l.fresh && l.trigger.name = name && decide (time - l.time < window)

/-- The recorded fires under `name` that are younger than `window` at `time`. -/
def Host.firesSince (h : Host) (name : String) (window time : Nat) : Nat :=
  h.fires.countP fun f => f.1 = name && decide (time - f.2 < window)

/-- The invariant with the fire of at most one launch, made at `since` under `name`, still
to be recorded. -/
structure Owing (c : Castle) (name : String) (since : Nat) (h : Host) : Prop where
  bounded : c.Bounded h
  past : ∀ l ∈ h.launches, l.time ≤ h.clock
  begun : since ≤ h.clock
  window : ∀ n time, h.clock ≤ time → h.freshSince n c.window time ≤
    h.firesSince n c.window time + if n = name ∧ time - since < c.window then 1 else 0

structure Storm (c : Castle) (h : Host) : Prop where
  bounded : c.Bounded h
  past : ∀ l ∈ h.launches, l.time ≤ h.clock
  window : ∀ n time, h.clock ≤ time → h.freshSince n c.window time ≤ h.firesSince n c.window time

section
variable {c : Castle} {h h' : Host} {name : String} {since : Nat}

theorem freshSince_lull (g : Lull h h') (n : String) (window time : Nat) :
    h'.freshSince n window time = h.freshSince n window time := by
  unfold freshSince
  rw [g.launches]

theorem firesSince_lull (g : Lull h h') (n : String) (window time : Nat) :
    h'.firesSince n window time = h.firesSince n window time := by
  unfold firesSince
  rw [g.fires]

theorem Castle.Bounded.lull (g : Lull h h') (hb : c.Bounded h) : c.Bounded h' := by
  constructor
  · rw [g.launches]
    exact hb.live
  · rw [g.launches]
    exact hb.spread

theorem Owing.lull (g : Lull h h') (ho : Owing c name since h) : Owing c name since h' where
  bounded := ho.bounded.lull g
  past := by
    intro l hl
    rw [g.launches] at hl
    exact Nat.le_trans (ho.past l hl) g.clock
  begun := Nat.le_trans ho.begun g.clock
  window := by
    intro n time ht
    rw [freshSince_lull g, firesSince_lull g]
    exact ho.window n time (Nat.le_trans g.clock ht)

theorem Owing.aside {journal : List Record} {queue : List QueuedFire} (ho : Owing c name since h) :
    Owing c name since { h with journal, queue } where
  bounded := ⟨ho.bounded.live, ho.bounded.spread⟩
  past := ho.past
  begun := ho.begun
  window := ho.window

theorem Storm.noted {admissions : List Admission} {dispatches : List Fire} (hs : Storm c h) :
    Storm c { h with admissions, dispatches } where
  bounded := ⟨hs.bounded.live, hs.bounded.spread⟩
  past := hs.past
  window := hs.window

theorem Storm.owing (hs : Storm c h) (name : String) : Owing c name h.clock h where
  bounded := hs.bounded
  past := hs.past
  begun := Nat.le_refl _
  window := fun n time ht => Nat.le_trans (hs.window n time ht) (Nat.le_add_right _ _)

theorem Storm.lull (g : Lull h h') (hs : Storm c h) : Storm c h' where
  bounded := hs.bounded.lull g
  past := by
    intro l hl
    rw [g.launches] at hl
    exact Nat.le_trans (hs.past l hl) g.clock
  window := by
    intro n time ht
    rw [freshSince_lull g, firesSince_lull g]
    exact hs.window n time (Nat.le_trans g.clock ht)

/-- A recorded fire is no older than the launch it is for, so it stays in the window as
long. -/
theorem Owing.record (ho : Owing c name since h) :
    Storm c { h with fires := h.fires ++ [(name, h.clock)] } where
  bounded := ⟨ho.bounded.live, ho.bounded.spread⟩
  past := ho.past
  window := by
    intro n time ht
    have hw := ho.window n time ht
    have hfires : firesSince { h with fires := h.fires ++ [(name, h.clock)] } n c.window time =
        h.firesSince n c.window time + if name = n ∧ time - h.clock < c.window then 1 else 0 := by
      simp [firesSince, countP_append, countP_singleton]
    rw [hfires]
    refine Nat.le_trans hw ?_
    have hsince := ho.begun
    by_cases hn : n = name ∧ time - since < c.window
    · have : name = n ∧ time - h.clock < c.window := ⟨hn.1.symm, by omega⟩
      rw [if_pos hn, if_pos this]
    · rw [if_neg hn]
      omega

theorem Storm.prune (hs : Storm c h) (name : String) :
    Storm c { h with
      fires := h.fires.filter fun f => f.1 ≠ name || decide (h.clock - f.2 < c.window) } where
  bounded := ⟨hs.bounded.live, hs.bounded.spread⟩
  past := hs.past
  window := by
    intro n time ht
    refine Nat.le_trans (hs.window n time ht) ?_
    unfold firesSince
    rw [countP_filter]
    apply countP_mono_left
    intro f _ hf
    have ht' : h.clock ≤ time := ht
    simp only [Bool.and_eq_true, decide_eq_true_eq] at hf
    have hyoung : h.clock - f.2 < c.window := by omega
    simp [hf, hyoung]

def Room (c : Castle) (trigger : Trigger) (h : Host) : Prop :=
  (h.fires.countP fun f => f.1 = trigger.name) < c.fireCap trigger

def Below (trigger : Trigger) (h : Host) : Prop :=
  ∀ cap, trigger.maxInFlight = some cap → h.liveCountForTrigger trigger.name < cap

/-- A launch, as the engine leaves it. -/
theorem Storm.launched (hs : Storm c h) {trigger : Trigger} (hr : Room c trigger h)
    (fresh : Bool) (instances : List Instance)
    (hlive : ∀ cap, trigger.maxInFlight = some cap → Host.liveCount instances trigger.name ≤ cap) :
    Owing c trigger.name h.clock (h.launched trigger fresh instances) := by
  have hroom : h.freshSince trigger.name c.window h.clock < c.fireCap trigger := by
    refine Nat.lt_of_le_of_lt (hs.window _ _ (Nat.le_refl _)) ?_
    refine Nat.lt_of_le_of_lt ?_ hr
    apply countP_mono_left
    intro f _ hf
    simp only [Bool.and_eq_true] at hf
    exact hf.1
  refine ⟨⟨?_, ?_⟩, ?_, Nat.le_refl _, ?_⟩
  · exact forall_mem_concat.mpr ⟨hs.bounded.live, hlive⟩
  · intro other start
    show (h.launches ++ [_]).countP (c.launchedIn other start) ≤ c.fireCap other
    rw [countP_append, countP_singleton]
    split
    next hin =>
      -- the new launch is in this window, so the older ones in it are still young now
      simp only [Castle.launchedIn, Bool.and_eq_true, decide_eq_true_eq] at hin
      obtain ⟨⟨⟨-, rfl⟩, hstart⟩, hend⟩ := hin
      have hold : h.launches.countP (c.launchedIn trigger start) ≤
          h.freshSince trigger.name c.window h.clock := by
        apply countP_mono_left
        intro l hl hin
        simp only [Castle.launchedIn, Bool.and_eq_true, decide_eq_true_eq] at hin
        obtain ⟨⟨⟨hfresh, htrig⟩, hge⟩, hlt⟩ := hin
        have hyoung : h.clock - l.time < c.window := by omega
        simp [hfresh, htrig, hyoung]
      omega
    · have := hs.bounded.spread other start
      omega
  · exact forall_mem_concat.mpr ⟨hs.past, Nat.le_refl _⟩
  · intro n time ht
    have hw := hs.window n time ht
    have hfresh : (h.launched trigger fresh instances).freshSince n c.window time ≤
        h.freshSince n c.window time +
          if n = trigger.name ∧ time - h.clock < c.window then 1 else 0 := by
      unfold Host.freshSince Host.launched
      rw [countP_append, countP_singleton]
      apply Nat.add_le_add_left
      split
      next hin =>
        simp only [Bool.and_eq_true, decide_eq_true_eq] at hin
        rw [if_pos ⟨hin.1.2.symm, hin.2⟩]
      · exact Nat.zero_le _
    have hfires : (h.launched trigger fresh instances).firesSince n c.window time =
        h.firesSince n c.window time := rfl
    omega

end

/-- The write that follows a launch, the marker of an immediate fire or the removal of a
queued one, does not fail. -/
def Turn.Records (turn : Turn) : Prop :=
  turn.fate .firedMarker ≠ .fails ∧ turn.fate .drainedRow ≠ .fails
deriving Decidable

def Host.Sure (h : Host) : Prop := ∀ turn ∈ h.turns, turn.Records

/-- What a part of a cycle that launches nothing leaves alone. -/
structure Pause (h h' : Host) : Prop where
  lull : Lull h h'
  turns : ∀ turn ∈ h'.turns, turn ∈ h.turns

/-- A fact that such a part does not take back. -/
def Lasting (S : Host → Prop) : Prop := ∀ h h', Pause h h' → S h → S h'

def Held (c : Castle) (h : Host) : Prop := Storm c h ∧ h.Sure

/-- Where a part of a cycle may end with an error; a dead process has no window. -/
def Erred (c : Castle) : Stop String → Host → Prop
  | .gone, _ => True
  | .error _, h => Held c h

section
variable {c : Castle} {S : Host → Prop} {α β : Type}

theorem Pause.refl (h : Host) : Pause h h := ⟨Lull.refl h, fun _ => id⟩

theorem Pause.trans (a b d : Host) (hab : Pause a b) (hbd : Pause b d) : Pause a d :=
  ⟨hab.lull.trans hbd.lull, fun turn ht => hab.turns turn (hbd.turns turn ht)⟩

theorem lasting_sure : Lasting Host.Sure := fun _ _ g hs turn ht => hs turn (g.turns turn ht)

theorem lasting_storm : Lasting (Storm c) := fun _ _ g hs => hs.lull g.lull

theorem lasting_owing (name : String) : Lasting fun h => ∃ since, Owing c name since h :=
  fun _ _ g ⟨since, ho⟩ => ⟨since, ho.lull g.lull⟩

theorem lasting_room (trigger : Trigger) : Lasting (Room c trigger) := by
  intro h h' g hr
  unfold Room
  rw [g.lull.fires]
  exact hr

theorem lasting_below (trigger : Trigger) : Lasting (Below trigger) :=
  fun _ _ g hb cap hcap => Nat.lt_of_le_of_lt (g.lull.live trigger.name) (hb cap hcap)

theorem Lasting.and {S T : Host → Prop} (hS : Lasting S) (hT : Lasting T) :
    Lasting fun h => S h ∧ T h := fun h h' g hh => ⟨hS h h' g hh.1, hT h h' g hh.2⟩

theorem lasting_held : Lasting (Held c) := lasting_storm.and lasting_sure

variable {m : Op α}

theorem pause_of_calm (hm : Moves (Calm c Plain) m) : Moves Pause m :=
  fun h => ⟨(hm h).lull, (hm h).goes.turns⟩

theorem pause_of_ours {alerts : RecordId → Prop} (hm : Moves (Calm c (Ours alerts)) m) :
    Moves Pause m :=
  fun h => ⟨(hm h).lull, (hm h).goes.turns⟩

theorem spec_pause (hS : Lasting S) (hm : Moves Pause m) :
    Spec S m (fun _ => S) fun _ => S := Spec.of_final fun h hs => hS h _ (hm h) hs

theorem held_pause (hm : Moves Pause m) : Spec (Held c) m (fun _ => Held c) (Erred c) := by
  apply (spec_pause lasting_held hm).mono (fun _ h => h) (fun _ _ h => h)
  intro x h hh
  cases x with
  | gone => trivial
  | error e => exact hh

theorem attempt_held {P : Host → Prop} (hm : Spec P m (fun _ => Held c) (Erred c)) :
    Spec P m.attempt (fun _ => Held c) (Erred c) := by
  have hatt : Spec P m.attempt _ (Erred c) := hm.attempt fun _ _ => trivial
  apply hatt.mono (fun _ h => h) ?_ fun _ _ h => h
  intro done h hh
  cases done with
  | ok a | error e => exact hh

theorem nextTurn_sure (c : Castle) {E : Stop String → Host → Prop} (hS : Lasting S) :
    Spec (fun h => S h ∧ h.Sure) nextTurn (fun turn h => turn.Records ∧ S h ∧ h.Sure) E := by
  intro h ⟨hs, hsure⟩
  have hpause : Pause h (nextTurn h).2 :=
    pause_of_calm (c := c) (nextTurn_calm fun _ => trivial) h
  have hkept := (hS.and lasting_sure) h _ hpause ⟨hs, hsure⟩
  revert hkept
  unfold nextTurn
  cases hts : h.turns with
  | nil => exact fun hkept => ⟨⟨by decide, by decide⟩, hkept⟩
  | cons turn rest =>
    exact fun hkept => ⟨hsure turn (by rw [hts]; exact mem_cons_self), hkept⟩

theorem proceed_sure {site : Site} (hS : Lasting S)
    (hsite : ∀ turn : Turn, turn.Records → turn.fate site ≠ .fails) :
    Spec (fun h => S h ∧ h.Sure) (proceed site) (fun _ h => S h ∧ h.Sure) (Erred c) := by
  apply Spec.bind (nextTurn_sure c hS)
  intro turn
  cases hf : turn.fate site with
  | done => exact Spec.pure fun h hh => hh.2
  | fails => exact Spec.raise fun h hh => absurd hf (hsite turn hh.1)
  | dies => exact Spec.die fun _ _ => trivial

theorem outBestEffort_sure (hS : Lasting S) {r : Record} (hr : Plain r)
    (hown : ∀ t, r ≠ .foreign t) :
    Spec (fun h => S h ∧ h.Sure) (outBestEffort r) (fun _ h => S h ∧ h.Sure) (Erred c) := by
  have hout := spec_pause (hS.and lasting_sure)
    (pause_of_calm (out_calm (c := c) (fun _ h => h) .note hr hown))
  apply Spec.bind (hout.attempt fun _ _ => trivial)
  intro done
  cases done with
  | ok _ | error _ => exact Spec.pure fun _ h => h

theorem noteNonMainLandTarget_sure (hS : Lasting S) (trigger : Trigger) (tuple : RecordId)
    (params : List (String × Value)) :
    Spec (fun h => S h ∧ h.Sure) (noteNonMainLandTarget trigger tuple params)
      (fun _ h => S h ∧ h.Sure) (Erred c) := by
  unfold noteNonMainLandTarget
  split
  · exact Spec.pure fun _ h => h
  · split
    · exact Spec.pure fun _ h => h
    · exact outBestEffort_sure hS trivial fun _ h => by cases h

/-- `record_fire` pays what a launch left owing. -/
theorem recordFire_held (name : String) :
    Spec (fun h => (∃ since, Owing c name since h) ∧ h.Sure) (recordFire name) (fun _ => Held c)
      (Erred c) := by
  have hnow : Spec (fun h => (∃ since, Owing c name since h) ∧ h.Sure) now
      (fun time h => time = h.clock ∧ (∃ since, Owing c name since h) ∧ h.Sure) (Erred c) := by
    apply Spec.bind (nextTurn_sure c (lasting_owing name))
    intro turn
    apply Spec.bind (Spec.get (Q := fun read h => read = h ∧ (∃ since, Owing c name since h) ∧ h.Sure)
      fun h hh => ⟨rfl, hh.2⟩)
    intro read
    apply Spec.pure
    intro h ⟨he, hh⟩
    exact ⟨by rw [he], hh⟩
  apply Spec.bind hnow
  intro time
  apply Spec.modify
  intro h ⟨he, ⟨since, ho⟩, hsure⟩
  rw [he]
  exact ⟨ho.record, hsure⟩

/-- `rate_limited` answers no only when the window has room. -/
theorem rateLimited_room (trigger : Trigger) (hS : Lasting S)
    (hfires : ∀ h fires, S h → S { h with fires }) :
    Spec (fun h => S h ∧ Held c h) (rateLimited c trigger)
      (fun limited h => S h ∧ Held c h ∧ (limited = false → Room c trigger h)) (Erred c) := by
  unfold rateLimited
  split
  · apply Spec.pure
    intro h ⟨hs, hh⟩
    exact ⟨hs, hh, fun hl => by cases hl⟩
  · have hnow : Spec (fun h => S h ∧ Held c h) now
        (fun time h => time = h.clock ∧ S h ∧ Held c h) (Erred c) := by
      apply Spec.bind ((nextTurn_sure c (hS.and lasting_storm)).mono
        (fun h hh => ⟨⟨hh.1, hh.2.1⟩, hh.2.2⟩) (fun _ _ h => h) fun _ _ h => h)
      intro turn
      apply Spec.bind (Spec.get (Q := fun read h => read = h ∧ S h ∧ Held c h)
        fun h hh => ⟨rfl, hh.2.1.1, hh.2.1.2, hh.2.2⟩)
      intro read
      apply Spec.pure
      intro h ⟨he, hh⟩
      exact ⟨by rw [he], hh⟩
    apply Spec.bind hnow
    intro time
    apply Spec.bind (Spec.modify (Q := fun _ h => S h ∧ Held c h) ?_)
    · intro _
      apply Spec.bind (Spec.get (Q := fun read h => read = h ∧ S h ∧ Held c h)
        fun h hh => ⟨rfl, hh⟩)
      intro read
      apply Spec.pure
      intro h ⟨he, hs, hh⟩
      refine ⟨hs, hh, fun hl => ?_⟩
      rw [he] at hl
      simpa [Room] using hl
    · intro h ⟨he, hs, hst, hsure⟩
      rw [he]
      exact ⟨hfires h _ hs, hst.prune trigger.name, hsure⟩

theorem runOwnedWithIdFromTrigger_owing (id : String) (key : Key) (trigger : Trigger)
    (workflow repo : String) (params : List (String × Value)) :
    Spec (fun h => Held c h ∧ Room c trigger h ∧ Below trigger h)
      (runOwnedWithIdFromTrigger id key trigger workflow repo params)
      (fun _ h => (∃ since, Owing c trigger.name since h) ∧ h.Sure) (Erred c) := by
  have hl : Lasting fun h => Held c h ∧ Room c trigger h ∧ Below trigger h :=
    lasting_held.and ((lasting_room trigger).and (lasting_below trigger))
  have hproceed := spec_pause hl (pause_of_calm (proceed_calm (c := c) (fun _ h => h) .launch))
  apply Spec.bind (hproceed.mono (fun _ h => h) (fun _ _ h => h) ?_)
  · intro _
    -- the engine is read and written in one step, under its lock
    apply Spec.bind (Spec.get (Q := fun read h => read = h ∧ Held c h ∧ Room c trigger h ∧
      Below trigger h) fun h hh => ⟨rfl, hh⟩)
    intro read
    split
    · refine Spec.bind (Spec.modify fun h hh => ?_) fun _ => Spec.pure fun _ h => h
      obtain ⟨rfl, ⟨hst, hsure⟩, hroom, hbelow⟩ := hh
      exact ⟨⟨_, hst.launched hroom false _ fun cap hcap => Nat.le_of_lt (hbelow cap hcap)⟩, hsure⟩
    · refine Spec.bind (Spec.modify fun h hh => ?_) fun _ => Spec.pure fun _ h => h
      obtain ⟨rfl, ⟨hst, hsure⟩, hroom, hbelow⟩ := hh
      have hnoted : Storm c (read.dispatched key trigger) := hst.noted
      refine ⟨⟨_, hnoted.launched hroom true _ fun cap hcap => ?_⟩, hsure⟩
      have hb := hbelow cap hcap
      unfold liveCountForTrigger liveCount at hb
      unfold liveCount
      rw [countP_append, countP_singleton]
      split <;> omega
  · intro x h hh
    cases x with
    | gone => trivial
    | error e => exact hh.1

theorem launchNow_held (trigger : Trigger) (repoPath : String) (params : List (String × Value))
    (tuple : RecordId) :
    Spec (fun h => Held c h ∧ Room c trigger h ∧ Below trigger h)
      (launchNow c (trigger.key tuple) trigger repoPath params tuple) (fun _ => Held c) (Erred c) := by
  apply Spec.bind ((runOwnedWithIdFromTrigger_owing _ _ _ _ _ _).attempt fun _ _ => trivial)
  intro launched
  cases launched with
  | error e =>
    exact held_pause (pause_of_calm (giveUpOrRetry_calm (c := c) (fun _ h => h) trigger tuple _))
  | ok inst =>
    apply Spec.bind (noteNonMainLandTarget_sure (lasting_owing trigger.name) trigger tuple params)
    intro _
    apply Spec.bind (Q := fun _ h => (∃ since, Owing c trigger.name since h) ∧ h.Sure)
    · apply Spec.bind (proceed_sure (lasting_owing trigger.name) fun _ hr => hr.1)
      intro _
      exact Spec.modify fun h ⟨⟨since, ho⟩, hsure⟩ => ⟨⟨since, ho.aside⟩, hsure⟩
    · intro _
      exact Spec.bind (recordFire_held trigger.name) fun _ => Spec.pure fun _ h => h

theorem dispatchQueued_held (trigger : Trigger) (row : QueuedFire) :
    Spec (fun h => Held c h ∧ Room c trigger h ∧ Below trigger h) (dispatchQueued c trigger row)
      (fun _ => Held c) (Erred c) := by
  apply Spec.bind ((runOwnedWithIdFromTrigger_owing _ _ _ _ _ _).attempt fun _ _ => trivial)
  intro launched
  cases launched with
  | ok inst =>
    apply Spec.bind (Q := fun _ h => (∃ since, Owing c trigger.name since h) ∧ h.Sure)
    · apply Spec.bind (proceed_sure (lasting_owing trigger.name) fun _ hr => hr.2)
      intro _
      exact Spec.modify fun h ⟨⟨since, ho⟩, hsure⟩ => ⟨⟨since, ho.aside⟩, hsure⟩
    · intro _
      exact Spec.bind (recordFire_held trigger.name) fun _ => Spec.pure fun _ h => h
  | error e =>
    apply Spec.bind (held_pause (pause_of_calm (recordFireAttempt_calm (c := c) (fun _ h => h) _)))
    intro attempt
    split
    · apply Spec.bind (held_pause (pause_of_calm (note_calm (c := c) (fun _ h => h) _ _ _ _)))
      exact fun _ => Spec.raise fun _ h => h
    · apply Spec.bind (held_pause (pause_of_calm (note_calm (c := c) (fun _ h => h) _ _ _ _)))
      intro _
      apply Spec.bind (held_pause (pause_of_calm (deleteQueued_calm (c := c) (fun _ h => h) _ _)))
      exact fun _ => Spec.pure fun _ h => h

theorem fireWorkflow_held (trigger : Trigger) (repoName repoPath : String) (t : Tuple) :
    Spec (fun h => Held c h ∧ Room c trigger h)
      (fireWorkflow c (trigger.key t.id) trigger repoName repoPath t) (fun _ => Held c)
      (Erred c) := by
  apply Spec.bind (Spec.get (Q := fun read h => read = h ∧ Held c h ∧ Room c trigger h)
    fun h hh => ⟨rfl, hh⟩)
  intro read
  apply Spec.bind (Spec.modify (Q := fun _ h => Held c h ∧ Room c trigger h ∧
    (¬ read.atCap trigger = true → Below trigger h)) ?_)
  · intro _
    by_cases hcap : read.atCap trigger = true
    · rw [if_pos hcap]
      exact (held_pause (pause_of_calm
        (queueFire_calm (c := c) (fun _ h => h) trigger _ _ _ _))).pre fun _ hh => hh.1
    · rw [if_neg hcap]
      exact (launchNow_held trigger repoPath _ t.id).pre fun _ hh => ⟨hh.1, hh.2.1, hh.2.2 hcap⟩
  · intro h ⟨he, ⟨hst, hsure⟩, hroom⟩
    refine ⟨⟨hst.noted, hsure⟩, hroom, fun hcap cap hmax => ?_⟩
    rw [he] at hcap
    show h.liveCountForTrigger trigger.name < cap
    simpa [atCap, hmax] using hcap

theorem enqueueLanding_held (trigger : Trigger) (tuple : RecordId) :
    Spec (Held c) (enqueueLanding (trigger.key tuple) trigger tuple) (fun _ => Held c)
      (Erred c) := by
  have hmark := fun inst => held_pause (c := c) (pause_of_calm
    (markFiredKey_calm (c := c) (fun _ h => h) .landMarker trigger tuple inst))
  apply Spec.bind (attempt_held (held_pause (pause_of_calm
    (proceed_calm (c := c) (fun _ h => h) .landing))))
  intro answer
  split
  · apply Spec.bind (hmark _)
    intro _
    apply Spec.bind ((recordFire_held trigger.name).pre
      fun h hh => ⟨⟨_, hh.1.owing trigger.name⟩, hh.2⟩)
    exact fun _ => Spec.pure fun _ h => h
  · exact Spec.bind (hmark _) fun _ => Spec.pure fun _ h => h
  · exact held_pause (pause_of_calm (giveUpOrRetry_calm (c := c) (fun _ h => h) trigger tuple _))

theorem fireLandAction_held (trigger : Trigger) (repoName : String) (t : Tuple) :
    Spec (Held c) (fireLandAction c (trigger.key t.id) trigger repoName t) (fun _ => Held c)
      (Erred c) := by
  have hretry := fun reason => held_pause (c := c)
    (pause_of_calm (giveUpOrRetry_calm (c := c) (fun _ h => h) trigger t.id reason))
  unfold fireLandAction
  simp only
  split
  · exact hretry _
  split
  · exact hretry _
  split
  · apply Spec.bind (held_pause (pause_of_calm
      (markFiredKey_calm (c := c) (fun _ h => h) _ trigger t.id _)))
    exact fun _ => Spec.pure fun _ h => h
  split
  · exact hretry _
  split
  · exact hretry _
  · apply Spec.bind (held_pause (pause_of_calm
      (calm_bind (turn_calm (c := c) fun _ h => h) fun turn => calm_pure turn.sourceError)))
    intro refused
    cases refused with
    | some e => exact hretry _
    | none => exact enqueueLanding_held trigger t.id

theorem dispatch_held (registry : RepoRegistry) (loaded : Loaded) (t : Tuple) :
    Spec (Held c) (dispatch c registry loaded t) (fun _ => Held c) (Erred c) := by
  have hretry := fun reason => held_pause (c := c)
    (pause_of_calm (giveUpOrRetry_calm (c := c) (fun _ h => h) loaded.trigger t.id reason))
  have hlimit := rateLimited_room (c := c) (S := fun _ => True) loaded.trigger
    (fun _ _ _ h => h) fun _ _ h => h
  apply Spec.bind (hlimit.pre fun _ h => ⟨trivial, h⟩)
  intro limited
  cases limited with
  | true =>
    apply Spec.bind ((held_pause (pause_of_calm
      (note_calm (c := c) (fun _ h => h) _ _ _ _))).pre fun _ h => h.2.1)
    exact fun _ => hretry _
  | false =>
    cases hpath : registry.get ((loaded.trigger.repo.or loaded.sourceRepo).getD t.scope) with
    | none =>
      simp only [hpath]
      exact (hretry _).pre fun _ h => h.2.1
    | some repoPath =>
      simp only [hpath]
      cases loaded.trigger.action with
      | land => exact (fireLandAction_held loaded.trigger _ t).pre fun _ h => h.2.1
      | workflow =>
        exact (fireWorkflow_held loaded.trigger _ _ t).pre fun _ h => ⟨h.2.1, h.2.2 trivial⟩

theorem tryFire_held (registry : RepoRegistry) (loaded : Loaded) (t : Tuple) :
    Spec (Held c) (tryFire c registry loaded t) (fun _ => Held c) (Erred c) := by
  unfold tryFire
  simp only
  split
  · exact Spec.pure fun _ h => h
  split
  · exact Spec.raise fun _ h => h
  split
  · exact Spec.pure fun _ h => h
  · apply Spec.bind (Q := fun _ => Held c)
    · exact Spec.bind (Spec.get (Q := fun _ => Held c) fun _ h => h) fun _ => Spec.pure fun _ h => h
    · intro fired
      split
      · exact Spec.pure fun _ h => h
      · exact dispatch_held registry loaded t

theorem drainTrigger_held (trigger : Trigger) (cap : Nat) (hcap : trigger.maxInFlight = some cap)
    (fuel dispatched : Nat) :
    Spec (Held c) (drainTrigger c trigger cap fuel dispatched) (fun _ => Held c) (Erred c) := by
  induction fuel generalizing dispatched with
  | zero => exact Spec.pure fun _ h => h
  | succ fuel ih =>
    apply Spec.bind (Spec.get (Q := fun read h => read = h ∧ Held c h) fun h hh => ⟨rfl, hh⟩)
    intro read
    by_cases hfull : cap ≤ read.liveCountForTrigger trigger.name
    · rw [if_pos hfull]
      exact Spec.pure fun _ h => h.2
    · rw [if_neg hfull]
      split
      · exact Spec.pure fun _ h => h.2
      next row _ =>
        have hlimit := rateLimited_room (c := c) trigger (lasting_below trigger) fun _ _ h => h
        apply Spec.bind (hlimit.pre ?_)
        · intro limited
          cases limited with
          | true =>
            apply Spec.bind ((held_pause (pause_of_calm
              (note_calm (c := c) (fun _ h => h) _ _ _ _))).pre fun _ h => h.2.1)
            exact fun _ => Spec.pure fun _ h => h
          | false =>
            apply Spec.bind (attempt_held ((dispatchQueued_held trigger row).pre
              fun h hh => ⟨hh.2.1, hh.2.2 rfl, hh.1⟩))
            intro sent
            match sent with
            | .ok true | .ok false => exact ih _
            | .error _ => exact Spec.pure fun _ h => h
        · intro h ⟨he, hh⟩
          refine ⟨fun cap' hmax => ?_, hh⟩
          rw [hcap] at hmax
          cases hmax
          rw [← he]
          exact Nat.lt_of_not_le hfull

theorem drainQueuedFires_held (triggers : List Loaded) :
    Spec (Held c) (drainQueuedFires c triggers) (fun _ => Held c) (Erred c) := by
  apply Spec.foldlM (I := fun _ _ => Held c)
  intro _ loaded dispatched _
  cases hmax : loaded.trigger.maxInFlight with
  | none => exact Spec.pure fun _ h => h
  | some cap =>
    apply Spec.bind (Spec.get (Q := fun _ => Held c) fun _ h => h)
    intro h
    exact drainTrigger_held loaded.trigger cap hmax _ _

theorem pause_still (c : Castle) : Still Plain Pause where
  refl := Pause.refl
  trans := Pause.trans
  turn := pause_of_calm (turn_calm (c := c) fun _ h => h)
  append := fun _ _ hr hown =>
    have g := append_calm (c := c) hr hown
    ⟨g.lull, g.goes.turns⟩

theorem pause_cursor (h : Host) (cursorFile : Option Nat) : Pause h { h with cursorFile } :=
  ⟨⟨rfl, rfl, fun _ => Nat.le_refl _, Nat.le_refl _⟩, fun _ => id⟩

theorem advanceCursor_pause (c : Castle) (tally : Tally) (cursor boundary : Nat) :
    Moves Pause (advanceCursor tally cursor boundary) := by
  unfold advanceCursor
  split
  · exact (pause_still c).saveCursor pause_cursor boundary
  · exact Moves.pure Pause.refl _

theorem initializeCursor_pause (c : Castle) : Moves Pause initializeCursor :=
  (pause_still c).initializeCursor pause_cursor

theorem guarded_held (tally : Tally) (hm : Spec (Held c) m (fun _ => Held c) (Erred c)) :
    Spec (Held c) (guarded tally m) (fun _ => Held c) (Erred c) := by
  apply Spec.bind (attempt_held hm)
  intro done
  cases done with
  | ok _ | error _ => exact Spec.pure fun _ h => h

theorem fireTriggers_held (registry : RepoRegistry) (t : Tuple) (tally : Tally) :
    Spec (Held c) (fireTriggers c registry t tally) (fun _ => Held c) (Erred c) := by
  unfold fireTriggers
  split
  · exact Spec.pure fun _ h => h
  · apply Spec.foldlM (I := fun _ _ => Held c)
    intro _ loaded tally _
    apply Spec.bind (attempt_held (tryFire_held registry loaded t))
    intro done
    match done with
    | .ok true | .ok false | .error _ => exact Spec.pure fun _ h => h

theorem builtin_held : Spec (Held c) (proceed .builtin) (fun _ => Held c) (Erred c) :=
  held_pause (pause_of_calm (proceed_calm (c := c) (fun _ h => h) .builtin))

theorem ciTransition_held (t : Tuple) :
    Spec (Held c) (reactToSdlcCiTransition t) (fun _ => Held c) (Erred c) := by
  have hcalm : Moves (Calm c (Ours fun _ => False)) (reactToSdlcCiTransition t) :=
    reactToSdlcCiTransition_calm t
  exact held_pause (pause_of_ours hcalm)

theorem alertTransition_held (t : Tuple) :
    Spec (Held c) (reactToSdlcAlertTransition c t) (fun _ => Held c) (Erred c) :=
  held_pause (pause_of_ours (reactToSdlcAlertTransition_calm t))

theorem reactToRecord_held (registry : RepoRegistry) (tally : Tally) (r : Record) :
    Spec (Held c) (reactToRecord c registry tally r) (fun _ => Held c) (Erred c) := by
  unfold reactToRecord
  split
  next t =>
    split
    · exact Spec.pure fun _ h => h
    apply Spec.bind (attempt_held builtin_held)
    intro _
    apply Spec.bind (guarded_held tally (ciTransition_held t))
    intro tally
    apply Spec.bind (guarded_held tally (alertTransition_held t))
    intro tally
    apply Spec.bind (fireTriggers_held registry t tally)
    intro tally
    unfold linkResolution
    split
    · exact guarded_held tally builtin_held
    · exact Spec.pure fun _ h => h
  · exact Spec.pure fun _ h => h

theorem backlog_held {body : Tuple → Op Bool}
    (hbody : ∀ t, Spec (Held c) (body t) (fun _ => Held c) (Erred c)) (p : Tuple → Bool) :
    Spec (Held c) (do
      let h ← Act.get
      (h.scan p).foldlM (fun fired t => do
        let reacted ← body t
        pure (if reacted then fired + 1 else fired)) 0)
      (fun _ => Held c) (Erred c) := by
  apply Spec.bind (Spec.get (Q := fun _ => Held c) fun _ h => h)
  intro h
  apply Spec.foldlM (I := fun _ _ => Held c)
  intro _ t fired _
  exact Spec.bind (hbody t) fun _ => Spec.pure fun _ h => h

theorem backlogPasses_held (fired : Nat) :
    Spec (Held c) (backlogPasses c fired) (fun _ => Held c) (Erred c) := by
  apply Spec.bind (backlog_held ciTransition_held _)
  intro ci
  apply Spec.bind (backlog_held alertTransition_held _)
  intro alerts
  apply Spec.bind (drainQueuedFires_held c.triggers)
  intro drained
  exact Spec.bind (attempt_held builtin_held) fun _ => Spec.pure fun _ h => h

theorem runCycle_held (registry : Option RepoRegistry) :
    Spec (Held c) (runCycle c registry) (fun _ => Held c) (Erred c) := by
  have hnoted : ∀ span : Nat × Nat, Spec (Held c)
      (Act.modify fun h => { h with reads := span :: h.reads } : Op PUnit) (fun _ => Held c)
      (Erred c) := fun span => held_pause fun h =>
    ⟨⟨rfl, rfl, fun _ => Nat.le_refl _, Nat.le_refl _⟩, fun _ => id⟩
  apply Spec.bind (Spec.get (Q := fun _ => Held c) fun _ h => h)
  intro h
  simp only
  by_cases hahead : h.latestPersistenceSequence < h.cursorFile.getD 0
  · rw [if_pos hahead]
    exact Spec.raise fun _ h => h
  · rw [if_neg hahead]
    apply Spec.bind (hnoted _)
    intro _
    cases registry with
    | none => exact Spec.raise fun _ h => h
    | some registry =>
      apply Spec.bind (Spec.foldlM (I := fun _ _ => Held c) _
        (fun _ r tally _ => reactToRecord_held registry tally r) _)
      intro tally
      apply Spec.bind (held_pause (advanceCursor_pause c tally _ _))
      exact fun _ => backlogPasses_held tally.fired

variable {h : Host}

theorem Storm.script (hs : Storm c h) (up : Bool) (turns : List Turn) :
    Storm c { h with up, turns } := ⟨⟨hs.bounded.live, hs.bounded.spread⟩, hs.past, hs.window⟩

theorem storm_restart (h : Host) : Storm c h.restart where
  bounded := ⟨fun _ hl => (not_mem_nil hl).elim, fun _ _ => Nat.zero_le _⟩
  past := fun _ hl => (not_mem_nil hl).elim
  window := fun _ _ _ => Nat.zero_le _

theorem execute_storm {m : Op α} {P : Host → Prop} (hm : Spec P m (fun _ => Storm c)
      fun x h => match x with
        | .gone => True
        | .error _ => Storm c h) {h : Host} {turns : List Turn}
    (hP : P { h with turns }) : Storm c (h.execute turns m) := by
  have hfin := hm _ hP
  unfold execute
  revert hfin
  match m { h with turns } with
  | (.ok a, h') | (.error (.error e), h') => exact fun hfin => hfin.script h'.up []
  | (.error .gone, h') => exact fun _ => storm_restart h'

theorem execute_pause (hm : Moves Pause m) (turns : List Turn) (hs : Storm c h) :
    Storm c (h.execute turns m) := by
  apply execute_storm (P := Storm c)
  · apply (spec_pause lasting_storm hm).mono (fun _ h => h) (fun _ _ h => h)
    intro x h hh
    cases x with
    | gone => trivial
    | error e => exact hh
  · exact hs.script h.up turns

end

def Label.records : Label → Prop
  | .cycle _ turns => ∀ turn ∈ turns, turn.Records
  | _ => True

instance : (l : Label) → Decidable l.records
  | .start _ => isTrue trivial
  | .cycle _ turns => inferInstanceAs (Decidable (∀ _ ∈ _, _))
  | .quiet _ | .stop => isTrue trivial

section
variable {c : Castle}

theorem step_storm {h h' : Host} {l : Label} (hs : Storm c h) (hstep : step c h l = some h')
    (hg : l.records) : Storm c h' := by
  cases l with
  | start turn =>
    simp only [step] at hstep
    split at hstep
    · cases hstep
    · cases hstep
      exact execute_pause (initializeCursor_pause c) [turn] (hs.script true h.turns)
  | cycle registry turns =>
    simp only [step] at hstep
    split at hstep
    · cases hstep
      apply execute_storm (P := Held c)
      · apply (runCycle_held registry).mono (fun _ h => h) (fun _ _ h => h.1)
        intro x h hh
        cases x with
        | gone => trivial
        | error e => exact hh.1
      · exact ⟨hs.script h.up turns, hg⟩
    · cases hstep
  | quiet turn =>
    cases hstep
    exact execute_pause (pause_of_calm (turn_calm (c := c) fun _ h => h)) [turn] hs
  | stop =>
    simp only [step] at hstep
    split at hstep
    · cases hstep
      exact storm_restart h
    · cases hstep

end

/-- In every run in which no write behind a launch fails, every launch leaves its trigger
within its `maxInFlight` cap, and no window of the configured length has more fresh launches
of a trigger than its effective `maxFires`. -/
theorem launches_bounded (c : Castle) (labels : List Label)
    (hr : Meets (step c) (fun _ l => l.records) empty labels) :
    Keeps (step c) c.Bounded empty labels := by
  have hk := keeps_of_meets (P := Storm c) (fun h l h' hs hstep hg => step_storm hs hstep hg)
    (storm_restart empty) hr
  exact Keeps.mono (fun h hs => hs.bounded) hk

def sparingCastle : Castle :=
  { reviewCastle "review" with
    triggers := [⟨{ name := "review", matcher := { category := some "event" }, run := "review"
                    maxFires := some 1, maxInFlight := some 2 }, none⟩] }

/-- Two events are reviewed in one cycle; `fate` decides the marker of the first. -/
def twoReviews (fate : Fate) : List Label :=
  [.start {}, .quiet { arrivals := [event 1 "barn" "task_done" [], event 2 "barn" "task_done" []] },
    .cycle (some [("barn", "/barn")])
      (List.replicate 4 { fate := fun site => if site = .firedMarker then fate else .done })]

/-- The launch whose marker fails is not in the window the second fire is checked against. -/
theorem failed_marker_overfills_window :
    ¬ Keeps (step sparingCastle) sparingCastle.Bounded empty (twoReviews .fails) := by
  intro hk
  have hover : (run (step sparingCastle) empty (twoReviews .fails)).any (fun h =>
      sparingCastle.triggers.any fun loaded => decide (sparingCastle.fireCap loaded.trigger <
        h.launches.countP (sparingCastle.launchedIn loaded.trigger 0))) = true := by
    decide +kernel
  obtain ⟨h, hrun, hover⟩ := run_of_any hover
  obtain ⟨loaded, -, hlt⟩ := any_eq_true.mp hover
  have hle := (hk.last hrun).spread loaded.trigger 0
  have hgt := of_decide_eq_true hlt
  omega

theorem launches_bounded_two_reviews :
    Meets (step sparingCastle) (fun _ l => l.records) empty (twoReviews .done) ∧
      Keeps (step sparingCastle) sparingCastle.Bounded empty (twoReviews .done) := by
  have hr : Meets (step sparingCastle) (fun _ l => l.records) empty (twoReviews .done) := by
    decide +kernel
  exact ⟨hr, launches_bounded sparingCastle _ hr⟩

end RatKingdom.Reactor
