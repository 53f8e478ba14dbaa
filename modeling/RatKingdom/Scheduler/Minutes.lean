/-
A scheduled minute is dispatched once.

One cursor serves every schedule.  A dispatch that fails holds it before its minute, and the
next cycle evaluates that minute again for the schedules that were dispatched for it too: what
keeps those from running twice is a run that is still going.  A name fires once in a cycle, so
of two schedules with one name only the first is tried.
-/
import RatKingdom.Scheduler.Cycle

namespace RatKingdom.Schedules

open Core Lib List Option Scheduler

def Scheduler.served (s : Scheduler) (st : State) (l : Loaded) (repos : Repos) (now : Int) : Bool :=
  match l.target.bind repos with
  | none => true
  | some path => (st.durable l.schedule path).any fun i => !s.isStale i now

def Scheduler.holds (s : Scheduler) (st : State) (l : Loaded) (repos : Repos) (now : Int) : Bool :=
  (st.remembered l.schedule.name).any (fun i => !s.isStale i now) || s.served st l repos now

section
variable {s : Scheduler} {st st' : State} {l l' : Loaded} {repos : Repos} {now : Int} {a : Attempt}
  {i : Instance} {name path : String}

theorem escalateStale_spec (s : Scheduler) (st : State) (l : Loaded) (i : Instance) (now : Int) :
    (s.escalateStale st l i now).cursor = st.cursor ∧
      (s.escalateStale st l i now).running = st.running ∧
      (s.escalateStale st l i now).instances = st.instances := by
  unfold escalateStale
  by_cases h : i.id ∈ st.escalated
  · rw [if_pos h]
    exact ⟨rfl, rfl, rfl⟩
  · rw [if_neg h]
    exact ⟨rfl, rfl, rfl⟩

theorem escalateStale_durable (sched : Schedule) :
    (s.escalateStale st l i now).durable sched path = st.durable sched path := by
  unfold State.durable
  rw [(escalateStale_spec s st l i now).2.2]

theorem storeIfAbsent_fresh {i : Instance} (h : i.id ∉ st.ids) :
    st.storeIfAbsent i = (i, { st with instances := place i st.instances }) := by
  have hn : ((st.instances ++ st.archived).find? fun j => j.id = i.id) = none := by
    apply find?_eq_none.mpr
    intro j hj heq
    apply h
    rw [State.ids, ← map_append]
    exact mem_map.mpr ⟨j, hj, of_decide_eq_true heq⟩
  unfold State.storeIfAbsent
  rw [hn]

theorem find?_place {p : Instance → Bool} {i : Instance} (h : p i = false) (l : List Instance) :
    (place i l).find? p = l.find? p := by
  induction l with
  | nil => simp [place, h]
  | cons j l ih =>
    by_cases hj : j.startedAt ≤ i.startedAt
    · rw [place, if_pos hj, find?_cons, find?_cons, ih]
    · rw [place, if_neg hj, find?_cons, h]

theorem mem_place {i j : Instance} {l : List Instance} : j ∈ place i l ↔ j = i ∨ j ∈ l := by
  induction l with
  | nil => simp [place]
  | cons k l ih =>
    unfold place
    split
    · rw [mem_cons, mem_cons, ih, or_left_comm]
    · rw [mem_cons]

theorem launch_cursor : (s.launch st l path a).2.cursor = st.cursor := by
  unfold launch runScheduled
  by_cases hf : a.fails
  · rw [if_pos hf]
  · rw [if_neg hf]
    rw [storeIfAbsent_fresh (s.prefixedId.fresh st.ids)]
    rfl

theorem launch_outcome : (s.launch st l path a).1 = if a.fails then .failed else .fired := by
  unfold launch runScheduled
  by_cases hf : a.fails
  · rw [if_pos hf, if_pos hf]
  · rw [if_neg hf, if_neg hf]

theorem resolve_cursor : (s.resolve st l repos now a).2.cursor = st.cursor := by
  unfold resolve
  cases l.target.bind repos with
  | none => rfl
  | some path =>
    cases hd : st.durable l.schedule path with
    | none => simp only [hd, launch_cursor]
    | some i =>
      cases hs : s.isStale i now with
      | false => simp only [hd, hs, Bool.false_eq_true, if_false, State.remember]
      | true => simp only [hd, hs, if_true, launch_cursor, (escalateStale_spec s st l i now).1]

theorem tryFire_cursor : (s.tryFire st l repos now a).2.cursor = st.cursor := by
  unfold tryFire
  cases st.remembered l.schedule.name with
  | none => exact resolve_cursor
  | some i =>
    cases hs : s.isStale i now with
    | false => simp only [hs, Bool.false_eq_true, if_false]
    | true => simp only [hs, if_true, resolve_cursor, (escalateStale_spec s st l i now).1]

theorem served_escalateStale :
    s.served (s.escalateStale st l' i now) l repos now = s.served st l repos now := by
  unfold served
  simp only [escalateStale_durable]

theorem resolve_fired_iff : (s.resolve st l repos now a).1 = .fired ↔
    s.served st l repos now = false ∧ a.fails = false := by
  unfold resolve served
  cases l.target.bind repos with
  | none => simp
  | some path =>
    cases hd : st.durable l.schedule path with
    | none => cases hf : a.fails <;> simp [hd, launch_outcome, hf]
    | some i => cases hs : s.isStale i now <;> cases hf : a.fails <;> simp [hd, hs, launch_outcome, hf]

theorem tryFire_fired_iff : (s.tryFire st l repos now a).1 = .fired ↔
    s.holds st l repos now = false ∧ a.fails = false := by
  unfold tryFire holds
  cases st.remembered l.schedule.name with
  | none => simpa using resolve_fired_iff
  | some i =>
    cases hs : s.isStale i now with
    | false => simp [hs]
    | true =>
      have hres : (s.resolve (s.escalateStale st l i now) l repos now a).1 = .fired ↔
          s.served (s.escalateStale st l i now) l repos now = false ∧ a.fails = false :=
        resolve_fired_iff
      rw [served_escalateStale] at hres
      simpa [hs] using hres

/-- What one schedule's dispatch reads is as it was, or has grown. -/
structure Apart (name : String) (st st' : State) : Prop where
  running : st'.running name = st.running name
  status : ∀ id ∈ st.ids, id ∈ st'.ids ∧ st'.status id = st.status id
  durable : ∀ sched path, sched.name = name → st'.durable sched path = st.durable sched path

theorem Apart.refl (name : String) (st : State) : Apart name st st :=
  ⟨rfl, fun _ h => ⟨h, rfl⟩, fun _ _ _ => rfl⟩

theorem Apart.trans {st'' : State} (h : Apart name st st') (h' : Apart name st' st'') :
    Apart name st st'' :=
  ⟨h'.running.trans h.running,
    fun id hid => have hs := h.status id hid
      have hs' := h'.status id hs.1
      ⟨hs'.1, hs'.2.trans hs.2⟩,
    fun sched path hn => (h'.durable sched path hn).trans (h.durable sched path hn)⟩

theorem mem_ids_of_status {id : String} (h : st.status id = some i) : id ∈ st.ids := by
  apply mem_append_left
  exact mem_map.mpr ⟨i, mem_of_find?_eq_some h, of_decide_eq_true (find?_some h :)⟩

theorem Apart.holds (h : Apart l.schedule.name st st') (hh : s.holds st l repos now = true) :
    s.holds st' l repos now = true := by
  unfold Scheduler.holds at hh ⊢
  rw [Bool.or_eq_true] at hh ⊢
  cases hh with
  | inl hr =>
    left
    obtain ⟨i, hi, hs⟩ := any_eq_true _ _ |>.mp hr
    obtain ⟨hb, hrun⟩ := filter_eq_some_iff.mp hi
    obtain ⟨id, hid, hst⟩ := bind_eq_some_iff.mp hb
    refine any_eq_true _ _ |>.mpr ⟨i, ?_, hs⟩
    apply filter_eq_some_iff.mpr
    have hst' : st'.status id = some i := (h.status id (mem_ids_of_status hst)).2.trans hst
    refine ⟨bind_eq_some_iff.mpr ⟨id, ?_, hst'⟩, hrun⟩
    rw [h.running]
    exact hid
  | inr hd =>
    right
    unfold Scheduler.served at hd ⊢
    cases hp : l.target.bind repos with
    | none => rfl
    | some path =>
      rw [hp] at hd
      simpa only [h.durable l.schedule path rfl] using hd

/-- What a schedule remembers is a run on record, and nothing that is going is found for it. -/
def State.Unmeasured (st : State) (l : Loaded) (repos : Repos) : Prop :=
  (∀ id ∈ st.running l.schedule.name, id ∈ st.ids) ∧ st.measures l repos = false

theorem Apart.unmeasured (h : Apart l.schedule.name st st') (hu : st.Unmeasured l repos) :
    st'.Unmeasured l repos := by
  obtain ⟨hids, hm⟩ := hu
  have hremembered : st'.remembered l.schedule.name = st.remembered l.schedule.name := by
    unfold State.remembered
    rw [h.running]
    cases hr : st.running l.schedule.name with
    | none => rfl
    | some id => rw [bind_some, bind_some, (h.status id (hids id hr)).2]
  refine ⟨?_, ?_⟩
  · rw [h.running]
    exact fun id hid => (h.status id (hids id hid)).1
  · unfold State.measures at hm ⊢
    simp only [hremembered, h.durable l.schedule _ rfl]
    exact hm

theorem apart_escalateStale : Apart name st (s.escalateStale st l i now) := by
  have hids : (s.escalateStale st l i now).ids = st.ids := by
    unfold escalateStale
    split <;> rfl
  obtain ⟨-, hr, hi⟩ := escalateStale_spec s st l i now
  refine ⟨by rw [hr], ?_, fun sched path _ => escalateStale_durable sched⟩
  intro id hid
  rw [hids, State.status, hi]
  exact ⟨hid, rfl⟩

theorem apart_remember {id : String} (hne : name ≠ l.schedule.name) :
    Apart name st (st.remember l.schedule.name id) :=
  ⟨if_neg hne, fun _ h => ⟨h, rfl⟩, fun _ _ _ => rfl⟩

section
variable (hne : name ≠ l.schedule.name)
include hne

theorem apart_runScheduled : Apart name st (s.runScheduled st l.schedule path a).2 := by
  unfold runScheduled
  by_cases hf : a.fails
  · rw [if_pos hf]
    exact .refl name st
  · rw [if_neg hf]
    rw [storeIfAbsent_fresh (s.prefixedId.fresh st.ids)]
    refine ⟨rfl, ?_, ?_⟩
    · intro id hid
      have hne : s.prefixedId.next st.ids ≠ id := fun h => s.prefixedId.fresh st.ids (h ▸ hid)
      refine ⟨?_, find?_place (decide_eq_false hne) st.instances⟩
      rcases mem_append.mp hid with hid | hid
      · apply mem_append_left
        obtain ⟨i, hi, rfl⟩ := mem_map.mp hid
        exact mem_map_of_mem (mem_place.mpr (.inr hi))
      · exact mem_append_right _ hid
    · intro sched path' hn
      apply find?_place
      unfold Instance.serves
      have hother : ¬ l.schedule.name = sched.name := fun h => hne (hn ▸ h.symm)
      simp [hother]

theorem apart_launch : Apart name st (s.launch st l path a).2 := by
  have hrun : Apart name st (s.runScheduled st l.schedule path a).2 := apart_runScheduled hne
  unfold launch
  cases hr : s.runScheduled st l.schedule path a with
  | mk stored st' =>
    rw [hr] at hrun
    cases stored with
    | none => exact hrun
    | some i => exact hrun.trans (apart_remember hne)

theorem apart_resolve : Apart name st (s.resolve st l repos now a).2 := by
  unfold resolve
  cases l.target.bind repos with
  | none => exact .refl name st
  | some path =>
    cases hd : st.durable l.schedule path with
    | none => simpa only [hd] using apart_launch hne
    | some i =>
      cases hs : s.isStale i now with
      | false => simpa only [hd, hs, Bool.false_eq_true, if_false] using apart_remember hne
      | true => simpa only [hd, hs, if_true] using apart_escalateStale.trans (apart_launch hne)

theorem apart_tryFire : Apart name st (s.tryFire st l repos now a).2 := by
  unfold tryFire
  cases st.remembered l.schedule.name with
  | none => exact apart_resolve hne
  | some i =>
    cases hs : s.isStale i now with
    | false => simpa only [hs, Bool.false_eq_true, if_false] using .refl name st
    | true => simpa only [hs, if_true] using apart_escalateStale.trans (apart_resolve hne)

end

end

theorem minuteOf_le {t now : Int} (h : t ≤ now) : minuteOf t ≤ minuteOf now :=
  Int.ediv_le_ediv (by decide : (0 : Int) < minuteLength) h

def due (cron : Cron) (start nowMin : Int) : Bool := (minutes start nowMin).any cron

theorem mem_minutes {start nowMin m : Int} : m ∈ minutes start nowMin ↔ start ≤ m ∧ m ≤ nowMin := by
  unfold minutes
  rw [List.mem_map]
  constructor
  · rintro ⟨k, hk, rfl⟩
    have hlt := mem_range.mp hk
    simp only [Int.ofNat_eq_natCast]
    omega
  · intro h
    refine ⟨(m - start).toNat, mem_range.mpr (by omega), ?_⟩
    simp only [Int.ofNat_eq_natCast]
    omega

theorem mem_visits {s : Scheduler} {start nowMin : Int} {v : Visit} :
    v ∈ s.visits start nowMin ↔
      v.minute ∈ minutes start nowMin ∧ s.parsed[v.index]? = some (v.loaded, v.cron) := by
  unfold visits
  rw [mem_flatMap]
  constructor
  · rintro ⟨m, hm, hv⟩
    obtain ⟨e, he, rfl⟩ := mem_map.mp hv
    exact ⟨hm, mem_zipIdx_iff_getElem?.mp he⟩
  · rintro ⟨hm, hv⟩
    refine ⟨v.minute, hm, mem_map.mpr ⟨((v.loaded, v.cron), v.index), ?_, rfl⟩⟩
    exact mem_zipIdx_iff_getElem?.mpr hv

section
variable {s : Scheduler} {st : State} {repos : Repos} {cy : Cycle} {start : Int} {lp : Loop}
  {v : Visit}

structure Sound (s : Scheduler) (st : State) (repos : Repos) (cy : Cycle) (start : Int)
    (lp : Loop) : Prop where
  cursor : lp.st.cursor = st.cursor
  failed : ∀ m, lp.failedMinute = some m → m ∈ minutes start (minuteOf cy.now)
  entry : ∀ d ∈ lp.dispatches, d.cycle = minuteOf cy.now ∧
    d.minute ∈ minutes start (minuteOf cy.now) ∧
    ∃ e, s.parsed[d.index]? = some e ∧ e.2 d.minute = true ∧ e.1.schedule.name ∈ lp.firedNames
  named : ∀ name ∈ lp.firedNames, ∃ d ∈ lp.dispatches, ∃ e, s.parsed[d.index]? = some e ∧
    e.1.schedule.name = name
  once : lp.dispatches.Pairwise fun d d' => d.index ≠ d'.index
  waiting : ∀ l : Loaded, l.schedule.name ∉ lp.firedNames →
    s.holds st l repos cy.now = true → s.holds lp.st l repos cy.now = true
  unmeasured : ∀ l : Loaded, l.schedule.name ∉ lp.firedNames →
    st.Unmeasured l repos → lp.st.Unmeasured l repos
  held : ∀ d ∈ lp.dispatches, ∀ e, s.parsed[d.index]? = some e →
    s.holds st e.1 repos cy.now = true ∨ (cy.attempts d.index).fails = true → d.outcome ≠ .fired

theorem sound_start : Sound s st repos cy start ⟨st, [], none, 0, []⟩ where
  cursor := rfl
  failed m h := by cases h
  entry d hd := by cases hd
  named name hn := by cases hn
  once := List.Pairwise.nil
  waiting _ _ h := h
  unmeasured _ _ h := h
  held d hd := by cases hd

theorem visit_due (hn : v.loaded.schedule.name ∉ lp.firedNames) (hc : v.cron v.minute = true) :
    s.visit repos cy lp v =
      { st := (s.tryFire lp.st v.loaded repos cy.now (cy.attempts v.index)).2
        firedNames := v.loaded.schedule.name :: lp.firedNames
        failedMinute :=
          if (s.tryFire lp.st v.loaded repos cy.now (cy.attempts v.index)).1 = .failed
          then lp.failedMinute <|> some v.minute else lp.failedMinute
        fired := if (s.tryFire lp.st v.loaded repos cy.now (cy.attempts v.index)).1 = .fired
          then lp.fired + 1 else lp.fired
        dispatches := lp.dispatches ++ [⟨v.index, v.minute, minuteOf cy.now,
          (s.tryFire lp.st v.loaded repos cy.now (cy.attempts v.index)).1⟩] } := by
  rw [visit, if_neg hn, if_pos hc]

theorem visit_idle (h : v.loaded.schedule.name ∈ lp.firedNames ∨ v.cron v.minute = false) :
    s.visit repos cy lp v = lp := by
  unfold visit
  by_cases hn : v.loaded.schedule.name ∈ lp.firedNames
  · rw [if_pos hn]
  · have hc : v.cron v.minute = false := h.resolve_left hn
    rw [if_neg hn, hc, if_neg Bool.false_ne_true]

theorem sound_visit (h : Sound s st repos cy start lp) (hv : v ∈ s.visits start (minuteOf cy.now)) :
    Sound s st repos cy start (s.visit repos cy lp v) := by
  by_cases hn : v.loaded.schedule.name ∈ lp.firedNames
  · rw [visit_idle (.inl hn)]
    exact h
  cases hc : v.cron v.minute with
  | false =>
    rw [visit_idle (.inr hc)]
    exact h
  | true =>
    obtain ⟨hm, hp⟩ := mem_visits.mp hv
    rw [visit_due hn hc]
    constructor
    · exact tryFire_cursor.trans h.cursor
    · intro m hfm
      simp only at hfm
      split at hfm
      · cases hlf : lp.failedMinute with
        | none =>
          rw [hlf] at hfm
          cases hfm
          exact hm
        | some m' =>
          rw [hlf] at hfm
          cases hfm
          exact h.failed _ hlf
      · exact h.failed m hfm
    · intro d hd
      rcases mem_append.mp hd with hd | hd
      · obtain ⟨hcy, hdm, e, he, hce, hne⟩ := h.entry d hd
        exact ⟨hcy, hdm, e, he, hce, mem_cons_of_mem _ hne⟩
      · obtain rfl := mem_singleton.mp hd
        exact ⟨rfl, hm, _, hp, hc, mem_cons_self⟩
    · intro name hname
      rcases mem_cons.mp hname with rfl | hname
      · exact ⟨_, mem_append_right _ (mem_singleton.mpr rfl), _, hp, rfl⟩
      · obtain ⟨d, hd, e, he, hen⟩ := h.named name hname
        exact ⟨d, mem_append_left _ hd, e, he, hen⟩
    · apply pairwise_append.mpr
      refine ⟨h.once, pairwise_singleton _ _, ?_⟩
      intro d hd d' hd' heq
      obtain rfl := mem_singleton.mp hd'
      -- An earlier dispatch of this schedule would have fired its name.
      obtain ⟨-, -, e, he, -, hne⟩ := h.entry d hd
      rw [heq, hp] at he
      cases he
      exact hn hne
    · intro l hl hh
      have hne : l.schedule.name ≠ v.loaded.schedule.name := fun heq => hl (heq ▸ mem_cons_self)
      have hkeep := h.waiting l (fun hmem => hl (mem_cons_of_mem _ hmem)) hh
      exact (apart_tryFire hne).holds hkeep
    · intro l hl hu
      have hne : l.schedule.name ≠ v.loaded.schedule.name := fun heq => hl (heq ▸ mem_cons_self)
      exact (apart_tryFire hne).unmeasured
        (h.unmeasured l (fun hmem => hl (mem_cons_of_mem _ hmem)) hu)
    · refine forall_mem_append.mpr ⟨h.held, ?_⟩
      intro d hd e he hor
      obtain rfl := mem_singleton.mp hd
      rw [hp] at he
      cases he
      intro hfired
      obtain ⟨hfree, hok⟩ := tryFire_fired_iff.mp hfired
      cases hor with
      | inl hholds => simp [h.waiting _ hn hholds] at hfree
      | inr hfails => simp [hfails] at hok

theorem sound_visitAll {vs : List Visit} (hvs : ∀ v ∈ vs, v ∈ s.visits start (minuteOf cy.now))
    (h : Sound s st repos cy start lp) :
    Sound s st repos cy start (s.visitAll repos cy vs lp).1 := by
  induction vs generalizing lp with
  | nil => exact h
  | cons v vs ih =>
    obtain ⟨hv, hvs⟩ := forall_mem_cons.mp hvs
    unfold visitAll
    by_cases hp : s.panics repos lp v = true
    · rw [if_pos hp]
      exact h
    · rw [if_neg hp]
      exact ih hvs (sound_visit h hv)

theorem sound_evaluate (s : Scheduler) (st : State) (repos : Repos) (cy : Cycle) (start : Int) :
    Sound s st repos cy start (s.evaluate st repos cy start).1 :=
  sound_visitAll (fun _ hv => hv) sound_start

/-- No panic cuts the visits short where no age is measured. -/
theorem visitAll_unmeasured {vs : List Visit} (hvs : ∀ v ∈ vs, v ∈ s.visits start (minuteOf cy.now))
    (hq : s.overlong = true → ∀ v ∈ vs, v.cron v.minute = true → st.Unmeasured v.loaded repos)
    (h : Sound s st repos cy start lp) :
    s.visitAll repos cy vs lp = (vs.foldl (s.visit repos cy) lp, false) := by
  induction vs generalizing lp with
  | nil => rfl
  | cons v vs ih =>
    obtain ⟨hv, hvs⟩ := forall_mem_cons.mp hvs
    have hp : ¬ s.panics repos lp v = true := by
      intro hp
      simp only [panics, Bool.and_eq_true, decide_eq_true_eq] at hp
      obtain ⟨⟨⟨hover, hn⟩, hc⟩, hm⟩ := hp
      have hu := h.unmeasured _ hn (hq hover v mem_cons_self hc)
      rw [hu.2] at hm
      cases hm
    unfold visitAll
    rw [if_neg hp]
    exact ih hvs (fun hover w hw => hq hover w (mem_cons_of_mem _ hw)) (sound_visit h hv)

theorem firedNames_visit {name : String} (h : name ∈ lp.firedNames) :
    name ∈ (s.visit repos cy lp v).firedNames := by
  by_cases hn : v.loaded.schedule.name ∈ lp.firedNames
  · rw [visit_idle (.inl hn)]
    exact h
  cases hc : v.cron v.minute with
  | false =>
    rw [visit_idle (.inr hc)]
    exact h
  | true =>
    rw [visit_due hn hc]
    exact mem_cons_of_mem _ h

theorem firedNames_foldl {name : String} (vs : List Visit) (lp : Loop)
    (h : name ∈ lp.firedNames ∨ ∃ v ∈ vs, v.loaded.schedule.name = name ∧ v.cron v.minute = true) :
    name ∈ (vs.foldl (s.visit repos cy) lp).firedNames := by
  induction vs generalizing lp with
  | nil =>
    rcases h with h | ⟨v, hv, -⟩
    · exact h
    · cases hv
  | cons v vs ih =>
    apply ih
    rcases h with h | ⟨w, hw, hname, hc⟩
    · exact .inl (firedNames_visit h)
    rcases mem_cons.mp hw with rfl | hw
    · left
      by_cases hn : w.loaded.schedule.name ∈ lp.firedNames
      · exact firedNames_visit (hname ▸ hn)
      · rw [visit_due hn hc, hname]
        exact mem_cons_self
    · exact .inr ⟨w, hw, hname, hc⟩

def Scheduler.Named (s : Scheduler) (start nowMin : Int) : Prop :=
  s.parsed.Pairwise fun e f => due e.2 start nowMin = true → due f.2 start nowMin = true →
    e.1.schedule.name ≠ f.1.schedule.name
deriving Decidable

theorem Scheduler.Named.index_eq {nowMin : Int} (h : s.Named start nowMin) {i j : Nat}
    {e f : Loaded × Cron} (he : s.parsed[i]? = some e) (hf : s.parsed[j]? = some f)
    (hde : due e.2 start nowMin = true) (hdf : due f.2 start nowMin = true)
    (hn : e.1.schedule.name = f.1.schedule.name) : i = j := by
  obtain ⟨hi, rfl⟩ := List.getElem?_eq_some_iff.mp he
  obtain ⟨hj, rfl⟩ := List.getElem?_eq_some_iff.mp hf
  have hpair := pairwise_iff_getElem.mp h
  rcases Nat.lt_trichotomy i j with hij | hij | hij
  · exact absurd hn (hpair i j hi hj hij hde hdf)
  · exact hij
  · exact absurd hn.symm (hpair j i hj hi hij hdf hde)

/-- Where the staleness bound is past the longest duration, a cycle finds no run that is going
for a schedule it comes to. -/
def Scheduler.Measurable (s : Scheduler) (st : State) (repos : Repos) (start nowMin : Int) : Prop :=
  s.overlong = true → ∀ e ∈ s.parsed, due e.2 start nowMin = true → st.Unmeasured e.1 repos

theorem evaluate_eq (hm : s.Measurable st repos start (minuteOf cy.now)) :
    s.evaluate st repos cy start = ((s.visits start (minuteOf cy.now)).foldl (s.visit repos cy)
      ⟨st, [], none, 0, []⟩, false) := by
  refine visitAll_unmeasured (fun _ hv => hv) (fun hover v hv hc => ?_) sound_start
  obtain ⟨hmin, hp⟩ := mem_visits.mp hv
  exact hm hover (v.loaded, v.cron) (mem_of_getElem? hp) (any_eq_true.mpr ⟨v.minute, hmin, hc⟩)

theorem tried_of_due (hn : s.Named start (minuteOf cy.now))
    (hmeasurable : s.Measurable st repos start (minuteOf cy.now)) {i : Nat} {e : Loaded × Cron}
    (he : s.parsed[i]? = some e) (hd : due e.2 start (minuteOf cy.now) = true) :
    ∃ d ∈ (s.evaluate st repos cy start).1.dispatches, d.index = i ∧ d.cycle = minuteOf cy.now := by
  have hsound := sound_evaluate s st repos cy start
  obtain ⟨m, hm, hc⟩ := any_eq_true.mp hd
  have hfired : e.1.schedule.name ∈ (s.evaluate st repos cy start).1.firedNames := by
    rw [evaluate_eq hmeasurable]
    apply firedNames_foldl
    exact .inr ⟨⟨m, e.1, e.2, i⟩, mem_visits.mpr ⟨hm, he⟩, rfl, hc⟩
  obtain ⟨d, hdm, f, hf, hfn⟩ := hsound.named _ hfired
  obtain ⟨hcy, hmin, f', hf', hcf, -⟩ := hsound.entry d hdm
  rw [hf] at hf'
  cases hf'
  have hdf : due f.2 start (minuteOf cy.now) = true := any_eq_true.mpr ⟨d.minute, hmin, hcf⟩
  exact ⟨d, hdm, hn.index_eq hf he hdf hd hfn, hcy⟩

end

/-- A later dispatch of a schedule does not run it again for a minute that an earlier one,
which did not fail, has accounted for. -/
def Dispatch.Apart (d d' : Dispatch) : Prop :=
  d.index = d'.index → d.outcome ≠ .failed → d'.minute ≤ d.cycle → d'.outcome ≠ .fired
deriving Decidable

def Once (log : List Dispatch) : Prop := log.Pairwise Dispatch.Apart
deriving Decidable

/-- A schedule's minute has been passed by a cycle, and was in the look-back of the first that
did. -/
def Scheduler.InScope (s : Scheduler) (c0 : Int) (cycles : List Int) (cron : Cron) (m : Int) :
    Prop :=
  cron m = true ∧ c0 < m ∧ ∃ n, cycles.find? (fun n => m ≤ n) = some n ∧ n - s.catchup ≤ m

/-- Every minute in scope was covered by a dispatch that did not fail, in a cycle at or after
it, or the schedule's own dispatch failed in the latest cycle. -/
def Scheduler.Covered (s : Scheduler) (c0 : Int) (d : Diary) : Prop :=
  ∀ i e, s.parsed[i]? = some e → ∀ m, s.InScope c0 d.cycles e.2 m →
    (∃ x ∈ d.log, x.index = i ∧ x.outcome ≠ .failed ∧ m ≤ x.cycle) ∨
      ∃ x ∈ d.latest, x.index = i ∧ x.outcome = .failed

def Scheduler.Exact (s : Scheduler) (c0 : Int) (d : Diary) : Prop := Once d.log ∧ s.Covered c0 d

/-- Where a cycle comes back to a minute that a dispatch has accounted for, nothing is launched
for that schedule: something holds it, or the launch fails. -/
def Scheduler.Retired (s : Scheduler) (d : Diary) (cy : Cycle) (start : Int) (repos : Repos) :
    Prop :=
  ∀ x ∈ d.log, x.outcome ≠ .failed → ∀ e ∈ s.parsed[x.index]?,
    ∀ m ∈ minutes start (minuteOf cy.now), e.2 m = true → m ≤ x.cycle →
      s.holds d.st e.1 repos cy.now = true ∨ (cy.attempts x.index).fails = true
deriving Decidable

/-- A failed dispatch is tried again: its schedule is due in the next cycle. -/
def Scheduler.Pending (s : Scheduler) (d : Diary) (start nowMin : Int) : Prop :=
  ∀ x ∈ d.latest, x.outcome = .failed → ∀ e ∈ s.parsed[x.index]?, due e.2 start nowMin = true
deriving Decidable

/-- Where a cycle finds no cursor, a minute within its look-back has been passed by a cycle
before it, or its schedule is due in the current minute. -/
def Scheduler.Passed (s : Scheduler) (c0 : Int) (d : Diary) (nowMin : Int) : Prop :=
  d.st.cursor = none → ∀ e ∈ s.parsed, ∀ m ∈ minutes (max (c0 + 1) (nowMin - s.catchup)) nowMin,
    e.2 m = true → e.2 nowMin = true ∨ ∃ n ∈ d.cycles, m ≤ n
deriving Decidable

def Scheduler.Calm (s : Scheduler) (c0 : Int) (d : Diary) : Move → Prop
  | .cycle cy => ∀ start ∈ s.start d.st.cursor (minuteOf cy.now), ∀ repos ∈ cy.registry,
      s.Named start (minuteOf cy.now) ∧ s.Retired d cy start repos ∧
        s.Pending d start (minuteOf cy.now) ∧ s.Passed c0 d (minuteOf cy.now) ∧
        s.Measurable d.st repos start (minuteOf cy.now)
  | _ => True

instance decidableMeasurable (s : Scheduler) (st : State) (repos : Repos) (start nowMin : Int) :
    Decidable (s.Measurable st repos start nowMin) :=
  have _ (l : Loaded) : Decidable (st.Unmeasured l repos) := inferInstanceAs (Decidable (_ ∧ _))
  inferInstanceAs (Decidable (_ → _))

instance decidableCalm (s : Scheduler) (c0 : Int) (d : Diary) : ∀ m, Decidable (s.Calm c0 d m)
  | .cycle cy => inferInstanceAs (Decidable (∀ _ ∈ _, _))
  | .settle _ _ | .other _ | .archive _ | .restart => isTrue trivial

section
variable {s : Scheduler} {c0 : Int} {d d' : Diary} {cy : Cycle} {start : Int} {repos : Repos}

/-- What every cycle keeps: the cursor is no further than the minutes that were evaluated. -/
structure Kept (s : Scheduler) (c0 : Int) (d : Diary) : Prop where
  cursor : ∀ c, d.st.cursor = some c → c ≤ c0 ∨ ∃ n ∈ d.cycles, c ≤ n
  past : ∀ n ∈ d.cycles, ∃ t, d.lastNow = some t ∧ n ≤ minuteOf t
  exact : s.Exact c0 d

theorem cycle_eq (hs : s.start d.st.cursor (minuteOf cy.now) = some start)
    (hr : cy.registry = some repos) :
    s.cycle d cy =
      { st := if (s.evaluate d.st repos cy start).2 then (s.evaluate d.st repos cy start).1.st
          else ((s.evaluate d.st repos cy start).1.finish d.st.cursor cy).2
        lastNow := some cy.now
        log := d.log ++ (s.evaluate d.st repos cy start).1.dispatches
        latest := (s.evaluate d.st repos cy start).1.dispatches
        cycles := d.cycles ++ [minuteOf cy.now] } := by
  unfold cycle
  rw [hs, hr]

theorem Sound.advanceTo_le {lp : Loop} (h : Sound s d.st repos cy start lp) :
    lp.advanceTo (minuteOf cy.now) ≤ minuteOf cy.now := by
  unfold Loop.advanceTo
  cases hm : lp.failedMinute with
  | none => exact Int.le_refl _
  | some m =>
    have := (mem_minutes.mp (h.failed m hm)).2
    simp only
    omega

theorem finish_cursor (cy : Cycle) {lp : Loop} {cursor : Option Int} (hst : lp.st.cursor = cursor) :
    (lp.finish cursor cy).2.cursor = cursor ∨ (lp.finish cursor cy).2.cursor = none ∨
      (lp.finish cursor cy).2.cursor = some (lp.advanceTo (minuteOf cy.now)) := by
  unfold Loop.finish
  by_cases hc : cursor.all fun c => c < lp.advanceTo (minuteOf cy.now)
  · rw [if_pos hc]
    cases cy.save with
    | done => exact .inr (.inr rfl)
    | refused => exact .inl hst
    | torn => exact .inr (.inl rfl)
  · left
    rw [if_neg hc]
    exact hst

theorem start_le {c m : Int} (hs : s.start (some c) (minuteOf cy.now) = some start) (hc : c < m)
    (hm : minuteOf cy.now - s.catchup ≤ m) : start ≤ m := by
  unfold Scheduler.start at hs
  simp only at hs
  split at hs
  · cases hs
  · cases hs
    omega

theorem once_cycle (h : Once d.log) (hr : s.Retired d cy start repos) :
    Once (d.log ++ (s.evaluate d.st repos cy start).1.dispatches) := by
  have hsound := sound_evaluate s d.st repos cy start
  apply pairwise_append.mpr
  refine ⟨h, ?_, ?_⟩
  · apply hsound.once.imp
    intro x y hne heq
    exact absurd heq hne
  · intro x hx y hy heq hok hle
    obtain ⟨-, hmin, e, he, hce, -⟩ := hsound.entry y hy
    apply hsound.held y hy e he
    have hret := hr x hx hok e (heq ▸ he) y.minute hmin hce hle
    rwa [heq] at hret

theorem covered_cycle (h : s.Covered c0 d)
    (hcur : ∀ c, d.st.cursor = some c → c ≤ c0 ∨ ∃ n ∈ d.cycles, c ≤ n)
    (hpast : ∀ n ∈ d.cycles, n ≤ minuteOf cy.now)
    (hs : s.start d.st.cursor (minuteOf cy.now) = some start)
    (hreg : cy.registry = some repos) (hn : s.Named start (minuteOf cy.now))
    (hp : s.Pending d start (minuteOf cy.now)) (hpassed : s.Passed c0 d (minuteOf cy.now))
    (hmeasurable : s.Measurable d.st repos start (minuteOf cy.now)) :
    s.Covered c0 (s.cycle d cy) := by
  rw [cycle_eq hs hreg]
  intro i e he m hm
  obtain ⟨hcm, hc0, n, hfind, hback⟩ := hm
  simp only at hfind ⊢
  -- A schedule that is due now has a dispatch in this cycle, and it failed or covers.
  have hnow : m ≤ minuteOf cy.now → due e.2 start (minuteOf cy.now) = true →
      (∃ x ∈ d.log ++ (s.evaluate d.st repos cy start).1.dispatches,
        x.index = i ∧ x.outcome ≠ .failed ∧ m ≤ x.cycle) ∨
      ∃ x ∈ (s.evaluate d.st repos cy start).1.dispatches, x.index = i ∧ x.outcome = .failed := by
    intro hmn hdue
    have htried : ∃ x ∈ (s.evaluate d.st repos cy start).1.dispatches,
        x.index = i ∧ x.cycle = minuteOf cy.now := tried_of_due hn hmeasurable he hdue
    obtain ⟨x, hx, hxi, hxc⟩ := htried
    by_cases hfail : x.outcome = .failed
    · exact .inr ⟨x, hx, hxi, hfail⟩
    · exact .inl ⟨x, mem_append_right _ hx, hxi, hfail, hxc ▸ hmn⟩
  rw [find?_append] at hfind
  cases hold : d.cycles.find? fun n => m ≤ n with
  | none =>
    -- This is the first cycle past the minute.
    rw [hold, none_or] at hfind
    have hfresh : ∀ n ∈ d.cycles, n < m := by
      intro n' hn'
      have := find?_eq_none.mp hold n' hn'
      simpa using this
    obtain ⟨hmem, hmn⟩ : n ∈ [minuteOf cy.now] ∧ m ≤ n :=
      ⟨mem_of_find?_eq_some hfind, of_decide_eq_true (find?_some hfind :)⟩
    obtain rfl := mem_singleton.mp hmem
    cases hc : d.st.cursor with
    | some c =>
      have hcm' : c < m := by
        rcases hcur c hc with hle | ⟨n', hn', hle⟩
        · omega
        · have := hfresh n' hn'
          omega
      rw [hc] at hs
      have hstart : start ≤ m := start_le hs hcm' hback
      exact hnow hmn (any_eq_true.mpr ⟨m, mem_minutes.mpr ⟨hstart, hmn⟩, hcm⟩)
    | none =>
      rw [hc] at hs
      cases hs
      rcases hpassed hc e (mem_of_getElem? he) m (mem_minutes.mpr (by omega)) hcm with
        hnowMin | ⟨n', hn', hle⟩
      · exact hnow hmn (any_eq_true.mpr ⟨_, mem_minutes.mpr (by omega), hnowMin⟩)
      · have := hfresh n' hn'
        omega
  | some n' =>
    rw [hold] at hfind
    cases hfind
    rcases h i e he m ⟨hcm, hc0, n, hold, hback⟩ with ⟨x, hx, hrest⟩ | ⟨x, hx, hxi, hfail⟩
    · exact .inl ⟨x, mem_append_left _ hx, hrest⟩
    · have hdue := hp x hx hfail e (hxi ▸ he)
      have hmn' : m ≤ n := of_decide_eq_true (find?_some hold :)
      have hnn : n ≤ minuteOf cy.now := hpast n (mem_of_find?_eq_some hold)
      exact hnow (by omega) hdue

theorem kept_cycle (h : Kept s c0 d) (ht : d.lastNow.all (fun t => t ≤ cy.now) = true)
    (hg : s.Calm c0 d (.cycle cy)) : Kept s c0 (s.cycle d cy) := by
  obtain ⟨hcur, hpast, honce, hcov⟩ := h
  have hpast' : ∀ n ∈ d.cycles, n ≤ minuteOf cy.now := by
    intro n hn
    obtain ⟨t, hl, hnt⟩ := hpast n hn
    rw [hl] at ht
    exact Int.le_trans hnt (minuteOf_le (of_decide_eq_true ht))
  cases hs : s.start d.st.cursor (minuteOf cy.now) with
  | none =>
    have heq : s.cycle d cy = { d with lastNow := some cy.now } := by
      unfold cycle
      rw [hs]
    rw [heq]
    exact ⟨hcur, fun n hn => ⟨cy.now, rfl, hpast' n hn⟩, honce, hcov⟩
  | some start =>
    cases hr : cy.registry with
    | none =>
      have heq : s.cycle d cy = { d with lastNow := some cy.now } := by
        unfold cycle
        rw [hs, hr]
      rw [heq]
      exact ⟨hcur, fun n hn => ⟨cy.now, rfl, hpast' n hn⟩, honce, hcov⟩
    | some repos =>
      obtain ⟨hname, hret, hpend, hpassed, hmeasurable⟩ := hg start hs repos hr
      have hsound := sound_evaluate s d.st repos cy start
      have hcov' := covered_cycle hcov hcur hpast' hs hr hname hpend hpassed hmeasurable
      have hcalm : (s.evaluate d.st repos cy start).2 = false := by rw [evaluate_eq hmeasurable]
      rw [cycle_eq hs hr] at hcov' ⊢
      refine ⟨?_, ?_, once_cycle honce hret, hcov'⟩
      · intro c hc
        simp only [hcalm, Bool.false_eq_true, if_false] at hc
        rcases finish_cursor cy hsound.cursor with hold | hnone | hnew
        · rcases hcur c (hold.symm.trans hc) with hle | ⟨n, hn, hle⟩
          · exact .inl hle
          · exact .inr ⟨n, mem_append_left _ hn, hle⟩
        · rw [hnone] at hc
          cases hc
        · rw [hnew] at hc
          cases hc
          exact .inr ⟨minuteOf cy.now, mem_append_right _ (mem_singleton.mpr rfl),
            hsound.advanceTo_le⟩
      · intro n hn
        refine ⟨cy.now, rfl, ?_⟩
        rcases mem_append.mp hn with hn | hn
        · exact hpast' n hn
        · exact Int.le_of_eq (mem_singleton.mp hn)

theorem storeIfAbsent_cursor (st : State) (i : Instance) :
    (st.storeIfAbsent i).2.cursor = st.cursor := by
  unfold State.storeIfAbsent
  cases (st.instances ++ st.archived).find? fun j => j.id = i.id <;> rfl

theorem kept_step {m : Move} (h : Kept s c0 d) (hs : s.step d m = some d') (hg : s.Calm c0 d m) :
    Kept s c0 d' := by
  obtain ⟨hcur, hpast, honce, hcov⟩ := h
  cases m with
  | cycle cy =>
    simp only [step] at hs
    by_cases ht : d.lastNow.all (fun t => t ≤ cy.now) = true
    · rw [if_pos ht] at hs
      cases hs
      exact kept_cycle ⟨hcur, hpast, honce, hcov⟩ ht hg
    · rw [if_neg ht] at hs
      cases hs
  | settle id status | archive id | restart =>
    cases hs
    exact ⟨hcur, hpast, honce, hcov⟩
  | other i =>
    cases hs
    exact ⟨fun c hc => hcur c ((storeIfAbsent_cursor d.st i).symm.trans hc), hpast, honce, hcov⟩

end

/-- Where no cycle tries two schedules of one name, comes back to a minute of a schedule that
nothing holds, leaves a failed dispatch or, with its cursor lost, a minute behind, or panics,
every scheduled minute is dispatched exactly once. -/
theorem minutes_dispatched_once (s : Scheduler) (c0 : Int) (st : State) (hst : st.cursor = some c0)
    (moves : List Move) (h : Meets s.step (s.Calm c0) (Diary.open st) moves) :
    Keeps s.step (s.Exact c0) (Diary.open st) moves := by
  have hstart : Kept s c0 (.open st) := by
    refine ⟨?_, ?_, List.Pairwise.nil, ?_⟩
    · intro c hc
      cases hst.symm.trans hc
      exact .inl (Int.le_refl _)
    · nofun
    · intro i e he m hm
      obtain ⟨-, -, n, hn, -⟩ := hm
      cases hn
  exact (keeps_of_meets (fun d m d' hk hs hg => kept_step hk hs hg) hstart h).mono
    fun d hk => hk.exact

def joined (taken : List String) : String := taken.foldl (fun t id => t ++ id) "wf-"

theorem length_le_foldl (taken : List String) (t : String) :
    t.length ≤ (taken.foldl (fun t id => t ++ id) t).length ∧
      ∀ id ∈ taken, t.length + id.length ≤ (taken.foldl (fun t id => t ++ id) t).length := by
  induction taken generalizing t with
  | nil => exact ⟨Nat.le_refl _, nofun⟩
  | cons a taken ih =>
    obtain ⟨hle, hm⟩ := ih (t ++ a)
    rw [String.length_append] at hle hm
    simp only [foldl_cons]
    refine ⟨by omega, ?_⟩
    intro id hid
    rcases mem_cons.mp hid with rfl | hid
    · exact hle
    · have := hm id hid
      omega

def joinedIds : Mint where
  next := joined
  fresh taken hm := by
    have := (length_le_foldl taken "wf-").2 _ hm
    have hpos : "wf-".length = 3 := rfl
    unfold joined at this
    omega

def hourly : Scheduler where
  config := { catchupMinutes := 1440, staleRunningHours := 6 }
  castle := "castle"
  prefixedId := joinedIds
  parsed := [
    ({ schedule := { name := "drain", run := "drain", repo := some "rat", params := [] },
       sourceRepo := none }, fun m => m % 60 = 0),
    ({ schedule := { name := "report", run := "report", repo := some "rat", params := [] },
       sourceRepo := none }, fun m => m % 60 = 0)]

def booted : State := ⟨some 59, fun _ => none, [], [], [], []⟩

def inMinute (m : Int) (drainFails : Bool) : Cycle where
  now := m * minuteLength
  registry := some fun name => if name = "rat" then some "/repos/rat" else none
  attempts i := ⟨decide (i = 0) && drainFails, m * minuteLength⟩
  save := .done

def reportEnds : List Move := [ .cycle (inMinute 60 true), .settle "wf-" .completed,
  .cycle (inMinute 61 false)]

/-- The drain's launch fails on the hour.  The report has run and ended when the next cycle
comes back to the hour for the drain, and it runs for it again. -/
theorem failed_drain_repeats_report :
    ¬ Keeps hourly.step (hourly.Exact 59) (Diary.open booted) reportEnds := by
  intro h
  have hnot : ¬ Keeps hourly.step (fun d => Once d.log) (.open booted) reportEnds := by
    decide +kernel
  exact hnot (h.mono fun d hd => hd.1)

/-- Where the report is still going, the cycle that comes back leaves it alone. -/
theorem minutes_dispatched_once_held :
    Keeps hourly.step (hourly.Exact 59) (Diary.open booted)
      [.cycle (inMinute 60 true), .cycle (inMinute 61 false)] :=
  minutes_dispatched_once hourly 59 booted rfl _ (by decide +kernel)

end RatKingdom.Schedules
