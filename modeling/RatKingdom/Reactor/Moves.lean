/-
What the operations of a cycle can do.

`Goes c p` is the most a part of a cycle does to the castle: the journal grows by
records in `p`, the engine keeps one instance for a key, and cursor and read spans stay.
`Lull` adds that nothing is launched and the fire window is left alone.  Every function
of the cycle is shown once to stay within one of them, and the results about whole runs
are read off these.
-/
import RatKingdom.Lib.First
import RatKingdom.Reactor.Still

namespace RatKingdom.Reactor

open Core Lib List

namespace Host

/-- The journal has one entry for a tuple of others, and a stored row is a journaled tuple
up to its refreshed payload. -/
structure Tidy (h : Host) : Prop where
  unique : ∀ t u, .foreign t ∈ h.journal → .foreign u ∈ h.journal → t.id = u.id → t = u
  rows : ∀ t ∈ h.rows, ∃ u, .foreign u ∈ h.journal ∧ u.category = t.category ∧
    u.identity = t.identity ∧ (t.category = .event → u = t)

/-- Every tuple others wrote, or are still to write, satisfies `ok`. -/
def Fed (ok : Tuple → Prop) (h : Host) : Prop :=
  (∀ turn ∈ h.turns, ∀ t ∈ turn.arrivals, ok t) ∧ ∀ t, .foreign t ∈ h.journal → ok t

theorem known_eq_true {h : Host} {id : RecordId} :
    h.known id = true ↔ ∃ t, .foreign t ∈ h.journal ∧ t.id = id := by
  unfold known
  rw [any_eq_true]
  constructor
  · intro ⟨r, hr, hid⟩
    cases r with
    | foreign t => exact ⟨t, hr, by simpa using hid⟩
    | _ => cases hid
  · intro ⟨t, ht, hid⟩
    exact ⟨.foreign t, ht, by simpa using hid⟩

end Host

open Host

structure Castle.Engine (c : Castle) (h : Host) : Prop where
  ids : ∀ i ∈ h.instances, i.id = c.stableWorkflowInstanceId i.key
  keys : (h.instances.map (·.key)).Nodup

structure Goes (c : Castle) (p : Record → Prop) (h h' : Host) : Prop where
  journal : ∃ more, h'.journal = h.journal ++ more ∧ ∀ r ∈ more, p r
  tidy : h.Tidy → h'.Tidy
  engine : c.Engine h → c.Engine h'
  fed : ∀ ok, h.Fed ok → h'.Fed ok
  turns : ∀ turn ∈ h'.turns, turn ∈ h.turns
  reads : h'.reads = h.reads
  cursorFile : h'.cursorFile = h.cursorFile

structure Lull (h h' : Host) : Prop where
  fires : h'.fires = h.fires
  launches : h'.launches = h.launches
  live : ∀ name, h'.liveCountForTrigger name ≤ h.liveCountForTrigger name
  clock : h.clock ≤ h'.clock

/-- A part of a cycle that launches nothing. -/
structure Calm (c : Castle) (p : Record → Prop) (h h' : Host) : Prop where
  goes : Goes c p h h'
  lull : Lull h h'

section
variable {c : Castle} {p q : Record → Prop}

theorem Goes.refl (h : Host) : Goes c p h h :=
  { journal := ⟨[], by simp⟩, tidy := id, engine := id, fed := fun _ => id, turns := fun _ => id
    reads := rfl, cursorFile := rfl }

theorem Goes.trans (a b d : Host) (hab : Goes c p a b) (hbd : Goes c p b d) : Goes c p a d where
  journal := by
    obtain ⟨m, hm, hpm⟩ := hab.journal
    obtain ⟨n, hn, hpn⟩ := hbd.journal
    refine ⟨m ++ n, by rw [hn, hm, append_assoc], ?_⟩
    exact forall_mem_append.mpr ⟨hpm, hpn⟩
  tidy := hbd.tidy ∘ hab.tidy
  engine := hbd.engine ∘ hab.engine
  fed := fun ok => hbd.fed ok ∘ hab.fed ok
  turns := fun turn ht => hab.turns turn (hbd.turns turn ht)
  reads := hbd.reads.trans hab.reads
  cursorFile := hbd.cursorFile.trans hab.cursorFile

variable {h : Host}

theorem Goes.mono (hpq : ∀ r, p r → q r) {h' : Host} (g : Goes c p h h') : Goes c q h h' :=
  { g with
    journal := by
      obtain ⟨m, hm, hpm⟩ := g.journal
      exact ⟨m, hm, fun r hr => hpq r (hpm r hr)⟩ }

theorem Goes.mem {h' : Host} (g : Goes c p h h') {r : Record} (hr : r ∈ h.journal) :
    r ∈ h'.journal := by
  obtain ⟨m, hm, -⟩ := g.journal
  rw [hm]
  exact mem_append_left _ hr

theorem Lull.refl (h : Host) : Lull h h :=
  { fires := rfl, launches := rfl, live := fun _ => Nat.le_refl _, clock := Nat.le_refl _ }

theorem Lull.trans {a b d : Host} (hab : Lull a b) (hbd : Lull b d) : Lull a d where
  fires := hbd.fires.trans hab.fires
  launches := hbd.launches.trans hab.launches
  live := fun name => Nat.le_trans (hbd.live name) (hab.live name)
  clock := Nat.le_trans hab.clock hbd.clock

theorem Calm.refl (h : Host) : Calm c p h h := ⟨Goes.refl h, Lull.refl h⟩

theorem Calm.trans (a b d : Host) (hab : Calm c p a b) (hbd : Calm c p b d) : Calm c p a d :=
  ⟨.trans a b d hab.goes hbd.goes, hab.lull.trans hbd.lull⟩

section
variable {α β : Type} {m : Op α} {f : α → Op β}

theorem calm_bind (hm : Moves (Calm c p) m) (hf : ∀ a, Moves (Calm c p) (f a)) :
    Moves (Calm c p) (m >>= f) := Moves.bind Calm.trans hm hf

theorem calm_pure (a : α) : Moves (Calm c p) (pure a : Op α) := Moves.pure Calm.refl a

theorem calm_get : Moves (Calm c p) (Act.get : Op Host) := Moves.get Calm.refl

theorem calm_raise (e : String) : Moves (Calm c p) (Act.raise e : Op α) := Moves.raise Calm.refl e

theorem calm_attempt (hm : Moves (Calm c p) m) : Moves (Calm c p) m.attempt := Moves.attempt hm

theorem goes_bind (hm : Moves (Goes c p) m) (hf : ∀ a, Moves (Goes c p) (f a)) :
    Moves (Goes c p) (m >>= f) := Moves.bind Goes.trans hm hf

theorem goes_pure (a : α) : Moves (Goes c p) (pure a : Op α) := Moves.pure Goes.refl a

theorem goes_get : Moves (Goes c p) (Act.get : Op Host) := Moves.get Goes.refl

theorem goes_attempt (hm : Moves (Goes c p) m) : Moves (Goes c p) m.attempt := Moves.attempt hm

theorem goes_of_calm (hm : Moves (Calm c p) m) : Moves (Goes c p) m := fun h => (hm h).goes

end

/-- What the writes of others change. -/
structure Arrives (ts : List Tuple) (h h' : Host) : Prop where
  journal : ∃ more, h'.journal = h.journal ++ more ∧ ∀ r ∈ more, ∃ t ∈ ts, r = .foreign t
  tidy : h.Tidy → h'.Tidy
  rest : ∃ journal rows, h' = { h with journal, rows }

theorem accept_tidy (t : Tuple) (hh : h.Tidy) (hnew : ¬ h.known t.id = true) :
    Host.Tidy { h with journal := h.journal ++ [.foreign t], rows := h.rows ++ [t] } := by
  have hfresh : ∀ u, .foreign u ∈ h.journal → u.id ≠ t.id := fun u hu he =>
    hnew (known_eq_true.mpr ⟨u, hu, he⟩)
  have hcase : ∀ u, .foreign u ∈ h.journal ++ [.foreign t] → .foreign u ∈ h.journal ∨ u = t := by
    intro u hu
    rcases mem_append.mp hu with hu | hu
    · exact .inl hu
    · cases mem_singleton.mp hu
      exact .inr rfl
  constructor
  · intro u v hu hv he
    rcases hcase u hu with hu | hu
    · rcases hcase v hv with hv | hv
      · exact hh.unique u v hu hv he
      · exact absurd (hv ▸ he) (hfresh u hu)
    · rcases hcase v hv with hv | hv
      · exact absurd (hu ▸ he.symm) (hfresh v hv)
      · rw [hu, hv]
  · intro u hu
    rcases mem_append.mp hu with hu | hu
    · obtain ⟨v, hv, hrest⟩ := hh.rows u hu
      exact ⟨v, mem_append_left _ hv, hrest⟩
    · have hut : u = t := mem_singleton.mp hu
      exact ⟨t, mem_append_right _ mem_cons_self, by rw [hut], by rw [hut], fun _ => hut.symm⟩

theorem accept_arrives (h : Host) (t : Tuple) : Arrives [t] h (h.accept t) := by
  unfold accept
  by_cases hk : h.known t.id = true
  · rw [if_pos hk]
    exact ⟨⟨[], by simp⟩, id, ⟨h.journal, h.rows, rfl⟩⟩
  · rw [if_neg hk]
    refine ⟨⟨[.foreign t], rfl, ?_⟩, fun hh => accept_tidy t hh hk, ⟨_, _, rfl⟩⟩
    intro r hr
    exact ⟨t, mem_cons_self, mem_singleton.mp hr⟩

theorem arrivals_arrive (ts : List Tuple) (h : Host) : Arrives ts h (ts.foldl accept h) := by
  induction ts generalizing h with
  | nil => exact ⟨⟨[], by simp⟩, id, ⟨h.journal, h.rows, rfl⟩⟩
  | cons t ts ih =>
    have h₁ := accept_arrives h t
    have h₂ := ih (h.accept t)
    refine ⟨?_, h₂.tidy ∘ h₁.tidy, ?_⟩
    · obtain ⟨m, hm, hmt⟩ := h₁.journal
      obtain ⟨n, hn, hnt⟩ := h₂.journal
      refine ⟨m ++ n, ?_, ?_⟩
      · rw [foldl_cons, hn, hm, append_assoc]
      · intro r hr
        rcases mem_append.mp hr with hr | hr
        · obtain ⟨u, hu, rfl⟩ := hmt r hr
          exact ⟨u, mem_cons.mpr (.inl (mem_singleton.mp hu)), rfl⟩
        · obtain ⟨u, hu, rfl⟩ := hnt r hr
          exact ⟨u, mem_cons_of_mem _ hu, rfl⟩
    · obtain ⟨j₁, r₁, e₁⟩ := h₁.rest
      obtain ⟨j₂, r₂, e₂⟩ := h₂.rest
      rw [e₁] at e₂
      exact ⟨j₂, r₂, by rw [foldl_cons, e₁, e₂]⟩

theorem refresh_event {refreshed : List (RecordId × Value)} {t : Tuple}
    (h : (refresh refreshed t).category = .event) : refresh refreshed t = t := by
  unfold refresh at h ⊢
  by_cases hc : t.category = .event
  · rw [if_pos hc]
  · rw [if_neg hc] at h
    cases hf : refreshed.find? fun r => r.1 = t.id with
    | none | some r => rw [hf] at h; exact absurd h hc

theorem refresh_key (refreshed : List (RecordId × Value)) (t : Tuple) :
    (refresh refreshed t).category = t.category ∧
      (refresh refreshed t).identity = t.identity := by
  unfold refresh
  by_cases hc : t.category = .event
  · simp [hc]
  · rw [if_neg hc]
    cases refreshed.find? fun r => r.1 = t.id with
    | none | some r => exact ⟨rfl, rfl⟩

theorem settle_tidy (turn : Turn) (hh : h.Tidy) : (h.settle turn).Tidy := by
  refine ⟨hh.unique, ?_⟩
  intro t ht
  obtain ⟨u, hu, rfl⟩ := mem_map.mp ht
  obtain ⟨v, hv, hcat, hident, hev⟩ := hh.rows u (mem_filter.mp hu).1
  obtain ⟨hc, hi⟩ := refresh_key turn.refreshed u
  refine ⟨v, hv, hcat.trans hc.symm, hident.trans hi.symm, fun he => ?_⟩
  rw [refresh_event he]
  exact hev (hc ▸ he)

theorem settle_engine (turn : Turn) (hh : c.Engine h) : c.Engine (h.settle turn) := by
  constructor
  · intro i hi
    obtain ⟨j, hj, rfl⟩ := mem_map.mp hi
    exact hh.ids j hj
  · have he : (h.settle turn).instances.map (·.key) = h.instances.map (·.key) := by
      simp [settle, finish, Function.comp_def]
    rw [he]
    exact hh.keys

theorem settle_live (h : Host) (turn : Turn) (name : String) :
    (h.settle turn).liveCountForTrigger name ≤ h.liveCountForTrigger name := by
  unfold liveCountForTrigger liveCount settle
  rw [countP_map]
  apply countP_mono_left
  intro i _ hi
  simp only [Function.comp_apply, finish, Bool.and_eq_true] at hi
  have htrig : i.trigger = name := of_decide_eq_true hi.2
  simp [hi.1.1, htrig]

/-- What a turn does to everything but the script. -/
theorem pass_calm (hp : ∀ t, p (.foreign t)) (h : Host) (turn : Turn)
    (hfed : ∀ ok, h.Fed ok → ∀ t ∈ turn.arrivals, ok t) : Calm c p h (h.pass turn) := by
  have ha := arrivals_arrive turn.arrivals h
  obtain ⟨journal, rows, he⟩ := ha.rest
  obtain ⟨more, hmore, hforeign⟩ := ha.journal
  have hpass : h.pass turn = settle { h with journal, rows } turn := by rw [Host.pass, he]
  have hjournal : (h.pass turn).journal = h.journal ++ more := by
    rw [← hmore, Host.pass]
    rfl
  constructor
  · refine
      { journal := ⟨more, hjournal, ?_⟩, tidy := ?_, engine := ?_, fed := ?_, turns := ?_
        reads := ?_, cursorFile := ?_ }
    · intro r hr
      obtain ⟨t, -, rfl⟩ := hforeign r hr
      exact hp t
    · intro hh
      exact settle_tidy turn (ha.tidy hh)
    · intro hh
      rw [hpass]
      exact settle_engine turn ⟨hh.ids, hh.keys⟩
    · intro ok hok
      refine ⟨?_, ?_⟩
      · rw [hpass]
        exact hok.1
      · intro t ht
        rw [hjournal] at ht
        rcases mem_append.mp ht with ht | ht
        · exact hok.2 t ht
        · obtain ⟨u, hu, hr⟩ := hforeign _ ht
          cases hr
          exact hfed ok hok t hu
    · rw [hpass]
      exact fun _ => id
    · rw [hpass]
      rfl
    · rw [hpass]
      rfl
  · rw [hpass]
    exact
      { fires := rfl, launches := rfl
        live := settle_live { h with journal, rows } turn
        clock := Nat.le_add_right _ _ }

theorem pass_turns (h : Host) (turn : Turn) : (h.pass turn).turns = h.turns := by
  obtain ⟨journal, rows, he⟩ := (arrivals_arrive turn.arrivals h).rest
  rw [Host.pass, he]
  rfl

theorem calm_turns {rest : List Turn} (hr : ∀ turn ∈ rest, turn ∈ h.turns) :
    Calm c p h { h with turns := rest } :=
  { goes :=
      { journal := ⟨[], by simp⟩, tidy := fun hh => ⟨hh.unique, hh.rows⟩
        engine := fun hh => ⟨hh.ids, hh.keys⟩
        fed := fun ok hok => ⟨fun u hu => hok.1 u (hr u hu), hok.2⟩
        turns := hr, reads := rfl, cursorFile := rfl }
    lull :=
      { fires := rfl, launches := rfl, live := fun _ => Nat.le_refl _, clock := Nat.le_refl _ } }

theorem nextTurn_calm (hp : ∀ t, p (.foreign t)) : Moves (Calm c p) nextTurn := by
  intro h
  unfold nextTurn
  cases hturns : h.turns with
  | nil => exact .refl h
  | cons turn rest =>
    have hpass : Calm c p h (h.pass turn) := by
      apply pass_calm hp
      intro ok hok
      apply hok.1 turn
      rw [hturns]
      exact mem_cons_self
    apply Calm.trans h (h.pass turn) _ hpass
    apply calm_turns
    intro u hu
    rw [pass_turns, hturns]
    exact mem_cons_of_mem _ hu

theorem append_calm {r : Record} (hr : p r) (hown : ∀ t, r ≠ .foreign t) :
    Calm c p h { h with journal := h.journal ++ [r] } := by
  have hforeign : ∀ t, .foreign t ∈ h.journal ++ [r] → .foreign t ∈ h.journal := by
    intro t ht
    rcases mem_append.mp ht with ht | ht
    · exact ht
    · exact absurd (mem_singleton.mp ht).symm (hown t)
  have htidy : h.Tidy → Host.Tidy { h with journal := h.journal ++ [r] } := by
    intro hh
    refine ⟨fun t u ht hu => hh.unique t u (hforeign t ht) (hforeign u hu), fun t ht => ?_⟩
    obtain ⟨u, hu, hrest⟩ := hh.rows t ht
    exact ⟨u, mem_append_left _ hu, hrest⟩
  exact
    { goes :=
        { journal := ⟨[r], rfl, fun r' hr' => by rw [mem_singleton.mp hr']; exact hr⟩
          tidy := htidy, engine := fun hh => ⟨hh.ids, hh.keys⟩
          fed := fun ok hok => ⟨hok.1, fun t ht => hok.2 t (hforeign t ht)⟩
          turns := fun _ => id, reads := rfl, cursorFile := rfl }
      lull :=
        { fires := rfl, launches := rfl, live := fun _ => Nat.le_refl _, clock := Nat.le_refl _ } }

theorem calm_queue (queue : List QueuedFire) (file cache : Option Nat) :
    Calm c p h { h with queue, queueSeqFile := file, queueSeq := cache } :=
  { goes :=
      { journal := ⟨[], by simp⟩, tidy := fun hh => ⟨hh.unique, hh.rows⟩
        engine := fun hh => ⟨hh.ids, hh.keys⟩, fed := fun _ hok => hok
        turns := fun _ => id, reads := rfl, cursorFile := rfl }
    lull :=
      { fires := rfl, launches := rfl, live := fun _ => Nat.le_refl _, clock := Nat.le_refl _ } }

section
variable (hp : ∀ r, Plain r → p r)
include hp

theorem still : Still p (Calm c p) :=
  { refl := .refl, trans := .trans, turn := nextTurn_calm fun t => hp (.foreign t) trivial
    append := fun _ _ hr hown => append_calm hr hown }

theorem turn_calm : Moves (Calm c p) nextTurn := (still hp).turn

theorem proceed_calm (site : Site) : Moves (Calm c p) (proceed site) := (still hp).proceed site

theorem out_calm (site : Site) {r : Record} (hr : p r) (hown : ∀ t, r ≠ .foreign t) :
    Moves (Calm c p) (out site r) :=
  (still hp).out site hr hown

theorem nextQueueSeq_calm : Moves (Calm c p) nextQueueSeq := by
  apply calm_bind calm_get
  intro h
  apply calm_bind (turn_calm hp)
  intro turn
  cases turn.fate .queueSeq with
  | done =>
    apply calm_bind (.modify fun h => calm_queue h.queue _ _)
    exact fun _ => calm_pure _
  | fails =>
    apply calm_bind (.modify fun h => calm_queue h.queue _ h.queueSeq)
    exact fun _ => calm_raise _
  | dies =>
    apply calm_bind (.modify fun h => calm_queue h.queue _ h.queueSeq)
    exact fun _ => .refl

theorem note_calm (identity trigger : String) (tuple : RecordId) (reason : String) :
    Moves (Calm c p) (outBestEffort (.note identity trigger tuple reason)) :=
  (still hp).note hp _ _ _ _

theorem markFiredKey_calm (site : Site) (trigger : Trigger) (tuple : RecordId) (inst : String) :
    Moves (Calm c p) (markFiredKey site (trigger.key tuple) trigger.name inst) :=
  (still hp).markFiredKey hp site trigger tuple inst

theorem recordFireAttempt_calm (key : Key) : Moves (Calm c p) (recordFireAttempt key) :=
  (still hp).recordFireAttempt hp key

theorem giveUpOrRetry_calm (trigger : Trigger) (tuple : RecordId) (reason : String) :
    Moves (Calm c p) (giveUpOrRetry (trigger.key tuple) trigger.name tuple reason) :=
  (still hp).giveUpOrRetry hp trigger tuple reason

theorem enqueueFire_calm (key : Key) (trigger : Trigger) (repoName repoPath : String)
    (params : List (String × Value)) (tuple : RecordId) :
    Moves (Calm c p) (enqueueFire key trigger repoName repoPath params tuple) := by
  apply calm_bind (nextQueueSeq_calm hp)
  intro seq
  apply calm_bind (proceed_calm hp .queueRow)
  intro _
  apply Moves.modify
  intro h
  apply Calm.trans h _ _ (append_calm (hp (.queued _) trivial) fun _ h => by cases h)
  exact calm_queue _ h.queueSeqFile h.queueSeq

theorem queueFire_calm (trigger : Trigger) (repoName repoPath : String)
    (params : List (String × Value)) (tuple : RecordId) :
    Moves (Calm c p) (queueFire (trigger.key tuple) trigger repoName repoPath params tuple) := by
  apply calm_bind (enqueueFire_calm hp _ _ _ _ _ _)
  intro _
  apply calm_bind (markFiredKey_calm hp _ trigger tuple _)
  intro _
  apply calm_bind (note_calm hp _ _ _ _)
  exact fun _ => calm_pure _

theorem noteNonMainLandTarget_calm (trigger : Trigger) (tuple : RecordId)
    (params : List (String × Value)) :
    Moves (Calm c p) (noteNonMainLandTarget trigger tuple params) :=
  (still hp).noteNonMainLandTarget hp trigger tuple params

theorem deleteQueued_calm (site : Site) (id : RecordId) :
    Moves (Calm c p) (deleteQueued site id) := by
  apply calm_bind (proceed_calm hp site)
  intro _
  apply Moves.modify
  exact fun h => calm_queue _ h.queueSeqFile h.queueSeq

variable {h : Host}

omit hp in
theorem goes_fires (fires : List (String × Nat)) : Goes c p h { h with fires } :=
  { journal := ⟨[], by simp⟩, tidy := fun hh => ⟨hh.unique, hh.rows⟩
    engine := fun hh => ⟨hh.ids, hh.keys⟩, fed := fun _ hok => hok
    turns := fun _ => id, reads := rfl, cursorFile := rfl }

theorem loose : Loose p (Goes c p) :=
  { refl := .refl, trans := .trans, turn := goes_of_calm (turn_calm hp)
    append := fun _ _ hr hown => (append_calm hr hown).goes, fires := fun _ fires => goes_fires fires }

theorem rateLimited_goes (trigger : Trigger) : Moves (Goes c p) (rateLimited c trigger) :=
  (loose hp).rateLimited trigger

theorem recordFire_goes (name : String) : Moves (Goes c p) (recordFire name) :=
  (loose hp).recordFire name

omit hp in
theorem goes_noted (admissions : List Admission) (dispatches : List Fire) :
    Goes c p h { h with admissions, dispatches } :=
  { journal := ⟨[], by simp⟩, tidy := fun hh => ⟨hh.unique, hh.rows⟩
    engine := fun hh => ⟨hh.ids, hh.keys⟩, fed := fun _ hok => hok
    turns := fun _ => id, reads := rfl, cursorFile := rfl }

omit hp in
theorem relaunch_goes {trigger : Trigger} : Goes c p h (h.launched trigger false h.instances) :=
  { journal := ⟨[], by simp [launched]⟩, tidy := fun hh => ⟨hh.unique, hh.rows⟩
    engine := fun hh => ⟨hh.ids, hh.keys⟩, fed := fun _ hok => hok, turns := fun _ => id
    reads := rfl, cursorFile := rfl }

omit hp in
theorem launch_goes {trigger : Trigger} {i : Instance}
    (hid : i.id = c.stableWorkflowInstanceId i.key)
    (hnew : h.instances.any (fun j => j.id = i.id) = false) :
    Goes c p h (h.launched trigger true (h.instances ++ [i])) where
  journal := ⟨[], by simp [launched]⟩
  tidy := fun hh => ⟨hh.unique, hh.rows⟩
  engine := by
    intro hh
    have hfresh : ∀ j ∈ h.instances, j.key ≠ i.key := by
      intro j hj hk
      have : j.id = i.id := by rw [hh.ids j hj, hk, hid]
      rw [any_eq_false] at hnew
      exact hnew j hj (by simpa using this)
    constructor
    · exact forall_mem_concat.mpr ⟨hh.ids, hid⟩
    · exact nodup_concat_key hh.keys hfresh
  fed := fun _ hok => hok
  turns := fun _ => id
  reads := rfl
  cursorFile := rfl

theorem runOwnedWithIdFromTrigger_goes (key : Key) (trigger : Trigger) (workflow repo : String)
    (params : List (String × Value)) :
    Moves (Goes c p) (runOwnedWithIdFromTrigger (c.stableWorkflowInstanceId key) key trigger
      workflow repo params) := by
  apply goes_bind (goes_of_calm (proceed_calm hp .launch))
  intro _ h
  -- the engine is read and written in one step, under its lock
  show Goes c p h (Act.bind Act.get _ h).2
  simp only [Act.bind, Act.get]
  split
  next hexists => exact relaunch_goes
  next hnew =>
    apply Goes.trans _ _ _ (goes_noted h.admissions (h.dispatched key trigger).dispatches)
    exact launch_goes rfl (by simpa using hnew)

theorem launchNow_goes (trigger : Trigger) (repoPath : String) (params : List (String × Value))
    (tuple : RecordId) :
    Moves (Goes c p) (launchNow c (trigger.key tuple) trigger repoPath params tuple) := by
  apply goes_bind (goes_attempt (runOwnedWithIdFromTrigger_goes hp _ _ _ _ _))
  intro launched
  cases launched with
  | error e => exact goes_of_calm (giveUpOrRetry_calm hp trigger tuple _)
  | ok inst =>
    apply goes_bind (goes_of_calm (noteNonMainLandTarget_calm hp _ _ _))
    intro _
    apply goes_bind (goes_of_calm (markFiredKey_calm hp _ trigger tuple _))
    intro _
    exact goes_bind (recordFire_goes hp _) fun _ => goes_pure _

theorem fireWorkflow_goes (trigger : Trigger) (repoName repoPath : String) (t : Tuple) :
    Moves (Goes c p) (fireWorkflow c (trigger.key t.id) trigger repoName repoPath t) := by
  apply goes_bind goes_get
  intro h
  apply goes_bind (.modify fun h => goes_noted _ h.dispatches)
  intro _
  split
  · exact goes_of_calm (queueFire_calm hp trigger _ _ _ _)
  · exact launchNow_goes hp trigger _ _ _

theorem tryFire_goes (registry : RepoRegistry) (loaded : Loaded) (t : Tuple) :
    Moves (Goes c p) (tryFire c registry loaded t) :=
  (loose hp).tryFire hp (fireWorkflow_goes hp) registry loaded t

theorem dispatchQueued_goes (trigger : Trigger) (row : QueuedFire) :
    Moves (Goes c p) (dispatchQueued c trigger row) := by
  apply goes_bind (goes_attempt (runOwnedWithIdFromTrigger_goes hp _ _ _ _ _))
  intro launched
  cases launched with
  | ok inst =>
    apply goes_bind (goes_of_calm (deleteQueued_calm hp _ _))
    intro _
    exact goes_bind (recordFire_goes hp _) fun _ => goes_pure _
  | error e =>
    apply goes_bind (goes_of_calm (recordFireAttempt_calm hp _))
    intro attempt
    split
    · apply goes_bind (goes_of_calm (note_calm hp _ _ _ _))
      exact fun _ => .raise .refl _
    · apply goes_bind (goes_of_calm (note_calm hp _ _ _ _))
      intro _
      apply goes_bind (goes_of_calm (deleteQueued_calm hp _ _))
      exact fun _ => goes_pure _

theorem drainTrigger_goes (trigger : Trigger) (cap fuel dispatched : Nat) :
    Moves (Goes c p) (drainTrigger c trigger cap fuel dispatched) := by
  induction fuel generalizing dispatched with
  | zero => exact goes_pure _
  | succ fuel ih =>
    apply goes_bind goes_get
    intro h
    split
    · exact goes_pure _
    split
    · exact goes_pure _
    · apply goes_bind (rateLimited_goes hp trigger)
      intro limited
      split
      · exact goes_bind (goes_of_calm (note_calm hp _ _ _ _)) fun _ => goes_pure _
      · apply goes_bind (goes_attempt (dispatchQueued_goes hp trigger _))
        intro sent
        split
        · exact ih _
        · exact ih _
        · exact goes_pure _

theorem drainQueuedFires_goes (triggers : List Loaded) :
    Moves (Goes c p) (drainQueuedFires c triggers) := by
  apply Moves.foldlM Goes.refl Goes.trans
  intro dispatched loaded _
  cases loaded.trigger.maxInFlight with
  | none => exact goes_pure _
  | some cap => exact goes_bind goes_get fun h => drainTrigger_goes hp _ _ _ _

end

section
variable {alerts : RecordId → Prop}

theorem reactToSdlcCiTransition_calm (t : Tuple) :
    Moves (Calm c (Ours alerts)) (reactToSdlcCiTransition t) :=
  (still ours_of_plain).reactToSdlcCiTransition t

theorem reactToSdlcAlertTransition_calm (t : Tuple) :
    Moves (Calm c (Ours (· = t.id))) (reactToSdlcAlertTransition c t) :=
  (still ours_of_plain).reactToSdlcAlertTransition

end

end

end RatKingdom.Reactor
