/-
The gate run and its one bounded retry, under every crash.

A gate run owns its entry: the durable row is its own copy.  From there every position of
the plan keeps the budget invariant through each of its writes, so evidence is recorded
once, and a retry taken up after a crash ends with both attempts recorded.  Whether a
lost retry stays lost is another matter: the marker is what makes the next run look at
the evidence, and it is cleared before the verdict is made terminal.
-/
import RatKingdom.Landing.Budget

namespace RatKingdom.Landing

open Lib Core List Function

section
variable {H : Prop} {mint : Nat → RecordId} {repo : String} {d : Daemon}
  {os : List LandingQueueEntry} {as : List GateAttempt} {e : LandingQueueEntry}

/-- None of the other held entries is the same place of the order. -/
def Apart (os : List LandingQueueEntry) (e : LandingQueueEntry) : Prop := ∀ o ∈ os, o.seq ≠ e.seq

theorem Apart.same {e' : LandingQueueEntry} (h : Apart os e) (hs : Same e e') : Apart os e' :=
  fun o ho => hs.seq ▸ h o ho

theorem Alike.trans {e e' e'' : LandingQueueEntry} (h : Alike e e') (h' : Alike e' e'') :
    Alike e e'' :=
  ⟨h.toSame.trans h'.toSame, h'.used.trans h.used, h'.check.trans h.check⟩

theorem Alike.edit {e e' : LandingQueueEntry} (hr : e'.repoName = e.repoName := by rfl)
    (hq : e'.seq = e.seq := by rfl) (hk : e'.key = e.key := by rfl)
    (hu : e'.gateInfraRetryUsed = e.gateInfraRetryUsed := by rfl)
    (hc : e'.gateInfraRetryCheck = e.gateInfraRetryCheck := by rfl) : Alike e e' :=
  ⟨⟨hr, hq, hk⟩, hu, hc⟩

theorem Tended.isFor_iff (h : Tended H mint repo (e :: os) as d) {a : GateAttempt} (ha : a ∈ as)
    (candidate check : String) (n : Nat) :
    a.isFor e candidate check n = true ↔ a.records repo e.seq candidate check n := by
  have hscope := h.scope mem_cons_self
  rw [← h.attempts] at ha
  obtain ⟨-, r, hr, hrs, hb, ht, hk⟩ := h.metered.attempted a ha
  obtain ⟨x, hx, rfl⟩ := h.owned e mem_cons_self
  have hxl : x ∈ d.log := h.metered.sane.logged hx.1
  have hkey : a.seq = x.seq → a.branch = x.entry.branch ∧ a.target = x.entry.target ∧
      a.task = x.entry.task := by
    intro hseq
    have hkeys := h.metered.keys r hr x hxl (hrs.trans hseq)
    exact ⟨hb.symm.trans (congrArg WorkKey.branch hkeys),
      ht.symm.trans (congrArg WorkKey.target hkeys), hk.symm.trans (congrArg WorkKey.task hkeys)⟩
  simp only [GateAttempt.isFor, GateAttempt.records, decide_eq_true_eq, hscope]
  constructor
  · rintro ⟨h1, h2, -, -, -, h3, h4, h5⟩
    exact ⟨h1, h5, h3, h4, h2⟩
  · rintro ⟨h1, h5, h3, h4, h2⟩
    obtain ⟨k1, k2, k3⟩ := hkey h5
    exact ⟨h1, h2, k1, k2, k3, h3, h4, h5⟩

theorem Guarded.addAttempt (h : Guarded H mint repo (e :: os) d) {a : GateAttempt}
    (hused : e.gateInfraRetryUsed = true) (hr : a.repoName = repo) (hq : a.seq = e.seq)
    (hb : a.branch = e.branch) (ht : a.target = e.target) (hk : a.task = e.task)
    (hnew : a.slot ∉ d.attempts.map GateAttempt.slot) :
    Guarded H mint repo (e :: os) (d.addAttempt a) := by
  have hm := h.metered
  obtain ⟨x, hx, hxe⟩ := h.owned e mem_cons_self
  refine ⟨{ hm with sane := ?_, attempted := ?_, distinct := ?_, unspent := ?_ },
    fun o ho => (h.owned o ho).of_rows rfl⟩
  · exact { hm.sane with
      minted := fun r hr' => (hm.sane.minted r hr').imp fun n hn => ⟨Nat.lt_succ_of_lt hn.1, hn.2⟩ }
  · refine forall_mem_concat.mpr ⟨hm.attempted, ?_⟩
    refine ⟨hr, x, hm.sane.logged hx.1, ?_, ?_, ?_, ?_⟩
    · rw [hq, Row.seq, hxe]
    · rw [hb, hxe]
    · rw [ht, hxe]
    · rw [hk, hxe]
  · exact nodup_concat_key hm.distinct fun b hb he => hnew (he ▸ mem_map_of_mem hb)
  · intro r hr' hu
    refine forall_mem_append.mpr ⟨hm.unspent r hr' hu, ?_⟩
    intro b hb'
    rw [mem_singleton.mp hb', hq]
    intro he
    have hrx : r = x := hx.2 r hr' (by rw [← he, Row.seq, hxe])
    rw [hrx, Row.used, hxe, hused] at hu
    cases hu

theorem recordGateInfraAttempt_tended (candidate : String) (check : Check) (n : Nat)
    (result : CheckValue) (rebuilt : Bool) (hused : e.gateInfraRetryUsed = true)
    (hfree : ∀ a ∈ as, ¬ a.records repo e.seq candidate check.name n) :
    Triple (Guarded H mint repo os) (Tended H mint repo (e :: os) as)
      (recordGateInfraAttempt e candidate check n result rebuilt) (fun _ d =>
        Tended H mint repo (e :: os) (as ++ [gateAttempt e candidate check n result rebuilt]) d) := by
  have hadd : ∀ d, Tended H mint repo (e :: os) as d → Tended H mint repo (e :: os)
      (as ++ [gateAttempt e candidate check n result rebuilt])
      (d.addAttempt (gateAttempt e candidate check n result rebuilt)) := by
    intro d hd
    have hscope := hd.scope mem_cons_self
    refine ⟨hd.toGuarded.addAttempt hused hscope rfl rfl rfl rfl ?_, congrArg (· ++ _) hd.attempts⟩
    intro hm
    obtain ⟨a, ha, hslot⟩ := mem_map.mp hm
    refine hfree a (hd.attempts ▸ ha) (GateAttempt.records_iff.mpr ?_)
    rw [hslot, ← hscope]
    rfl
  exact .write (fun d hd => (hadd d hd).tail) hadd

section
variable (hmint : Injective mint) (hos : Apart os e)
include hmint hos

theorem persist_alike {e' : LandingQueueEntry} (ha : Alike e e') (st : LandingEntryStatus)
    (now : DateTime) (hrev : e'.rev = e.rev := by rfl) :
    Triple (Guarded H mint repo os) (Tended H mint repo (e :: os) as) (persist mint e' st now)
      (fun p d => Tended H mint repo (p :: os) as d ∧ Alike e p) := by
  refine .of_start fun d hd => ?_
  have hedit : Edit e e' :=
    { ha.toSame with
      rev := hrev
      used := ha.used.trans
      marked := fun hm => ha.used.trans (hd.marked mem_cons_self (ha.check ▸ hm)) }
  have hstart : ∀ x, x = d → Tended H mint repo (e :: os) as x := by
    rintro x rfl
    exact hd
  refine (persist_tended hmint hedit hos st now).mono hstart ?_
  rintro p x ⟨hx, rfl⟩
  exact ⟨hx, ha.trans .edit⟩

theorem runCheck_tended (r : CheckRun) (now : DateTime) :
    Triple (Guarded H mint repo os) (Tended H mint repo (e :: os) as) (runCheck mint e r now)
      (fun p d => Tended H mint repo (p :: os) as d ∧ Alike e p) := by
  -- the copy in hand and the row differ in the admission window until it is charged
  refine .bind (Q := fun p d => ∃ e₁, Tended H mint repo (e₁ :: os) as d ∧ Alike e e₁ ∧
    Alike e₁ p ∧ p.rev = e₁.rev) ?_ fun p => ?_
  · unfold admissionRemaining
    cases e.admission with
    | none => exact .fail
    | some w =>
      refine .bind (persist_alike hmint hos .edit .runningGates now) fun e₁ => .pure ?_
      rintro d ⟨hd, ha⟩
      exact ⟨e₁, hd, ha, .edit, rfl⟩
  · refine .of_start ?_
    rintro d ⟨e₁, hd, ha, hp, hrev⟩
    have hstart : ∀ x, x = d → Tended H mint repo (e₁ :: os) as x := by
      rintro x rfl
      exact hd
    have hedit : Alike e₁ { p with admission := p.admission.map (·.charge r.elapsed r.charged) } :=
      hp.trans .edit
    refine (persist_alike hmint (hos.same ha.toSame) hedit .runningGates now hrev).mono hstart ?_
    rintro p' x ⟨hx, hp'⟩
    exact ⟨hx, ha.trans hp'⟩

theorem holdAdmission_tended (check candidate : String) (v : CheckValue) (now : DateTime) :
    Triple (Guarded H mint repo os) (Tended H mint repo (e :: os) as)
      (holdAdmission mint e check candidate v now)
      (fun p d => Tended H mint repo (p :: os) as d ∧ Alike e p) := by
  refine .bind (Q := fun _ d => Tended H mint repo (e :: os) as d) (.read fun _ h => h) fun s => ?_
  cases s.findHold e check candidate with
  | some prior => exact persist_alike hmint hos .edit .runningGates now
  | none =>
    have hadd : ∀ d h, Tended H mint repo (e :: os) as d →
        Tended H mint repo (e :: os) as (d.addHold mint h) :=
      fun d _ hd => ⟨hd.toGuarded.record rfl rfl rfl rfl rfl rfl (Nat.le_succ _), hd.attempts⟩
    refine .bind (Q := fun _ d => Tended H mint repo (e :: os) as d)
      (.write (fun d hd => (hadd d _ hd).tail) fun d hd => hadd d _ hd) fun _ => ?_
    exact persist_alike hmint hos .edit .runningGates now

theorem clearInfraRetryMarker_tended (now : DateTime) :
    Triple (Guarded H mint repo os) (Tended H mint repo (e :: os) as)
      (clearInfraRetryMarker mint e now)
      (fun p d => Tended H mint repo (p :: os) as d ∧ Same e p) := by
  have hedit : Edit e { e with gateInfraRetryCheck := none } :=
    { repoName := rfl, seq := rfl, key := rfl, rev := rfl, used := id, marked := fun hm => by cases hm }
  refine (persist_tended hmint hedit hos .runningGates now).mono (fun _ h => h) ?_
  rintro p x ⟨hx, rfl⟩
  exact ⟨hx, ⟨rfl, rfl, rfl⟩⟩

end

/-- Every lost retry of the candidate is still the entry's marked one, and its check is
among those to come. -/
def Owed (repo : String) (as : List GateAttempt) (e : LandingQueueEntry) (candidate : String)
    (names : List String) : Prop :=
  ∀ a ∈ as, a.lost repo e.seq candidate → e.gateInfraRetryCheck = some a.check ∧ a.check ∈ names

/-- What a position of the plan leaves: the same work, no event dropped, no `Pass` of its
own, and with the checks `names` to come. -/
structure Checked (H : Prop) (repo candidate : String) (names : List String)
    (as as' : List GateAttempt) (e p : LandingQueueEntry) (o : Option GateRunOutcome) : Prop where
  same : Same e p
  grown : as ⊆ as'
  stopped : o ≠ some .pass
  owed : H → o = none → Owed repo as' p candidate names

variable (hmint : Injective mint) (candidate : String) (check : Check)
  (names : List String) (now : DateTime)
include hmint

theorem finishInfraRetry_tended (hos : Apart os e) (hused : e.gateInfraRetryUsed = true)
    (htwo : ∀ a ∈ as, ¬ a.records repo e.seq candidate check.name 2) (r : CheckRun) :
    Triple (Guarded H mint repo os) (Tended H mint repo (e :: os) as)
      (finishInfraRetry mint e candidate check r now) (fun x d =>
        Tended H mint repo (x.1 :: os) (as ++ [gateAttempt e candidate check 2 r.settled false]) d ∧
          Same e x.1 ∧ x.2 = decide (r.settled.verdict = "pass")) := by
  refine .bind (recordGateInfraAttempt_tended candidate check 2 r.settled false hused htwo)
    fun _ => ?_
  refine .bind (clearInfraRetryMarker_tended hmint hos now) fun p => .pure ?_
  rintro d ⟨hd, hs⟩
  exact ⟨hd, hs, rfl⟩

/-- The retry of a check whose first attempt is recorded and whose second is not. -/
theorem settleRetry_tended (hos : Apart os e) (hused : e.gateInfraRetryUsed = true)
    (hone : ∃ a ∈ as, a.records repo e.seq candidate check.name 1)
    (htwo : ∀ a ∈ as, ¬ a.records repo e.seq candidate check.name 2)
    (hlost : H → ∀ a ∈ as, ¬ a.lost repo e.seq candidate) (r : CheckRun) :
    Triple (Guarded H mint repo os) (Tended H mint repo (e :: os) as)
      (settleRetry mint e candidate check r now) (fun x d => ∃ as',
        Tended H mint repo (x.1 :: os) as' d ∧ Checked H repo candidate names as as' e x.1 x.2 ∧
          (x.2 ≠ some .admissionHeld → Both as' repo e.seq candidate check.name)) := by
  refine .bind (runCheck_tended hmint hos r now) fun p => ?_
  refine .of_start ?_
  rintro d ⟨hd, hp⟩
  have hstart : ∀ x, x = d → Tended H mint repo (p :: os) as x := by
    rintro x rfl
    exact hd
  cases r.expired with
  | some v =>
    refine .bind ((holdAdmission_tended hmint (hos.same hp.toSame) check.name candidate v
      now).mono hstart fun _ _ h => h) fun p' => .pure ?_
    rintro x ⟨hx, hp'⟩
    refine ⟨as, hx, ⟨(hp.trans hp').toSame, List.Subset.refl _, by simp, by simp⟩, by simp⟩
  | none =>
    have hseq : p.seq = e.seq := hp.seq
    have hscope := hd.scope mem_cons_self
    have htwo' : ∀ a ∈ as, ¬ a.records repo p.seq candidate check.name 2 := hseq ▸ htwo
    let b := gateAttempt p candidate check 2 r.settled false
    have hb : b.records repo e.seq candidate check.name 2 := ⟨hscope, hseq, rfl, rfl, rfl⟩
    refine .bind ((finishInfraRetry_tended hmint candidate check now (hos.same hp.toSame)
      (hp.used.trans hused) htwo' r).mono hstart fun _ _ h => h) fun x => .pure ?_
    rintro y ⟨hy, hsame, hpass⟩
    have hboth : Both (as ++ [b]) repo e.seq candidate check.name := by
      obtain ⟨a, ha, hr⟩ := hone
      exact ⟨⟨a, mem_append_left _ ha, hr⟩, ⟨b, mem_concat_self, hb⟩⟩
    refine ⟨as ++ [b], hy, ⟨hp.toSame.trans hsame, subset_append_left _ _, ?_, ?_⟩, fun _ => hboth⟩
    · cases x.2 <;> simp
    · intro hH ho a ha hl
      -- the retry passed, so the event it left is not lost
      have hx : x.2 = true := by
        cases hx : x.2 with
        | true => rfl
        | false => simp [hx] at ho
      have hverdict : b.verdict = "pass" := by
        rw [hpass] at hx
        exact of_decide_eq_true hx
      have hl' : a.lost repo e.seq candidate := by
        rw [← hseq, ← hsame.seq]
        exact hl
      rcases mem_append.mp ha with ha | ha
      · exact absurd hl' (hlost hH a ha)
      · rw [mem_singleton.mp ha] at hl'
        exact absurd hverdict hl'.2.2.2.2

omit hmint in
theorem ensureInfraRetryOrdinal1Evidence_tended (hused : e.gateInfraRetryUsed = true) :
    Triple (Guarded H mint repo os) (Tended H mint repo (e :: os) as)
      (ensureInfraRetryOrdinal1Evidence e candidate check) (fun _ d => ∃ as',
        Tended H mint repo (e :: os) as' d ∧ as ⊆ as' ∧ (∀ a ∈ as', a ∈ as ∨ a.ordinal = 1) ∧
          ∃ a ∈ as', a.records repo e.seq candidate check.name 1) := by
  refine .bind (Q := fun s d => s = d ∧ Tended H mint repo (e :: os) as d)
    (.read fun _ h => ⟨rfl, h⟩) fun s => ?_
  by_cases hev : s.hasGateInfraEvidence e candidate check.name 1 = true
  · rw [if_pos hev]
    refine .pure ?_
    rintro d ⟨rfl, hd⟩
    obtain ⟨a, ha, hfor⟩ := any_eq_true.mp hev
    rw [hd.attempts] at ha
    exact ⟨as, hd, List.Subset.refl _, fun _ h => .inl h, a, ha, (hd.isFor_iff ha _ _ _).mp hfor⟩
  · rw [if_neg hev]
    refine .of_start ?_
    rintro d ⟨rfl, hd⟩
    have hstart : ∀ x, x = s → Tended H mint repo (e :: os) as x := by
      rintro x rfl
      exact hd
    have hfree : ∀ a ∈ as, ¬ a.records repo e.seq candidate check.name 1 := by
      intro a ha hrec
      refine hev (any_eq_true.mpr ⟨a, hd.attempts ▸ ha, (hd.isFor_iff ha _ _ _).mpr hrec⟩)
    refine (recordGateInfraAttempt_tended candidate check 1 _ true hused hfree).mono hstart ?_
    intro _ x hx
    refine ⟨_, hx, subset_append_left _ _, ?_, _, mem_append_right _
      (mem_singleton_self _), hd.scope mem_cons_self, rfl, rfl, rfl, rfl⟩
    intro a ha
    rcases mem_append.mp ha with ha | ha
    · exact .inl ha
    · exact .inr (by rw [mem_singleton.mp ha]; rfl)

/-- A retry taken up after a crash. -/
theorem resumeRetry_tended (hos : Apart os e) (hmark : e.gateInfraRetryCheck = some check.name)
    (howed : H → Owed repo as e candidate (check.name :: names)) (r : CheckRun) :
    Triple (Guarded H mint repo os) (Tended H mint repo (e :: os) as)
      (resumeRetry mint e candidate check r now) (fun x d => ∃ as',
        Tended H mint repo (x.1 :: os) as' d ∧ Checked H repo candidate names as as' e x.1 x.2 ∧
          (x.2 ≠ some .admissionHeld → Both as' repo e.seq candidate check.name)) := by
  refine .of_start fun d₀ hd₀ => ?_
  have hused : e.gateInfraRetryUsed = true :=
    hd₀.marked mem_cons_self (by rw [hmark]; rfl)
  have hstart : ∀ x, x = d₀ → Tended H mint repo (e :: os) as x := by
    rintro x rfl
    exact hd₀
  refine .bind ((ensureInfraRetryOrdinal1Evidence_tended candidate check hused).mono hstart
    fun _ _ h => h) fun _ => ?_
  refine .of_start ?_
  rintro d ⟨as₁, hd, hsub, hold, hone⟩
  -- a lost retry of the candidate is one of this very check
  have hlost : H → ∀ a ∈ as₁, a.lost repo e.seq candidate →
      a.records repo e.seq candidate check.name 2 := by
    intro hH a ha hl
    rcases hold a ha with ha | h1
    · have hcheck := (howed hH a ha hl).1
      rw [hmark] at hcheck
      exact ⟨hl.1, hl.2.1, hl.2.2.1, (Option.some.inj hcheck).symm, hl.2.2.2.1⟩
    · exact absurd (hl.2.2.2.1.symm.trans h1) (by decide)
  refine .read_from ?_
  rintro x rfl
  have hstart' : ∀ y, y = x → Tended H mint repo (e :: os) as₁ y := by
    rintro y rfl
    exact hd
  cases hset : x.settledInfraRetry e candidate check.name with
  | some passed =>
    obtain ⟨b, hfind, hb⟩ := Option.map_eq_some_iff.mp hset
    have hbmem : b ∈ as₁ := hd.attempts ▸ mem_of_find?_eq_some hfind
    have hbrec : b.records repo e.seq candidate check.name 2 :=
      (hd.isFor_iff hbmem _ _ _).mp (by simpa using find?_some hfind)
    refine .bind ((clearInfraRetryMarker_tended hmint hos now).mono hstart' fun _ _ h => h)
      fun p => .pure ?_
    rintro y ⟨hy, hs⟩
    refine ⟨as₁, hy, ⟨hs, hsub, ?_, ?_⟩, fun _ => ⟨hone, b, hbmem, hbrec⟩⟩
    · cases passed <;> simp
    · intro hH ho a ha hl
      have hpassed : passed = true := by
        cases passed with
        | true => rfl
        | false => simp at ho
      have hrec := hlost hH a ha (hs.seq ▸ hl)
      have hab : a = b := by
        refine inj_on_of_nodup_map hd.metered.distinct (hd.attempts ▸ ha) (hd.attempts ▸ hbmem) ?_
        rw [GateAttempt.records_iff.mp hrec, GateAttempt.records_iff.mp hbrec]
      rw [hpassed] at hb
      exact absurd (hab ▸ of_decide_eq_true hb) hl.2.2.2.2
  | none =>
    have hn := Option.map_eq_none_iff.mp hset
    have htwo : ∀ a ∈ as₁, ¬ a.records repo e.seq candidate check.name 2 := by
      intro a ha hrec
      exact find?_eq_none.mp hn a (hd.attempts ▸ ha) ((hd.isFor_iff ha _ _ _).mpr hrec)
    refine (settleRetry_tended hmint candidate check names now hos hused hone htwo
      (fun hH a ha hl => htwo a ha (hlost hH a ha hl)) r).mono hstart' ?_
    rintro y x' ⟨as', hx', hc, hboth⟩
    exact ⟨as', hx', ⟨hc.same, fun a ha => hc.grown (hsub ha), hc.stopped, hc.owed⟩, hboth⟩

omit hmint in
theorem Owed.skip {p : LandingQueueEntry} (h : Owed repo as e candidate (check.name :: names))
    (hp : Alike e p) (hne : e.gateInfraRetryCheck ≠ some check.name) :
    Owed repo as p candidate names := by
  intro a ha hl
  obtain ⟨hmark, hm⟩ := h a ha (hp.seq ▸ hl)
  refine ⟨hp.check.trans hmark, ?_⟩
  rcases mem_cons.mp hm with he | hm
  · exact absurd (he ▸ hmark) hne
  · exact hm

theorem freshCheck_tended (hos : Apart os e) (hne : e.gateInfraRetryCheck ≠ some check.name)
    (howed : H → Owed repo as e candidate (check.name :: names)) (run retry : CheckRun) :
    Triple (Guarded H mint repo os) (Tended H mint repo (e :: os) as)
      (freshCheck mint e candidate check run retry now) (fun x d => ∃ as',
        Tended H mint repo (x.1 :: os) as' d ∧ Checked H repo candidate names as as' e x.1 x.2) := by
  refine .bind (runCheck_tended hmint hos run now) fun p => ?_
  refine .of_start ?_
  rintro d ⟨hd, hp⟩
  have hos' : Apart os p := hos.same hp.toSame
  have hstart : ∀ x, x = d → Tended H mint repo (p :: os) as x := by
    rintro x rfl
    exact hd
  have hstop : ∀ o : Option GateRunOutcome, o ≠ some .pass →
      Triple (Guarded H mint repo os) (fun x => x = d)
        (pure (p, o) : Op (LandingQueueEntry × Option GateRunOutcome)) (fun x d => ∃ as',
          Tended H mint repo (x.1 :: os) as' d ∧
            Checked H repo candidate names as as' e x.1 x.2) := by
    intro o ho
    refine .pure ?_
    rintro x rfl
    exact ⟨as, hd, hp.toSame, List.Subset.refl _, ho, fun hH _ => (howed hH).skip candidate check
      names hp hne⟩
  cases run.expired with
  | some v =>
    refine .bind ((holdAdmission_tended hmint hos' check.name candidate v now).mono hstart
      fun _ _ h => h) fun p' => .pure ?_
    rintro x ⟨hx, hp'⟩
    exact ⟨as, hx, (hp.trans hp').toSame, List.Subset.refl _, by simp, by simp⟩
  | none =>
    cases run.answer with
    | error _ => exact hstop _ (by simp)
    | ok v =>
      dsimp only
      split
      · exact hstop _ (by simp)
      · split
        · rename_i hinfra
          -- the budget was there, so nothing is recorded under this number yet
          have hn : ∀ a ∈ as, a.seq ≠ p.seq := by
            obtain ⟨r, hr, hre⟩ := hd.owned p mem_cons_self
            intro a ha he
            have hu : r.used = false := by rw [Row.used, hre]; exact hinfra.2
            exact hd.metered.unspent r hr.1 hu a (hd.attempts ▸ ha) (by rw [he, Row.seq, hre])
          have hedit : Edit p { p with
              gateInfraRetryUsed := true, gateInfraRetryCheck := some check.name } :=
            { repoName := rfl, seq := rfl, key := rfl, rev := rfl
              used := fun _ => rfl
              marked := fun _ => rfl }
          refine .bind ((persist_tended hmint hedit hos' .runningGates now).mono hstart
            fun _ _ h => h) fun p₁ => ?_
          refine .of_start ?_
          rintro d₁ ⟨hd₁, hp₁⟩
          have hs₁ : Same p p₁ := by
            rw [hp₁]
            exact ⟨rfl, rfl, rfl⟩
          have hu₁ : p₁.gateInfraRetryUsed = true := by
            rw [hp₁]
            rfl
          have hnone₁ : ∀ a ∈ as, a.seq ≠ p₁.seq := hs₁.seq ▸ hn
          have hstart₁ : ∀ x, x = d₁ → Tended H mint repo (p₁ :: os) as x := by
            rintro x rfl
            exact hd₁
          have hscope := hd₁.scope mem_cons_self
          refine .bind ((recordGateInfraAttempt_tended candidate check 1 v false hu₁
            fun a ha hrec => hnone₁ a ha hrec.2.1).mono hstart₁ fun _ _ h => h) fun _ => ?_
          refine (settleRetry_tended hmint candidate check names now (hos'.same hs₁) hu₁
            ⟨_, mem_concat_self, hscope, rfl, rfl, rfl, rfl⟩
            ?_ ?_ retry).mono (fun _ h => h) ?_
          · refine forall_mem_concat.mpr ⟨fun a ha hrec => hnone₁ a ha hrec.2.1, ?_⟩
            intro hrec
            have h12 : 1 = 2 := hrec.2.2.2.2
            exact absurd h12 (by decide)
          · intro _
            refine forall_mem_concat.mpr ⟨fun a ha hl => hnone₁ a ha hl.2.1, ?_⟩
            intro hl
            have h12 : 1 = 2 := hl.2.2.2.1
            exact absurd h12 (by decide)
          · rintro y x ⟨as', hx, hc, -⟩
            exact ⟨as', hx, hp.toSame.trans (hs₁.trans hc.same), fun a ha =>
              hc.grown (mem_append_left _ ha), hc.stopped, hc.owed⟩
        · exact hstop _ (by simp)

theorem gateCheck_tended (hos : Apart os e) (env : GateEnv) (i : Nat)
    (howed : H → Owed repo as e candidate (check.name :: names)) :
    Triple (Guarded H mint repo os) (Tended H mint repo (e :: os) as)
      (gateCheck mint env candidate i check e) (fun x d => ∃ as',
        Tended H mint repo (x.1 :: os) as' d ∧ Checked H repo candidate names as as' e x.1 x.2 ∧
          (x.2 ≠ some .admissionHeld → e.gateInfraRetryCheck = some check.name →
            Both as' repo e.seq candidate check.name)) := by
  unfold gateCheck
  split
  · rename_i hmark
    refine (resumeRetry_tended hmint candidate check names env.now hos hmark howed (env.retry i)).mono
      (fun _ h => h) ?_
    rintro x d ⟨as', hd, hc, hboth⟩
    exact ⟨as', hd, hc, fun ho _ => hboth ho⟩
  · rename_i hne
    split
    · refine .pure fun d hd => ⟨as, hd, ⟨⟨rfl, rfl, rfl⟩, List.Subset.refl _, by simp, ?_⟩,
        fun _ hm => absurd hm hne⟩
      exact fun hH _ => (howed hH).skip candidate check names (.refl e) hne
    · refine (freshCheck_tended hmint candidate check names env.now hos hne howed (env.run i)
        (env.retry i)).mono (fun _ h => h) ?_
      rintro x d ⟨as', hd, hc⟩
      exact ⟨as', hd, hc, fun _ hm => absurd hm hne⟩

omit check names now in
/-- `resumed` are checks whose attempts are both recorded when a position begins. -/
theorem gateLoop_tended (env : GateEnv) (plan : List Check) :
    ∀ {e : LandingQueueEntry} {as : List GateAttempt} (i : Nat) (resumed : List String),
      Apart os e → (H → Owed repo as e candidate (plan.map Check.name)) →
      (∀ c ∈ resumed, Both as repo e.seq candidate c) →
      Triple (Guarded H mint repo os) (Tended H mint repo (e :: os) as)
        (gateLoop mint env candidate i plan resumed e) (fun x d => ∃ as',
          Tended H mint repo (x.1 :: os) as' d ∧ Same e x.1 ∧
            (x.2.1 ≠ .admissionHeld → ∀ c ∈ x.2.2, Both as' repo e.seq candidate c) ∧
            (H → x.2.1 = .pass → ∀ a ∈ as', ¬ a.lost repo e.seq candidate)) := by
  induction plan with
  | nil =>
    intro e as i resumed _ howed hboth
    refine .pure fun d hd => ⟨as, hd, ⟨rfl, rfl, rfl⟩, fun _ => hboth, ?_⟩
    intro hH _ a ha hl
    exact not_mem_nil (howed hH a ha hl).2
  | cons check plan ih =>
    intro e as i resumed hos howed hboth
    refine .bind (gateCheck_tended hmint candidate check (plan.map Check.name) hos env i howed)
      fun x => ?_
    refine .of_start ?_
    rintro d ⟨as₁, hd, hc, htaken⟩
    have hseq : x.1.seq = e.seq := hc.same.seq
    have hstart : ∀ y, y = d → Tended H mint repo (x.1 :: os) as₁ y := by
      rintro y rfl
      exact hd
    let taken := if e.gateInfraRetryCheck = some check.name then check.name :: resumed else resumed
    have hall : x.2 ≠ some .admissionHeld → ∀ c ∈ taken, Both as₁ repo e.seq candidate c := by
      intro ho c hmem
      have hor : c ∈ resumed ∨ (e.gateInfraRetryCheck = some check.name ∧ c = check.name) := by
        by_cases hm : e.gateInfraRetryCheck = some check.name
        · simp only [taken, if_pos hm] at hmem
          rcases mem_cons.mp hmem with rfl | hmem
          · exact .inr ⟨hm, rfl⟩
          · exact .inl hmem
        · simp only [taken, if_neg hm] at hmem
          exact .inl hmem
      rcases hor with hmem | ⟨hm, rfl⟩
      · exact (hboth c hmem).mono hc.grown
      · exact htaken ho hm
    cases hx : x.2 with
    | some o =>
      simp only [hx]
      refine .pure ?_
      rintro y rfl
      refine ⟨as₁, hd, hc.same, fun ho => hall (by simp [hx, ho]), ?_⟩
      rintro - rfl
      exact absurd hx hc.stopped
    | none =>
      simp only [hx]
      refine ((ih (i + 1) taken (hos.same hc.same) (fun hH => hc.owed hH hx)
        (hseq ▸ hall (by simp [hx]))).mono hstart ?_)
      rintro z y ⟨as', hy, hs, hres, hpass⟩
      rw [hseq] at hres hpass
      exact ⟨as', hy, hc.same.trans hs, hres, hpass⟩

omit check names now in
theorem executeGatePlanAt_tended (hos : Apart os e) (env : GateEnv) (plan : List Check)
    (howed : H → Owed repo as e candidate (plan.map Check.name)) :
    Triple (Guarded H mint repo os) (Tended H mint repo (e :: os) as)
      (executeGatePlanAt mint env plan candidate e) (fun x d =>
        Guarded H mint repo (x.1 :: os) d ∧ Same e x.1) := by
  refine .bind (Q := fun p d => Tended H mint repo (p :: os) as d ∧ Alike e p) ?_ fun p => ?_
  · unfold openAdmission
    split
    · exact persist_alike hmint hos .edit .runningGates env.now
    · exact .pure fun d hd => ⟨hd, .refl e⟩
  refine .of_start ?_
  rintro d ⟨hd, hp⟩
  have hstart : ∀ y, y = d → Tended H mint repo (p :: os) as y := by
    rintro y rfl
    exact hd
  have howed' : H → Owed repo as p candidate (plan.map Check.name) := by
    intro hH a ha hl
    obtain ⟨hm, hmem⟩ := howed hH a ha (hp.seq ▸ hl)
    exact ⟨hp.check.trans hm, hmem⟩
  refine .bind ((gateLoop_tended hmint candidate env plan 0 [] (hos.same hp.toSame) howed'
    fun c hc => (not_mem_nil hc).elim).mono hstart fun _ _ h => h) fun x => ?_
  refine .of_start ?_
  rintro d₁ ⟨as', hd₁, hs, hres, hpass⟩
  have hscope := hd₁.scope mem_cons_self
  have hseq := hs.seq
  -- the run itself is recorded with the evidence it returned under
  have hrun : Guarded H mint repo (x.1 :: os) (d₁.addGateRun x.1 candidate x.2.2 x.2.1) := by
    refine ⟨{ hd₁.metered with sane := { hd₁.metered.sane with }, complete := ?_, honest := ?_ },
      fun o ho => (hd₁.owned o ho).of_rows rfl⟩
    · refine forall_mem_concat.mpr ⟨hd₁.metered.complete, ?_⟩
      intro ho c hc
      rw [hscope, hseq, hd₁.attempts]
      exact hres ho c hc
    · intro hH
      refine forall_mem_concat.mpr ⟨hd₁.metered.honest hH, ?_⟩
      intro ho a ha
      rw [hscope, hseq]
      exact hpass hH ho a (hd₁.attempts ▸ ha)
  refine .bind (Q := fun _ y => Guarded H mint repo (x.1 :: os) y) (.write ?_ ?_)
    fun _ => .pure fun y hy => ⟨hy, hp.toSame.trans hs⟩
  · rintro y rfl
    exact hrun.subset (subset_cons_self _ _)
  · rintro y rfl
    exact hrun

omit check names now candidate hmint in
theorem Guarded.copied (h : Guarded H mint repo (e :: os) d) : Copied H mint repo os e d :=
  ⟨e, .refl e, h⟩

abbrev Ends (H : Prop) (mint : Nat → RecordId) (repo : String) (os : List LandingQueueEntry)
    (e : LandingQueueEntry) (m : Op LandingOutcome) : Prop :=
  Triple (Guarded H mint repo os) (Copied H mint repo os e) m (fun _ d => Guarded H mint repo os d)

omit check names now candidate hmint in
theorem finish_ends (env : EntryEnv) (o : LandingOutcome) :
    Ends H mint repo os e (finish mint env e o) := by
  refine .bind (Q := fun _ d => Guarded H mint repo os d) ?_ fun _ => .pure fun _ h => h
  unfold markProcessed
  cases o.recorded with
  | none => exact .pure fun _ h => h.tail
  | some word =>
    have hadd : ∀ d m, Copied H mint repo os e d → Guarded H mint repo os (d.addProcessed mint m) :=
      fun d _ h => h.tail.record rfl rfl rfl rfl rfl rfl (Nat.le_succ _)
    exact .write (fun d h => hadd d _ h) fun d h => hadd d _ h

omit check names now candidate in
theorem requeueStale_ends (hr : e.repoName = repo) (env : EntryEnv) :
    Ends H mint repo os e (requeueStale mint env e) := by
  unfold requeueStale
  split
  · exact finish_ends env .escalated
  · exact .bind ((enqueue_guarded hmint (e := e.retry) hr ⟨rfl, rfl⟩ env.now).mono
      (fun _ h => h.tail) fun _ _ h => h) fun _ => .pure fun _ h => h

omit check names now candidate in
theorem advanceTarget_ends (hr : e.repoName = repo) (hos : Apart os e) (env : EntryEnv) :
    Ends H mint repo os e (advanceTarget mint env e) := by
  refine .bind (setStatus_copied hmint hos .landing env.now) fun _ => ?_
  cases env.advance with
  | landed => exact finish_ends env .landed
  | stale => exact requeueStale_ends hmint hr env
  | blocked => exact finish_ends env .escalated

omit check names now candidate in
theorem dispatchReviews_copied (hos : Apart os e) (env : EntryEnv) (n : Nat) :
    Triple (Guarded H mint repo os) (Copied H mint repo os e) (dispatchReviews mint env e n)
      (fun _ d => Copied H mint repo os e d) := by
  induction n with
  | zero => exact .pure fun _ h => h
  | succ n ih => exact .bind (setStatus_copied hmint hos .awaitingReview env.now) fun _ => ih

omit check names now candidate in
theorem routeVerdict_ends (hr : e.repoName = repo) (hos : Apart os e) (env : EntryEnv) :
    Ends H mint repo os e (routeVerdict mint env e) := by
  unfold routeVerdict
  cases env.verdict with
  | approve => exact advanceTarget_ends hmint hr hos env
  | rework => exact finish_ends env .reworkFiled
  | escalate => exact finish_ends env .escalated

omit check names now in
theorem landPrepared_ends (hr : e.repoName = repo) (hos : Apart os e) (env : EntryEnv)
    (howed : H → ∀ plan, env.plan = some plan → Owed repo as e candidate (plan.map Check.name)) :
    Triple (Guarded H mint repo os) (Tended H mint repo (e :: os) as)
      (landPrepared mint env e candidate) (fun _ d => Guarded H mint repo os d) := by
  unfold landPrepared
  cases hplan : env.plan with
  | none => exact (finish_ends env .noGate).mono (fun _ h => h.copied) fun _ _ h => h
  | some plan =>
    refine .bind (executeGatePlanAt_tended hmint candidate hos env.gates plan
      fun hH => howed hH plan hplan) fun x => ?_
    refine .of_start ?_
    rintro d ⟨hd, hs⟩
    have hr' : x.1.repoName = repo := hs.repoName.trans hr
    have hend : ∀ {m : Op LandingOutcome}, Ends H mint repo os x.1 m →
        Triple (Guarded H mint repo os) (fun t => t = d) m (fun _ d => Guarded H mint repo os d) := by
      intro m hm
      refine hm.mono ?_ fun _ _ h => h
      rintro t rfl
      exact hd.copied
    dsimp only
    split
    · exact hend (finish_ends env .gateHeld)
    · split
      · exact hend (advanceTarget_ends hmint hr' (hos.same hs) env)
      · exact hend (.bind (dispatchReviews_copied hmint (hos.same hs) env env.dispatches)
          fun _ => routeVerdict_ends hmint hr' (hos.same hs) env)

def EntryEnv.gated (env : EntryEnv) (e : LandingQueueEntry) : Option (String × List Check) :=
  if e.status = .landing ∧ e.candidateSha.isSome ∧ e.candidateBase.isSome ∧
    env.landedAlready then none
  else if e.admissionRecovery.isSome ∧ env.recoveryRefs = false then none
  else if env.contained then none
  else
    match e.candidateSha, e.candidateBase, e.candidateRef with
    | some commit, some _, some _ => env.plan.map fun plan => (commit, plan)
    | _, _, _ => env.prepared.bind fun c => env.plan.map fun plan => (c.commit, plan)

/-- The same for `process_entry` as a whole. -/
def Daemon.gated (d : Daemon) (env : EntryEnv) (e : LandingQueueEntry) :
    Option (String × List Check) :=
  if (d.findQuarantine e).isSome ∨ d.tainted e ∨ env.invalidSource.isSome ∨ env.targetMissing then
    none
  else
    match d.admissionMarker e env.targetHead with
    | .ok none => env.gated e
    | _ => none

omit check names now candidate hmint in
theorem archiveQuarantine_ends (reason : String) :
    Ends H mint repo os e (archiveQuarantine e reason) := by
  refine .bind ((scanCurrent_guarded e.repoName (some e.target)).mono (fun _ h => h.tail)
    fun _ _ h => h) fun queued => ?_
  have hadd : ∀ d q, Guarded H mint repo os d → Guarded H mint repo os (d.addQuarantine q) :=
    fun d _ h => h.record rfl rfl rfl rfl rfl rfl (Nat.le_succ _)
  exact .bind (Q := fun _ d => Guarded H mint repo os d)
    (.write (fun d h => hadd d _ h.1) fun d h => hadd d _ h.1) fun _ => .pure fun _ h => h

omit check names now candidate in
theorem attemptEntry_ends (hr : e.repoName = repo) (hos : Apart os e) (env : EntryEnv)
    (howed : H → ∀ x, env.gated e = some x → Owed repo as e x.1 (x.2.map Check.name)) :
    Triple (Guarded H mint repo os) (Tended H mint repo (e :: os) as) (attemptEntry mint env e)
      (fun _ d => Guarded H mint repo os d) := by
  have hend : ∀ o, Triple (Guarded H mint repo os) (Tended H mint repo (e :: os) as)
      (finish mint env e o) (fun _ d => Guarded H mint repo os d) :=
    fun o => (finish_ends env o).mono (fun _ h => h.copied) fun _ _ h => h
  unfold attemptEntry
  unfold EntryEnv.gated at howed
  split
  · exact hend _
  rename_i h1
  rw [if_neg h1] at howed
  split
  · exact hend _
  rename_i h2
  rw [if_neg h2] at howed
  split
  · exact hend _
  rename_i h3
  rw [if_neg h3] at howed
  split
  · rename_i commit _ _ hc hb hf
    rw [hc, hb, hf] at howed
    refine landPrepared_ends hmint commit hr hos env fun hH plan hplan => howed hH (commit, plan) ?_
    simp [hplan]
  · cases hprep : env.prepared with
    | none => exact hend _
    | some c =>
      refine .bind (persist_alike hmint hos .edit .runningGates env.now) fun p => ?_
      refine .of_start ?_
      rintro d ⟨hd, hp⟩
      have hstart : ∀ y, y = d → Tended H mint repo (p :: os) as y := by
        rintro y rfl
        exact hd
      refine (landPrepared_ends hmint c.commit (hp.repoName.trans hr) (hos.same hp.toSame) env
        ?_).mono hstart fun _ _ h => h
      intro hH plan hplan a ha hl
      have hsome := howed hH (c.commit, plan) (by simp [hprep, hplan])
      obtain ⟨hm, hmem⟩ := hsome a ha (hp.seq ▸ hl)
      exact ⟨hp.check.trans hm, hmem⟩

omit check names now candidate hmint in
theorem quarantineInvalidSource_ends (hd : Guarded H mint repo (e :: os) d)
    (invalid : Option String) :
    Triple (Guarded H mint repo os) (fun x => x = d) (quarantineInvalidSource e invalid)
      (fun o x => (o.isSome → Guarded H mint repo os x) ∧ (o = none → x = d ∧
        ¬ ((d.findQuarantine e).isSome ∨ d.tainted e ∨ invalid.isSome))) := by
  refine .read_from ?_
  rintro x rfl
  have harch : ∀ reason, Triple (Guarded H mint repo os) (fun y => y = x)
      (archiveQuarantine e reason >>= fun o => pure (some o)) (fun o y =>
        (o.isSome → Guarded H mint repo os y) ∧ (o = none → y = x ∧
          ¬ ((x.findQuarantine e).isSome ∨ x.tainted e ∨ invalid.isSome))) := by
    intro reason
    refine .bind ((archiveQuarantine_ends reason).mono ?_ fun _ _ h => h) fun _ =>
      .pure fun _ h => ⟨fun _ => h, by simp⟩
    rintro y rfl
    exact hd.copied
  cases hq : x.findQuarantine e with
  | some q =>
    refine .pure ?_
    rintro y rfl
    exact ⟨fun _ => hd.subset (subset_cons_self _ _), by simp⟩
  | none =>
    rw [hq] at harch
    by_cases htaint : x.tainted e = true
    · simp only [if_pos htaint]
      exact harch _
    · simp only [if_neg htaint]
      cases invalid with
      | none =>
        refine .pure ?_
        rintro y rfl
        exact ⟨by simp, fun _ => ⟨rfl, by simp [htaint]⟩⟩
      | some reason => exact harch reason

omit check names now candidate hmint in
theorem quarantineInvalidTarget_ends (hd : Guarded H mint repo (e :: os) d) (missing : Bool) :
    Triple (Guarded H mint repo os) (fun x => x = d) (quarantineInvalidTarget e missing)
      (fun o x => (o.isSome → Guarded H mint repo os x) ∧ (o = none → x = d ∧ missing = false)) := by
  refine .read_from ?_
  rintro x rfl
  cases hq : x.findQuarantine e with
  | some q =>
    refine .pure ?_
    rintro y rfl
    exact ⟨fun _ => hd.subset (subset_cons_self _ _), by simp⟩
  | none =>
    cases missing with
    | false =>
      refine .pure ?_
      rintro y rfl
      exact ⟨by simp, fun _ => ⟨rfl, rfl⟩⟩
    | true =>
      refine .bind ((archiveQuarantine_ends _).mono ?_ fun _ _ h => h) fun _ =>
        .pure fun _ h => ⟨fun _ => h, by simp⟩
      rintro y rfl
      exact hd.copied

omit check names now candidate in
theorem processEntry_ends (hd : Guarded H mint repo (e :: os) d) (hos : Apart os e) (env : EntryEnv)
    (howed : H → ∀ x, d.gated env e = some x → Owed repo d.attempts e x.1 (x.2.map Check.name)) :
    Triple (Guarded H mint repo os) (fun x => x = d) (processEntry mint env e)
      (fun _ x => Guarded H mint repo os x) := by
  have hr : e.repoName = repo := hd.scope mem_cons_self
  have htail : Guarded H mint repo os d := hd.subset (subset_cons_self _ _)
  refine .bind (quarantineInvalidSource_ends hd env.invalidSource) fun o => ?_
  cases o with
  | some o => exact .pure fun x hx => hx.1 rfl
  | none =>
    refine .of_start ?_
    rintro x ⟨-, hx⟩
    obtain ⟨rfl, hsource⟩ := hx rfl
    refine .read_from ?_
    rintro y rfl
    cases hm : y.admissionMarker e env.targetHead with
    | error _ => exact .fail
    | ok marker =>
      cases marker with
      | some m =>
        refine .pure ?_
        rintro z rfl
        exact htail
      | none =>
        refine .bind (quarantineInvalidTarget_ends hd env.targetMissing) fun o => ?_
        cases o with
        | some o => exact .pure fun z hz => hz.1 rfl
        | none =>
          refine .of_start ?_
          rintro z ⟨-, hz⟩
          obtain ⟨rfl, htarget⟩ := hz rfl
          have hgated : z.gated env e = env.gated e := by
            have hcond : ¬ ((z.findQuarantine e).isSome ∨ z.tainted e ∨ env.invalidSource.isSome ∨
                env.targetMissing) := by
              simp only [htarget, Bool.false_eq_true, or_false]
              exact hsource
            rw [Daemon.gated, if_neg hcond, hm]
          rw [hgated] at howed
          refine (attemptEntry_ends hmint hr hos env howed).mono ?_ fun _ _ h => h
          rintro w rfl
          exact ⟨hd, rfl⟩

end

end RatKingdom.Landing
