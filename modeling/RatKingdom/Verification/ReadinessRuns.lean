/-
Runs of the run registry behind a handoff fence.

A snapshot is `Shut` while no run of its repository can register before the fence has
been lowered once more.  The snapshot of a request is shut from the moment it is taken,
because the fence went up before it.  The snapshot of a status call is shut only if the
fence was already up, or went up before any run of the repository was admitted after it;
`spares` asks exactly this of the requests.
-/
import RatKingdom.Verification.Readiness

namespace RatKingdom.Verification

open List Function Readiness Event

open Core (DateTime)
open Landing (HandoffFenceRecord HandoffFenceStore ManagedRunBlocker ManagedWorkSnapshot
  FenceReport WriteFault Found fenceStatusJson)

/-- No run of `repo` registers after a snapshot with the events `post` behind it before
the fence has been lowered more than `n` times. -/
structure Shut (y : Readiness) (repo : String) (n : Nat) (post : List Event) : Prop where
  le : n ≤ y.lowered repo
  barred : Barred post repo n
  pending : ∀ run, y.registering = some run → run.repo = repo → n < y.lowered repo
  up : y.admissionFenced repo = true ∨ n < y.lowered repo

/-- The status snapshots of `repo` whose record is still to be read have seen no run
admitted since. -/
def Readiness.Unmissed (y : Readiness) (repo : String) : Prop :=
  ∀ pre call managed since n post,
    y.log = pre ++ snapshot call .status repo managed since n :: post →
    y.calls[call]? = some (.looked repo managed) →
    Barred post repo n ∧ ∀ run, y.registering = some run → run.repo = repo → n < y.lowered repo

def Readiness.spares (y : Readiness) : FenceMove → Prop
  | .request repo _ _ _ _ => y.admissionFenced repo = false → y.Unmissed repo
  | _ => True

/-- What every step does: it appends to the log, counts the fences it lowers, admits a
run only past a fence that is down, and registers only an admitted run. -/
structure Advance (y y' : Readiness) (es : List Event) : Prop where
  log : y'.log = y.log ++ es
  lowered : ∀ repo, y.lowered repo ≤ y'.lowered repo
  fence : ∀ repo, y.admissionFenced repo = true →
    y'.admissionFenced repo = true ∨ y.lowered repo < y'.lowered repo
  steady : ∀ repo, y'.admissionFenced repo = true → y'.lowered repo = y.lowered repo
  pending : ∀ run, y'.registering = some run → y.registering = some run ∨
    y.admissionFenced run.repo = false
  registered : ∀ id run m, registered id run m ∈ es →
    y.registering = some run ∧ m = y.lowered run.repo

variable {y y' : Readiness} {es post : List Event} {repo : String}

theorem Shut.advance {n : Nat} (hs : Shut y repo n post) (ha : Advance y y' es) :
    Shut y' repo n (post ++ es) := by
  have hle := ha.lowered repo
  have hn := hs.le
  constructor
  case le => omega
  case barred =>
    intro id run m hm hr
    rcases mem_append.mp hm with hm | hm
    · exact hs.barred id run m hm hr
    · obtain ⟨hreg, rfl⟩ := ha.registered id run m hm
      subst hr
      exact hs.pending run hreg rfl
  case pending =>
    intro run hreg hr
    rcases ha.pending run hreg with hold | hdown
    · have := hs.pending run hold hr
      omega
    · subst hr
      rcases hs.up with hup | hlt
      · rw [hup] at hdown
        cases hdown
      · omega
  case up =>
    rcases hs.up with hup | hlt
    · rcases ha.fence repo hup with hup' | hlt
      · exact .inl hup'
      · exact .inr (by omega)
    · exact .inr (by omega)

theorem Readiness.become_lowered (y : Readiness) (store : HandoffFenceStore) (now : DateTime)
    (repo : String) :
    y.lowered repo ≤ (y.become store now).lowered repo ∧
    (y.admissionFenced repo = true → (y.become store now).admissionFenced repo = true ∨
        y.lowered repo < (y.become store now).lowered repo) ∧
    ((y.become store now).admissionFenced repo = true ∨ y.admissionFenced repo = false →
      (y.become store now).lowered repo = y.lowered repo) := by
  have hf : (y.become store now).admissionFenced repo =
      ({ y with store := store, now := now } : Readiness).admissionFenced repo := rfl
  have hl : (y.become store now).lowered repo =
      if y.admissionFenced repo && !({ y with store := store, now := now } :
        Readiness).admissionFenced repo
      then y.lowered repo + 1 else y.lowered repo := rfl
  rw [hf, hl]
  cases y.admissionFenced repo with
  | false => simp
  | true =>
    cases ({ y with store := store, now := now } : Readiness).admissionFenced repo with
    | false | true => simp

theorem advance_become (y : Readiness) (store : HandoffFenceStore) (now : DateTime)
    (calls : List Asking) : Advance y { y.become store now with calls := calls } [] where
  log := (append_nil _).symm
  lowered := fun repo => (y.become_lowered store now repo).1
  fence := fun repo => (y.become_lowered store now repo).2.1
  steady := fun repo h => (y.become_lowered store now repo).2.2 (.inl h)
  pending := fun _ h => .inl h
  registered := nofun

theorem advance_log (y : Readiness) (runs : List (Nat × ManagedVerificationRun)) (calls : List Asking)
    (es : List Event) (hes : ∀ id run m, registered id run m ∉ es) :
    Advance y { y with runs := runs, calls := calls, log := y.log ++ es } es where
  log := rfl
  lowered := fun _ => Nat.le_refl _
  fence := fun _ h => .inl h
  steady := fun _ _ => rfl
  pending := fun _ h => .inl h
  registered := fun id run m h => absurd h (hes id run m)

def Down (record : Option HandoffFenceRecord) (now : DateTime) : Prop :=
  ∀ r, record = some r → r.blocksAdmission now = false

theorem Down.later {record : Option HandoffFenceRecord} {now now' : DateTime}
    (h : Down record now) (hle : now ≤ now') : Down record now' := by
  intro r hr
  have hd := h r hr
  simp only [HandoffFenceRecord.blocksAdmission, decide_eq_false_iff_not, not_and] at hd ⊢
  intro hstate hdeadline
  exact hd hstate (Int.le_trans hle hdeadline)

theorem Readiness.fenced_false_iff (y : Readiness) (repo : String) :
    y.admissionFenced repo = false ↔ Down (y.store.data repo) y.now := by
  rw [admissionFenced, Down]
  cases y.store.data repo with
  | none | some r => simp

def Backed (y : Readiness) (pre : List Event) (call : Nat) (asker : Asker) (repo : String)
    (managed : ManagedWorkSnapshot) (n : Nat) (post : List Event) : Prop :=
  match y.calls[call]? with
  | some (.looked r m) => asker = .status ∧ r = repo ∧ m = managed ∧
      (Shut y repo n post ∨ y.admissionFenced repo = false)
  | some (.probed _ r record m) => r = repo ∧ m = managed ∧ (Shut y repo n post ∨ Down record y.now)
  | some .done => AnsweredReady post call → Shut y repo n post ∧ running pre = []
  | _ => False

structure SnapOk (y : Readiness) (pre : List Event) (call : Nat) (asker : Asker) (repo : String)
    (managed : ManagedWorkSnapshot) (since n : Nat) (post : List Event) : Prop where
  listed : ∃ prepare, managed = .new repo (activeAll (running pre)) prepare
  le : n ≤ y.lowered repo
  request : asker = .request → Shut y repo since post
  backed : Backed y pre call asker repo managed n post

structure Kept (y : Readiness) : Prop where
  runs : y.runs = running y.log
  engaged : ∀ (call : Nat) repo record since, y.calls[call]? = some (Asking.engaged repo record since) →
    y.store.data repo = some record ∧ ((y.admissionFenced repo = true ∧ y.lowered repo = since) ∨
        (since < y.lowered repo ∧ record.blocksAdmission y.now = false))
  lifted : ∀ (call : Nat) repo record, y.calls[call]? = some (Asking.lifted repo record) →
    Down record y.now
  answered : ∀ call report, answered call report ∈ y.log → y.calls[call]? = some .done
  snaps : ∀ pre call asker repo managed since n post,
    y.log = pre ++ snapshot call asker repo managed since n :: post →
    SnapOk y pre call asker repo managed since n post

theorem split_log {log pre : List Event} {e : Event} (h : log ++ es = pre ++ e :: post) :
    (∃ post', log = pre ++ e :: post' ∧ post = post' ++ es) ∨ e ∈ es := by
  rcases append_eq_append_iff.mp h with ⟨as, hpre, hes⟩ | ⟨cs, hlog, hpost⟩
  · exact .inr (hes ▸ mem_append_right _ mem_cons_self)
  · cases cs with
    | nil =>
      have hes : e :: post = es := by simpa using hpost
      exact .inr (hes ▸ mem_cons_self)
    | cons c cs =>
      obtain ⟨rfl, rfl⟩ := List.cons.inj hpost
      exact .inl ⟨cs, hlog, rfl⟩

variable {managed : ManagedWorkSnapshot}

theorem SnapOk.advance {y y' : Readiness} {es pre post : List Event} {call : Nat} {asker : Asker}
    {repo : String} {since n : Nat}
    (hs : SnapOk y pre call asker repo managed since n post) (ha : Advance y y' es)
    (hnow : y.now ≤ y'.now) (hcall : y'.calls[call]? = y.calls[call]?)
    (hes : ∀ report, answered call report ∉ es)
    (hdown : y.calls[call]? = some (.looked repo managed) → asker = .status →
      y.admissionFenced repo = false →
      y'.admissionFenced repo = false ∨ Shut y' repo n (post ++ es)) :
    SnapOk y' pre call asker repo managed since n (post ++ es) := by
  refine ⟨hs.listed, Nat.le_trans hs.le (ha.lowered repo), fun h => (hs.request h).advance ha, ?_⟩
  have hb := hs.backed
  rw [Backed] at hb ⊢
  rw [hcall]
  cases hc : y.calls[call]? with
  | none => rw [hc] at hb; exact hb
  | some c =>
    rw [hc] at hb
    cases c with
    | engaged r record k | lifted r record => exact hb
    | looked r m =>
      obtain ⟨hasker, rfl, rfl, hshut⟩ := hb
      refine ⟨hasker, rfl, rfl, ?_⟩
      rcases hshut with hshut | hfree
      · exact .inl (hshut.advance ha)
      · exact (hdown hc hasker hfree).symm
    | probed a r record m =>
      obtain ⟨rfl, rfl, hshut⟩ := hb
      refine ⟨rfl, rfl, ?_⟩
      rcases hshut with hshut | hfree
      · exact .inl (hshut.advance ha)
      · exact .inr (hfree.later hnow)
    | done =>
      intro ⟨report, hm, hready⟩
      have hm' : answered call report ∈ post :=
        (mem_append.mp hm).resolve_right (hes report)
      obtain ⟨hshut, hrun⟩ := hb ⟨report, hm', hready⟩
      exact ⟨hshut.advance ha, hrun⟩

/-- The events that neither take a snapshot nor answer a call. -/
def Event.Plain : Event → Prop
  | .snapshot _ _ _ _ _ _ => False
  | .answered _ _ => False
  | _ => True

theorem engaged_advance (hk : Kept y) (ha : Advance y y' es) (hnow : y.now ≤ y'.now) {call : Nat}
    {record : HandoffFenceRecord} {since : Nat}
    (hc : y.calls[call]? = some (.engaged repo record since))
    (hdata : y'.store.data repo = y.store.data repo) :
    y'.store.data repo = some record ∧ ((y'.admissionFenced repo = true ∧ y'.lowered repo = since) ∨
        (since < y'.lowered repo ∧ record.blocksAdmission y'.now = false)) := by
  obtain ⟨hrec, hold⟩ := hk.engaged call repo record since hc
  rw [hrec] at hdata
  refine ⟨hdata, ?_⟩
  have hle := ha.lowered repo
  have hfenced : y'.admissionFenced repo = record.blocksAdmission y'.now := by
    rw [admissionFenced, hdata]
    rfl
  rcases hold with ⟨hup, rfl⟩ | ⟨hlt, hdown⟩
  · by_cases hup' : y'.admissionFenced repo = true
    · exact .inl ⟨hup', ha.steady repo hup'⟩
    · refine .inr ⟨(ha.fence repo hup).resolve_left hup', ?_⟩
      rw [← hfenced]
      exact Bool.eq_false_iff.mpr hup'
  · refine .inr ⟨by omega, ?_⟩
    have hd : Down (some record) y.now := fun r hr => Option.some.inj hr ▸ hdown
    exact hd.later hnow record rfl

/-- A step that leaves the calls it found alone. -/
theorem Kept.extend {y y' : Readiness} {es : List Event} (hk : Kept y) (ha : Advance y y' es)
    (hnow : y.now ≤ y'.now) (hes : ∀ e ∈ es, e.Plain) (hruns : y'.runs = running y'.log)
    (hcalls : ∀ (call : Nat) c, y.calls[call]? = some c → y'.calls[call]? = some c)
    (hengaged : ∀ (call : Nat) repo record since,
      y'.calls[call]? = some (Asking.engaged repo record since) →
      y'.store.data repo = some record ∧
        ((y'.admissionFenced repo = true ∧ y'.lowered repo = since) ∨
          (since < y'.lowered repo ∧ record.blocksAdmission y'.now = false)))
    (hlifted : ∀ (call : Nat) repo record,
      y'.calls[call]? = some (Asking.lifted repo record) → Down record y'.now)
    (hdown : ∀ pre call repo managed since n post,
      y.log = pre ++ snapshot call .status repo managed since n :: post →
      y.calls[call]? = some (.looked repo managed) → y.admissionFenced repo = false →
      y'.admissionFenced repo = false ∨ Shut y' repo n (post ++ es)) : Kept y' where
  runs := hruns
  engaged := hengaged
  lifted := hlifted
  answered := by
    intro call report hm
    rw [ha.log] at hm
    rcases mem_append.mp hm with hm | hm
    · exact hcalls call _ (hk.answered call report hm)
    · exact (hes _ hm).elim
  snaps := by
    intro pre call asker repo managed since n post hlog
    rw [ha.log] at hlog
    rcases split_log hlog with ⟨post', hold, rfl⟩ | hmem
    · have hs := hk.snaps pre call asker repo managed since n post' hold
      have hcall : y'.calls[call]? = y.calls[call]? := by
        cases hc : y.calls[call]? with
        | none =>
          have hb := hs.backed
          rw [Backed, hc] at hb
          exact hb.elim
        | some c => exact hcalls call c hc
      refine hs.advance ha hnow hcall (fun report hm => (hes _ hm).elim) ?_
      intro hlook hasker
      subst hasker
      exact hdown pre call repo managed since n post' hold hlook
    · exact (hes _ hmem).elim

theorem running_append (log es : List Event) :
    running (log ++ es) = es.foldl replay (running log) := by
  rw [running, foldl_append]
  rfl

section
variable {y y' : Readiness}

theorem Kept.tick (hk : Kept y) (later : Nat) : Kept (y.become y.store (y.now + later)) := by
  have ha : Advance y (y.become y.store (y.now + later)) [] :=
    advance_become y y.store (y.now + later) y.calls
  have hnow : y.now ≤ y.now + (later : Int) := Int.le_add_of_nonneg_right (Int.natCast_nonneg _)
  have hes : ∀ e ∈ ([] : List Event), e.Plain := by simp
  refine hk.extend ha hnow hes hk.runs (fun _ _ h => h) ?_ ?_ ?_
  · intro call repo record since hc
    exact engaged_advance hk ha hnow hc rfl
  · intro call repo record hc
    exact (hk.lifted call repo record hc).later hnow
  · intro pre call repo managed since n post _ _ hfree
    refine .inl ?_
    rw [fenced_false_iff] at hfree ⊢
    exact hfree.later hnow

theorem Kept.registry (hk : Kept y) {es : List Event} (ha : Advance y y' es)
    (hstore : y'.store.data = y.store.data) (hnow : y'.now = y.now) (hcalls : y'.calls = y.calls)
    (hes : ∀ e ∈ es, e.Plain) (hruns : y'.runs = running y'.log) : Kept y' := by
  have hle : y.now ≤ y'.now := hnow ▸ Int.le_refl _
  refine hk.extend ha hle hes hruns (fun _ _ h => hcalls ▸ h) ?_ ?_ ?_
  · intro call repo record since hc
    rw [hcalls] at hc
    exact engaged_advance hk ha hle hc (by rw [hstore])
  · intro call repo record hc
    rw [hcalls] at hc
    exact (hk.lifted call repo record hc).later hle
  · intro pre call repo managed since n post _ _ hfree
    refine .inl ?_
    rw [fenced_false_iff] at hfree ⊢
    rw [hstore, hnow]
    exact hfree

variable {s : HandoffFenceStore}

theorem Kept.failed (hk : Kept y) (hdata : s.data = y.store.data) : Kept (y.become s y.now) := by
  have ha : Advance y (y.become s y.now) [] := advance_become y s y.now y.calls
  exact hk.registry ha hdata rfl rfl (by simp) hk.runs

theorem Kept.check (hk : Kept y) {run : ManagedVerificationRun}
    (hs : y.step (.check run) = some y') : Kept y' := by
  obtain ⟨hlock, hs⟩ := Option.ite_none_left_eq_some.mp hs
  by_cases hfenced : y.admissionFenced run.repo = true
  · rw [if_pos hfenced] at hs
    cases hs
    refine hk.registry (advance_log y y.runs y.calls [.refused run] (by simp)) rfl rfl rfl ?_ ?_
    · intro e he
      rw [mem_singleton.mp he]
      trivial
    · show y.runs = running (y.log ++ [refused run])
      rw [running_append]
      exact hk.runs
  · rw [if_neg hfenced] at hs
    cases hs
    have ha : Advance y { y with registering := some run } [] := by
      refine ⟨(append_nil _).symm, fun _ => Nat.le_refl _, fun _ h => .inl h,
        fun _ _ => rfl, ?_, nofun⟩
      intro run' hrun
      cases hrun
      exact .inr (Bool.eq_false_iff.mpr hfenced)
    exact hk.registry ha rfl rfl rfl (by simp) hk.runs

theorem Kept.insert (hk : Kept y) (hs : y.step .insert = some y') : Kept y' := by
  obtain ⟨run, hreg, rfl⟩ := Option.map_eq_some_iff.mp hs
  have ha : Advance y { y with
        runs := y.runs ++ [(y.nextId, run)], nextId := y.nextId + 1, registering := none
        log := y.log ++ [registered y.nextId run (y.lowered run.repo)] }
      [.registered y.nextId run (y.lowered run.repo)] := by
    refine ⟨rfl, fun _ => Nat.le_refl _, fun _ h => .inl h, fun _ _ => rfl, nofun, ?_⟩
    intro id run' m hm
    cases mem_singleton.mp hm
    exact ⟨hreg, rfl⟩
  refine hk.registry ha rfl rfl rfl ?_ ?_
  · intro e he
    rw [mem_singleton.mp he]
    trivial
  · show y.runs ++ [(y.nextId, run)] = running (y.log ++ _)
    rw [running_append, hk.runs]
    rfl

theorem Kept.unregister (hk : Kept y) {id : Nat} (hs : y.step (.unregister id) = some y') :
    Kept y' := by
  obtain ⟨hlock, hs⟩ := Option.ite_none_left_eq_some.mp hs
  cases hs
  refine hk.registry (advance_log y (y.runs.filter fun r => r.1 ≠ id) y.calls [.unregistered id]
    (by simp)) rfl rfl rfl ?_ ?_
  · intro e he
    rw [mem_singleton.mp he]
    trivial
  · show y.runs.filter _ = running (y.log ++ [unregistered id])
    rw [running_append, hk.runs]
    rfl

variable {holder repo : String} {now : DateTime}

theorem requested_blocks {data : Landing.Fences} {ttlSecs : Int} {minted : String}
    {r : HandoffFenceRecord} (h : Landing.requested data repo holder ttlSecs now minted = .ok r) :
    r.blocksAdmission now = true := by
  have httl : now ≤ now + Landing.fenceTtl ttlSecs := by
    have hpos : 0 ≤ Landing.fenceTtl ttlSecs := by
      rw [Landing.fenceTtl, DateTime.nanosPerSecond]
      omega
    exact Int.le_add_of_nonneg_right hpos
  unfold Landing.requested at h
  cases hd : data repo with
  | none =>
    simp only [hd] at h
    cases h
    exact decide_eq_true ⟨rfl, httl⟩
  | some existing =>
    simp only [hd] at h
    split at h
    · next hsame =>
      cases h
      have hb := of_decide_eq_true hsame.2
      exact decide_eq_true ⟨hb.1, httl⟩
    · split at h
      · cases h
      · cases h
        exact decide_eq_true ⟨rfl, httl⟩

variable {fault : Option WriteFault}

/-- What an answered release leaves blocks nothing. -/
theorem release_down {s' : HandoffFenceStore} {fenceId : String}
    (h : s.release repo holder fenceId now fault = (s', .ok ())) :
    Down (s'.data repo) now := by
  rcases Landing.release_spec s repo holder fenceId now fault with hsame | ⟨r, hr, -, -, hcase⟩
  · rw [h] at hsame
    replace hsame : s' = s := hsame
    subst hsame
    unfold HandoffFenceStore.release at h
    cases hd : s'.data repo with
    | none => exact nofun
    | some existing =>
      simp only [hd] at h
      split at h
      · next hfree =>
        intro r hr
        cases hr
        exact hfree
      · next hblock =>
        split at h
        · cases h
        · -- a written release changes the record, so the store cannot be the same
          rcases Landing.put_persist s' repo { existing with state := .released } fault with
            ⟨t, hp, hw⟩ | ⟨t, e, hp, -⟩
          · rw [hp] at h
            cases h
            have hdata := congrFun hw.data repo
            rw [update_self, hd] at hdata
            intro r hr
            cases hr
            rw [Option.some.inj hdata]
            exact decide_eq_false nofun
          · rw [hp] at h
            cases h
  · rcases hcase with ⟨t, e, he, -⟩ | ⟨t, he, hw⟩
    · rw [h] at he
      cases he
    · rw [h] at he
      cases he
      rw [hw.data, update_self]
      intro r' hr'
      cases hr'
      exact decide_eq_false nofun

variable {call : Nat}

theorem not_gated (hg : ¬ y.gated repo = true) {r : String} {record : HandoffFenceRecord}
    {since : Nat} (hc : y.calls[call]? = some (.engaged r record since)) : r ≠ repo := by
  intro hr
  apply hg
  rw [gated, any_eq_true]
  exact ⟨_, mem_of_getElem? hc, decide_eq_true hr⟩

variable {calls : List Asking} {c c' : Asking}

theorem getElem?_concat (h : (calls ++ [c])[call]? = some c') :
    calls[call]? = some c' ∨ call = calls.length ∧ c' = c := by
  rcases Nat.lt_trichotomy call calls.length with hlt | rfl | hgt
  · rw [getElem?_append_left hlt] at h
    exact .inl h
  · rw [getElem?_concat_length] at h
    exact .inr ⟨rfl, (Option.some.inj h).symm⟩
  · have hlen : (calls ++ [c]).length ≤ call := by
      rw [length_append, length_singleton]
      omega
    rw [getElem?_eq_none hlen] at h
    cases h

theorem getElem?_concat_of (h : calls[call]? = some c') : (calls ++ [c])[call]? = some c' := by
  obtain ⟨hlt, -⟩ := List.getElem?_eq_some_iff.mp h
  rw [getElem?_append_left hlt, h]

theorem Kept.request (hk : Kept y) {ttlSecs : Int} {minted : String}
    (hspares : y.admissionFenced repo = false → y.Unmissed repo)
    (hs : y.step (.request repo holder ttlSecs minted fault) = some y') : Kept y' := by
  obtain ⟨hg, hs⟩ := Option.ite_none_left_eq_some.mp hs
  rcases Landing.request_spec y.store repo holder ttlSecs y.now minted fault with
    ⟨e, he, -⟩ | ⟨s, e, he, hfail⟩ | ⟨s, r, he, hreq, hw⟩
  · simp only [he] at hs
    cases hs
    exact hk.failed rfl
  · simp only [he] at hs
    cases hs
    exact hk.failed hfail.data
  simp only [he] at hs
  cases hs
  have ha := advance_become y s y.now (y.calls ++ [Asking.engaged repo r (y.lowered repo)])
  have hle : y.now ≤ y.now := Int.le_refl _
  have hdata : s.data repo = some r := by rw [hw.data, update_self]
  have hup : (y.become s y.now).admissionFenced repo = true := by
    show ((s.data repo).map fun record => record.blocksAdmission y.now).getD false = true
    rw [hdata]
    exact requested_blocks hreq
  have hlow : (y.become s y.now).lowered repo = y.lowered repo := ha.steady repo hup
  refine hk.extend ha hle (by simp) hk.runs (fun _ _ h => getElem?_concat_of h) ?_ ?_ ?_
  · intro call repo' record since hc
    rcases getElem?_concat hc with hold | ⟨-, hnew⟩
    · refine engaged_advance hk ha hle hold ?_
      show s.data repo' = y.store.data repo'
      rw [hw.data, update_of_ne (not_gated hg hold)]
    · cases hnew
      exact ⟨hdata, .inl ⟨hup, hlow⟩⟩
  · intro call repo' record hc
    rcases getElem?_concat hc with hold | ⟨-, hnew⟩
    · exact hk.lifted call repo' record hold
    · cases hnew
  · intro pre call repo' managed since n post hlog hlook hfree
    by_cases hr : repo' = repo
    · subst hr
      obtain ⟨hbar, hpend⟩ := hspares hfree pre call managed since n post hlog hlook
      have hn : n ≤ y.lowered repo' := (hk.snaps _ _ _ _ _ _ _ _ hlog).le
      refine .inr ⟨hlow ▸ hn, ?_, ?_, .inl hup⟩
      · rw [append_nil]
        exact hbar
      · intro run hreg hrepo
        exact hlow ▸ hpend run hreg hrepo
    · refine .inl ?_
      show ((s.data repo').map fun record => record.blocksAdmission y.now).getD false = false
      rw [hw.data, update_of_ne hr]
      exact hfree

theorem Kept.release (hk : Kept y) {fenceId : String}
    (hstep : y.step (.release repo holder fenceId fault) = some y') : Kept y' := by
  obtain ⟨hg, hstep⟩ := Option.ite_none_left_eq_some.mp hstep
  have hle : y.now ≤ y.now := Int.le_refl _
  -- a release leaves every other repository's record, and its own down if it was down
  have hstore : ∀ repo', (repo' ≠ repo ∨ y.admissionFenced repo' = false) →
      (y.store.release repo holder fenceId y.now fault).1.data repo' = y.store.data repo' := by
    intro repo' hr
    rcases Landing.release_spec y.store repo holder fenceId y.now fault with
      hsame | ⟨r, hrec, hblock, -, hcase⟩
    · rw [hsame]
    · have hne : repo' ≠ repo := by
        intro he
        subst he
        have hdown := (y.fenced_false_iff repo').mp (hr.resolve_left (by simp)) r hrec
        rw [hblock] at hdown
        cases hdown
      rcases hcase with ⟨t, e, he, hfail⟩ | ⟨t, he, hw⟩
      · rw [he]
        exact congrFun hfail.data repo'
      · rw [he]
        show t.data repo' = _
        rw [hw.data, update_of_ne hne]
  cases hres : y.store.release repo holder fenceId y.now fault with
  | mk s res =>
    rw [hres] at hstore
    cases res with
    | error e =>
      simp only [hres] at hstep
      cases hstep
      have hdata : s.data = y.store.data := by
        rcases Landing.release_spec y.store repo holder fenceId y.now fault with
          hsame | ⟨r, -, -, -, ⟨t, e', he, hfail⟩ | ⟨t, he, -⟩⟩
        · rw [hres] at hsame
          exact congrArg HandoffFenceStore.data hsame
        · rw [hres] at he
          cases he
          exact hfail.data
        · rw [hres] at he
          cases he
      exact hk.failed hdata
    | ok u =>
      simp only [hres] at hstep
      cases hstep
      have ha := advance_become y s y.now (y.calls ++ [Asking.lifted repo (s.data repo)])
      refine hk.extend ha hle (by simp) hk.runs (fun _ _ h => getElem?_concat_of h) ?_ ?_ ?_
      · intro call repo' record since hc
        rcases getElem?_concat hc with hold | ⟨-, hnew⟩
        · exact engaged_advance hk ha hle hold (hstore repo' (.inl (not_gated hg hold)))
        · cases hnew
      · intro call repo' record hc
        rcases getElem?_concat hc with hold | ⟨-, hnew⟩
        · exact hk.lifted call repo' record hold
        · cases hnew
          exact release_down hres
      · intro pre call repo' managed since n post _ _ hfree
        refine .inl ?_
        have hs : s.data repo' = y.store.data repo' := hstore repo' (.inr hfree)
        show ((s.data repo').map fun record => record.blocksAdmission y.now).getD false = false
        rw [hs]
        exact hfree

theorem Shut.fresh {n : Nat} (hle : n ≤ y.lowered repo) (hreg : y.registering = none)
    (hup : y.admissionFenced repo = true ∨ n < y.lowered repo) :
    Shut y repo n [] where
  le := hle
  barred := nofun
  pending := by
    intro run h
    rw [hreg] at h
    cases h
  up := hup

/-- A call takes its snapshot: it had none in the log, and the others are left alone. -/
theorem Kept.snapped (hk : Kept y) {call : Nat} {asker : Asker} {repo : String} {since : Nat}
    {calls : List Asking}
    (hfree : ∀ pre asker' repo' managed' since' n post,
      y.log ≠ pre ++ Event.snapshot call asker' repo' managed' since' n :: post)
    (hothers : ∀ i, i ≠ call → calls[i]? = y.calls[i]?)
    (hdone : y.calls[call]? ≠ some .done)
    (hcall : ∀ repo' record since', calls[call]? ≠ some (.engaged repo' record since'))
    (hcall' : ∀ repo' record, calls[call]? ≠ some (.lifted repo' record))
    (hnew : SnapOk
      { y with calls := calls,
               log := y.log ++ [Event.snapshot call asker repo managed since (y.lowered repo)] }
      y.log call asker repo managed since (y.lowered repo) []) :
    Kept { y with
      calls := calls
      log := y.log ++ [Event.snapshot call asker repo managed since (y.lowered repo)] } := by
  have ha := advance_log y y.runs calls [.snapshot call asker repo managed since (y.lowered repo)]
    (by simp)
  have hle : y.now ≤ y.now := Int.le_refl _
  constructor
  case runs =>
    show y.runs = running (y.log ++ [_])
    rw [running_append]
    exact hk.runs
  case engaged =>
    intro i repo' record since' hc
    by_cases hi : i = call
    · subst hi
      exact absurd hc (hcall repo' record since')
    · exact engaged_advance hk ha hle ((hothers i hi).symm.trans hc) rfl
  case lifted =>
    intro i repo' record hc
    by_cases hi : i = call
    · subst hi
      exact absurd hc (hcall' repo' record)
    · exact hk.lifted i repo' record ((hothers i hi).symm.trans hc)
  case answered =>
    intro i report hm
    have hold : Event.answered i report ∈ y.log := by simpa using hm
    have hi : i ≠ call := by
      intro he
      subst he
      exact hdone (hk.answered i report hold)
    exact (hothers i hi).trans (hk.answered i report hold)
  case snaps =>
    intro pre i asker' repo' managed' since' n post hlog
    rcases append_eq_append_iff.mp hlog with ⟨as, hpre, hes⟩ | ⟨cs, hold, hpost⟩
    · -- the new snapshot itself: nothing comes after it
      cases as with
      | nil =>
        rw [append_nil] at hpre
        subst hpre
        cases hes
        exact hnew
      | cons a as =>
        have hnil := (List.cons.inj hes).2
        simp at hnil
    · cases cs with
      | nil =>
        rw [append_nil] at hold
        subst hold
        cases hpost
        exact hnew
      | cons c cs =>
        obtain ⟨rfl, rfl⟩ := List.cons.inj hpost
        have hs := hk.snaps pre i asker' repo' managed' since' n cs hold
        have hi : i ≠ call := by
          intro he
          subst he
          exact hfree _ _ _ _ _ _ _ hold
        exact hs.advance ha hle (hothers i hi) (by simp) fun _ _ h => .inl h

theorem Kept.unsnapped (hk : Kept y) {call : Nat} (hc : ∀ c, y.calls[call]? = some c →
      (∃ repo record since, c = .engaged repo record since) ∨ ∃ repo record, c = .lifted repo record)
    (pre : List Event) (asker : Asker) (repo : String) (managed : ManagedWorkSnapshot)
    (since n : Nat) (post : List Event) :
    y.log ≠ pre ++ snapshot call asker repo managed since n :: post := by
  intro hlog
  have hb := (hk.snaps pre call asker repo managed since n post hlog).backed
  rw [Backed] at hb
  cases hcc : y.calls[call]? with
  | none => rw [hcc] at hb; exact hb
  | some c =>
    rw [hcc] at hb
    rcases hc c hcc with ⟨r, record, k, rfl⟩ | ⟨r, record, rfl⟩
    · exact hb
    · exact hb

variable {prepare : Bool}

theorem Kept.probe (hk : Kept y) (hs : y.step (.probe call prepare) = some y') : Kept y' := by
  obtain ⟨hlock, hs⟩ := Option.ite_none_left_eq_some.mp hs
  have hreg : y.registering = none := by simpa using hlock
  have hlisted : ∀ repo, ∃ p, y.managedWorkSnapshot repo prepare =
      .new repo (activeAll (running y.log)) p := by
    intro repo
    exact ⟨prepare, by rw [managedWorkSnapshot, hk.runs]⟩
  cases hc : y.calls[call]? with
  | none => simp [hc] at hs
  | some c =>
    have hlt : call < y.calls.length := (List.getElem?_eq_some_iff.mp hc).1
    have hset : ∀ p : Asking, (y.calls.set call p)[call]? = some p := by
      intro p
      rw [getElem?_set_self hlt]
    have hothers : ∀ p : Asking, ∀ i, i ≠ call → (y.calls.set call p)[i]? = y.calls[i]? := by
      intro p i hi
      exact getElem?_set_ne (Ne.symm hi)
    cases c with
    | engaged repo record since =>
      simp only [hc] at hs
      cases hs
      obtain ⟨hdata, hstate⟩ := hk.engaged call repo record since hc
      have hfenced : y.admissionFenced repo = record.blocksAdmission y.now := by
        rw [admissionFenced, hdata]
        rfl
      refine hk.snapped (hk.unsnapped ?_) (hothers _) (by rw [hc]; nofun) (by rw [hset]; nofun)
        (by rw [hset]; nofun) ⟨hlisted repo, Nat.le_refl _, fun _ => ?_, ?_⟩
      · intro c' hc'
        rw [hc] at hc'
        cases hc'
        exact .inl ⟨repo, record, since, rfl⟩
      · rcases hstate with ⟨hup, rfl⟩ | ⟨hltn, -⟩
        · exact .fresh (Nat.le_refl _) hreg (.inl hup)
        · exact .fresh (Nat.le_of_lt hltn) hreg (.inr hltn)
      · rw [Backed, hset]
        refine ⟨rfl, rfl, ?_⟩
        rcases hstate with ⟨hup, -⟩ | ⟨-, hdown⟩
        · exact .inl (.fresh (Nat.le_refl _) hreg (.inl hup))
        · refine .inr fun r hr => ?_
          cases hr
          exact hdown
    | lifted repo record =>
      simp only [hc] at hs
      cases hs
      refine hk.snapped (hk.unsnapped ?_) (hothers _) (by rw [hc]; nofun) (by rw [hset]; nofun)
        (by rw [hset]; nofun) ⟨hlisted repo, Nat.le_refl _, nofun, ?_⟩
      · intro c' hc'
        rw [hc] at hc'
        cases hc'
        exact .inr ⟨repo, record, rfl⟩
      · rw [Backed, hset]
        exact ⟨rfl, rfl, .inr (hk.lifted call repo record hc)⟩
    | _ => simp [hc] at hs

theorem Kept.look (hk : Kept y) (hs : y.step (.look repo prepare) = some y') : Kept y' := by
  obtain ⟨hlock, hs⟩ := Option.ite_none_left_eq_some.mp hs
  cases hs
  have hreg : y.registering = none := by simpa using hlock
  have hn : y.calls[y.calls.length]? = none := getElem?_eq_none (Nat.le_refl _)
  have hl : (y.calls ++ [Asking.looked repo (y.managedWorkSnapshot repo prepare)])[y.calls.length]? =
      some (.looked repo (y.managedWorkSnapshot repo prepare)) := getElem?_concat_length ..
  refine hk.snapped (hk.unsnapped ?_) ?_ (by rw [hn]; nofun) (by rw [hl]; nofun)
    (by rw [hl]; nofun) ⟨⟨prepare, ?_⟩, Nat.le_refl _, nofun, ?_⟩
  · intro c hc
    rw [hn] at hc
    cases hc
  · intro i hi
    rcases Nat.lt_or_gt_of_ne hi with hlt | hgt
    · exact getElem?_append_left hlt
    · have hlen : (y.calls ++ [Asking.looked repo (y.managedWorkSnapshot repo prepare)]).length ≤
          i := by
        rw [length_append, length_singleton]
        omega
      rw [getElem?_eq_none hlen, getElem?_eq_none (Nat.le_of_lt hgt)]
  · rw [managedWorkSnapshot, hk.runs]
  · rw [Backed, hl]
    refine ⟨rfl, rfl, rfl, ?_⟩
    cases hup : y.admissionFenced repo with
    | true => exact .inl (.fresh (Nat.le_refl _) hreg (.inl hup))
    | false => exact .inr hup

/-- A call with a snapshot goes on; the other calls are left alone. -/
theorem Kept.moved (hk : Kept y) {call : Nat} {c c' : Asking} {es : List Event}
    (hc : y.calls[call]? = some c) (hopen : c ≠ .done)
    (hgate : ∀ repo record since, c' ≠ .engaged repo record since)
    (hgate' : ∀ repo record, c' ≠ .lifted repo record)
    (hes : ∀ e ∈ es, ∃ report, e = .answered call report ∧ c' = .done)
    (hback : ∀ pre asker repo managed since n post,
      y.log = pre ++ snapshot call asker repo managed since n :: post →
      Shut y repo n post → Shut { y with calls := y.calls.set call c', log := y.log ++ es } repo n
        (post ++ es) →
      Backed { y with calls := y.calls.set call c', log := y.log ++ es } pre call asker repo managed
        n (post ++ es))
    (hback' : ∀ pre asker repo managed since n post,
      y.log = pre ++ .snapshot call asker repo managed since n :: post → ¬ Shut y repo n post →
      Backed { y with calls := y.calls.set call c', log := y.log ++ es } pre call asker repo managed
        n (post ++ es)) :
    Kept { y with calls := y.calls.set call c', log := y.log ++ es } := by
  have hregs : ∀ id run m, .registered id run m ∉ es := by
    intro id run m hm
    obtain ⟨report, he, -⟩ := hes _ hm
    cases he
  have ha := advance_log y y.runs (y.calls.set call c') es hregs
  have hle : y.now ≤ y.now := Int.le_refl _
  have hlt : call < y.calls.length := (List.getElem?_eq_some_iff.mp hc).1
  have hset : (y.calls.set call c')[call]? = some c' := by rw [getElem?_set_self hlt]
  have hothers : ∀ i, i ≠ call → (y.calls.set call c')[i]? = y.calls[i]? := by
    intro i hi
    exact getElem?_set_ne (Ne.symm hi)
  constructor
  case runs =>
    show y.runs = running (y.log ++ es)
    rw [running_append, hk.runs]
    clear ha hback hback' hregs
    induction es with
    | nil => rfl
    | cons e es ih =>
      obtain ⟨report, rfl, -⟩ := hes e mem_cons_self
      exact ih fun e' he' => hes e' (mem_cons_of_mem _ he')
  case engaged =>
    intro i repo record since hi
    by_cases he : i = call
    · subst he
      exact absurd (Option.some.inj (hset.symm.trans hi)) (hgate repo record since)
    · exact engaged_advance hk ha hle ((hothers i he).symm.trans hi) rfl
  case lifted =>
    intro i repo record hi
    by_cases he : i = call
    · subst he
      exact absurd (Option.some.inj (hset.symm.trans hi)) (hgate' repo record)
    · exact hk.lifted i repo record ((hothers i he).symm.trans hi)
  case answered =>
    intro i report hm
    rcases mem_append.mp hm with hold | hnew
    · have hi : i ≠ call := by
        intro he
        subst he
        exact hopen (Option.some.inj (hc.symm.trans (hk.answered i report hold)))
      exact (hothers i hi).trans (hk.answered i report hold)
    · obtain ⟨report', he, hdone⟩ := hes _ hnew
      cases he
      rw [← hdone]
      exact hset
  case snaps =>
    intro pre i asker repo managed since n post hlog
    rcases split_log hlog with ⟨post', hold, rfl⟩ | hmem
    · have hs := hk.snaps pre i asker repo managed since n post' hold
      by_cases hi : i = call
      · subst hi
        refine ⟨hs.listed, hs.le, fun h => (hs.request h).advance ha, ?_⟩
        by_cases hshut : Shut y repo n post'
        · exact hback pre asker repo managed since n post' hold hshut (hshut.advance ha)
        · exact hback' pre asker repo managed since n post' hold hshut
      · refine hs.advance ha hle (hothers i hi) ?_ fun _ _ h => .inl h
        intro report hm
        obtain ⟨report', he, -⟩ := hes _ hm
        cases he
        exact hi rfl
    · obtain ⟨report', he, -⟩ := hes _ hmem
      cases he

theorem Kept.read (hk : Kept y) (hs : y.step (.read call) = some y') : Kept y' := by
  simp only [step] at hs
  cases hc : y.calls[call]? with
  | none => simp [hc] at hs
  | some c =>
    cases c with
    | looked repo managed =>
      simp only [hc] at hs
      cases hs
      have hlt : call < y.calls.length := (List.getElem?_eq_some_iff.mp hc).1
      have hset : ∀ p : Asking, (y.calls.set call p)[call]? = some p := by
        intro p
        rw [getElem?_set_self hlt]
      have hlooked : ∀ pre asker r m since n post,
          y.log = pre ++ .snapshot call asker r m since n :: post →
          repo = r ∧ managed = m ∧ (Shut y r n post ∨ y.admissionFenced r = false) := by
        intro pre asker r m since n post hlog
        have hb := (hk.snaps _ _ _ _ _ _ _ _ hlog).backed
        rw [Backed, hc] at hb
        exact hb.2
      have hmoved := @Kept.moved y hk call (.looked repo managed)
        (.probed .status repo (y.store.data repo) managed) [] hc nofun
        nofun nofun (by simp) ?_ ?_
      · rw [append_nil] at hmoved
        exact hmoved
      · intro pre asker r m since n post hlog _ hshut
        obtain ⟨rfl, rfl, -⟩ := hlooked pre asker r m since n post hlog
        rw [Backed, hset]
        exact ⟨rfl, rfl, .inl hshut⟩
      · intro pre asker r m since n post hlog hno
        obtain ⟨rfl, rfl, hcase⟩ := hlooked pre asker r m since n post hlog
        rw [Backed, hset]
        exact ⟨rfl, rfl, .inr ((y.fenced_false_iff repo).mp (hcase.resolve_left hno))⟩
    | _ => simp [hc] at hs

theorem fenceStatusJson_ready {record : Option HandoffFenceRecord} {landingKeys : List String}
    (h : (fenceStatusJson s record now landingKeys managed).ready = true) :
    ¬ Down record now ∧ managed.daemonClear = true := by
  unfold fenceStatusJson at h
  cases hl : s.loadFailure with
  | some reason =>
    rw [hl] at h
    cases h
  | none =>
    rw [hl] at h
    cases record with
    | none => cases h
    | some r =>
      replace h : (r.blocksAdmission now && (landingKeys.isEmpty && managed.daemonClear)) = true := h
      rw [Bool.and_eq_true, Bool.and_eq_true] at h
      refine ⟨fun hd => ?_, h.2.2⟩
      have := hd r rfl
      rw [h.1] at this
      cases this

theorem running_eq_nil {runs : List (Nat × ManagedVerificationRun)}
    (h : (ManagedWorkSnapshot.new repo (activeAll runs) prepare).daemonClear = true) :
    runs = [] := by
  simp only [ManagedWorkSnapshot.daemonClear, ManagedWorkSnapshot.repoClear, ManagedWorkSnapshot.new,
    Bool.and_eq_true, List.isEmpty_iff, filter_eq_nil_iff, decide_eq_true_eq] at h
  obtain ⟨⟨hown, hother⟩, -⟩ := h
  have hall : activeAll runs = [] := by
    rw [eq_nil_iff_forall_not_mem]
    intro b hb
    exact hother b hb (hown b hb)
  have hlen : (runs.map fun r => r.2.blocker).length = (activeAll runs).length :=
    (length_mergeSort _).symm
  rw [hall, length_map] at hlen
  exact length_eq_zero_iff.mp hlen

theorem Kept.answer (hk : Kept y) {landingKeys : List String}
    (hstep : y.step (.answer call landingKeys) = some y') : Kept y' := by
  simp only [step] at hstep
  cases hc : y.calls[call]? with
  | none => simp [hc] at hstep
  | some c =>
    cases c with
    | probed a repo record managed =>
      simp only [hc] at hstep
      cases hstep
      have hlt : call < y.calls.length := (List.getElem?_eq_some_iff.mp hc).1
      have hset : (y.calls.set call .done)[call]? = some .done := by rw [getElem?_set_self hlt]
      have hprobed : ∀ pre asker r m since n post,
          y.log = pre ++ .snapshot call asker r m since n :: post →
          repo = r ∧ managed = m ∧ (Shut y r n post ∨ Down record y.now) ∧
            ∃ p, m = .new r (activeAll (running pre)) p := by
        intro pre asker r m since n post hlog
        have hs := hk.snaps _ _ _ _ _ _ _ _ hlog
        have hb := hs.backed
        rw [Backed, hc] at hb
        exact ⟨hb.1, hb.2.1, hb.2.2, hs.listed⟩
      -- a call that has not answered yet answers what this step answers
      have hready : ∀ pre asker r m since n post,
          y.log = pre ++ .snapshot call asker r m since n :: post →
          AnsweredReady (post ++
            [.answered call (fenceStatusJson y.store record y.now landingKeys managed)]) call →
          (fenceStatusJson y.store record y.now landingKeys managed).ready = true := by
        intro pre asker r m since n post hlog ⟨report, hm, hr⟩
        rcases mem_append.mp hm with hm | hm
        · have hlogged : Event.answered call report ∈ y.log := by
            rw [hlog]
            exact mem_append_right _ (mem_cons_of_mem _ hm)
          have := hk.answered call report hlogged
          rw [hc] at this
          cases this
        · cases mem_singleton.mp hm
          exact hr
      apply hk.moved hc (by intro h; cases h) (by intro _ _ _ h; cases h) (by intro _ _ h; cases h)
      · intro e he
        exact ⟨_, mem_singleton.mp he, rfl⟩
      · intro pre asker r m since n post hlog _ hshut
        obtain ⟨rfl, rfl, -, p, hp⟩ := hprobed pre asker r m since n post hlog
        rw [Backed, hset]
        intro hans
        obtain ⟨-, hclear⟩ := fenceStatusJson_ready (hready _ _ _ _ _ _ _ hlog hans)
        rw [hp] at hclear
        exact ⟨hshut, running_eq_nil hclear⟩
      · intro pre asker r m since n post hlog hno
        obtain ⟨rfl, rfl, hcase, -⟩ := hprobed pre asker r m since n post hlog
        rw [Backed, hset]
        intro hans
        obtain ⟨hup, -⟩ := fenceStatusJson_ready (hready _ _ _ _ _ _ _ hlog hans)
        exact absurd (hcase.resolve_left hno) hup
    | _ => simp [hc] at hstep

theorem Kept.restart (hk : Kept y) {found : Found} (hstep : y.step (.restart found) = some y') :
    Kept y' := by
  cases hstep
  have hdone : ∀ i : Nat, i < y.calls.length → (y.calls.map fun _ => Asking.done)[i]? = some .done := by
    intro i hi
    rw [getElem?_map, getElem?_eq_getElem hi]
    rfl
  have hget : ∀ (i : Nat) c, (y.calls.map fun _ => Asking.done)[i]? = some c → c = .done := by
    intro i c hc
    rw [getElem?_map, Option.map_eq_some_iff] at hc
    obtain ⟨-, -, rfl⟩ := hc
    rfl
  have ha : Advance y { y.become (y.store.load found) y.now with
        runs := [], nextId := 0, registering := none
        calls := y.calls.map fun _ => Asking.done, log := y.log ++ [.restarted] } [.restarted] := by
    have hb := y.become_lowered (y.store.load found) y.now
    exact ⟨rfl, fun repo => (hb repo).1, fun repo => (hb repo).2.1,
      fun repo h => (hb repo).2.2 (.inl h), nofun, by simp⟩
  constructor
  case runs =>
    show [] = running (y.log ++ [Event.restarted])
    rw [running_append]
    rfl
  case engaged =>
    intro i repo record since hc
    cases hget i _ hc
  case lifted =>
    intro i repo record hc
    cases hget i _ hc
  case answered =>
    intro i report hm
    have hold : Event.answered i report ∈ y.log := by simpa using hm
    exact hdone i (List.getElem?_eq_some_iff.mp (hk.answered i report hold)).1
  case snaps =>
    intro pre i asker repo managed since n post hlog
    rcases split_log hlog with ⟨post', hold, rfl⟩ | hmem
    · have hs := hk.snaps pre i asker repo managed since n post' hold
      refine ⟨hs.listed, Nat.le_trans hs.le (ha.lowered repo), fun h => (hs.request h).advance ha, ?_⟩
      have hb := hs.backed
      rw [Backed] at hb
      cases hc : y.calls[i]? with
      | none => rw [hc] at hb; exact hb.elim
      | some c =>
        rw [Backed, hdone i (List.getElem?_eq_some_iff.mp hc).1]
        intro ⟨report, hm, hr⟩
        have hm' : Event.answered i report ∈ post' := by simpa using hm
        have hlogged : Event.answered i report ∈ y.log := by
          rw [hold]
          exact mem_append_right _ (mem_cons_of_mem _ hm')
        rw [hk.answered i report hlogged] at hb
        obtain ⟨hshut, hrun⟩ := hb ⟨report, hm', hr⟩
        exact ⟨hshut.advance ha, hrun⟩
    · cases mem_singleton.mp hmem

/-- Every step that `spares` accepts keeps the invariant. -/
theorem Kept.step (hk : Kept y) {m : FenceMove} (hstep : y.step m = some y') (hs : y.spares m) :
    Kept y' := by
  cases m with
  | tick later => cases hstep; exact hk.tick later
  | check run => exact hk.check hstep
  | insert => exact hk.insert hstep
  | unregister id => exact hk.unregister hstep
  | request repo holder ttlSecs minted fault => exact hk.request hs hstep
  | release repo holder fenceId fault => exact hk.release hstep
  | probe call prepare => exact hk.probe hstep
  | look repo prepare => exact hk.look hstep
  | read call => exact hk.read hstep
  | answer call landingKeys => exact hk.answer hstep
  | restart found => exact hk.restart hstep

theorem Kept.start (now : DateTime) : Kept (Readiness.start now) where
  runs := rfl
  engaged := by
    intro call repo record since hc
    cases hc
  lifted := by
    intro call repo record hc
    cases hc
  answered := by
    intro call report hm
    cases hm
  snaps := by
    intro pre call asker repo managed since n post hlog
    have := congrArg List.length hlog
    simp [Readiness.start] at this

theorem Kept.truthful (hk : Kept y) : Truthful y.log where
  listed := by
    intro pre call asker repo managed since n post hlog
    exact (hk.snaps _ _ _ _ _ _ _ _ hlog).listed
  barred := by
    intro pre call repo managed since n post hlog
    exact ((hk.snaps _ _ _ _ _ _ _ _ hlog).request rfl).barred
  ready := by
    intro pre call asker repo managed since n post hlog ⟨report, hm, hr⟩
    have hlogged : Event.answered call report ∈ y.log := by
      rw [hlog]
      exact mem_append_right _ (mem_cons_of_mem _ hm)
    have hb := (hk.snaps _ _ _ _ _ _ _ _ hlog).backed
    rw [Backed, hk.answered call report hlogged] at hb
    obtain ⟨hshut, hrun⟩ := hb ⟨report, hm, hr⟩
    exact ⟨hshut.barred, hrun⟩

end

/-- In every run whose requests `spares` accepts the log is truthful throughout: each
snapshot shows the registered runs of every repository, a request's snapshot bars the
runs it misses while the fence it engaged is up, and a snapshot answered as ready found
no run and is followed by none of its repository before the fence is lowered. -/
theorem ready_hides_no_run (now : DateTime) (ms : List FenceMove)
    (h : Lib.Meets step spares (start now) ms) :
    Lib.Keeps step (fun y => Truthful y.log) (start now) ms :=
  (Lib.keeps_of_meets (fun _ _ _ hk hstep hs => hk.step hstep hs) (Kept.start now) h).mono
    fun _ hk => hk.truthful

def verifyRun : ManagedVerificationRun :=
  { generation := none, agent := "rat", repo := "castle", kind := "verify", requestKey := "c1" }

def lateLook : List FenceMove :=
  [.look "castle" false, .check verifyRun, .insert, .request "castle" "operator" 60 "f1" none,
    .read 0, .answer 0 []]

/-- A log in which a run registered between a snapshot and its ready answer, with the
fence never lowered. -/
def hidesRun : List Event → Bool
  | [.snapshot 0 .status repo _ 0 0, .registered _ run 0, .answered 0 report] =>
    run.repo == repo && report.ready
  | _ => false

/-- The status call of `lateLook` answers ready over a run that registered after its
snapshot, with the fence up since. -/
theorem late_look_hides_run : ¬ Lib.Keeps step (fun y => Truthful y.log) (start 0) lateLook := by
  intro hk
  have hany : (Lib.run step (.start 0) lateLook).any (fun y => hidesRun y.log) = true := by
    decide +kernel
  obtain ⟨y, hr, hp⟩ := Lib.run_of_any hany
  have ht : Truthful y.log := hk.last hr
  generalize y.log = log at ht hp
  unfold hidesRun at hp
  split at hp
  · next repo managed id run report =>
    rw [Bool.and_eq_true, beq_iff_eq] at hp
    have hbarred := (ht.ready [] 0 .status repo managed 0 0 _ rfl
      ⟨report, mem_cons_of_mem _ mem_cons_self, hp.2⟩).1
    exact absurd (hbarred id run 0 mem_cons_self hp.1) (Nat.lt_irrefl 0)
  · cases hp

def readyThenExpired : List FenceMove :=
  [.request "castle" "operator" 60 "f1" none, .probe 0 false, .answer 0 [], .check verifyRun,
    .tick 61000000000, .check verifyRun, .insert]

theorem ready_hides_no_run_expired :
    Lib.Keeps step (fun y => Truthful y.log) (start 0) readyThenExpired ∧
    (Lib.run step (start 0) readyThenExpired).any (fun y => y.runs.length == 1) = true := by
  have hfirst : (start 0).Unmissed "castle" := by
    intro pre call managed since n post hlog
    exact absurd (congrArg List.length hlog) (by simp [start])
  have hmeets : Lib.Meets step spares (.start 0) readyThenExpired :=
    fun _ _ => ⟨fun _ => hfirst, fun _ _ => ⟨trivial, fun _ _ => ⟨trivial, fun _ _ => ⟨trivial,
      fun _ _ => ⟨trivial, fun _ _ => ⟨trivial, fun _ _ => ⟨trivial, trivial⟩⟩⟩⟩⟩⟩⟩
  exact ⟨ready_hides_no_run 0 readyThenExpired hmeets, by decide +kernel⟩

end RatKingdom.Verification
