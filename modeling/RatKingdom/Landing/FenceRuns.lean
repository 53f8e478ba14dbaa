/-
Runs of the handoff fence store: requests, releases and reloads in any order, each
write failing anywhere it can, and the file found missing, readable or unreadable
at every reload.

`Safe` states what a step must not do: lift a fence for a stale id, change
anything and answer an error, or report as released a repository whose fence was
in a file that could not be read.  `spares` is the condition under which a step
does none of these.
-/
import RatKingdom.Landing.Fence

namespace RatKingdom.Landing

open List Function HandoffFenceStore

open Core (DateTime)

inductive FenceCall where
  | request (repo holder : String) (ttlSecs : Int) (now : DateTime) (minted : String)
      (fault : Option WriteFault)
  | release (repo holder fenceId : String) (now : DateTime) (fault : Option WriteFault)
  | reload (found : Found)

/-- The store with what happened to it: the records answered to requests, the ids
minted, and the repositories whose engaged fence was in a file that could not be
read and that have neither come back nor been requested again. -/
structure FenceLog where
  store : HandoffFenceStore
  answers : List HandoffFenceRecord
  minted : List String
  lost : String → Bool

open FenceLog

def FenceLog.start : FenceLog :=
  { store := { data := fun _ => none, loadFailure := none, file := none, corrupt := [] }
    answers := [], minted := [], lost := fun _ => false }

def FenceLog.error (d : FenceLog) : FenceCall → Option FenceError
  | .request repo holder ttlSecs now minted fault =>
    match (d.store.request repo holder ttlSecs now minted fault).2 with
    | .error e => some e
    | .ok _ => none
  | .release repo holder fenceId now fault =>
    match (d.store.release repo holder fenceId now fault).2 with
    | .error e => some e
    | .ok _ => none
  | .reload _ => none

def engagedIn (file : Option Fences) (repo : String) : Bool :=
  ((file.bind fun f => f repo).map fun r => decide (r.state = .requested)).getD false

def FenceLog.step (d : FenceLog) : FenceCall → Option FenceLog
  | .request repo holder ttlSecs now minted fault =>
    -- a minted id is a fresh ULID
    if minted ∈ d.minted then none
    else
      let r := d.store.request repo holder ttlSecs now minted fault
      match r.2 with
      | .error _ => some { d with store := r.1, minted := minted :: d.minted }
      | .ok record =>
        some { store := r.1, answers := record :: d.answers, minted := minted :: d.minted
               lost := update d.lost repo false }
  | .release repo holder fenceId now fault =>
    some { d with store := (d.store.release repo holder fenceId now fault).1 }
  | .reload found =>
    some { d with
      store := d.store.load found
      lost := fun k =>
        match found with
        | .missing => d.lost k
        | .readable => d.lost k && ((d.store.load .readable).data k).isNone
        | .unreadable _ => d.lost k || engagedIn d.store.file k }

/-- Two records of one fence: a renewal or a release changes neither of these. -/
def HandoffFenceRecord.SameFence (a b : HandoffFenceRecord) : Prop :=
  a.repo = b.repo ∧ a.holder = b.holder ∧ a.fenceId = b.fenceId ∧ a.generation = b.generation ∧
    a.requestedAt = b.requestedAt

def blocks (data : Fences) (repo : String) (now : DateTime) : Prop :=
  ∃ r, data repo = some r ∧ r.blocksAdmission now = true

/-- What a step must keep. -/
structure FenceLog.Safe (d d' : FenceLog) (c : FenceCall) : Prop where
  /-- a release lifts only the fence whose request returned the presented id -/
  lifts : ∀ repo holder fenceId now fault k, c = .release repo holder fenceId now fault →
    blocks d.store.data k now → ¬ blocks d'.store.data k now →
    ∃ r, d.store.data k = some r ∧ r.fenceId = fenceId ∧ (∃ a ∈ d.answers, a.SameFence r) ∧
      ∀ a ∈ d.answers, a.fenceId = fenceId → a.SameFence r
  errors : ∀ e, d.error c = some e → d'.store.data = d.store.data ∧ d'.store.file = d.store.file
  lost : ∀ k, d'.lost k = true → ∀ now landingKeys managed,
    (d'.store.fenceStatus k now landingKeys managed).state ≠ .released

def HandoffFenceStore.moves (s : HandoffFenceStore) (fault : Option WriteFault) : Bool :=
  s.loadFailure.isSome && s.file.isSome && match fault with
    | some (.write _) => true
    | some (.rename _) => true
    | _ => false

def HandoffFenceStore.stops (s : HandoffFenceStore) : Option WriteFault → Bool
  | none => false
  | some (.createDir _) => true
  | some (.metadata _) => s.loadFailure.isSome
  | some .quarantineName => s.loadFailure.isSome && s.file.isSome
  | some (.preserve _) => s.loadFailure.isSome && s.file.isSome
  | some (.write _) => true
  | some (.rename _) => true

/-- The condition on a step.  A request made while the store is unavailable does
not fail between moving the file aside and replacing it, and does not succeed
while another repository's fence is lost; a reload finds a readable file with every
lost fence in it, or an unreadable one. -/
def FenceLog.spares (d : FenceLog) : FenceCall → Prop
  | .request repo _ _ _ _ fault =>
    d.store.moves fault = false ∧ (d.store.loadFailure.isSome = true → d.store.stops fault = false →
        ∀ k, k ≠ repo → d.lost k = false)
  | .release _ _ _ _ _ => True
  | .reload .missing => ∀ k, d.lost k = false
  | .reload .readable => ∀ k, d.lost k = true → ∃ f r, d.store.file = some f ∧ f k = some r
  | .reload (.unreadable _) => True

/-- A write replaces the file, or it fails and leaves the memory and the load
failure; the file stays too, unless it was moved aside. -/
theorem persist_spec (s : HandoffFenceStore) (fault : Option WriteFault) :
    (s.stops fault = false ∧ (s.persist fault).2 = .ok () ∧ (s.persist fault).1.data = s.data ∧
      (s.persist fault).1.file = some s.data ∧ (s.persist fault).1.loadFailure = none) ∨
    (s.stops fault = true ∧ (∃ e, (s.persist fault).2 = .error e) ∧
      (s.persist fault).1.data = s.data ∧ (s.persist fault).1.loadFailure = s.loadFailure ∧
      (s.persist fault).1.file = if s.moves fault then none else s.file) := by
  cases hl : s.loadFailure with
  | none =>
    cases fault with
    | none => simp [stops, HandoffFenceStore.persist, preserve, hl]
    | some f =>
      cases f <;> simp [stops, HandoffFenceStore.persist, preserve, moves, hl]
  | some reason =>
    cases hf : s.file with
    | none | some bytes =>
      cases fault with
      | none => simp [stops, HandoffFenceStore.persist, preserve, hl, hf]
      | some f =>
        cases f <;> simp [stops, HandoffFenceStore.persist, preserve, moves, hl, hf]

theorem HandoffFenceRecord.SameFence.refl (r : HandoffFenceRecord) : r.SameFence r :=
  ⟨rfl, rfl, rfl, rfl, rfl⟩

theorem HandoffFenceRecord.SameFence.symm {a b : HandoffFenceRecord} (h : a.SameFence b) :
    b.SameFence a :=
  ⟨h.1.symm, h.2.1.symm, h.2.2.1.symm, h.2.2.2.1.symm, h.2.2.2.2.symm⟩

theorem HandoffFenceRecord.SameFence.trans {a b c : HandoffFenceRecord} (h : a.SameFence b)
    (h' : b.SameFence c) : a.SameFence c :=
  ⟨h.1.trans h'.1, h.2.1.trans h'.2.1, h.2.2.1.trans h'.2.2.1, h.2.2.2.1.trans h'.2.2.2.1,
    h.2.2.2.2.trans h'.2.2.2.2⟩

variable {holder minted repo : String} {ttlSecs : Int} {now : DateTime} {r : HandoffFenceRecord}

theorem requested_ok {data : Fences} (h : requested data repo holder ttlSecs now minted = .ok r) :
    (∃ existing, data repo = some existing ∧ existing.SameFence r) ∨ r.fenceId = minted := by
  unfold requested at h
  cases hd : data repo with
  | none =>
    simp only [hd] at h
    cases h
    exact .inr rfl
  | some existing =>
    simp only [hd] at h
    split at h
    · cases h
      exact .inl ⟨existing, rfl, ⟨rfl, rfl, rfl, rfl, rfl⟩⟩
    · split at h
      · cases h
      · cases h
        exact .inr rfl

theorem requested_error {data : Fences} {e : FenceError}
    (h : requested data repo holder ttlSecs now minted = .error e) : blocks data repo now := by
  unfold requested at h
  cases hd : data repo with
  | none =>
    simp only [hd] at h
    cases h
  | some existing =>
    simp only [hd] at h
    split at h
    · cases h
    · split at h
      · next hb => exact ⟨existing, hd, hb⟩
      · cases h

/-- What a failed write leaves: the store as it was, unless its unreadable file was
moved aside. -/
structure HandoffFenceStore.Failed (s s' : HandoffFenceStore) (fault : Option WriteFault) : Prop where
  stops : s.stops fault = true
  data : s'.data = s.data
  loadFailure : s'.loadFailure = s.loadFailure
  file : s'.file = if s.moves fault then none else s.file

structure HandoffFenceStore.Written (s s' : HandoffFenceStore) (fault : Option WriteFault)
    (fences : Fences) : Prop where
  stops : s.stops fault = false
  data : s'.data = fences
  loadFailure : s'.loadFailure = none
  file : s'.file = some fences

/-- Writing out one changed record: it is on file, or the write failed and putting
the previous record back restores the memory. -/
theorem put_persist (s : HandoffFenceStore) (repo : String) (r : HandoffFenceRecord)
    (fault : Option WriteFault) :
    (∃ s', (s.put repo (some r)).persist fault = (s', .ok ()) ∧
      s.Written s' fault (update s.data repo (some r))) ∨
    ∃ s' e, (s.put repo (some r)).persist fault = (s', .error e) ∧
      s.Failed (s'.put repo (s.data repo)) fault := by
  have hp := persist_spec (s.put repo (some r)) fault
  generalize (s.put repo (some r)).persist fault = p at hp
  obtain ⟨s', res⟩ := p
  rcases hp with ⟨hs, rfl, hd, hf, hl⟩ | ⟨hs, ⟨e, rfl⟩, hd, hl, hf⟩
  · exact .inl ⟨s', rfl, hs, hd, hl, hf⟩
  · refine .inr ⟨s', e, rfl, hs, ?_, hl, hf⟩
    have hd' : s'.data = update s.data repo (some r) := hd
    show update s'.data repo (s.data repo) = s.data
    rw [hd', update_idem, update_eq_self]

theorem request_spec (s : HandoffFenceStore) (repo holder : String) (ttlSecs : Int)
    (now : DateTime) (minted : String) (fault : Option WriteFault) :
    (∃ e, s.request repo holder ttlSecs now minted fault = (s, .error e) ∧ blocks s.data repo now) ∨
    (∃ s' e, s.request repo holder ttlSecs now minted fault = (s', .error e) ∧ s.Failed s' fault) ∨
    ∃ s' r, s.request repo holder ttlSecs now minted fault = (s', .ok r) ∧
      requested s.data repo holder ttlSecs now minted = .ok r ∧
      s.Written s' fault (update s.data repo (some r)) := by
  unfold request
  cases hr : requested s.data repo holder ttlSecs now minted with
  | error e => exact .inl ⟨e, rfl, requested_error hr⟩
  | ok r =>
    rcases put_persist s repo r fault with ⟨s', hp, hw⟩ | ⟨s', e, hp, hf⟩
    · simp only [hp]
      exact .inr (.inr ⟨s', r, rfl, rfl, hw⟩)
    · simp only [hp]
      exact .inr (.inl ⟨_, _, rfl, hf⟩)

theorem release_spec (s : HandoffFenceStore) (repo holder fenceId : String) (now : DateTime)
    (fault : Option WriteFault) :
    (s.release repo holder fenceId now fault).1 = s ∨
    ∃ r, s.data repo = some r ∧ r.blocksAdmission now = true ∧ r.fenceId = fenceId ∧
      ((∃ s' e, s.release repo holder fenceId now fault = (s', .error e) ∧ s.Failed s' fault) ∨
        ∃ s', s.release repo holder fenceId now fault = (s', .ok ()) ∧
          s.Written s' fault (update s.data repo (some { r with state := .released }))) := by
  unfold release
  cases hr : s.data repo with
  | none => exact .inl rfl
  | some r =>
    simp only
    split
    · exact .inl rfl
    next hb =>
    split
    · exact .inl rfl
    next hid =>
    push Not at hid
    have hblock : r.blocksAdmission now = true := by simpa using hb
    have hstate : r.state = .requested := by
      have := hblock
      simp only [HandoffFenceRecord.blocksAdmission, decide_eq_true_eq] at this
      exact this.1
    refine .inr ⟨r, rfl, hblock, hid.2, ?_⟩
    rcases put_persist s repo { r with state := .released } fault with
      ⟨s', hp, hw⟩ | ⟨s', e, hp, hf⟩
    · simp only [hp]
      exact .inr ⟨s', rfl, hw⟩
    · simp only [hp]
      have hsame : ({ r with state := .requested } : HandoffFenceRecord) = r := by
        rw [← hstate]
      rw [hr] at hf
      exact .inl ⟨_, _, rfl, by rw [hsame]; exact hf⟩

/-- Every record in memory or on file is of a fence some request was answered, ids
name one fence each, an unavailable store has no records, and neither has a lost
repository. -/
structure FenceLog.Sound (d : FenceLog) : Prop where
  origin : ∀ k r, d.store.data k = some r → ∃ a ∈ d.answers, a.SameFence r
  filed : ∀ f k r, d.store.file = some f → f k = some r → ∃ a ∈ d.answers, a.SameFence r
  minted : ∀ a ∈ d.answers, a.fenceId ∈ d.minted
  unique : ∀ a ∈ d.answers, ∀ b ∈ d.answers, a.fenceId = b.fenceId → a.SameFence b
  empty : d.store.loadFailure.isSome = true → ∀ k, d.store.data k = none
  gone : ∀ k, d.lost k = true → d.store.data k = none

theorem fence_start_sound : start.Sound where
  origin := nofun
  filed := nofun
  minted := fun _ h => absurd h not_mem_nil
  unique := fun _ h => absurd h not_mem_nil
  empty := fun _ _ => rfl
  gone := fun _ _ => rfl

variable {d d' : FenceLog}

theorem FenceLog.Sound.frame (hd : d.Sound) (hdata : d'.store.data = d.store.data)
    (hload : d'.store.loadFailure = d.store.loadFailure)
    (hfile : ∀ f, d'.store.file = some f → d.store.file = some f) (hans : d'.answers = d.answers)
    (hmint : ∀ x ∈ d.minted, x ∈ d'.minted) (hlost : d'.lost = d.lost) : d'.Sound where
  origin := by rw [hdata, hans]; exact hd.origin
  filed := by
    intro f k r hf
    rw [hans]
    exact hd.filed f k r (hfile f hf)
  minted := by
    rw [hans]
    exact fun a ha => hmint _ (hd.minted a ha)
  unique := by rw [hans]; exact hd.unique
  empty := by rw [hload, hdata]; exact hd.empty
  gone := by rw [hlost, hdata]; exact hd.gone

variable {s s' : HandoffFenceStore} {fault : Option WriteFault}

theorem HandoffFenceStore.Failed.file_of_some (h : s.Failed s' fault) (f : Fences)
    (hf : s'.file = some f) :
    s.file = some f := by
  rw [h.file] at hf
  by_cases hm : s.moves fault = true
  · simp [hm] at hf
  · simpa [hm] using hf

/-- A request that is answered keeps the store sound: the record renews a fence that
was answered before, or carries an id never answered. -/
theorem FenceLog.Sound.answered (hd : d.Sound) (hfresh : minted ∉ d.minted)
    (hr : requested d.store.data repo holder ttlSecs now minted = .ok r)
    (hw : d.store.Written s' fault (update d.store.data repo (some r))) :
    FenceLog.Sound { store := s', answers := r :: d.answers, minted := minted :: d.minted,
                      lost := update d.lost repo false } := by
  have horigin : ∀ k r', update d.store.data repo (some r) k = some r' →
      ∃ a ∈ r :: d.answers, a.SameFence r' := by
    intro k r' h
    by_cases hk : k = repo
    · subst hk
      rw [update_self] at h
      cases h
      exact ⟨r, mem_cons_self, .refl r⟩
    · rw [update_of_ne hk] at h
      obtain ⟨a, ha, hsame⟩ := hd.origin k r' h
      exact ⟨a, mem_cons_of_mem _ ha, hsame⟩
  -- what the new answer has in common with an earlier one of the same id
  have hnew : r.fenceId ∈ minted :: d.minted ∧
      ∀ a ∈ d.answers, a.fenceId = r.fenceId → a.SameFence r := by
    rcases requested_ok hr with ⟨existing, he, hsame⟩ | hid
    · obtain ⟨a₀, ha₀, hs₀⟩ := hd.origin repo existing he
      have hs₀' : a₀.SameFence r := hs₀.trans hsame
      have hid₀ : a₀.fenceId = r.fenceId := hs₀'.2.2.1
      refine ⟨?_, fun a ha hid => ?_⟩
      · rw [← hid₀]
        exact mem_cons_of_mem _ (hd.minted a₀ ha₀)
      · exact (hd.unique a ha a₀ ha₀ (hid.trans hid₀.symm)).trans hs₀'
    · refine ⟨by rw [hid]; exact mem_cons_self, fun a ha he => ?_⟩
      have := hd.minted a ha
      rw [he, hid] at this
      exact absurd this hfresh
  refine { origin := ?_, filed := ?_, minted := ?_, unique := ?_, empty := ?_, gone := ?_ }
  · intro k r' h
    rw [hw.data] at h
    exact horigin k r' h
  · intro f k r' hf h
    have hf' : s'.file = some f := hf
    rw [hw.file] at hf'
    cases hf'
    exact horigin k r' h
  · exact forall_mem_cons.mpr ⟨hnew.1, fun a ha => mem_cons_of_mem _ (hd.minted a ha)⟩
  · intro a ha b hb hid
    rcases mem_cons.mp ha with hra | ha'
    · rcases mem_cons.mp hb with hrb | hb'
      · rw [hra, hrb]; exact .refl _
      · rw [hra] at hid ⊢
        exact (hnew.2 b hb' hid.symm).symm
    · rcases mem_cons.mp hb with hrb | hb'
      · rw [hrb] at hid ⊢
        exact hnew.2 a ha' hid
      · exact hd.unique a ha' b hb' hid
  · intro h
    have h' : s'.loadFailure.isSome = true := h
    rw [hw.loadFailure] at h'
    cases h'
  · intro k hk
    show s'.data k = none
    rw [hw.data]
    by_cases he : k = repo
    · subst he
      simp at hk
    · rw [update_of_ne he]
      have hk' : d.lost k = true := by simpa [update_of_ne he] using hk
      exact hd.gone k hk'

theorem FenceLog.Sound.lifted {d : FenceLog} (hd : d.Sound) {s' : HandoffFenceStore}
    {repo : String} {fault : Option WriteFault} {r : HandoffFenceRecord}
    (hr : d.store.data repo = some r)
    (hw : d.store.Written s' fault
      (update d.store.data repo (some { r with state := .released }))) :
    FenceLog.Sound { d with store := s' } := by
  have horigin : ∀ k r', update d.store.data repo (some { r with state := .released }) k =
      some r' → ∃ a ∈ d.answers, a.SameFence r' := by
    intro k r' h
    by_cases hk : k = repo
    · subst hk
      rw [update_self] at h
      cases h
      exact hd.origin k r hr
    · rw [update_of_ne hk] at h
      exact hd.origin k r' h
  refine { origin := ?_, filed := ?_, minted := hd.minted, unique := hd.unique, empty := ?_,
           gone := ?_ }
  · intro k r' h
    rw [hw.data] at h
    exact horigin k r' h
  · intro f k r' hf h
    have hf' : s'.file = some f := hf
    rw [hw.file] at hf'
    cases hf'
    exact horigin k r' h
  · intro h
    have h' : s'.loadFailure.isSome = true := h
    rw [hw.loadFailure] at h'
    cases h'
  · intro k hk
    show s'.data k = none
    have hgone := hd.gone k hk
    have he : k ≠ repo := by
      intro he
      rw [he, hr] at hgone
      cases hgone
    rw [hw.data, update_of_ne he]
    exact hgone

theorem FenceLog.Sound.reloaded (hd : d.Sound) {found : Found}
    (h : d.step (.reload found) = some d') : d'.Sound := by
  cases h
  cases found with
  | missing =>
    exact { origin := nofun
            filed := nofun
            minted := hd.minted, unique := hd.unique
            empty := fun _ _ => rfl, gone := fun _ _ => rfl }
  | readable =>
    refine { origin := ?_, filed := hd.filed, minted := hd.minted, unique := hd.unique
             empty := nofun, gone := ?_ }
    · intro k r h
      have h' : (d.store.file.getD fun _ => none) k = some r := h
      cases hf : d.store.file with
      | none => rw [hf] at h'; cases h'
      | some f =>
        rw [hf] at h'
        exact hd.filed f k r hf h'
    · intro k hk
      simp only [Bool.and_eq_true, Option.isNone_iff_eq_none] at hk
      exact hk.2
  | unreadable reason =>
    exact { origin := nofun
            filed := hd.filed, minted := hd.minted, unique := hd.unique
            empty := fun _ _ => rfl, gone := fun _ _ => rfl }

variable {c : FenceCall}

theorem FenceLog.Sound.step (hd : d.Sound) (h : d.step c = some d') : d'.Sound := by
  cases c with
  | request repo holder ttlSecs now minted fault =>
    simp only [step] at h
    split at h
    · cases h
    next hfresh =>
    rcases request_spec d.store repo holder ttlSecs now minted fault with
      ⟨e, hr, -⟩ | ⟨s', e, hr, hf⟩ | ⟨s', r, hr, hrec, hw⟩
    · rw [hr] at h
      cases h
      exact hd.frame rfl rfl (fun _ h => h) rfl (fun _ h => mem_cons_of_mem _ h) rfl
    · rw [hr] at h
      cases h
      exact hd.frame hf.data hf.loadFailure hf.file_of_some rfl (fun _ h => mem_cons_of_mem _ h) rfl
    · rw [hr] at h
      cases h
      exact hd.answered hfresh hrec hw
  | release repo holder fenceId now fault =>
    cases h
    rcases release_spec d.store repo holder fenceId now fault with
      hs | ⟨r, hr, -, -, ⟨s', e, hs, hf⟩ | ⟨s', hs, hw⟩⟩
    · rw [hs]; exact hd
    · rw [hs]
      exact hd.frame hf.data hf.loadFailure hf.file_of_some rfl (fun _ h => h) rfl
    · rw [hs]; exact hd.lifted hr hw
  | reload found => exact hd.reloaded h

def FenceLog.Covered (d : FenceLog) : Prop :=
  ∀ k, d.lost k = true → d.store.loadFailure.isSome = true

/-- A repository without a record is reported as released exactly when the store is
available. -/
theorem fenceStatus_released {k : String} (h : s.data k = none) (now : DateTime)
    (landingKeys : List String) (managed : ManagedWorkSnapshot) :
    (s.fenceStatus k now landingKeys managed).state = .released ↔ s.loadFailure = none := by
  unfold fenceStatus fenceStatusJson
  cases hl : s.loadFailure with
  | none => simp [h]
  | some reason => simp

theorem FenceLog.Sound.unreported_iff (hd : d.Sound) :
    (∀ k, d.lost k = true → ∀ now landingKeys managed,
      (d.store.fenceStatus k now landingKeys managed).state ≠ .released) ↔ d.Covered := by
  constructor
  · intro h k hk
    have hne := h k hk 0 [] { repoRuns := [], otherRepoRuns := [], releasePrepareInFlight := false }
    rw [Ne, fenceStatus_released (hd.gone k hk)] at hne
    cases hl : d.store.loadFailure with
    | none => exact absurd hl hne
    | some reason => rfl
  · intro h k hk now landingKeys managed
    rw [Ne, fenceStatus_released (hd.gone k hk)]
    intro hl
    have := h k hk
    rw [hl] at this
    cases this

theorem moves_of_available (h : ¬ s.loadFailure.isSome = true) (fault : Option WriteFault) :
    s.moves fault = false := by
  simp [moves, h]

theorem moves_of_runs (h : s.stops fault = false) : s.moves fault = false := by
  cases fault with
  | none => simp [moves]
  | some f => cases f <;> simp_all [moves, stops]

theorem HandoffFenceStore.Failed.file_eq_iff (h : s.Failed s' fault) :
    s'.file = s.file ↔ s.moves fault = false := by
  rw [h.file]
  cases hm : s.moves fault with
  | false => simp
  | true =>
    simp only [moves, Bool.and_eq_true, Option.isSome_iff_exists] at hm
    obtain ⟨⟨-, f, hf⟩, -⟩ := hm
    simp [hf]

theorem FenceLog.Sound.available (hd : d.Sound) {k : String} (h : d.store.data k = some r) :
    ¬ d.store.loadFailure.isSome = true := by
  intro hl
  rw [hd.empty hl k] at h
  cases h

theorem safe_iff_covered (hd' : d'.Sound)
    (hc : ∀ repo holder fenceId now fault, c ≠ .release repo holder fenceId now fault)
    (he : d.error c = none) : d.Safe d' c ↔ d'.Covered := by
  rw [← hd'.unreported_iff]
  constructor
  · exact fun h => h.lost
  · intro h
    refine { lifts := ?_, errors := ?_, lost := h }
    · intro repo holder fenceId now fault k hcall
      exact absurd hcall (hc repo holder fenceId now fault)
    · intro e hee
      rw [he] at hee
      cases hee

/-- An available store covers its lost fences when there are none besides the one
just requested. -/
theorem covered_answered (hload : d'.store.loadFailure = none)
    (hlost : d'.lost = update d.lost repo false) :
    d'.Covered ↔ ∀ k, k ≠ repo → d.lost k = false := by
  unfold FenceLog.Covered
  rw [hload, hlost]
  constructor
  · intro hc k hk
    cases hl : d.lost k with
    | false => rfl
    | true =>
      have := hc k (by rw [update_of_ne hk]; exact hl)
      cases this
  · intro hc k hk
    by_cases he : k = repo
    · subst he
      rw [update_self] at hk
      cases hk
    · rw [update_of_ne he, hc k he] at hk
      cases hk

theorem request_safe_iff (hd : d.Sound) (hcov : d.Covered)
    (h : d.step (.request repo holder ttlSecs now minted fault) = some d') :
    d.Safe d' (.request repo holder ttlSecs now minted fault) ↔
      d.spares (.request repo holder ttlSecs now minted fault) := by
  have hd' := hd.step h
  simp only [step] at h
  split at h
  · cases h
  rcases request_spec d.store repo holder ttlSecs now minted fault with
    ⟨e, hr, r, hlive, -⟩ | ⟨s', e, hr, hf⟩ | ⟨s', r, hr, hrec, hw⟩
  · -- refused by a live fence, so the store is available
    rw [hr] at h
    cases h
    have hav := hd.available hlive
    constructor
    · exact fun _ => ⟨moves_of_available hav fault, fun hl => absurd hl hav⟩
    · exact fun _ =>
        { lifts := fun _ _ _ _ _ _ hcall => by cases hcall
          errors := fun _ _ => ⟨rfl, rfl⟩
          lost := hd'.unreported_iff.mpr hcov }
  · -- the write failed
    rw [hr] at h
    cases h
    have herr : d.error (.request repo holder ttlSecs now minted fault) = some e := by
      simp [error, hr]
    constructor
    · intro hs
      exact ⟨hf.file_eq_iff.mp (hs.errors e herr).2,
        fun _ hrun => absurd (hrun.symm.trans hf.stops) (by decide)⟩
    · intro hs
      refine { lifts := fun _ _ _ _ _ _ hcall => (by cases hcall)
               errors := fun _ _ => ⟨hf.data, hf.file_eq_iff.mpr hs.1⟩
               lost := hd'.unreported_iff.mpr ?_ }
      intro k hk
      show s'.loadFailure.isSome = true
      rw [hf.loadFailure]
      exact hcov k hk
  · -- answered: the store is available from now on
    rw [hr] at h
    cases h
    have herr : d.error (.request repo holder ttlSecs now minted fault) = none := by
      simp [error, hr]
    rw [safe_iff_covered hd' (fun _ _ _ _ _ hcall => by cases hcall) herr]
    rw [covered_answered hw.loadFailure rfl]
    constructor
    · exact fun hall => ⟨moves_of_runs hw.stops, fun _ _ => hall⟩
    · intro hs k hk
      cases hl : d.lost k with
      | false => rfl
      | true =>
        have := hs.2 (hcov k hl) hw.stops k hk
        rw [hl] at this
        cases this

theorem release_safe (hd : d.Sound) (hcov : d.Covered) {fenceId : String}
    (h : d.step (.release repo holder fenceId now fault) = some d') :
    d.Safe d' (.release repo holder fenceId now fault) := by
  have hd' := hd.step h
  cases h
  rcases release_spec d.store repo holder fenceId now fault with
    hs | ⟨r, hr, hl, hid, ⟨s', e, hs, hf⟩ | ⟨s', hs, hw⟩⟩
  · simp only [hs] at hd' ⊢
    exact { lifts := fun _ _ _ _ _ _ hcall hb hnb => (by cases hcall; exact absurd hb hnb)
            errors := fun _ _ => ⟨rfl, rfl⟩
            lost := hd'.unreported_iff.mpr hcov }
  · simp only [hs] at hd' ⊢
    refine { lifts := ?_, errors := ?_, lost := hd'.unreported_iff.mpr ?_ }
    · intro _ _ _ _ _ k hcall hb hnb
      cases hcall
      rw [hf.data] at hnb
      exact absurd hb hnb
    · exact fun _ _ => ⟨hf.data, hf.file_eq_iff.mpr (moves_of_available (hd.available hr) fault)⟩
    · intro k hk
      show s'.loadFailure.isSome = true
      rw [hf.loadFailure]
      exact hcov k hk
  · simp only [hs] at hd' ⊢
    refine { lifts := ?_, errors := ?_, lost := hd'.unreported_iff.mpr ?_ }
    · intro _ _ _ _ _ k hcall hb hnb
      cases hcall
      by_cases hk : k = repo
      · subst hk
        refine ⟨r, hr, hid, hd.origin k r hr, fun a ha hid' => ?_⟩
        obtain ⟨a₀, ha₀, hs₀⟩ := hd.origin k r hr
        have heq : a.fenceId = a₀.fenceId := hid'.trans (hid.symm.trans hs₀.2.2.1.symm)
        exact (hd.unique a ha a₀ ha₀ heq).trans hs₀
      · -- no other repository is touched
        exfalso
        apply hnb
        obtain ⟨r', hr', hlive'⟩ := hb
        refine ⟨r', ?_, hlive'⟩
        show s'.data k = some r'
        rw [hw.data, update_of_ne hk]
        exact hr'
    · intro e he
      simp [error, hs] at he
    · intro k hk
      exact absurd (hcov k hk) (hd.available hr)

theorem reload_safe_iff (hd : d.Sound) {found : Found} (h : d.step (.reload found) = some d') :
    d.Safe d' (.reload found) ↔ d.spares (.reload found) := by
  rw [safe_iff_covered (hd.step h) (fun _ _ _ _ _ hcall => by cases hcall) rfl]
  cases h
  cases found with
  | missing | unreadable reason =>
    simp [FenceLog.Covered, spares, load]
  | readable =>
    constructor
    · intro hc k hk
      cases hf : d.store.file with
      | none =>
        have := hc k (by simp [hk, load, hf])
        simp [load] at this
      | some f =>
        cases hr : f k with
        | none =>
          have := hc k (by simp [hk, load, hf, hr])
          simp [load] at this
        | some r => exact ⟨f, r, rfl, hr⟩
    · intro hs k hk
      simp only [Bool.and_eq_true] at hk
      obtain ⟨f, r, hf, hr⟩ := hs k hk.1
      simp [load, hf, hr] at hk

theorem safe_iff (hd : d.Sound) (hcov : d.Covered) (h : d.step c = some d') :
    d.Safe d' c ↔ d.spares c := by
  cases c with
  | request repo holder ttlSecs now minted fault => exact request_safe_iff hd hcov h
  | release repo holder fenceId now fault => exact ⟨fun _ => trivial, fun _ => release_safe hd hcov h⟩
  | reload found => exact reload_safe_iff hd h

/-- Along a run of the fence store every step is safe exactly when every step is
spared. -/
theorem fence_store_safe (cs : List FenceCall) :
    Lib.Meets step (fun d c => ∀ d', d.step c = some d' → d.Safe d' c)
      start cs ↔
    Lib.Meets step spares start cs := by
  refine Lib.meets_congr (I := fun d => d.Sound ∧ d.Covered) ?_ ?_ ⟨fence_start_sound, nofun⟩
  · intro d c d' hd h hsafe
    have hd' := hd.1.step h
    exact ⟨hd', hd'.unreported_iff.mp (hsafe d' h).lost⟩
  · intro d c d' hd h
    constructor
    · exact fun hsafe => (safe_iff hd.1 hd.2 h).mp (hsafe d' h)
    · intro hs d'' h'
      rw [h] at h'
      cases h'
      exact (safe_iff hd.1 hd.2 h).mpr hs

def halfRecovered : List FenceCall :=
  [.request "api" "operator" 600 0 "01A" none, .request "web" "operator" 600 1 "01B" none,
   .reload (.unreadable "unparseable store"), .request "web" "operator" 600 2 "01C" none]

theorem half_recovered_reports_released :
    ¬ Lib.Meets step (fun d c => ∀ d', d.step c = some d' → d.Safe d' c)
      start halfRecovered := by
  intro h
  obtain ⟨-, h⟩ := h _ rfl
  obtain ⟨-, h⟩ := h _ rfl
  obtain ⟨-, h⟩ := h _ rfl
  obtain ⟨hs, -⟩ := h _ rfl
  exact (hs _ rfl).lost "api" rfl 3 []
    { repoRuns := [], otherRepoRuns := [], releasePrepareInFlight := false } rfl

end RatKingdom.Landing
