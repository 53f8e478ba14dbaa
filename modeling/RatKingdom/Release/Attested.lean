/-
A prepared release stays what was attested.

Between calls anything may happen to the files of a release, and a call can fail or crash after
any of its writes.  What a call for `id` may do in one write is `Write id`: it leaves the other
releases alone, it leaves everything of a prepared release alone, and it puts a new digest in the
registry only while no manifest stands in the release directory.  Every call is a path of such
writes (`prepare_steps`), and the history of a run is read off these paths.
-/
import RatKingdom.Release.Prepare

namespace RatKingdom.Release

open Lib Core List Option Home

def digestOf (home : Home) (id : String) : Option String :=
  (home.registry.get id).bind fun e => e.manifestDigest

def manifestFile (home : Home) (id : String) : Option Bytes :=
  readFile (home.releases id) "manifest.json"

def PreparedAs (home : Home) (id : String) (digest : Option String) : Prop :=
  ∃ e, home.registry.get id = some e ∧ e.status = .prepared ∧ e.manifestDigest = digest

/-- Both binaries of the manifest are in the directory, with its hashes and sizes. -/
def BinariesMatch (host : Host) (dir : Option Dir) (manifest : ReleaseManifest) : Prop :=
  ∀ name ∈ expectedBinaryNames, ∃ artifact bytes, manifest.binaries.get name = some artifact ∧
    readFile dir name = some bytes ∧ bytes.length = artifact.sizeBytes ∧
    host.sha256 bytes = artifact.sha256

/-- What an answer of `prepare` says of the state it leaves. -/
structure Answered (host : Host) (id : String) (outcome : PrepareOutcome) (home : Home) :
    Prop where
  entry : home.registry.get id = some outcome.entry
  prepared : outcome.entry.status = .prepared
  digest : outcome.entry.manifestDigest = some (manifestDigest host outcome.manifest)
  binaries : BinariesMatch host (home.releases id) outcome.manifest

structure Write (id : String) (home home' : Home) : Prop where
  others : ∀ i, i ≠ id →
    home'.registry.get i = home.registry.get i ∧ home'.releases i = home.releases i
  frozen : ∀ digest, PreparedAs home id digest →
    home'.releases id = home.releases id ∧ PreparedAs home' id digest
  fresh : ∀ digest, digestOf home' id = some digest →
    digestOf home id = some digest ∨ manifestFile home' id = none

/-- What stands under `id`, in the registry and on the disk. -/
def At (id : String) (entry : Option ReleaseIndexEntry) (dir : Option Dir) (home : Home) : Prop :=
  home.registry.get id = entry ∧ home.releases id = dir

def Unprepared (entry : Option ReleaseIndexEntry) : Prop :=
  ∀ e, entry = some e → e.status ≠ .prepared

section
variable {id : String} {r : Option ReleaseIndexEntry} {d : Option Dir} {home : Home}

theorem Unprepared.not_preparedAs (hr : Unprepared r) (h : At id r d home)
    (digest : Option String) : ¬ PreparedAs home id digest := by
  rintro ⟨e, he, hst, -⟩
  exact hr e (h.1 ▸ he) hst

theorem write_of_dir {home' : Home} (dir : Option Dir) (hr : Unprepared r)
    (h : At id r d home) (hreg : home'.registry = home.registry)
    (hrel : home'.releases = (home.setDir id dir).releases) : Write id home home' := by
  refine ⟨fun i hi => ⟨?_, ?_⟩, fun digest hp => ?_, fun digest hd => ?_⟩
  · rw [hreg]
  · rw [hrel, setDir_releases_of_ne hi]
  · exact (hr.not_preparedAs h digest hp).elim
  · left
    rw [digestOf, hreg] at hd
    exact hd

variable {dir : Option Dir}

theorem write_setDir (hr : Unprepared r) (h : At id r d home) :
    Write id home (home.setDir id dir) := write_of_dir dir hr h rfl rfl

theorem at_setDir (h : At id r d home) : At id r dir (home.setDir id dir) :=
  ⟨h.1, home.setDir_releases_self id dir⟩

theorem write_moveAside {name : String} (hr : Unprepared r) (h : At id r d home) :
    Write id home (home.moveAside id name) := by
  cases hdir : home.releases id with
  | none =>
    rw [moveAside_none hdir]
    refine write_of_dir none hr h rfl ?_
    show home.releases = Function.update home.releases id none
    rw [← hdir, Function.update_eq_self]
  | some dir =>
    rw [moveAside_some hdir]
    exact write_of_dir none hr h rfl rfl

theorem at_moveAside {name : String} (h : At id r d home) :
    At id r none (home.moveAside id name) := by
  cases hdir : home.releases id with
  | none =>
    rw [moveAside_none hdir]
    exact ⟨h.1, hdir⟩
  | some dir =>
    rw [moveAside_some hdir]
    exact ⟨h.1, home.setDir_releases_self id none⟩

variable {entry : ReleaseIndexEntry}

/-- An entry may be written over another when it leaves a prepared one prepared, with its digest,
and brings no new digest to a directory with a manifest. -/
theorem write_upsert (hid : entry.id = id) (h : At id r d home)
    (hkeep : ∀ e, r = some e → e.status = .prepared →
      entry.status = .prepared ∧ entry.manifestDigest = e.manifestDigest)
    (hnew : entry.manifestDigest = r.bind (fun e => e.manifestDigest) ∨
      readFile d "manifest.json" = none) :
    Write id home (home.upsert entry) := by
  subst hid
  have hself : (home.upsert entry).registry.get entry.id = some entry :=
    home.upsert_get_self entry
  refine ⟨fun i hi => ⟨upsert_get_of_ne hi home, rfl⟩, ?_, ?_⟩
  · rintro digest ⟨e, he, hst, hdig⟩
    obtain ⟨hst', hdig'⟩ := hkeep e (h.1 ▸ he) hst
    exact ⟨rfl, entry, hself, hst', hdig'.trans hdig⟩
  · intro digest hd
    have hd : entry.manifestDigest = some digest := by
      rw [digestOf, hself] at hd
      exact hd
    rcases hnew with hold | hn
    · left
      rw [digestOf, h.1, ← hold]
      exact hd
    · right
      show readFile (home.releases entry.id) "manifest.json" = none
      rw [h.2]
      exact hn

theorem at_upsert (hid : entry.id = id) (h : At id r d home) :
    At id (some entry) d (home.upsert entry) := by
  subst hid
  exact ⟨home.upsert_get_self entry, h.2⟩

end

section
variable {id : String} {r : Option ReleaseIndexEntry} {params : PrepareParams}
  {inputKey : String} {status : ReleaseStatus} {detail digest : Option String} {now : Int}

theorem entryFor_id (hr : ∀ e, r = some e → e.id = id) :
    (entryFor r id params inputKey status detail digest now).id = id := by
  cases r with
  | none => rfl
  | some e => exact hr e rfl

theorem entryFor_status :
    (entryFor r id params inputKey status detail digest now).status = status := by
  cases r with
  | none | some e => rfl

theorem entryFor_digest : (entryFor r id params inputKey status detail digest now).manifestDigest =
    digest.or (r.bind fun e => e.manifestDigest) := by
  cases r with
  | none => exact (or_none).symm
  | some e => rfl

end

section
variable {host : Host} {params : PrepareParams} {job : Job} {site : Site} {id inputKey : String}
  {r : Option ReleaseIndexEntry} {d : Option Dir} {E : Home → Prop}

theorem upsertEntry_steps {status : ReleaseStatus} {detail digest : Option String}
    (hkeep : ∀ e, r = some e → e.status = .prepared →
      status = .prepared ∧ digest.or e.manifestDigest = e.manifestDigest)
    (hnew : digest = none ∨ digest = r.bind (fun e => e.manifestDigest) ∨
      readFile d "manifest.json" = none) (hE : ∀ h, E h) :
    Steps (Write id) (At id r d) (upsertEntry job site id params inputKey status detail digest)
      (fun e h => At id (some e) d h ∧ e.status = status ∧
        e.manifestDigest = digest.or (r.bind fun e => e.manifestDigest)) E := by
  refine .bind (Q := fun seen h => seen = h ∧ At id r d h) (.read fun h hh => ⟨rfl, hh⟩)
    fun seen => .of_start fun h₀ hh => ?_
  obtain ⟨rfl, h₀⟩ := hh
  have hid : (entryFor (seen.registry.get id) id params inputKey status detail digest
      (job.now site)).id = id := entryFor_id fun e he => seen.registry.keyed id e he
  have hst : (entryFor (seen.registry.get id) id params inputKey status detail digest
      (job.now site)).status = status := entryFor_status
  have hdig : (entryFor (seen.registry.get id) id params inputKey status detail digest
      (job.now site)).manifestDigest = digest.or (r.bind fun e => e.manifestDigest) :=
    h₀.1 ▸ entryFor_digest
  refine .bind (Q := fun _ h => At id (some _) d h) (.perform ?_ ?_ (fun h _ => hE h)
    fun h _ => hE _) fun _ => .pure fun h hh => ⟨hh, hst, hdig⟩
  · rintro h rfl
    refine write_upsert hid h₀ (fun e he hp => ?_) ?_
    · obtain ⟨hs, hd⟩ := hkeep e he hp
      rw [hst, hdig, he]
      exact ⟨hs, hd⟩
    · rw [hdig]
      rcases hnew with rfl | rfl | hn
      · exact .inl none_or
      · exact .inl (or_self)
      · exact .inr hn
  · rintro h rfl
    exact at_upsert hid h₀

def Somewhere (id : String) (r : Option ReleaseIndexEntry) (home : Home) : Prop :=
  ∃ d, At id r d home

theorem quarantine_steps (hr : Unprepared r) :
    Steps (Write id) (At id r d) (quarantine job site id) (fun _ => At id r none)
      (Somewhere id r) :=
  .perform (fun _ hh => write_moveAside hr hh) (fun _ hh => at_moveAside hh)
    (fun _ hh => ⟨d, hh⟩) fun _ hh => ⟨none, at_moveAside hh⟩

theorem clearPartial_steps (hr : Unprepared r) :
    Steps (Write id) (At id r d) (clearPartial job id) (fun _ => At id r none)
      (Somewhere id r) := by
  refine .bind (Q := fun seen h => seen = h ∧ At id r d h) (.read fun h hh => ⟨rfl, hh⟩)
    fun seen => ?_
  cases hseen : (seen.releases id).isSome with
  | true =>
    exact (quarantine_steps hr).mono (fun _ hh => hh.2) (fun _ _ hh => hh) fun _ hh => hh
  | false =>
    refine .pure fun h hh => ?_
    obtain ⟨rfl, hat⟩ := hh
    exact ⟨hat.1, not_isSome_iff_eq_none.mp (by rw [hseen]; exact Bool.false_ne_true)⟩

theorem createDir_steps (hr : Unprepared r) :
    Steps (Write id) (At id r none) (Prog.perform (job.fault site) (createDir id))
      (fun _ => At id r (some fun _ => none)) (Somewhere id r) := by
  have hempty : ∀ h, At id r none h → h.createDir id = h.setDir id (some fun _ => none) := by
    intro h hh
    rw [createDir, hh.2, getD_none]
  refine .perform (fun h hh => ?_) (fun h hh => ?_) (fun h hh => ⟨none, hh⟩) fun h hh => ?_
  · rw [hempty h hh]
    exact write_setDir hr hh
  · rw [hempty h hh]
    exact at_setDir hh
  · rw [hempty h hh]
    exact ⟨_, at_setDir hh⟩

/-- The recipe is at work in a fresh directory: what it has recorded so far is there. -/
def Copied (host : Host) (id : String) (r : Option ReleaseIndexEntry)
    (binaries : Table String BinaryArtifact) (home : Home) : Prop :=
  ∃ dir, At id r (some dir) home ∧ readFile (some dir) "manifest.json" = none ∧
    ∀ name artifact, binaries.get name = some artifact →
      ∃ bytes, readFile (some dir) name = some bytes ∧ bytes.length = artifact.sizeBytes ∧
        host.sha256 bytes = artifact.sha256

variable {name : String} {h : Home}

theorem copied_set {binaries : Table String BinaryArtifact} {bytes : Bytes}
    (hname : name ≠ "manifest.json") (hh : Copied host id r binaries h) :
    Copied host id r (binaries.set name ⟨host.sha256 bytes, bytes.length⟩)
      (h.setNode id name (some (.file bytes))) := by
  obtain ⟨dir, hat, hnone, hrec⟩ := hh
  rw [setNode_some hat.2]
  refine ⟨_, at_setDir hat, ?_, fun n artifact hn => ?_⟩
  · rw [readFile_update_of_ne hname.symm]
    exact hnone
  · rw [Table.get_set] at hn
    by_cases hnn : n = name
    · rw [if_pos hnn] at hn
      cases hn
      rw [hnn]
      exact ⟨bytes, readFile_update_self dir name bytes, rfl, rfl⟩
    · rw [if_neg hnn] at hn
      rw [readFile_update_of_ne hnn]
      exact hrec n artifact hn

theorem copyBinaries_steps (hr : Unprepared r) (names : List String)
    (hnames : ∀ n ∈ names, n ≠ "manifest.json") (binaries : Table String BinaryArtifact) :
    Steps (Write id) (Copied host id r binaries) (copyBinaries host job id names binaries)
      (fun binaries' h => Copied host id r binaries' h ∧
        ∀ n, n ∈ names ∨ (binaries.get n).isSome → (binaries'.get n).isSome)
      (Somewhere id r) := by
  induction names generalizing binaries with
  | nil =>
    refine .pure fun h hh => ⟨hh, fun n hn => ?_⟩
    rcases hn with hn | hn
    · cases hn
    · exact hn
  | cons name names ih =>
    have hname : name ≠ "manifest.json" := hnames name mem_cons_self
    have hsomewhere : ∀ h, Copied host id r binaries h → Somewhere id r h :=
      fun h hh => hh.elim fun dir hdir => ⟨_, hdir.1⟩
    refine .bind (Q := fun _ => Copied host id r binaries)
      (.ofExcept (fun _ _ _ hh => hh) hsomewhere) fun bytes => ?_
    have hwrite : ∀ bs h, Copied host id r binaries h →
        Write id h (h.setNode id name (some (.file bs))) := by
      rintro bs h ⟨dir, hat, -⟩
      exact write_setDir hr hat
    have hleft : ∀ bs h, Copied host id r binaries h →
        Somewhere id r (h.setNode id name (some (.file bs))) := by
      rintro bs h ⟨dir, hat, -⟩
      exact ⟨_, at_setDir hat⟩
    refine .bind
      (Q := fun _ => Copied host id r (binaries.set name ⟨host.sha256 bytes, bytes.length⟩))
      (.writeOut hwrite (fun h hh => copied_set hname hh) hsomewhere hleft) fun _ => ?_
    refine (ih (fun n hn => hnames n (mem_cons_of_mem name hn)) _).mono (fun _ hh => hh) ?_
      fun _ hh => hh
    rintro binaries' h ⟨hcopied, hall⟩
    refine ⟨hcopied, fun n hn => hall n ?_⟩
    rw [Table.get_set]
    by_cases hnn : n = name
    · right
      rw [if_pos hnn]
      rfl
    · rw [if_neg hnn]
      rcases hn with hn | hn
      · exact .inl ((mem_cons.mp hn).resolve_left hnn)
      · exact .inr hn

theorem runRecipe_steps (hr : Unprepared r) (provenance : ConfigProvenance) :
    Steps (Write id) (At id r d) (runRecipe host params job id provenance)
      (fun manifest h => ∃ dir, At id r (some dir) h ∧
        readFile (some dir) "manifest.json" = none ∧ BinariesMatch host (some dir) manifest)
      (Somewhere id r) := by
  refine .bind (Q := fun _ => At id r d)
    (.ofExcept (fun _ _ _ hh => hh) fun h hh => ⟨d, hh⟩) fun toolchain => ?_
  refine .bind (clearPartial_steps hr) fun _ => ?_
  refine .bind (createDir_steps hr) fun _ => ?_
  have hnames : ∀ n ∈ expectedBinaryNames, n ≠ "manifest.json" := by decide
  have hstart : ∀ h, At id r (some fun _ => none) h → Copied host id r .empty h :=
    fun h hh => ⟨_, hh, rfl, fun name artifact hn => nomatch hn⟩
  refine .bind ((copyBinaries_steps hr _ hnames .empty).mono hstart
    (fun _ _ hh => hh) fun _ hh => hh) fun binaries => ?_
  refine .of_start fun h₀ hcopied => ?_
  have hsomewhere : ∀ h, h = h₀ → Somewhere id r h :=
    fun h hh => hh ▸ hcopied.1.elim fun dir hdir => ⟨_, hdir.1⟩
  refine .bind (Q := fun _ h => h = h₀) (.check (fun h hh => hh) hsomewhere) fun _ => ?_
  refine .bind (Q := fun _ h => h = h₀) (.check (fun h hh => hh) hsomewhere) fun _ => ?_
  refine .bind (Q := fun _ h => h = h₀)
    (.ofExcept (fun checks h _ hh => hh) hsomewhere) fun checks => ?_
  refine .pure fun h hh => ?_
  obtain ⟨⟨dir, hat, hnone, hrec⟩, hall⟩ := hcopied
  refine ⟨dir, hh ▸ hat, hnone, fun name hname => ?_⟩
  obtain ⟨artifact, hartifact⟩ := isSome_iff_exists.mp (hall name (.inl hname))
  obtain ⟨bytes, hbytes⟩ := hrec name artifact hartifact
  exact ⟨artifact, bytes, hartifact, hbytes⟩

/-- The directory with the binaries of the manifest, under the entry that carries its digest. -/
def Placed (host : Host) (id : String) (r : Option ReleaseIndexEntry)
    (manifest : ReleaseManifest) (home : Home) : Prop :=
  ∃ dir, At id r (some dir) home ∧ BinariesMatch host (some dir) manifest

variable {manifest : ReleaseManifest}

theorem placed_setNode (hname : name ∉ expectedBinaryNames) (node : Option Node)
    (hh : Placed host id r manifest h) :
    Placed host id r manifest (h.setNode id name node) := by
  obtain ⟨dir, hat, hbin⟩ := hh
  rw [setNode_some hat.2]
  refine ⟨_, at_setDir hat, fun n hn => ?_⟩
  have hne : n ≠ name := fun e => hname (e ▸ hn)
  rw [readFile_update_of_ne hne]
  exact hbin n hn

theorem write_setNode (hr : Unprepared r) (node : Option Node) (hh : Placed host id r manifest h) :
    Write id h (h.setNode id name node) := by
  obtain ⟨dir, hat, -⟩ := hh
  exact write_setDir hr hat

theorem setNode_steps {manifest : ReleaseManifest} {name : String} (hr : Unprepared r)
    (hn : name ∉ expectedBinaryNames) (node : Option Node) :
    Steps (Write id) (Placed host id r manifest)
      (Prog.perform (job.fault site) (setNode id name node) : Op PUnit)
      (fun _ => Placed host id r manifest) (Placed host id r manifest) :=
  .perform (fun _ hh => write_setNode hr node hh) (fun _ hh => placed_setNode hn node hh)
    (fun _ hh => hh) fun _ hh => placed_setNode hn node hh

theorem linkManifest_steps {bytes : Bytes} (hr : Unprepared r) :
    Steps (Write id) (Placed host id r manifest) (linkManifest host job id bytes)
      (fun _ => Placed host id r manifest) (Placed host id r manifest) := by
  refine .bind (Q := fun _ => Placed host id r manifest) (.read fun _ hh => hh) fun seen => ?_
  split
  · exact .fail fun _ hh => hh
  · exact setNode_steps hr (by decide) _

theorem writeManifestNew_steps (hr : Unprepared r) (hE : ∀ h, E h) :
    Steps (Write id) (Placed host id r manifest) (writeManifestNew host job id manifest)
      (fun _ => Placed host id r manifest) E := by
  refine .bind (Q := fun _ => Placed host id r manifest)
    (.writeOut (fun bs h hh => write_setNode hr _ hh)
    (fun h hh => placed_setNode (tmpName_not_expected job.pid) _ hh) (fun h _ => hE h)
    fun bs h _ => hE _) fun _ => ?_
  refine .bind (Q := fun _ => Placed host id r manifest)
    ((Steps.attempt (linkManifest_steps hr)).mono (fun _ hh => hh) ?_ fun _ hh => hh)
    fun result => ?_
  · intro result h hh
    cases result with
    | ok _ | error _ => exact hh
  refine Steps.bind (Q := fun _ => Placed host id r manifest)
    ((Steps.attempt (setNode_steps hr (tmpName_not_expected job.pid) none)).mono
      (fun _ hh => hh) ?_ fun _ hh => hh) fun _ => ?_
  · intro removed h hh
    cases removed with
    | ok _ | error _ => exact hh
  refine Steps.bind (Q := fun _ => Placed host id r manifest)
    (.ofExcept (fun _ _ _ hh => hh) fun h _ => hE h) fun _ => ?_
  exact .check (fun _ hh => hh) fun h _ => hE h

theorem publishPreparedRelease_steps {dir : Dir} (hr : Unprepared r)
    (hn : readFile (some dir) "manifest.json" = none)
    (hbin : BinariesMatch host (some dir) manifest) (hE : ∀ h, E h) :
    Steps (Write id) (At id r (some dir))
      (publishPreparedRelease host params job id inputKey manifest)
      (fun entry h => Answered host id ⟨entry, manifest, false⟩ h) E := by
  have hcommit : ∀ e, r = some e → e.status = .prepared → ReleaseStatus.preparing = .prepared ∧
      (some (manifestDigest host manifest)).or e.manifestDigest = e.manifestDigest :=
    fun e he hp => (hr e he hp).elim
  refine .bind (upsertEntry_steps hcommit (.inr (.inr hn)) hE) fun committed => ?_
  refine .of_start fun h₀ hh => ?_
  obtain ⟨hat, hst, hdig⟩ := hh
  have hr' : Unprepared (some committed) := by
    intro e he
    cases he
    rw [hst]
    decide
  refine .bind ((writeManifestNew_steps hr' hE).mono (fun h hh => ?_) (fun _ _ hh => hh)
    fun _ hh => hh) fun _ => ?_
  · rw [hh]
    exact ⟨dir, hat, hbin⟩
  refine .of_start fun h₁ hh => ?_
  obtain ⟨dir', hat', hbin'⟩ := hh
  have hpromote : ∀ e, some committed = some e → e.status = .prepared →
      ReleaseStatus.prepared = .prepared ∧
        (some (manifestDigest host manifest)).or e.manifestDigest = e.manifestDigest :=
    fun e he hp => (hr' e he hp).elim
  have hsame : some (manifestDigest host manifest) =
      (some committed).bind fun e => e.manifestDigest := hdig.symm
  refine (upsertEntry_steps hpromote (.inr (.inl hsame)) hE).mono
    (fun h hh => hh ▸ hat') (fun entry h hh => ?_) fun _ hh => hh
  obtain ⟨hentry, hst', hdig'⟩ := hh
  refine ⟨hentry.1, hst', hdig', ?_⟩
  rw [hentry.2]
  exact hbin'

theorem rebuild_steps (hr : Unprepared r) (provenance : ConfigProvenance) (hE : ∀ h, E h) :
    Steps (Write id) (At id r d) (rebuild host params job id inputKey provenance)
      (fun outcome h => Answered host id outcome h) E := by
  have hkeep : ∀ status e, r = some e → e.status = .prepared → status = ReleaseStatus.prepared ∧
      (none : Option String).or e.manifestDigest = e.manifestDigest :=
    fun status e he hp => (hr e he hp).elim
  refine .bind (upsertEntry_steps (hkeep .preparing) (.inl rfl) hE) fun intent => ?_
  refine .of_start fun h₀ hh => ?_
  obtain ⟨hat, hst, -⟩ := hh
  have hr' : Unprepared (some intent) := by
    intro e he
    cases he
    rw [hst]
    decide
  refine Steps.bind (((Steps.attempt (runRecipe_steps hr' provenance)).mono
    (fun h hh => hh ▸ hat) (fun _ _ hh => hh) fun _ hh => hh)) fun built => ?_
  cases built with
  | ok manifest =>
    refine .of_start fun h₁ hh => ?_
    obtain ⟨dir, hat', hn, hbin⟩ := hh
    refine .bind ((publishPreparedRelease_steps hr' hn hbin hE).mono (fun h hh => hh ▸ hat')
      (fun _ _ hh => hh) fun _ hh => hh) fun entry => ?_
    exact .pure fun h hh => hh
  | error e =>
    refine .of_start fun h₁ hh => ?_
    obtain ⟨dir, hat'⟩ := hh
    have hkeep' : ∀ e', some intent = some e' → e'.status = .prepared →
        ReleaseStatus.failed = .prepared ∧
          (none : Option String).or e'.manifestDigest = e'.manifestDigest :=
      fun e' he hp => (hr' e' he hp).elim
    refine .bind ((upsertEntry_steps hkeep' (.inl rfl) hE).mono
      (fun h hh => hh ▸ hat') (fun _ _ hh => hh) fun _ hh => hh) fun _ => ?_
    exact .fail fun h _ => hE h

variable {dir : Option Dir}

theorem artifactMatches_eq_true {artifact : BinaryArtifact}
    (h : artifactMatches host dir name artifact = true) :
    ∃ bytes, readFile dir name = some bytes ∧ bytes.length = artifact.sizeBytes ∧
      host.sha256 bytes = artifact.sha256 := by
  unfold artifactMatches at h
  cases hread : readFile dir name with
  | none =>
    rw [hread] at h
    cases h
  | some bytes =>
    rw [hread] at h
    simp only [Bool.and_eq_true, decide_eq_true_eq] at h
    exact ⟨bytes, rfl, h.1, h.2⟩

theorem binariesMatchDisk_eq_true (h : binariesMatchDisk host dir manifest = true) :
    BinariesMatch host dir manifest := by
  unfold binariesMatchDisk at h
  simp only at h
  split at h
  · cases h
  · rename_i hnames
    split at h
    · cases h
    · intro name hn
      have hkey : name ∈ manifest.binaries.keys := (not_not.mp hnames).2 hn
      obtain ⟨⟨n, artifact⟩, hrow, rfl⟩ := mem_map.mp hkey
      have hmatch : artifactMatches host dir n artifact = true := all_eq_true.mp h _ hrow
      obtain ⟨bytes, hbytes⟩ := artifactMatches_eq_true hmatch
      exact ⟨artifact, bytes, Table.get_eq_some_iff.mpr hrow, hbytes⟩

theorem verifyContent_eq_true (h : verifyContent host entry dir manifest = true) :
    entry.manifestDigest = some (manifestDigest host manifest) ∧
      BinariesMatch host dir manifest := by
  unfold verifyContent at h
  cases hdig : entry.manifestDigest with
  | none =>
    rw [hdig] at h
    cases h
  | some recorded =>
    rw [hdig] at h
    simp only at h
    split at h
    · cases h
    · rename_i hsame
      split at h
      · cases h
      · exact ⟨by rw [not_not.mp hsame], binariesMatchDisk_eq_true h⟩

/-- What the block under `manifest_path.is_file()` leaves: an adopted release, whose digest the
registry had, or the entry as it was. -/
def Reused (host : Host) (id : String) (r : Option ReleaseIndexEntry)
    (reused : Option PrepareOutcome) (home : Home) : Prop :=
  match reused with
  | some outcome => Answered host id outcome home ∧
    r.bind (fun e => e.manifestDigest) = some (manifestDigest host outcome.manifest)
  | none => Somewhere id r home

theorem quarantined_steps (hr : Unprepared r) (hE : ∀ h, E h) :
    Steps (Write id) (At id r d)
      (quarantine job site id >>= fun _ => pure none : Op (Option PrepareOutcome))
      (Reused host id r) E :=
  .bind ((quarantine_steps hr).mono (fun _ hh => hh) (fun _ _ hh => hh) fun h _ => hE h)
    fun _ => .pure fun _ hh => ⟨none, hh⟩

theorem adopt_steps (manifest : ReleaseManifest) (hE : ∀ h, E h) :
    Steps (Write id) (At id r d) (adopt host params job id inputKey r d manifest)
      (Reused host id r) E := by
  cases r with
  | none => exact quarantined_steps (nofun) hE
  | some entry =>
    show Steps (Write id) (At id (some entry) d) (if _ then _ else _) _ E
    split
    · rename_i hverify
      obtain ⟨hdig, hbin⟩ := verifyContent_eq_true hverify
      have hkeep : ∀ e, some entry = some e → e.status = .prepared →
          ReleaseStatus.prepared = .prepared ∧
            entry.manifestDigest.or e.manifestDigest = e.manifestDigest := by
        intro e he _
        cases he
        exact ⟨rfl, or_self⟩
      refine .bind (upsertEntry_steps hkeep (.inr (.inl rfl)) hE) fun entry' => ?_
      refine .pure fun h hh => ?_
      obtain ⟨hat, hst, hdig'⟩ := hh
      refine ⟨⟨hat.1, hst, ?_, ?_⟩, hdig⟩
      · show entry'.manifestDigest = some (manifestDigest host manifest)
        rw [hdig', hdig]
        rfl
      · rw [hat.2]
        exact hbin
    · split
      · exact .fail fun h _ => hE h
      · rename_i hst
        refine quarantined_steps (fun e he => ?_) hE
        cases he
        exact hst

theorem reuse_steps (hE : ∀ h, E h) :
    Steps (Write id) (At id r d) (reuse host params job id inputKey r) (Reused host id r) E := by
  refine .bind (Q := fun seen h => seen = h ∧ At id r d h) (.read fun h hh => ⟨rfl, hh⟩)
    fun seen => .of_start fun h₀ hh => ?_
  obtain ⟨rfl, hat⟩ := hh
  rw [hat.2]
  cases hread : readFile d "manifest.json" with
  | none => exact .pure fun _ hh => ⟨d, hh ▸ hat⟩
  | some bytes =>
    refine .bind (Q := fun _ => At id r d)
      (.check (fun _ hh => hh ▸ hat) fun h _ => hE h) fun _ => ?_
    exact .bind (Q := fun _ => At id r d)
      (.ofExcept (fun _ _ _ hh => hh) fun h _ => hE h) fun manifest => adopt_steps manifest hE

theorem recordedPrepared_eq_false (h : recordedPrepared r = false) : Unprepared r := by
  intro e he hst
  subst he
  rw [recordedPrepared, any_some, hst] at h
  exact absurd h (by decide)

/-- Where a manifest the call returns comes from: its own recipe, or the registry's word. -/
def Sourced (host : Host) (params : PrepareParams) (job : Job) (id inputKey : String) (start : Home)
    (outcome : PrepareOutcome) : Prop :=
  (reuse host params job id inputKey (start.registry.get id) start).2 = .ok none ∨
    digestOf start id = some (manifestDigest host outcome.manifest)

theorem prepareUnder_steps (provenance : ConfigProvenance) (start : Home) (hE : ∀ h, E h) :
    Steps (Write id) (fun h => h = start) (prepareUnder host params job id inputKey provenance)
      (fun outcome h => Answered host id outcome h ∧
        Sourced host params job id inputKey start outcome) E := by
  refine .bind (Q := fun _ h => h = start) (.check (fun _ hh => hh) fun h _ => hE h) fun _ => ?_
  refine .bind (Q := fun seen h => seen = h ∧ h = start) (.read fun h hh => ⟨rfl, hh⟩)
    fun seen => .of_start fun h₀ hh => ?_
  obtain ⟨rfl, rfl⟩ := hh
  have hreuse : Steps (Write id) (fun h => h = seen)
      (reuse host params job id inputKey (seen.registry.get id))
      (Reused host id (seen.registry.get id)) E :=
    .mono (P := At id (seen.registry.get id) (seen.releases id)) (reuse_steps hE)
      (fun h hh => hh ▸ ⟨rfl, rfl⟩) (fun _ _ hh => hh) fun _ hh => hh
  refine .bind hreuse.with_result fun reused => ?_
  cases reused with
  | some outcome =>
    refine .pure fun h hh => ?_
    obtain ⟨-, hanswered, hdig⟩ := hh
    exact ⟨hanswered, .inr hdig⟩
  | none =>
    refine .of_start fun h₁ hh => ?_
    obtain ⟨hresult, d', hat⟩ := hh
    show Steps (Write id) _ (if _ then _ else _) _ E
    split
    · exact .fail fun h _ => hE h
    · rename_i hst
      have hr : Unprepared (seen.registry.get id) :=
        recordedPrepared_eq_false (Bool.eq_false_iff.mpr hst)
      exact (rebuild_steps hr provenance hE).mono (fun h hh => hh ▸ hat)
        (fun outcome h hh => ⟨hh, .inl hresult⟩) fun _ hh => hh

end

section
variable (host : Host) (params : PrepareParams) (job : Job)

theorem prepare_steps (start : Home) :
    Steps (Write (idOf host params)) (fun h => h = start) (prepare host params job)
      (fun outcome h => Answered host (idOf host params) outcome h ∧
        Sourced host params job (idOf host params) (inputKeyOf host params) start outcome)
      (fun _ => True) := by
  unfold prepare
  split
  · exact .fail fun _ _ => trivial
  · exact .bind (Q := fun _ h => h = start) (.ofExcept (fun _ _ _ hh => hh)
      fun _ _ => trivial) fun provenance => prepareUnder_steps _ start fun _ => trivial

theorem prepare_path (start : Home) :
    Path (Write (idOf host params)) start (prepare host params job start).1 :=
  (prepare_steps host params job start start rfl).1

end

/-- One thing that happens to the home: a call, which may be cut short after any of its writes,
or any change of the files of one release. -/
inductive Happening where
  | prepare (params : PrepareParams) (job : Job) (crash : Option Nat)
  | tamper (id : String) (dir : Option Dir)

def durable (host : Host) (home : Home) : Happening → List Home
  | .prepare params job none => (prepare host params job home).1
  | .prepare params job (some k) => (prepare host params job home).1.take k
  | .tamper id dir => [home.setDir id dir]

def states (host : Host) : Home → List Happening → List Home
  | _, [] => []
  | home, x :: xs => durable host home x ++ states host (stop home (durable host home x)) xs

def latest (host : Host) (home : Home) (xs : List Happening) : Home :=
  stop home (states host home xs)

def Home.new (releases : String → Option Dir) (partials : List (String × Dir)) : Home where
  registry := Registry.empty
  releases := releases
  partials := partials

def Move (home home' : Home) : Prop := (∃ id, Write id home home') ∨ home'.registry = home.registry

variable {host : Host}

theorem durable_path (home : Home) (x : Happening) : Path Move home (durable host home x) := by
  cases x with
  | prepare params job crash =>
    have hpath : Path Move home (prepare host params job home).1 :=
      (prepare_path host params job home).mono fun _ _ h => .inl ⟨_, h⟩
    cases crash with
    | none => exact hpath
    | some k => exact hpath.take k
  | tamper id dir => exact ⟨.inr rfl, trivial⟩

theorem states_path (home : Home) (xs : List Happening) : Path Move home (states host home xs) := by
  induction xs generalizing home with
  | nil => trivial
  | cons x xs ih => exact (durable_path home x).append (ih _)

variable {home home' : Home} {id : String}

theorem Move.preparedAs (h : Move home home') {digest : Option String}
    (hp : PreparedAs home id digest) : PreparedAs home' id digest := by
  rcases h with ⟨i, hw⟩ | hreg
  · rcases eq_or_ne id i with rfl | hne
    · exact (hw.frozen digest hp).2
    · obtain ⟨e, he, hst⟩ := hp
      exact ⟨e, (hw.others id hne).1.trans he, hst⟩
  · rw [PreparedAs, hreg]
    exact hp

theorem Move.digest (h : Move home home') {digest : String} (hd : digestOf home' id = some digest) :
    digestOf home id = some digest ∨ manifestFile home' id = none := by
  rcases h with ⟨i, hw⟩ | hreg
  · rcases eq_or_ne id i with rfl | hne
    · exact hw.fresh digest hd
    · left
      rw [digestOf, ← (hw.others id hne).1]
      exact hd
  · left
    rw [digestOf, ← hreg]
    exact hd

theorem digest_committed (releases : String → Option Dir) (partials : List (String × Dir))
    (xs : List Happening) {digest : String}
    (hd : digestOf (latest host (new releases partials) xs) id = some digest) :
    ∃ u ∈ states host (new releases partials) xs,
      digestOf u id = some digest ∧ manifestFile u id = none := by
  have hmem : latest host (.new releases partials) xs ∈
      .new releases partials :: states host (.new releases partials) xs :=
    mem_cons.mpr (stop_mem _ _)
  have hmove : ∀ u v, Move u v → digestOf v id = some digest →
      digestOf u id = some digest ∨ manifestFile v id = none := fun u v hm hv => hm.digest hv
  rcases (states_path (.new releases partials) xs).origin hmove hmem hd with hstart | h
  · cases hstart
  · exact h

theorem Write.kept {i : String} {digest : Option String}
    (h : Write id home home') (hp : home.releases i = dir ∧ PreparedAs home i digest) :
    home'.releases i = dir ∧ PreparedAs home' i digest := by
  rcases eq_or_ne i id with rfl | hne
  · obtain ⟨hrel, hp'⟩ := h.frozen digest hp.2
    exact ⟨hrel.trans hp.1, hp'⟩
  · obtain ⟨hreg, hrel⟩ := h.others i hne
    refine ⟨hrel.trans hp.1, ?_⟩
    rw [PreparedAs, hreg]
    exact hp.2

/-- What holds of a call made after the states `past`. -/
structure Attested (host : Host) (past : List Home) (now : Home) (params : PrepareParams)
    (job : Job) : Prop where
  /-- An answer carries the digest the registry has, and both binaries match it. -/
  answered : ∀ outcome, (prepare host params job now).2 = .ok outcome →
    Answered host (idOf host params) outcome ((prepare host params job).final now)
  /-- Once an id is prepared its status and digest never change, -/
  permanent : past.Pairwise fun u v => ∀ id digest, PreparedAs u id digest → PreparedAs v id digest
  untouched : ∀ id digest, PreparedAs now id digest → ∀ t ∈ (prepare host params job now).1,
    t.releases id = now.releases id ∧ PreparedAs t id digest
  /-- A manifest that no recipe of this call made had its digest in the registry at a time when
  there was no manifest in the directory. -/
  adopted : ∀ outcome, (prepare host params job now).2 = .ok outcome →
    (reuse host params job (idOf host params) (inputKeyOf host params)
      (now.registry.get (idOf host params)) now).2 = .ok none ∨
    ∃ u ∈ past, digestOf u (idOf host params) = some (manifestDigest host outcome.manifest) ∧
      manifestFile u (idOf host params) = none

theorem prepare_attested (host : Host) (releases : String → Option Dir)
    (partials : List (String × Dir)) (xs : List Happening) (params : PrepareParams) (job : Job) :
    Attested host (new releases partials :: states host (new releases partials) xs)
      (latest host (new releases partials) xs) params job := by
  have hcall := prepare_steps host params job (latest host (.new releases partials) xs) _ rfl
  refine ⟨fun outcome ho => (hcall.2.1 outcome ho).1, ?_, ?_, fun outcome ho => ?_⟩
  · have hmove : ∀ u v, Move u v → ∀ id digest, PreparedAs u id digest → PreparedAs v id digest :=
      fun u v hm id digest hp => hm.preparedAs hp
    exact (states_path _ xs).pairwise hmove
      fun _ _ _ h h' id digest hp => h' id digest (h id digest hp)
  · intro id digest hp
    exact hcall.1.forall (fun _ _ hs hw => hw.kept hs) ⟨rfl, hp⟩
  · rcases (hcall.2.1 outcome ho).2 with hbuilt | hdig
    · exact .inl hbuilt
    · right
      obtain ⟨u, hu, hd⟩ := digest_committed releases partials xs hdig
      exact ⟨u, mem_cons_of_mem _ hu, hd⟩

/-- A host and a job in which nothing fails. -/
def quietHost : Host where
  home := "/rk"
  sha256 := fun bytes => toString bytes.length
  toVec := fun _ => []
  toVecPretty := fun _ => []
  fromSlice := fun _ => .error "EOF while parsing a value"
  fromValue := fun _ => .error "invalid type"

def quietJob : Job where
  pid := 1
  now := fun _ => 0
  quarantineDir := fun _ => "rel"
  configProvenance := .ok ⟨"2", "0", false, .absent, .absent, none, false⟩
  build := .ok "rustc 1.80.0"
  admission := none
  target := fun _ => .ok [127, 69, 76, 70]
  smoke := fun name => .ok ⟨"smoke:" ++ name, name, some 0, true, 0⟩
  fault := fun _ => none

def quietParams : PrepareParams := ⟨"rk", "main", "c0ffee", "7ree", recipePairedRkMcp, none⟩

/-- A first call that nothing disturbs answers. -/
example : (prepare quietHost quietParams quietJob (new (fun _ => none) [])).2.isOk = true := by
  decide +kernel

end RatKingdom.Release
