/-
No acknowledged run is lost by its file operations.

`persistTo` is shown once to leave every other snapshot alone and to leave its own as it
was or replaced, wherever it fails or dies, with a readable snapshot under its name or
under the backup when it fails.  Over that, `Kept` says of the two directories together
that the copy a restart takes is there and is one that was acknowledged or tried since:
the live one as long as it is there, and the archive's from then on.
-/
import RatKingdom.Workflow.Snapshots

namespace RatKingdom.Snapshots

open Lib List

abbrev Does {α : Type} (P : World → Prop) (m : Op α) (Q : α → World → Prop)
    (E : Stop String → World → Prop) : Prop :=
  Spec (fun s => P s.1) m (fun a s => Q a s.1) fun x s => E x s.1

section
variable {α : Type} {P Q : World → Prop} {E : Stop String → World → Prop}

theorem does_world {Q : World → World → Prop} (h : ∀ w, P w → Q w w) : Does P world Q E :=
  fun s hs => h s.1 hs

theorem does_change {f : World → World} (h : ∀ w, P w → Q (f w)) :
    Does P (change f) (fun _ => Q) E := fun s hs => h s.1 hs

theorem does_sys {f : World → Except String World}
    (h : ∀ w, P w → (∀ w', f w = .ok w' → Q w') ∧ ∀ x, E x w) :
    Does P (sys f) (fun _ => Q) E := by
  intro ⟨w, script⟩ hs
  have hw := h w hs
  unfold sys
  cases hf : f w with
  | ok w' =>
    match script with
    | [] | .done :: rest => simpa [hf] using hw.1 w' hf
    | .fails :: rest | .dies :: rest => exact hw.2 _
  | error e =>
    match script with
    | [] | .done :: rest => simpa [hf] using hw.2 (.error e)
    | .fails :: rest | .dies :: rest => exact hw.2 _

theorem does_read {w₀ : World} {k : World → Op α} {Q : α → World → Prop}
    (h : Does (· = w₀) (k w₀) Q E) : Does (· = w₀) (world >>= k) Q E := by
  refine .bind (does_world (P := (· = w₀)) (Q := fun read w => read = w₀ ∧ w = w₀)
    fun w h => ⟨h, h⟩) fun read s hs => ?_
  obtain ⟨rfl, hw⟩ := hs
  exact h s hw

theorem does_each {m : Op α} {Q : α → World → Prop} (h : ∀ w, P w → Does (· = w) m Q E) :
    Does P m Q E := fun s hs => h s.1 hs s rfl

theorem does_alter {w₀ : World} {f : World → World} {m : Op α} {Q : α → World → Prop}
    (h : Does (· = f w₀) m Q E) : Does (· = w₀) (change f >>= fun _ => m) Q E :=
  .bind (does_change (P := (· = w₀)) (Q := (· = f w₀)) fun w hw => by rw [hw]) fun _ => h

theorem does_bestEffort {m : Op PUnit} {F : Stop String → World → Prop}
    (hm : Does P m (fun _ => Q) F) (he : ∀ e w, F (.error e) w → Q w)
    (hgone : ∀ w, F .gone w → E .gone w) : Does P (bestEffort m) (fun _ => Q) E := by
  apply Spec.bind (hm.attempt fun s h => hgone s.1 h)
  intro result
  cases result with
  | ok _ => exact .pure fun _ h => h
  | error e => exact .pure fun s h => he e s.1 h

end

@[simp] theorem file_setFile (w : World) (side s : Side) (name n : Name) (c : Option Instance) :
    (w.setFile side name c).file s n = if s = side ∧ n = name then some c else w.file s n := by
  unfold World.setFile World.setDir World.file
  by_cases hs : s = side
  · subst hs
    simp [Table.get_set]
  · simp [hs]

@[simp] theorem file_eraseFile (w : World) (side s : Side) (name n : Name) :
    (w.eraseFile side name).file s n = if s = side ∧ n = name then none else w.file s n := by
  unfold World.eraseFile World.setDir World.file
  by_cases hs : s = side
  · subst hs
    simp [Table.get_erase]
  · simp [hs]

/-- Everything but the files and the number of the next write is the same. -/
structure SameMind (w₀ w : World) : Prop where
  up : w.up = w₀.up
  live : w.live = w₀.live
  archived : w.archived = w₀.archived
  pid : w.pid = w₀.pid
  requests : w.requests = w₀.requests
  acked : w.acked = w₀.acked
  tried : w.tried = w₀.tried

theorem SameMind.refl (w : World) : SameMind w w := ⟨rfl, rfl, rfl, rfl, rfl, rfl, rfl⟩

theorem SameMind.trans {a b d : World} (hab : SameMind a b) (hbd : SameMind b d) : SameMind a d :=
  ⟨hbd.up.trans hab.up, hbd.live.trans hab.live, hbd.archived.trans hab.archived,
    hbd.pid.trans hab.pid, hbd.requests.trans hab.requests, hbd.acked.trans hab.acked,
    hbd.tried.trans hab.tried⟩

theorem sameMind_setFile (w : World) (side : Side) (name : Name) (c : Option Instance) :
    SameMind w (w.setFile side name c) := ⟨rfl, rfl, rfl, rfl, rfl, rfl, rfl⟩

theorem sameMind_eraseFile (w : World) (side : Side) (name : Name) :
    SameMind w (w.eraseFile side name) := ⟨rfl, rfl, rfl, rfl, rfl, rfl, rfl⟩

/-- Every snapshot is as it was in `w₀`, but `x` is under the name of the one written. -/
structure Near (w₀ : World) (side : Side) (id : String) (x : Option (Option Instance))
    (w : World) : Prop where
  mind : SameMind w₀ w
  rest : ∀ s k, ¬ (s = side ∧ k = id) → w.file s (.snapshot k) = w₀.file s (.snapshot k)
  own : w.file side (.snapshot id) = x

section
variable {w₀ w : World} {side : Side} {id : String} {x y : Option (Option Instance)}

theorem Near.start (w : World) (side : Side) (id : String) :
    Near w side id (w.file side (.snapshot id)) w := ⟨SameMind.refl w, fun _ _ _ => rfl, rfl⟩

theorem Near.set {name : Name} (h : Near w₀ side id x w) (hn : ∀ k, name ≠ .snapshot k)
    (s : Side) (c : Option Instance) : Near w₀ side id x (w.setFile s name c) := by
  refine ⟨h.mind.trans (sameMind_setFile w s name c), fun s' k hk => ?_, ?_⟩
  · rw [file_setFile, if_neg fun h => hn k h.2.symm]
    exact h.rest s' k hk
  · rw [file_setFile, if_neg fun h => hn id h.2.symm]
    exact h.own

theorem Near.erase {name : Name} (h : Near w₀ side id x w) (hn : ∀ k, name ≠ .snapshot k)
    (s : Side) : Near w₀ side id x (w.eraseFile s name) := by
  refine ⟨h.mind.trans (sameMind_eraseFile w s name), fun s' k hk => ?_, ?_⟩
  · rw [file_eraseFile, if_neg fun h => hn k h.2.symm]
    exact h.rest s' k hk
  · rw [file_eraseFile, if_neg fun h => hn id h.2.symm]
    exact h.own

theorem Near.replace (h : Near w₀ side id x w) (c : Option Instance) :
    Near w₀ side id (some c) (w.setFile side (.snapshot id) c) := by
  refine ⟨h.mind.trans (sameMind_setFile w side _ c), fun s k hk => ?_, ?_⟩
  · rw [file_setFile, if_neg fun h => hk ⟨h.1, Name.snapshot.inj h.2⟩]
    exact h.rest s k hk
  · rw [file_setFile, if_pos ⟨rfl, rfl⟩]

theorem Near.remove (h : Near w₀ side id x w) :
    Near w₀ side id none (w.eraseFile side (.snapshot id)) := by
  refine ⟨h.mind.trans (sameMind_eraseFile w side _), fun s k hk => ?_, ?_⟩
  · rw [file_eraseFile, if_neg fun h => hk ⟨h.1, Name.snapshot.inj h.2⟩]
    exact h.rest s k hk
  · rw [file_eraseFile, if_pos ⟨rfl, rfl⟩]

theorem Near.same {w' : World} (h : Near w₀ side id x w) (hm : SameMind w w')
    (hf : ∀ s n, w'.file s n = w.file s n) : Near w₀ side id x w' := by
  refine ⟨h.mind.trans hm, fun s k hk => ?_, ?_⟩
  · rw [hf]
    exact h.rest s k hk
  · rw [hf]
    exact h.own

end

/-- How a write that did not succeed may leave its snapshot: as it was, or replaced. -/
def Partly (w₀ : World) (side : Side) (i : Instance) (w : World) : Prop :=
  ∃ y, Near w₀ side i.id y w ∧ (y = w₀.file side (.snapshot i.id) ∨ y = some (some i))

/-- A snapshot that could be read before the write can still be read, or its backup can. -/
def Recoverable (w₀ : World) (side : Side) (id : String) (stamp : Stamp) (w : World) : Prop :=
  ∀ old, w₀.file side (.snapshot id) = some (some old) →
    w.file side (.snapshot id) = some (some old) ∨ w.file side (.backup id stamp) = some (some old)

/-- Where a write ends otherwise than well. -/
def Ended (w₀ : World) (side : Side) (i : Instance) (stamp : Stamp) : Stop String → World → Prop
  | .gone, w => Partly w₀ side i w
  | .error _, w => Partly w₀ side i w ∧ Recoverable w₀ side i.id stamp w

section
variable {w₀ : World} {side : Side} {i : Instance} {stamp : Stamp} {w : World}

theorem ended_old (h : Near w₀ side i.id (w₀.file side (.snapshot i.id)) w) :
    ∀ x, Ended w₀ side i stamp x w := by
  intro x
  have hp : Partly w₀ side i w := ⟨_, h, .inl rfl⟩
  cases x with
  | gone => exact hp
  | error e => exact ⟨hp, fun old ho => .inl (h.own.trans ho)⟩

def Renamed (w₀ : World) (side : Side) (i : Instance) (stamp : Stamp) (w : World) : Prop :=
  Near w₀ side i.id (some (some i)) w ∧ ((w₀.file side (.snapshot i.id)).isSome = true →
    w.file side (.backup i.id stamp) = w₀.file side (.snapshot i.id))

theorem ended_new (h : Renamed w₀ side i stamp w) : ∀ x, Ended w₀ side i stamp x w := by
  intro x
  have hp : Partly w₀ side i w := ⟨_, h.1, .inr rfl⟩
  cases x with
  | gone => exact hp
  | error e => exact ⟨hp, fun old ho => .inr ((h.2 (by rw [ho]; rfl)).trans ho)⟩

variable {x : Option (Option Instance)}

theorem removeFile_near {name : Name} (hn : ∀ k, name ≠ .snapshot k) {P : World → Prop}
    (hP : ∀ w, P w → P (w.eraseFile side name)) :
    Does (fun w => Near w₀ side i.id x w ∧ P w) (removeFile side name)
      (fun _ w => Near w₀ side i.id x w ∧ P w) fun _ w => Near w₀ side i.id x w ∧ P w := by
  apply does_sys
  intro w h
  refine ⟨fun w' hw => ?_, fun _ => h⟩
  split at hw
  · cases hw
    exact ⟨h.1.erase hn side, hP w h.2⟩
  · cases hw

theorem dropBackup_near {E : Stop String → World → Prop}
    (hE : ∀ w, Near w₀ side i.id x w → E .gone w) (had : Bool) :
    Does (Near w₀ side i.id x) (dropBackup side i.id stamp had) (fun _ => Near w₀ side i.id x) E := by
  unfold dropBackup
  split
  · have hremove : Does (fun w => Near w₀ side i.id x w ∧ True) (removeFile side (.backup i.id stamp))
        (fun _ w => Near w₀ side i.id x w ∧ True) fun _ w => Near w₀ side i.id x w ∧ True :=
      removeFile_near (fun _ h => by cases h) fun _ _ => trivial
    apply Spec.bind (does_bestEffort (Q := Near w₀ side i.id x)
      (hremove.mono (fun _ h => ⟨h, trivial⟩) (fun _ _ h => h.1) fun _ _ h => h.1)
      (fun _ _ h => h) hE)
    intro _
    apply does_bestEffort (F := fun _ => Near w₀ side i.id x)
    · apply does_sys
      intro w h
      exact ⟨fun w' hw => (by cases hw; exact h), fun _ => h⟩
    · exact fun _ _ h => h
    · exact hE
  · exact .pure fun _ h => h

theorem syncDirectory_keeps {P : World → Prop} {E : Stop String → World → Prop}
    (hE : ∀ w, P w → ∀ x, E x w) : Does P syncDirectory (fun _ => P) E := by
  apply does_sys
  intro w h
  exact ⟨fun w' hw => (by cases hw; exact h), hE w h⟩

/-- The old snapshot under its name again, or still under the backup's. -/
theorem restoreSnapshotFromBackup_ended (hsome : (w₀.file side (.snapshot i.id)).isSome = true) :
    Does (Renamed w₀ side i stamp) (restoreSnapshotFromBackup side i.id stamp)
      (fun _ => Near w₀ side i.id (w₀.file side (.snapshot i.id))) (Ended w₀ side i stamp) := by
  have hbackup : ∀ w, Renamed w₀ side i stamp w →
      Renamed w₀ side i stamp (w.eraseFile side (.restore i.id stamp)) := by
    intro w h
    refine ⟨h.1.erase (fun _ h => by cases h) side, fun hs => ?_⟩
    rw [file_eraseFile, if_neg fun h => by cases h.2]
    exact h.2 hs
  apply Spec.bind (Q := fun _ s => Renamed w₀ side i stamp s.1 ∧
    s.1.file side (.restore i.id stamp) = w₀.file side (.snapshot i.id))
  · apply does_sys (Q := fun w => Renamed w₀ side i stamp w ∧
      w.file side (.restore i.id stamp) = w₀.file side (.snapshot i.id))
    intro w h
    refine ⟨fun w' hw => ?_, ended_new h⟩
    split at hw
    · cases hw
    next c hc =>
      split at hw
      · cases hw
      · cases hw
        refine ⟨⟨h.1.set (fun _ h => by cases h) side c, fun hs => ?_⟩, ?_⟩
        · rw [file_setFile, if_neg fun h => by cases h.2]
          exact h.2 hs
        · rw [file_setFile, if_pos ⟨rfl, rfl⟩, ← hc]
          exact h.2 hsome
  · intro _
    have hrename : Does (fun w => Renamed w₀ side i stamp w ∧
          w.file side (.restore i.id stamp) = w₀.file side (.snapshot i.id))
        (rename side (.restore i.id stamp) (.snapshot i.id))
        (fun _ => Near w₀ side i.id (w₀.file side (.snapshot i.id)))
        fun _ => Renamed w₀ side i stamp := by
      apply does_sys
      intro w h
      refine ⟨fun w' hw => ?_, fun _ => h.1⟩
      split at hw
      · cases hw
      next c hc =>
        cases hw
        rw [← h.2, hc]
        exact (h.1.1.erase (fun _ h => by cases h) side).replace c
    apply Spec.bind (hrename.attempt fun s h => ended_new h .gone)
    intro replaced
    cases replaced with
    | error e =>
      apply Spec.bind (Q := fun _ s => Renamed w₀ side i stamp s.1)
      · apply does_bestEffort (F := fun _ => Renamed w₀ side i stamp)
        · apply does_sys
          intro w h
          refine ⟨fun w' hw => ?_, fun _ => h⟩
          split at hw
          · cases hw
            exact hbackup w h
          · cases hw
        · exact fun _ _ h => h
        · exact fun w h => ended_new h .gone
      · exact fun _ => .raise fun s h => ended_new h _
    | ok _ => exact syncDirectory_keeps fun w h => ended_old h

theorem rollBack_ended (commitError : String) :
    Does (Renamed w₀ side i stamp)
      (rollBack side i.id stamp (w₀.file side (.snapshot i.id)).isSome commitError)
      (fun _ _ => False) (Ended w₀ side i stamp) := by
  have hback : Does (Renamed w₀ side i stamp)
      (if (w₀.file side (.snapshot i.id)).isSome then restoreSnapshotFromBackup side i.id stamp
        else do
          removeFile side (.snapshot i.id)
          syncDirectory)
      (fun _ => Near w₀ side i.id (w₀.file side (.snapshot i.id))) (Ended w₀ side i stamp) := by
    by_cases hsome : (w₀.file side (.snapshot i.id)).isSome = true
    · rw [if_pos hsome]
      exact restoreSnapshotFromBackup_ended hsome
    · rw [if_neg hsome]
      have hn : w₀.file side (.snapshot i.id) = none := by simpa using hsome
      apply Spec.bind (Q := fun _ s => Near w₀ side i.id (w₀.file side (.snapshot i.id)) s.1)
      · apply does_sys (Q := Near w₀ side i.id (w₀.file side (.snapshot i.id)))
        intro w h
        refine ⟨fun w' hw => ?_, ended_new h⟩
        split at hw
        · cases hw
          rw [hn]
          exact h.1.remove
        · cases hw
      · exact fun _ => syncDirectory_keeps fun w h => ended_old h
  apply Spec.bind (hback.attempt fun s h => h)
  intro rollback
  cases rollback with
  | error e => exact .raise fun s h => h
  | ok _ =>
    apply Spec.bind (dropBackup_near (fun w h => ended_old h .gone) _)
    exact fun _ => Spec.raise fun s h => ended_old h _

def Written (w₀ : World) (side : Side) (i : Instance) (stamp : Stamp) (w : World) : Prop :=
  Near w₀ side i.id (w₀.file side (.snapshot i.id)) w ∧
    w.file side (.tmp i.id stamp) = some (some i)

/-- The backup holds the old one besides, if there is one. -/
def Linked (w₀ : World) (side : Side) (i : Instance) (stamp : Stamp) (w : World) : Prop :=
  Written w₀ side i stamp w ∧ ((w₀.file side (.snapshot i.id)).isSome = true →
    w.file side (.backup i.id stamp) = w₀.file side (.snapshot i.id))

theorem createNew_tmp :
    Does (Near w₀ side i.id (w₀.file side (.snapshot i.id))) (createNew side (.tmp i.id stamp))
      (fun _ => Near w₀ side i.id (w₀.file side (.snapshot i.id))) (Ended w₀ side i stamp) := by
  apply does_sys
  intro w h
  refine ⟨fun w' hw => ?_, ended_old h⟩
  split at hw
  · cases hw
  · cases hw
    exact h.set (fun _ h => by cases h) side none

theorem writeAll_tmp :
    Does (Near w₀ side i.id (w₀.file side (.snapshot i.id))) (writeAll side (.tmp i.id stamp) i)
      (fun _ => Written w₀ side i stamp) (Ended w₀ side i stamp) := by
  apply does_sys
  intro w h
  refine ⟨fun w' hw => ?_, ended_old h⟩
  cases hw
  exact ⟨h.set (fun _ h => by cases h) side (some i), by rw [file_setFile, if_pos ⟨rfl, rfl⟩]⟩

theorem hardLink_backup :
    Does (Written w₀ side i stamp) (hardLink side (.snapshot i.id) (.backup i.id stamp))
      (fun _ => Linked w₀ side i stamp) (Ended w₀ side i stamp) := by
  apply does_sys
  intro w h
  refine ⟨fun w' hw => ?_, ended_old h.1⟩
  split at hw
  · cases hw
  next c hc =>
    split at hw
    · cases hw
    · cases hw
      refine ⟨⟨h.1.set (fun _ h => by cases h) side c, ?_⟩, fun _ => ?_⟩
      · rw [file_setFile, if_neg fun h => by cases h.2]
        exact h.2
      · rw [file_setFile, if_pos ⟨rfl, rfl⟩, ← hc]
        exact h.1.own

theorem linkBackup_linked :
    Does (Written w₀ side i stamp)
      (linkBackup side i.id stamp (w₀.file side (.snapshot i.id)).isSome)
      (fun _ => Linked w₀ side i stamp) (Ended w₀ side i stamp) := by
  unfold linkBackup
  by_cases hsome : (w₀.file side (.snapshot i.id)).isSome = true
  · rw [if_pos hsome]
    apply Spec.bind hardLink_backup
    exact fun _ => syncDirectory_keeps fun w h => ended_old h.1.1
  · rw [if_neg hsome]
    exact .pure fun s h => ⟨h, fun hs => absurd hs hsome⟩

theorem rename_tmp :
    Does (Linked w₀ side i stamp) (rename side (.tmp i.id stamp) (.snapshot i.id))
      (fun _ => Renamed w₀ side i stamp) (Ended w₀ side i stamp) := by
  apply does_sys
  intro w h
  refine ⟨fun w' hw => ?_, ended_old h.1.1⟩
  rw [h.1.2] at hw
  cases hw
  refine ⟨(h.1.1.erase (fun _ h => by cases h) side).replace (some i), fun hs => ?_⟩
  rw [file_setFile, if_neg (fun h' => by cases h'.2), file_eraseFile,
    if_neg (fun h' => by cases h'.2)]
  exact h.2 hs

theorem commit_ended :
    Does (Near w₀ side i.id (w₀.file side (.snapshot i.id))) (commit side i stamp)
      (fun _ => Near w₀ side i.id (some (some i))) (Ended w₀ side i stamp) := by
  apply Spec.bind createNew_tmp
  intro _
  apply Spec.bind writeAll_tmp
  intro _
  apply Spec.bind (syncDirectory_keeps (P := Written w₀ side i stamp) fun w h => ended_old h.1)
  intro _
  apply Spec.bind (does_world (Q := fun read w =>
    (read.file side (.snapshot i.id)).isSome = (w₀.file side (.snapshot i.id)).isSome ∧
      Written w₀ side i stamp w) fun w h => ⟨by rw [h.1.own], h⟩)
  intro read
  simp only
  by_cases hread : (read.file side (.snapshot i.id)).isSome = (w₀.file side (.snapshot i.id)).isSome
  · rw [hread]
    apply Spec.bind (linkBackup_linked.pre fun s h => h.2)
    intro _
    apply Spec.bind rename_tmp
    intro _
    apply Spec.bind ((syncDirectory_keeps (P := Renamed w₀ side i stamp)
      (E := fun _ => Renamed w₀ side i stamp) fun w h _ => h).attempt fun s h => ended_new h .gone)
    intro synced
    cases synced with
    | error e => exact (rollBack_ended e).mono (fun _ h => h) (fun _ _ h => h.elim) fun _ _ h => h
    | ok _ =>
      exact (dropBackup_near (fun w h => ⟨_, h, .inr rfl⟩) _).pre fun s h => h.1
  · exact fun s h => absurd h.1 hread

theorem near_dirs (h : Near w₀ side i.id x w) (s : Side) (present : Bool) :
    Near w₀ side i.id x (w.setDir s { w.dirs s with present }) := by
  have hm : SameMind w (w.setDir s { w.dirs s with present }) := ⟨rfl, rfl, rfl, rfl, rfl, rfl, rfl⟩
  apply h.same hm
  intro s' n
  unfold World.setDir World.file
  by_cases hs : s' = s
  · subst hs
    simp
  · simp [hs]

theorem ensureDir_near :
    Does (Near w₀ side i.id (w₀.file side (.snapshot i.id))) (ensureDir side)
      (fun _ => Near w₀ side i.id (w₀.file side (.snapshot i.id))) (Ended w₀ side i stamp) := by
  apply Spec.bind (does_world (Q := fun _ => Near w₀ side i.id (w₀.file side (.snapshot i.id)))
    fun _ h => h)
  intro read
  apply Spec.bind (Q := fun _ s => Near w₀ side i.id (w₀.file side (.snapshot i.id)) s.1)
  · apply does_sys (Q := Near w₀ side i.id (w₀.file side (.snapshot i.id)))
    intro w h
    refine ⟨fun w' hw => ?_, ended_old h⟩
    cases hw
    exact near_dirs h side true
  · intro _
    split
    · exact .pure fun _ h => h
    · exact syncDirectory_keeps fun w h => ended_old h

theorem removeTmp_ended (e : String) :
    Does (Ended w₀ side i stamp (.error e)) (bestEffort (removeFile side (.tmp i.id stamp)))
      (fun _ => Ended w₀ side i stamp (.error e)) (Ended w₀ side i stamp) := by
  apply does_bestEffort (F := fun _ => Ended w₀ side i stamp (.error e))
  · apply does_sys
    intro w h
    refine ⟨fun w' hw => ?_, fun _ => h⟩
    split at hw
    · cases hw
      obtain ⟨⟨y, hy, hcase⟩, hrec⟩ := h
      have hnear : Near w₀ side i.id y (w.eraseFile side (.tmp i.id stamp)) :=
        hy.erase (fun _ h => by cases h) side
      refine ⟨⟨y, hnear, hcase⟩, fun old hold => ?_⟩
      rw [hnear.own, ← hy.own, file_eraseFile, if_neg fun h => by cases h.2]
      exact hrec old hold
    · cases hw
  · exact fun _ _ h => h
  · exact fun w h => h.1

def Stopped (w₀ : World) (side : Side) (i : Instance) (x : Stop String) (w : World) : Prop :=
  ∃ stamp, Ended w₀ side i stamp x w

/-- A write ends with the new snapshot, or as `Ended` says. -/
theorem persistTo_ended (w₀ : World) (side : Side) (i : Instance) :
    Does (· = w₀) (persistTo side i) (fun _ => Near w₀ side i.id (some (some i)))
      (Stopped w₀ side i) := by
  have hensure : Does (· = w₀) (ensureDir side)
      (fun _ => Near w₀ side i.id (w₀.file side (.snapshot i.id))) (Stopped w₀ side i) := by
    have hnear : Does (Near w₀ side i.id (w₀.file side (.snapshot i.id))) (ensureDir side)
        (fun _ => Near w₀ side i.id (w₀.file side (.snapshot i.id))) (Ended w₀ side i ⟨0, 0⟩) :=
      ensureDir_near
    apply hnear.mono _ (fun _ _ h => h) fun _ _ h => ⟨_, h⟩
    intro s h
    rw [h]
    exact .start w₀ side i.id
  apply Spec.bind hensure
  intro _
  apply Spec.bind (does_world (P := Near w₀ side i.id (w₀.file side (.snapshot i.id)))
    (Q := fun _ => Near w₀ side i.id (w₀.file side (.snapshot i.id))) fun _ h => h)
  intro read
  apply Spec.bind (does_change (Q := Near w₀ side i.id (w₀.file side (.snapshot i.id)))
    fun w h => h.same ⟨rfl, rfl, rfl, rfl, rfl, rfl, rfl⟩ fun _ _ => rfl)
  intro _
  apply Spec.bind (commit_ended.attempt fun s h => ⟨⟨read.pid, read.seq⟩, h⟩)
  intro result
  cases result with
  | ok _ => exact .pure fun _ h => h
  | error e =>
    apply Spec.bind ((removeTmp_ended e).mono (fun _ h => h) (fun _ _ h => h) fun _ _ h => ⟨_, h⟩)
    exact fun _ => Spec.raise fun _ h => ⟨_, h⟩

end

def Side.other : Side → Side
  | .live => .archive
  | .archive => .live

namespace World

def loads (w : World) (id : String) : Option Instance :=
  (w.readable .live id).or (w.readable .archive id)

/-- A revision a restart may come back with, where one was acknowledged. -/
def Due (w : World) (id : String) (revision : Nat) : Prop :=
  ∀ r, w.acked.get id = some r → revision = r ∨ revision ∈ w.tried id

/-- What holds of the files at every point a process can die at. -/
structure Kept (w : World) : Prop where
  named : ∀ side id c, w.file side (.snapshot id) = some c → ∃ i, c = some i ∧ i.id = id
  stored : ∀ id r, w.acked.get id = some r → ∃ i, w.loads id = some i
  due : ∀ id i, w.loads id = some i → w.Due id i.revision

/-- What holds of the maps between two steps. -/
structure Tracked (w : World) : Prop where
  live : ∀ id i, w.live.get id = some i → i.id = id ∧ w.Due id i.revision
  archived : ∀ id i, w.archived.get id = some i → i.id = id ∧ w.Due id i.revision
  apart : ∀ id, w.live.get id = none ∨ w.archived.get id = none

structure Sound (w : World) : Prop extends Kept w, Tracked w

end World

open World

section
variable {w₀ w : World} {side : Side} {id : String} {i : Instance}

theorem SameMind.due (hm : SameMind w₀ w) {revision : Nat} (h : w₀.Due id revision) :
    w.Due id revision := by
  unfold World.Due at h ⊢
  rw [hm.acked, hm.tried]
  exact h

theorem SameMind.tracked (hm : SameMind w₀ w) (h : w₀.Tracked) : w.Tracked := by
  refine ⟨fun id i hi => ?_, fun id i hi => ?_, fun id => ?_⟩
  · rw [hm.live] at hi
    exact ⟨(h.live id i hi).1, hm.due (h.live id i hi).2⟩
  · rw [hm.archived] at hi
    exact ⟨(h.archived id i hi).1, hm.due (h.archived id i hi).2⟩
  · rw [hm.live, hm.archived]
    exact h.apart id

theorem Near.readable {x : Option (Option Instance)} (h : Near w₀ side id x w) (s : Side)
    (k : String) : w.readable s k = if s = side ∧ k = id then x.join else w₀.readable s k := by
  unfold World.readable
  split
  next hk => rw [hk.1, hk.2, h.own]
  next hk => rw [h.rest s k hk]

theorem loads_of_other (side : Side) (h : w.readable side id = none) :
    w.loads id = w.readable side.other id := by
  unfold loads
  cases side with
  | live => rw [h]; rfl
  | archive => rw [h, Option.or_none]; rfl

theorem Partly.loads (h : Partly w₀ side i w) (k : String) :
    w.loads k = w₀.loads k ∨ (k = i.id ∧ w.loads k = some i) := by
  obtain ⟨y, hn, hy⟩ := h
  by_cases hk : k = i.id
  · subst hk
    rcases hy with rfl | rfl
    · left
      have hsame : ∀ s, w.readable s i.id = w₀.readable s i.id := by
        intro s
        rw [hn.readable]
        split
        next hs => rw [hs.1]; rfl
        next => rfl
      unfold World.loads
      rw [hsame, hsame]
    · unfold World.loads
      rw [hn.readable, hn.readable]
      cases side with
      | live => exact .inr ⟨rfl, by simp⟩
      | archive =>
        cases hl : w₀.readable .live i.id with
        | none => exact .inr ⟨rfl, by simp⟩
        | some j => exact .inl (by simp)
  · left
    unfold World.loads
    rw [hn.readable, hn.readable, if_neg fun h => hk h.2, if_neg fun h => hk h.2]

variable {j : Instance}

theorem kept_of_loads (hk : w₀.Kept) (hm : SameMind w₀ w)
    (hnamed : ∀ s k c, w.file s (.snapshot k) = some c → ∃ i, c = some i ∧ i.id = k)
    (hd : w₀.Due id j.revision)
    (hloads : ∀ k, w.loads k = w₀.loads k ∨ (k = id ∧ w.loads k = some j)) : w.Kept := by
  refine ⟨hnamed, fun k r hr => ?_, fun k i hi => ?_⟩
  · rw [hm.acked] at hr
    rcases hloads k with he | he
    · rw [he]
      exact hk.stored k r hr
    · exact ⟨j, he.2⟩
  · apply hm.due
    rcases hloads k with he | he
    · rw [he] at hi
      exact hk.due k i hi
    · rw [he.2] at hi
      cases hi
      rw [he.1]
      exact hd

theorem Partly.kept (hk : w₀.Kept) (hd : w₀.Due i.id i.revision) (h : Partly w₀ side i w) :
    w.Kept := by
  obtain ⟨y, hn, hy⟩ := h
  refine kept_of_loads hk hn.mind (fun s k c hc => ?_) hd (Partly.loads ⟨y, hn, hy⟩)
  by_cases hsk : s = side ∧ k = i.id
  · obtain ⟨rfl, rfl⟩ := hsk
    rw [hn.own] at hc
    rcases hy with rfl | rfl
    · exact hk.named s i.id c hc
    · cases hc
      exact ⟨i, rfl, rfl⟩
  · rw [hn.rest s k hsk] at hc
    exact hk.named s k c hc

def Dropped (w₀ : World) (side : Side) (id : String) (w : World) : Prop :=
  ∃ y, Near w₀ side id y w ∧ (y = w₀.file side (.snapshot id) ∨ y = none)

/-- A copy that may go while the other side has one to take its place. -/
def Spare (w : World) (side : Side) (id : String) : Prop :=
  ∃ j, w.readable side.other id = some j ∧ w.Due id j.revision

theorem other_ne (side : Side) : side.other ≠ side := by
  cases side with
  | live | archive => exact nofun

theorem Dropped.kept (hk : w₀.Kept) (hs : Spare w₀ side id) (h : Dropped w₀ side id w) :
    w.Kept := by
  obtain ⟨y, hn, hy⟩ := h
  obtain ⟨j, hj, hdue⟩ := hs
  have hloads : ∀ k, w.loads k = w₀.loads k ∨ (k = id ∧ w.loads k = some j) := by
    intro k
    by_cases hk' : k = id
    · subst hk'
      rcases hy with rfl | rfl
      · left
        have hsame : ∀ s, w.readable s k = w₀.readable s k := by
          intro s
          rw [hn.readable]
          split
          next hs => rw [hs.1]; rfl
          next => rfl
        unfold loads
        rw [hsame, hsame]
      · right
        refine ⟨rfl, ?_⟩
        rw [loads_of_other side]
        · rw [hn.readable, if_neg fun h => other_ne side h.1]
          exact hj
        · rw [hn.readable, if_pos ⟨rfl, rfl⟩]
          rfl
    · left
      unfold loads
      rw [hn.readable, hn.readable, if_neg fun h => hk' h.2, if_neg fun h => hk' h.2]
  refine kept_of_loads hk hn.mind (fun s k c hc => ?_) hdue hloads
  by_cases hsk : s = side ∧ k = id
  · obtain ⟨rfl, rfl⟩ := hsk
    rw [hn.own] at hc
    rcases hy with rfl | rfl
    · exact hk.named s k c hc
    · cases hc
  · rw [hn.rest s k hsk] at hc
    exact hk.named s k c hc

/-- The files are kept, and nothing else has changed. -/
def Spoiled (w₀ w : World) : Prop := w.Kept ∧ SameMind w₀ w

/-- `persist_to` of a revision that is due. -/
theorem persistTo_kept (hk : w₀.Kept) (hd : w₀.Due i.id i.revision) (side : Side) :
    Does (· = w₀) (persistTo side i) (fun _ w => Spoiled w₀ w ∧ w.readable side i.id = some i ∧
        ∀ s k, ¬ (s = side ∧ k = i.id) → w.readable s k = w₀.readable s k)
      fun _ => Spoiled w₀ := by
  apply (persistTo_ended w₀ side i).mono (fun _ h => h)
  · intro _ s hn
    refine ⟨⟨Partly.kept hk hd ⟨_, hn, .inr rfl⟩, hn.mind⟩, ?_, fun s' k hsk => ?_⟩
    · rw [hn.readable, if_pos ⟨rfl, rfl⟩]
      rfl
    · rw [hn.readable, if_neg hsk]
  · intro x s ⟨stamp, hx⟩
    have hp : Partly w₀ side i s.1 := by
      cases x with
      | gone => exact hx
      | error e => exact hx.1
    refine ⟨hp.kept hk hd, ?_⟩
    obtain ⟨y, hn, -⟩ := hp
    exact hn.mind

/-- `remove_snapshot_durably` of a copy the other side can stand in for. -/
theorem removeSnapshotDurably_kept (hk : w₀.Kept) (hs : Spare w₀ side id) :
    Does (· = w₀) (removeSnapshotDurably side id)
      (fun _ w => Spoiled w₀ w ∧ ∀ k, w.readable side.other k = w₀.readable side.other k)
      fun _ w => Spoiled w₀ w ∧ ∀ k, w.readable side.other k = w₀.readable side.other k := by
  have hother : ∀ w, Dropped w₀ side id w →
      Spoiled w₀ w ∧ ∀ k, w.readable side.other k = w₀.readable side.other k := by
    intro w h
    refine ⟨⟨h.kept hk hs, ?_⟩, fun k => ?_⟩
    · obtain ⟨y, hn, -⟩ := h
      exact hn.mind
    · obtain ⟨y, hn, -⟩ := h
      rw [hn.readable, if_neg fun h => other_ne side h.1]
  have hold : Dropped w₀ side id w₀ := ⟨_, .start w₀ side id, .inl rfl⟩
  have hremoved : Does (· = w₀) (removeFile side (.snapshot id)) (fun _ => Dropped w₀ side id)
      fun _ => Dropped w₀ side id := by
    apply does_sys
    intro w h
    rw [h]
    refine ⟨fun w' hw => ?_, fun _ => hold⟩
    split at hw
    · cases hw
      exact ⟨none, (Near.start w₀ side id).remove, .inr rfl⟩
    · cases hw
  have hdropped : Does (· = w₀) (removeSnapshotDurably side id) (fun _ => Dropped w₀ side id)
      fun _ => Dropped w₀ side id :=
    .bind hremoved fun _ => syncDirectory_keeps fun w h _ => h
  exact hdropped.mono (fun _ h => h) (fun _ s h => hother s.1 h) fun _ s h => hother s.1 h

/-- How a step may end otherwise than well: with the files in order, and with the maps too
unless the process is gone. -/
def Left : Stop String → World → Prop
  | .gone, w => w.Kept
  | .error _, w => w.Sound

theorem due_puts {k : String} {r : Nat} (id : String) (i : Instance) (h : w.Due k r) :
    (w.puts id i).Due k r := by
  intro acked ha
  rcases h acked ha with h | h
  · exact .inl h
  · right
    unfold puts
    by_cases hk : k = id
    · subst hk
      simp [h]
    · simp [hk, h]

theorem due_put (w : World) (id : String) (i : Instance) : (w.puts id i).Due id i.revision := by
  intro acked _
  right
  simp [puts]

theorem World.Kept.puts (hk : w.Kept) (id : String) (i : Instance) : (w.puts id i).Kept :=
  ⟨hk.named, hk.stored, fun k j hj => due_puts id i (hk.due k j hj)⟩

theorem World.Tracked.puts (ht : w.Tracked) (harch : w.archived.get i.id = none) :
    (w.puts i.id i).Tracked := by
  refine ⟨fun id j hj => ?_, fun id j hj => ?_, fun id => ?_⟩
  · simp only [World.puts, Table.get_set] at hj
    split at hj
    next hid =>
      cases hj
      rw [hid]
      exact ⟨rfl, due_put w i.id i⟩
    next => exact ⟨(ht.live id j hj).1, due_puts i.id i (ht.live id j hj).2⟩
  · exact ⟨(ht.archived id j hj).1, due_puts i.id i (ht.archived id j hj).2⟩
  · simp only [World.puts, Table.get_set]
    split
    next hid => exact .inr (hid ▸ harch)
    next => exact ht.apart id

/-- A live instance whose snapshot a restart would take is acknowledged. -/
theorem World.Sound.acknowledges (hs : w.Sound) (hl : w.live.get i.id = some i)
    (hload : w.loads i.id = some i) : (w.acknowledges i.id i.revision).Sound := by
  have hother : ∀ k r, k ≠ i.id → w.Due k r → (w.acknowledges i.id i.revision).Due k r := by
    intro k r hk hd acked ha
    simp only [World.acknowledges, Table.get_set, if_neg hk] at ha
    simpa [World.acknowledges, hk] using hd acked ha
  have hown : (w.acknowledges i.id i.revision).Due i.id i.revision := by
    intro acked ha
    simp only [World.acknowledges, Table.get_set, if_pos] at ha
    cases ha
    exact .inl rfl
  have harch : w.archived.get i.id = none := by
    rcases hs.apart i.id with h | h
    · rw [hl] at h
      cases h
    · exact h
  refine ⟨⟨hs.named, fun k r hr => ?_, fun k j hj => ?_⟩,
    ⟨fun k j hj => ?_, fun k j hj => ?_, hs.apart⟩⟩
  · by_cases hk : k = i.id
    · rw [hk]
      exact ⟨i, hload⟩
    · simp only [World.acknowledges, Table.get_set, if_neg hk] at hr
      exact hs.stored k r hr
  · by_cases hk : k = i.id
    · subst hk
      have he : some i = some j := hload.symm.trans hj
      cases he
      exact hown
    · exact hother k _ hk (hs.due k j hj)
  · refine ⟨(hs.live k j hj).1, ?_⟩
    by_cases hk : k = i.id
    · subst hk
      have he : some i = some j := hl.symm.trans hj
      cases he
      exact hown
    · exact hother k _ hk (hs.live k j hj).2
  · refine ⟨(hs.archived k j hj).1, ?_⟩
    by_cases hk : k = i.id
    · subst hk
      have he : none = some j := harch.symm.trans hj
      cases he
    · exact hother k _ hk (hs.archived k j hj).2

/-- A live instance is persisted: it is acknowledged, or `undo` puts the map right. -/
theorem persist_live (hs : w₀.Sound) (harch : w₀.archived.get i.id = none) {α : Type} (result : α)
    (undo : World → World) (hundo : ∀ w, Spoiled (w₀.puts i.id i) w → (undo w).Sound) :
    Does (· = w₀) (do
        change fun w => w.puts i.id i
        let persisted ← (persistTo .live i).attempt
        match persisted with
        | .error e => do
          change undo
          Act.raise e
        | .ok _ => do
          change fun w => w.acknowledges i.id i.revision
          pure result)
      (fun _ => World.Sound) Left := by
  apply does_alter
  have ht := hs.toTracked.puts harch
  have hpersist := persistTo_kept (hs.toKept.puts i.id i) (due_put w₀ i.id i) .live
  apply Spec.bind (hpersist.attempt fun s h => h.1)
  intro persisted
  cases persisted with
  | error e =>
    apply Spec.bind (does_change (P := Spoiled (w₀.puts i.id i)) (Q := World.Sound) hundo)
    exact fun _ => Spec.raise fun _ h => h
  | ok _ =>
    apply Spec.bind (Q := fun _ s => s.1.Sound)
    · intro s ⟨hsp, hread, _⟩
      have hsound : s.1.Sound := ⟨hsp.1, hsp.2.tracked ht⟩
      apply hsound.acknowledges
      · rw [hsp.2.live]
        show (w₀.live.set i.id i).get i.id = some i
        rw [Table.get_set, if_pos rfl]
      · unfold loads
        rw [hread]
        rfl
    · exact fun _ => .pure fun _ h => h

theorem put_back (hs : w₀.Sound) {id : String} (h : Spoiled (w₀.puts id i) w)
    {live : Table String Instance} (hl : ∀ k, live.get k = w₀.live.get k) :
    World.Sound { w with live } := by
  have hdue : ∀ k r, w₀.Due k r → w.Due k r := fun k r hd => h.2.due (due_puts id i hd)
  refine ⟨⟨h.1.named, h.1.stored, h.1.due⟩, ⟨fun k j hj => ?_, fun k j hj => ?_, fun k => ?_⟩⟩
  · rw [hl] at hj
    exact ⟨(hs.live k j hj).1, hdue k _ (hs.live k j hj).2⟩
  · rw [h.2.archived] at hj
    exact ⟨(hs.archived k j hj).1, hdue k _ (hs.archived k j hj).2⟩
  · rw [hl, h.2.archived]
    exact hs.apart k

theorem storeIfAbsent_sound (hs : w₀.Sound) (i : Instance) :
    Does (· = w₀) (storeIfAbsent i) (fun _ => World.Sound) Left := by
  apply does_read
  cases hget : (w₀.live.get i.id).or (w₀.archived.get i.id) with
  | some existing => exact .pure fun s h => by rw [h]; exact hs
  | none =>
    rw [Option.or_eq_none_iff] at hget
    apply persist_live hs hget.2
    intro w h
    apply put_back hs h
    intro k
    rw [Table.get_erase, h.2.live]
    split
    next hk => rw [hk, hget.1]
    next hk =>
      show (w₀.live.set i.id i).get k = w₀.live.get k
      rw [Table.get_set, if_neg hk]

theorem tryUpdate_sound (hs : w₀.Sound) (id : String) (mutate : Mutation) :
    Does (· = w₀) (tryUpdate id mutate) (fun _ => World.Sound) Left := by
  apply does_read
  cases hget : w₀.live.get id with
  | none => exact .pure fun s h => by rw [h]; exact hs
  | some before =>
    simp only
    split
    · exact .pure fun s h => by rw [h]; exact hs
    · have hid : before.id = id := (hs.live id before hget).1
      have harch : w₀.archived.get id = none := by
        rcases hs.apart id with h | h
        · rw [hget] at h
          cases h
        · exact h
      subst hid
      apply persist_live (i := { mutate.apply before with
        revision := min (before.revision + 1) revisionMax }) hs harch
      intro w h
      apply put_back hs h
      intro k
      rw [Table.get_set, h.2.live]
      split
      next hk => rw [hk, hget]
      next hk =>
        show (w₀.live.set before.id _).get k = w₀.live.get k
        rw [Table.get_set, if_neg hk]

theorem failRecoveryInMemory_sound (hs : w₀.Sound) (id : String) (now : Nat) (body : String) :
    Does (· = w₀) (failRecoveryInMemory id now body) (fun _ => World.Sound) Left := by
  apply does_read
  cases hget : w₀.live.get id with
  | none => exact .pure fun s h => by rw [h]; exact hs
  | some i =>
    simp only
    apply does_change
    intro w h
    rw [h]
    refine ⟨⟨hs.named, hs.stored, hs.due⟩, ⟨fun k j hj => ?_, hs.archived, fun k => ?_⟩⟩
    · rw [Table.get_set] at hj
      split at hj
      next hk =>
        cases hj
        rw [hk]
        exact hs.live id i hget
      next => exact hs.live k j hj
    · rw [Table.get_set]
      split
      next hk =>
        rcases hs.apart id with h | h
        · rw [hget] at h
          cases h
        · exact .inr (hk ▸ h)
      next => exact hs.apart k

theorem Spoiled.trans {a b d : World} (hab : Spoiled a b) (hbd : Spoiled b d) : Spoiled a d :=
  ⟨hbd.1, hab.2.trans hbd.2⟩

def Copied (w₀ : World) (id : String) (w : World) : Prop :=
  ∃ j, w.readable .archive id = some j ∧ w₀.Due id j.revision

theorem Copied.spare (hc : Copied w₀ id w) (hm : SameMind w₀ w) : Spare w .live id := by
  obtain ⟨j, hj, hd⟩ := hc
  exact ⟨j, hj, hm.due hd⟩

variable {moved : List Instance}

theorem persistAll_copied (hd : ∀ m ∈ moved, w₀.Due m.id m.revision) (done : List String) :
    Does (fun w => Spoiled w₀ w ∧ ∀ k ∈ done, Copied w₀ k w) (persistAll .archive moved)
      (fun _ w => Spoiled w₀ w ∧ ∀ k, k ∈ done ∨ k ∈ moved.map (·.id) → Copied w₀ k w)
      fun _ => Spoiled w₀ := by
  induction moved generalizing done with
  | nil =>
    apply Spec.pure
    intro s h
    refine ⟨h.1, fun k hk => ?_⟩
    rcases hk with hk | hk
    · exact h.2 k hk
    · cases hk
  | cons m rest ih =>
    have hm := hd m mem_cons_self
    have hone : Does (fun w => Spoiled w₀ w ∧ ∀ k ∈ done, Copied w₀ k w) (persistTo .archive m)
        (fun _ w => Spoiled w₀ w ∧ ∀ k ∈ done ++ [m.id], Copied w₀ k w) fun _ => Spoiled w₀ := by
      apply does_each
      intro w ⟨hsp, hcopied⟩
      apply (persistTo_kept hsp.1 (hsp.2.due hm) .archive).mono (fun _ h => h)
      · intro _ s ⟨hs, hown, hrest⟩
        refine ⟨hsp.trans hs, fun k hk => ?_⟩
        by_cases hkm : k = m.id
        · rw [hkm]
          exact ⟨m, hown, hm⟩
        · have hkd : k ∈ done := by simpa [hkm] using hk
          obtain ⟨j, hj, hjd⟩ := hcopied k hkd
          refine ⟨j, ?_, hjd⟩
          rw [hrest .archive k fun h => hkm h.2]
          exact hj
      · exact fun _ _ h => hsp.trans h
    apply Spec.bind hone
    intro _
    apply (ih (fun m' h => hd m' (mem_cons_of_mem _ h)) (done ++ [m.id])).mono
      (fun _ h => h) _ fun _ _ h => h
    intro _ s h
    refine ⟨h.1, fun k hk => h.2 k ?_⟩
    simpa [or_assoc] using hk

variable {originals : List Instance}

theorem restoreAll_spoiled (hd : ∀ o ∈ originals, w₀.Due o.id o.revision) :
    Does (Spoiled w₀) (restoreAll originals) (fun _ => Spoiled w₀) fun _ => Spoiled w₀ := by
  induction originals with
  | nil => exact .pure fun _ h => h
  | cons o rest ih =>
    have hone : Does (Spoiled w₀) (persistTo .live o) (fun _ => Spoiled w₀) fun _ => Spoiled w₀ := by
      apply does_each
      intro w hsp
      exact (persistTo_kept hsp.1 (hsp.2.due (hd o mem_cons_self)) .live).mono (fun _ h => h)
        (fun _ _ h => hsp.trans h.1) fun _ _ h => hsp.trans h
    apply Spec.bind (Q := fun _ s => Spoiled w₀ s.1)
    · apply (hone.attempt fun _ h => h).mono (fun _ h => h) _ fun _ _ h => h
      intro result s h
      cases result with
      | ok _ | error e => exact h
    · intro restored
      apply Spec.bind (ih fun o h => hd o (mem_cons_of_mem _ h))
      intro errors
      cases restored with
      | ok _ | error e => exact .pure fun _ h => h

theorem removeAll_spoiled (rest : List Instance) (hd : ∀ o ∈ originals, w₀.Due o.id o.revision)
    (hsub : ∀ o ∈ rest, o ∈ originals) :
    Does (fun w => Spoiled w₀ w ∧ ∀ o ∈ originals, Copied w₀ o.id w) (removeAll originals rest)
      (fun _ => Spoiled w₀) fun _ => Spoiled w₀ := by
  induction rest with
  | nil => exact .pure fun _ h => h.1
  | cons o rest ih =>
    have hone : Does (fun w => Spoiled w₀ w ∧ ∀ o ∈ originals, Copied w₀ o.id w)
        (removeSnapshotDurably .live o.id)
        (fun _ w => Spoiled w₀ w ∧ ∀ o ∈ originals, Copied w₀ o.id w) fun _ => Spoiled w₀ := by
      apply does_each
      intro w ⟨hsp, hcopied⟩
      have hspare := (hcopied o (hsub o mem_cons_self)).spare hsp.2
      apply (removeSnapshotDurably_kept hsp.1 hspare).mono (fun _ h => h)
      · intro _ s ⟨hs, hsame⟩
        refine ⟨hsp.trans hs, fun o ho => ?_⟩
        obtain ⟨j, hj, hjd⟩ := hcopied o ho
        exact ⟨j, (hsame o.id).trans hj, hjd⟩
      · exact fun _ _ h => hsp.trans h.1
    apply Spec.bind (hone.attempt fun _ h => h)
    intro removed
    cases removed with
    | error e =>
      apply Spec.bind (restoreAll_spoiled hd)
      exact fun errors => Spec.raise fun _ h => h
    | ok _ => exact ih fun o ho => hsub o (mem_cons_of_mem _ ho)

theorem originalsOf_ok (h : originalsOf w moved = .ok originals) :
    (∀ m ∈ moved, ∃ o ∈ originals, w.live.get m.id = some o ∧ o.revision = m.revision) ∧
      ∀ o ∈ originals, ∃ m ∈ moved, w.live.get m.id = some o := by
  induction moved generalizing originals with
  | nil =>
    cases h
    exact ⟨fun _ h => (not_mem_nil h).elim, fun _ h => (not_mem_nil h).elim⟩
  | cons m rest ih =>
    unfold originalsOf at h
    split at h
    · cases h
    next current hcur =>
      split at h
      · cases h
      next hsame =>
        cases hrest : originalsOf w rest with
        | error e =>
          rw [hrest] at h
          cases h
        | ok others =>
          rw [hrest] at h
          cases h
          obtain ⟨hmoved, horig⟩ := ih hrest
          refine ⟨fun m' hm' => ?_, fun o ho => ?_⟩
          · rcases mem_cons.mp hm' with rfl | hm'
            · exact ⟨current, mem_cons_self, hcur, by simpa using (not_or.mp hsame).1⟩
            · obtain ⟨o, ho, hrest⟩ := hmoved m' hm'
              exact ⟨o, mem_cons_of_mem _ ho, hrest⟩
          · rcases mem_cons.mp ho with rfl | ho
            · exact ⟨m, mem_cons_self, hcur⟩
            · obtain ⟨m', hm', hrest⟩ := horig o ho
              exact ⟨m', mem_cons_of_mem _ hm', hrest⟩

theorem moves_sound (hs : w.Sound) (hd : w.Due i.id i.revision) : (w.moves i).Sound := by
  refine ⟨⟨hs.named, hs.stored, hs.due⟩, ⟨fun k j hj => ?_, fun k j hj => ?_, fun k => ?_⟩⟩
  · simp only [moves, Table.get_erase] at hj
    split at hj
    · cases hj
    · exact hs.live k j hj
  · simp only [moves, Table.get_set] at hj
    split at hj
    next hk =>
      cases hj
      rw [hk]
      exact ⟨rfl, hd⟩
    next => exact hs.archived k j hj
  · simp only [moves, Table.get_erase, Table.get_set]
    split
    · exact .inl rfl
    · exact hs.apart k

theorem foldl_moves_sound (hs : w.Sound) (hd : ∀ m ∈ moved, w.Due m.id m.revision) :
    (moved.foldl moves w).Sound := by
  induction moved generalizing w with
  | nil => exact hs
  | cons m rest ih =>
    apply ih (moves_sound hs (hd m mem_cons_self))
    exact fun m' hm' => hd m' (mem_cons_of_mem _ hm')

theorem moveToArchive_sound (hs : w₀.Sound) (moved : List Instance) :
    Does (· = w₀) (moveToArchive moved) (fun _ => World.Sound) fun _ => Spoiled w₀ := by
  apply does_read
  cases horig : originalsOf w₀ moved with
  | error e => exact .raise fun s h => by rw [h]; exact ⟨hs.toKept, .refl w₀⟩
  | ok originals =>
    obtain ⟨hmoved, hl⟩ := originalsOf_ok horig
    have hdue : ∀ m ∈ moved, w₀.Due m.id m.revision := by
      intro m hm
      obtain ⟨o, -, ho, hrev⟩ := hmoved m hm
      rw [← hrev]
      exact (hs.live m.id o ho).2
    have hids : ∀ o ∈ originals, o.id ∈ moved.map (·.id) ∧ w₀.Due o.id o.revision := by
      intro o ho
      obtain ⟨m, hm, hget⟩ := hl o ho
      obtain ⟨hid, hd⟩ := hs.live m.id o hget
      exact ⟨mem_map.mpr ⟨m, hm, hid.symm⟩, hid ▸ hd⟩
    have hcopy := persistAll_copied hdue []
    have hremove := removeAll_spoiled originals (fun o ho => (hids o ho).2) fun _ h => h
    apply Spec.bind (hcopy.pre fun s h => ?_)
    · intro _
      apply Spec.bind (hremove.pre fun s h => ⟨h.1, fun o ho => h.2 o.id (.inr (hids o ho).1)⟩)
      intro _
      apply Spec.bind (does_change (P := Spoiled w₀) (Q := World.Sound) ?_)
      · exact fun _ => Spec.pure fun _ h => h
      · intro w hsp
        exact foldl_moves_sound ⟨hsp.1, hsp.2.tracked hs.toTracked⟩ fun m hm => hsp.2.due (hdue m hm)
    · rw [show s.1 = w₀ from h]
      exact ⟨⟨hs.toKept, .refl w₀⟩, fun _ h => (not_mem_nil h).elim⟩

theorem keepArchived_spoiled (removeError : String) (hd : w₀.Due i.id i.revision) :
    Does (Spoiled w₀) (keepArchived i.id i removeError) (fun _ => World.Sound)
      fun _ => Spoiled w₀ := by
  have hwrite : Does (Spoiled w₀) (persistTo .archive i)
      (fun _ w => Spoiled w₀ w ∧ Copied w₀ i.id w) fun _ => Spoiled w₀ := by
    apply does_each
    intro w hsp
    exact (persistTo_kept hsp.1 (hsp.2.due hd) .archive).mono (fun _ h => h)
      (fun _ s h => ⟨hsp.trans h.1, i, h.2.1, hd⟩) fun _ _ h => hsp.trans h
  have hremove : Does (fun w => Spoiled w₀ w ∧ Copied w₀ i.id w) (removeSnapshotDurably .live i.id)
      (fun _ => Spoiled w₀) fun _ => Spoiled w₀ := by
    apply does_each
    intro w ⟨hsp, hcopied⟩
    exact (removeSnapshotDurably_kept hsp.1 (hcopied.spare hsp.2)).mono (fun _ h => h)
      (fun _ s h => hsp.trans h.1) fun _ _ h => hsp.trans h.1
  apply Spec.bind (hwrite.attempt fun _ h => h)
  intro restored
  cases restored with
  | error e => exact .raise fun _ h => h
  | ok _ =>
    apply Spec.bind (hremove.attempt fun _ h => h)
    intro removed
    cases removed with
    | error e | ok _ => exact .raise fun _ h => h

/-- The maps after an `unarchive`. -/
theorem unarchived_sound (hs : w.Sound) (hd : w.Due i.id i.revision) :
    World.Sound { w with live := w.live.set i.id i, archived := w.archived.erase i.id } := by
  refine ⟨⟨hs.named, hs.stored, hs.due⟩, ⟨fun k j hj => ?_, fun k j hj => ?_, fun k => ?_⟩⟩
  · rw [Table.get_set] at hj
    split at hj
    next hk =>
      cases hj
      rw [hk]
      exact ⟨rfl, hd⟩
    next => exact hs.live k j hj
  · rw [Table.get_erase] at hj
    split at hj
    · cases hj
    · exact hs.archived k j hj
  · rw [Table.get_set, Table.get_erase]
    split
    · exact .inr rfl
    · exact hs.apart k

theorem unarchive_sound (hs : w₀.Sound) (id : String) :
    Does (· = w₀) (unarchive id) (fun _ => World.Sound) fun _ => Spoiled w₀ := by
  apply does_read
  split
  · exact .raise fun s h => by rw [h]; exact ⟨hs.toKept, .refl w₀⟩
  cases harch : w₀.archived.get id with
  | none => exact .pure fun s h => by rw [h]; exact hs
  | some a =>
    obtain ⟨rfl, hd⟩ := hs.archived id a harch
    have hpersist : Does (· = w₀) (persistTo .live { a with archivedAt := none })
        (fun _ w => Spoiled w₀ w ∧ w.readable .live a.id = some { a with archivedAt := none })
        fun _ => Spoiled w₀ :=
      (persistTo_kept (i := { a with archivedAt := none }) hs.toKept hd .live).mono (fun _ h => h)
        (fun _ _ h => ⟨h.1, h.2.1⟩) fun _ _ h => h
    apply Spec.bind hpersist
    intro _
    have hremove : Does (fun w => Spoiled w₀ w ∧
          w.readable .live a.id = some { a with archivedAt := none })
        (removeSnapshotDurably .archive a.id) (fun _ => Spoiled w₀) fun _ => Spoiled w₀ := by
      apply does_each
      intro w hw
      obtain ⟨hsp, hl⟩ := hw
      have hspare : Spare w .archive a.id := ⟨_, hl, hsp.2.due hd⟩
      exact (removeSnapshotDurably_kept hsp.1 hspare).mono (fun _ h => h)
        (fun _ s h => hsp.trans h.1) fun _ _ h => hsp.trans h.1
    apply Spec.bind (hremove.attempt fun _ h => h)
    intro removed
    cases removed with
    | error e => exact keepArchived_spoiled e hd
    | ok _ =>
      apply Spec.bind (does_change (P := Spoiled w₀) (Q := World.Sound) ?_)
      · exact fun _ => Spec.pure fun _ h => h
      · intro w hsp
        exact unarchived_sound (i := { a with archivedAt := none }) ⟨hsp.1, hsp.2.tracked hs.toTracked⟩
          (hsp.2.due hd)

theorem readable_eq_some :
    w.readable side id = some j ↔ w.file side (.snapshot id) = some (some j) := by
  unfold readable
  rw [Option.join_eq_some_iff]

theorem mem_readInstanceDir (hk : w.Kept) (side : Side) :
    j ∈ readInstanceDir (w.dirs side) ↔ w.readable side j.id = some j := by
  rw [readable_eq_some]
  unfold readInstanceDir file
  rw [mem_filterMap, Table.get_eq_some_iff]
  constructor
  · rintro ⟨⟨name, content⟩, hrow, he⟩
    split at he
    next k i heq =>
      cases he
      cases heq
      obtain ⟨i, hi, hid⟩ := hk.named side k (some j) (Table.get_eq_some_iff.mpr hrow)
      cases hi
      rw [hid]
      exact hrow
    · cases he
  · exact fun hrow => ⟨_, hrow, rfl⟩

theorem readInstanceDir_distinct (hk : w.Kept) (side : Side) :
    ∀ a ∈ readInstanceDir (w.dirs side), ∀ b ∈ readInstanceDir (w.dirs side), a.id = b.id → a = b := by
  intro a ha b hb hid
  rw [mem_readInstanceDir hk side] at ha hb
  rw [hid, hb] at ha
  cases ha
  rfl

theorem rehydrate_live (hk : w.Kept) (id : String) :
    w.rehydrate.live.get id = w.readable .live id := by
  apply Option.ext
  intro j
  have hget := Table.get_foldl_set (fun _ : Instance => false) (·.id)
    (readInstanceDir_distinct hk .live) id j
  have hm := mem_readInstanceDir hk .live (j := j)
  constructor
  · intro h
    obtain ⟨hj, hid, -⟩ := hget.mp h
    rw [← hid]
    exact hm.mp hj
  · intro h
    obtain ⟨i, hi, hid⟩ := hk.named .live id (some j) (readable_eq_some.mp h)
    cases hi
    exact hget.mpr ⟨hm.mpr (by rw [hid]; exact h), hid, rfl⟩

theorem rehydrate_archived (hk : w.Kept) (id : String) :
    w.rehydrate.archived.get id =
      if (w.readable .live id).isSome then none else w.readable .archive id := by
  apply Option.ext
  intro j
  have hget := Table.get_foldl_set (fun i : Instance => (w.rehydrate.live.get i.id).isSome) (·.id)
    (readInstanceDir_distinct hk .archive) id j
  have hm := mem_readInstanceDir hk .archive (j := j)
  constructor
  · intro h
    obtain ⟨hj, rfl, hl⟩ := hget.mp h
    rw [rehydrate_live hk] at hl
    rw [if_neg (by rw [hl]; exact Bool.false_ne_true)]
    exact hm.mp hj
  · intro h
    split at h
    · cases h
    next hl =>
      obtain ⟨i, hi, rfl⟩ := hk.named .archive id (some j) (readable_eq_some.mp h)
      cases hi
      refine hget.mpr ⟨hm.mpr h, rfl, ?_⟩
      rw [rehydrate_live hk]
      simpa using hl

theorem rehydrate_statusAny (hk : w.Kept) (id : String) : w.rehydrate.statusAny id = w.loads id := by
  unfold statusAny loads
  rw [rehydrate_live hk, rehydrate_archived hk]
  cases w.readable .live id with
  | none | some i => rfl

theorem rehydrate_sound (hk : w.Kept) : w.rehydrate.Sound := by
  refine ⟨⟨hk.named, hk.stored, hk.due⟩, ⟨fun id j hj => ?_, fun id j hj => ?_, fun id => ?_⟩⟩
  · rw [rehydrate_live hk] at hj
    obtain ⟨i, hi, hid⟩ := hk.named .live id (some j) (readable_eq_some.mp hj)
    cases hi
    exact ⟨hid, hk.due id j (by unfold loads; rw [hj]; rfl)⟩
  · rw [rehydrate_archived hk] at hj
    split at hj
    · cases hj
    next hl =>
      obtain ⟨i, hi, hid⟩ := hk.named .archive id (some j) (readable_eq_some.mp hj)
      cases hi
      refine ⟨hid, hk.due id j ?_⟩
      have hn : w.readable .live id = none := by simpa using hl
      unfold loads
      rw [hn, hj]
      rfl
  · rw [rehydrate_live hk, rehydrate_archived hk]
    cases w.readable .live id with
    | none => exact .inl rfl
    | some i => exact .inr rfl

theorem crash_sound (hk : w.Kept) : w.crash.Sound where
  named := hk.named
  stored := hk.stored
  due := hk.due
  live := nofun
  archived := nofun
  apart := fun _ => .inl rfl

theorem execute_sound {α : Type} {m : Op α} (hm : Does (· = w) m (fun _ => World.Sound) Left)
    (script : List Fate) : (w.execute script m).Sound := by
  have h := hm (w, script) rfl
  unfold execute
  revert h
  match m (w, script) with
  | (.ok a, s) | (.error (.error e), s) => exact id
  | (.error .gone, s) => exact crash_sound

theorem left_of_spoiled (hs : w₀.Sound) (x : Stop String) (h : Spoiled w₀ w) : Left x w := by
  cases x with
  | gone => exact h.1
  | error e => exact ⟨h.1, h.2.tracked hs.toTracked⟩

theorem step_sound {w' : World} {l : Label} (hs : w.Sound) (hstep : step w l = some w') :
    w'.Sound := by
  cases l with
  | create i script =>
    simp only [step] at hstep
    split at hstep
    · cases hstep
      exact execute_sound (storeIfAbsent_sound hs i) script
    · cases hstep
  | update id mutate script =>
    simp only [step] at hstep
    split at hstep
    · cases hstep
      exact execute_sound (tryUpdate_sound hs id mutate) script
    · cases hstep
  | failInMemory id now body =>
    simp only [step] at hstep
    split at hstep
    · cases hstep
      exact execute_sound (failRecoveryInMemory_sound hs id now body) []
    · cases hstep
  | pick order selection now =>
    simp only [step] at hstep
    split at hstep
    · cases hstep
      apply execute_sound
      apply does_read
      cases archivable w order selection with
      | error e => exact .raise fun s h => by rw [h]; exact hs
      | ok moved =>
        apply does_change
        intro w' h
        rw [h]
        exact ⟨⟨hs.named, hs.stored, hs.due⟩, ⟨hs.live, hs.archived, hs.apart⟩⟩
    · cases hstep
  | archive request script =>
    simp only [step] at hstep
    split at hstep
    · split at hstep
      · cases hstep
      next moved _ =>
        cases hstep
        have hs' : World.Sound { w with requests := w.requests.eraseIdx request } :=
          ⟨⟨hs.named, hs.stored, hs.due⟩, ⟨hs.live, hs.archived, hs.apart⟩⟩
        exact execute_sound ((moveToArchive_sound hs' moved).mono (fun _ h => h) (fun _ _ h => h)
          fun x _ h => left_of_spoiled hs' x h) script
    · cases hstep
  | unarchive id script =>
    simp only [step] at hstep
    split at hstep
    · cases hstep
      exact execute_sound ((unarchive_sound hs id).mono (fun _ h => h) (fun _ _ h => h)
        fun x _ h => left_of_spoiled hs x h) script
    · cases hstep
  | crash =>
    simp only [step] at hstep
    split at hstep
    · cases hstep
      exact crash_sound hs.toKept
    · cases hstep
  | restart pid =>
    simp only [step] at hstep
    split at hstep
    · cases hstep
    · cases hstep
      have hk : World.Kept { w with up := true, pid, seq := 0 } := ⟨hs.named, hs.stored, hs.due⟩
      exact rehydrate_sound hk

end

theorem init_sound : init.Sound where
  named := nofun
  stored := nofun
  due := nofun
  live := nofun
  archived := nofun
  apart := fun _ => .inl rfl

namespace World

def found (w : World) (pid : Nat) (id : String) : Option Instance :=
  (w.crash.restart pid).statusAny id

/-- A program that fails has left both maps as they were. -/
def SameMaps {α : Type} (w : World) (m : Op α) : Prop :=
  ∀ script e s, m (w, script) = (.error (.error e), s) → s.1.live = w.live ∧ s.1.archived = w.archived

/-- What is promised of the store in every state. -/
structure Safe (w : World) : Prop where
  loadable : ∀ id r, w.acked.get id = some r → ∀ pid, ∃ i, w.found pid id = some i ∧
    (i.revision = r ∨ i.revision ∈ w.tried id)
  apart : ∀ id, w.live.get id = none ∨ w.archived.get id = none
  archive : ∀ moved, w.SameMaps (moveToArchive moved)
  unarchive : ∀ id, w.SameMaps (unarchive id)
  persist : ∀ side i script e s, persistTo side i (w, script) = (.error (.error e), s) →
    ∀ side' id old, w.readable side' id = some old → s.1.readable side' id = some old ∨
      ∃ stamp, s.1.file side' (.backup id stamp) = some (some old)

end World

section
variable {w : World}

theorem sameMaps_of_spoiled {α : Type} {m : Op α} {Q : α → World → Prop}
    (hm : Does (· = w) m Q fun _ => Spoiled w) : w.SameMaps m := by
  intro script e s hrun
  have h := hm (w, script) rfl
  rw [hrun] at h
  exact ⟨h.2.live, h.2.archived⟩

theorem persistTo_readable {side : Side} {i : Instance} {script : List Fate} {e : String}
    {s : World × List Fate} (hrun : persistTo side i (w, script) = (.error (.error e), s))
    (side' : Side) (id : String) (old : Instance) (hold : w.readable side' id = some old) :
    s.1.readable side' id = some old ∨
      ∃ stamp, s.1.file side' (.backup id stamp) = some (some old) := by
  have h := persistTo_ended w side i (w, script) rfl
  rw [hrun] at h
  obtain ⟨stamp, ⟨y, hn, -⟩, hrec⟩ := h
  by_cases hk : side' = side ∧ id = i.id
  · obtain ⟨rfl, rfl⟩ := hk
    rcases hrec old (readable_eq_some.mp hold) with h | h
    · exact .inl (readable_eq_some.mpr h)
    · exact .inr ⟨stamp, h⟩
  · left
    rw [hn.readable, if_neg hk]
    exact hold

theorem World.Sound.safe (hs : w.Sound) : w.Safe where
  loadable := by
    intro id r hr pid
    obtain ⟨i, hi⟩ := hs.stored id r hr
    refine ⟨i, ?_, hs.due id i hi r hr⟩
    have hk : World.Kept { w.crash with up := true, pid, seq := 0 } := ⟨hs.named, hs.stored, hs.due⟩
    exact (rehydrate_statusAny hk id).trans hi
  apart := hs.apart
  archive := fun moved => sameMaps_of_spoiled (moveToArchive_sound hs moved)
  unarchive := fun id => sameMaps_of_spoiled (unarchive_sound hs id)
  persist := fun _ _ _ _ _ hrun => persistTo_readable hrun

end

/-- Every acknowledged instance comes back at exactly the revision last acknowledged. -/
def World.Exact (w : World) : Prop :=
  ∀ id r, w.acked.get id = some r → ∃ i, w.found 1 id = some i ∧ i.revision = r

def review : Instance :=
  { id := "review", revision := 1, running := true, startedAt := 0, completedAt := none
    archivedAt := none, body := "" }

/-- An update is cut off between the rename of its snapshot and the sync of the directory. -/
def cutOff : List Label :=
  [.restart 1, .create review [],
    .update "review" { running := false, completedAt := some 1, body := "done" }
      (List.replicate 7 .done ++ [.dies])]

end RatKingdom.Snapshots
