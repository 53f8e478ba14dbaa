/-
One answer for an SDLC transition.

A reaction writes its tuple and then a marker.  The alert reaction looks for its own
diagnosis before it writes one, so it may be cut off between the two.  The CI reaction
looks for the marker alone, and for a recovery it looks for any diagnostic of the
subject, whatever source it came from: it answers once, and only after a diagnostic of
its own source, as long as no marker behind a CI tuple is lost and no other source has
reported the failure of the same subject.
-/
import RatKingdom.Reactor.Handled

namespace RatKingdom.Reactor

open Core Lib List

/-- A property that neither the trigger path nor the cursor touches. -/
structure Castle.Rests (c : Castle) (J : Host → Prop) : Prop where
  goes : ∀ h h', J h → Goes c Plain h h' → J h'
  cursor : ∀ h cursorFile reads, J h → J { h with cursorFile, reads }

/-- A property that every part of a cycle keeps, however the part ends. -/
structure Castle.Keeps (c : Castle) (J : Host → Prop) : Prop extends c.Rests J where
  tidy : ∀ h, J h → h.Tidy
  ci : ∀ t h, J h → .foreign t ∈ h.journal → J (reactToSdlcCiTransition t h).2
  alert : ∀ t h, J h → .foreign t ∈ h.journal → J (reactToSdlcAlertTransition c t h).2

section
variable {c : Castle} {J : Host → Prop} {base : List Record} {α β : Type}

def Within (J : Host → Prop) (base : List Record) (h : Host) : Prop :=
  J h ∧ ∀ r ∈ base, r ∈ h.journal

def Stays (J : Host → Prop) (base : List Record) (h h' : Host) : Prop :=
  Within J base h → Within J base h'

theorem Stays.refl (h : Host) : Stays J base h h := id

theorem Stays.trans (a b d : Host) (hab : Stays J base a b) (hbd : Stays J base b d) :
    Stays J base a d := hbd ∘ hab

theorem stays_pure (a : α) : Moves (Stays J base) (pure a : Op α) := Moves.pure Stays.refl a

theorem stays_bind {m : Op α} {f : α → Op β} (hm : Moves (Stays J base) m)
    (hf : ∀ a, Moves (Stays J base) (f a)) : Moves (Stays J base) (m >>= f) :=
  .bind .trans hm hf

section
variable (hJ : c.Rests J)
include hJ

theorem stays_goes {m : Op α} (hm : Moves (Goes c Plain) m) : Moves (Stays J base) m :=
  fun h hw => ⟨hJ.goes h _ hw.1 (hm h), fun r hr => (hm h).mem (hw.2 r hr)⟩

theorem saveCursor_keeps (sequence : Nat) : ∀ h, J h → J (saveCursor sequence h).2 := by
  have hfile : ∀ file : Host → Option Nat,
      Moves (Stays J []) (.modify fun h => { h with cursorFile := file h } : Op PUnit) :=
    fun file h hw => ⟨hJ.cursor h (file h) h.reads hw.1, hw.2⟩
  have hsave : Moves (Stays J []) (saveCursor sequence) := by
    apply stays_bind (stays_goes hJ (goes_of_calm (turn_calm fun _ h => h)))
    intro turn
    cases turn.fate .cursor with
    | done => exact hfile _
    | fails => exact stays_bind (hfile _) fun _ => .raise .refl _
    | dies => exact stays_bind (hfile _) fun _ => .refl
  exact fun h hh => (hsave h ⟨hh, fun _ hr => (not_mem_nil hr).elim⟩).1

theorem advanceCursor_keeps (tally : Tally) (cursor boundary : Nat) :
    ∀ h, J h → J (advanceCursor tally cursor boundary h).2 := by
  unfold advanceCursor
  split
  · exact saveCursor_keeps hJ boundary
  · exact fun _ hh => hh

theorem initializeCursor_keeps : ∀ h, J h → J (initializeCursor h).2 := by
  intro h hh
  show J (Act.bind Act.get _ h).2
  simp only [Act.bind, Act.get]
  split
  · exact hh
  split
  · exact saveCursor_keeps hJ _ h hh
  · exact hh

end

section
variable (hJ : c.Keeps J)
include hJ

theorem stays_ci {t : Tuple} (ht : .foreign t ∈ base) :
    Moves (Stays J base) (reactToSdlcCiTransition t) := by
  intro h hw
  refine ⟨hJ.ci t h hw.1 (hw.2 _ ht), fun r hr => ?_⟩
  have hcalm : Moves (Calm c (Ours fun _ => False)) (reactToSdlcCiTransition t) :=
    reactToSdlcCiTransition_calm t
  exact (hcalm h).goes.mem (hw.2 r hr)

theorem stays_alert {t : Tuple} (ht : .foreign t ∈ base) :
    Moves (Stays J base) (reactToSdlcAlertTransition c t) := by
  intro h hw
  refine ⟨hJ.alert t h hw.1 (hw.2 _ ht), fun r hr => ?_⟩
  exact (reactToSdlcAlertTransition_calm t h).goes.mem (hw.2 r hr)

omit hJ in
theorem stays_guarded (tally : Tally) {m : Op α} (hm : Moves (Stays J base) m) :
    Moves (Stays J base) (guarded tally m) := by
  apply stays_bind (.attempt hm)
  intro done
  cases done with
  | ok _ | error _ => exact stays_pure _

theorem stays_builtin : Moves (Stays J base) (proceed .builtin) :=
  stays_goes hJ.toRests (goes_of_calm (proceed_calm (fun _ h => h) .builtin))

theorem stays_fireTriggers (registry : RepoRegistry) (t : Tuple) (tally : Tally) :
    Moves (Stays J base) (fireTriggers c registry t tally) := by
  unfold fireTriggers
  split
  · exact stays_pure _
  · apply Moves.foldlM Stays.refl Stays.trans
    intro tally loaded _
    apply stays_bind (Moves.attempt (stays_goes hJ.toRests
      (tryFire_goes (fun _ h => h) registry loaded t)))
    intro done
    match done with
    | .ok true | .ok false | .error _ => exact stays_pure _

theorem stays_reactToRecord (registry : RepoRegistry) (tally : Tally) {r : Record} (hr : r ∈ base) :
    Moves (Stays J base) (reactToRecord c registry tally r) := by
  unfold reactToRecord
  split
  next t =>
    split
    · exact stays_pure _
    apply stays_bind (.attempt (stays_builtin hJ))
    intro _
    apply stays_bind (stays_guarded tally (stays_ci hJ hr))
    intro tally
    apply stays_bind (stays_guarded tally (stays_alert hJ hr))
    intro tally
    apply stays_bind (stays_fireTriggers hJ registry t tally)
    intro tally
    unfold linkResolution
    split
    · exact stays_guarded tally (stays_builtin hJ)
    · exact stays_pure _
  · exact stays_pure _

theorem backlog_keeps {body : Tuple → Op Bool} {p : Tuple → Bool}
    (hp : ∀ t, p t = true → t.category = .event)
    (hbody : ∀ base t, .foreign t ∈ base → Moves (Stays J base) (body t)) :
    Spec J (do
      let h ← Act.get
      (h.scan p).foldlM (fun fired t => do
        let reacted ← body t
        pure (if reacted then fired + 1 else fired)) 0) (fun _ => J) fun _ => J := by
  apply Spec.bind (Spec.get (Q := fun read h => read = h ∧ J h) fun h hh => ⟨rfl, hh⟩)
  intro read
  apply Spec.of_final
  intro h ⟨he, hh⟩
  have hjournal : ∀ t ∈ read.scan p, .foreign t ∈ h.journal := by
    intro t ht
    rw [he, Host.scan, mem_insertionSort, mem_filter] at ht
    obtain ⟨u, hu, -, -, hev⟩ := (hJ.tidy h hh).rows t ht.1
    rw [← hev (hp t ht.2)]
    exact hu
  have hloop : Moves (Stays J h.journal) ((read.scan p).foldlM (fun fired t => do
      let reacted ← body t
      pure (if reacted then fired + 1 else fired)) 0 : Op Nat) := by
    apply Moves.foldlM Stays.refl Stays.trans
    intro fired t ht
    exact stays_bind (hbody _ t (hjournal t ht)) fun _ => stays_pure _
  exact (hloop h ⟨hh, fun _ hr => hr⟩).1

theorem runCycle_keeps (registry : Option RepoRegistry) :
    Spec J (runCycle c registry) (fun _ => J) fun _ => J := by
  apply Spec.bind (Spec.get (Q := fun read h => read = h ∧ J h) fun h hh => ⟨rfl, hh⟩)
  intro read
  simp only
  split
  · exact .raise fun _ h => h.2
  apply Spec.bind (Spec.modify (Q := fun _ => Within J read.journal) ?_)
  · intro _
    cases registry with
    | none => exact .raise fun _ h => h.1
    | some registry =>
      have hdelta : Moves (Stays J read.journal)
          ((read.journal.drop (read.cursorFile.getD 0)).foldlM (reactToRecord c registry) {}) := by
        apply Moves.foldlM Stays.refl Stays.trans
        intro tally r hr
        exact stays_reactToRecord hJ registry tally (mem_of_mem_drop hr)
      apply Spec.bind ((Spec.of_final (I := J) fun h hh => (hdelta h hh).1).mono (fun _ h => h)
        (fun _ _ h => h) fun _ _ h => h)
      intro tally
      apply Spec.bind (Q := fun _ => J)
      · exact .of_final fun h hh => advanceCursor_keeps hJ.toRests tally _ _ h hh
      · intro _
        apply Spec.bind (backlog_keeps hJ (fun t ht => ?_) fun _ _ => stays_ci hJ)
        · intro ci
          apply Spec.bind (backlog_keeps hJ (fun t ht => ?_) fun _ _ => stays_alert hJ)
          · intro alerts
            apply Spec.of_final
            intro h hh
            have hrest : Moves (Stays J []) (do
                let drained ← drainQueuedFires c c.triggers
                let _ ← (proceed .builtin).attempt
                pure (tally.fired + ci + alerts + drained)) := by
              apply stays_bind (stays_goes hJ.toRests (drainQueuedFires_goes (fun _ h => h) _))
              intro drained
              exact stays_bind (.attempt (stays_builtin hJ)) fun _ => stays_pure _
            exact (hrest h ⟨hh, fun _ hr => (not_mem_nil hr).elim⟩).1
          · simp only [Bool.and_eq_true, isProductionAlertTransition, decide_eq_true_eq] at ht
            exact ht.2.1.1
        · simp only [Bool.and_eq_true, decide_eq_true_eq] at ht
          exact ht.1.1
  · intro h hrest
    obtain ⟨he, hh⟩ := hrest
    refine ⟨hJ.cursor h h.cursorFile _ hh, fun r hr => ?_⟩
    rw [he] at hr
    exact hr

end
end

/-- A CI answer to the transition `id`. -/
def answers (id : RecordId) : Record → Bool
  | .ciDiagnostic r => r.transition = id
  | .ciRecovered r => r.transition = id
  | _ => false

def diagnoses (id : RecordId) : Record → Bool
  | .alertDiagnosis d => d.transition = id
  | _ => false

/-- A transition has one answer, and a recovery follows a diagnostic of its source and
subject. -/
structure Host.Answered (h : Host) : Prop where
  ci : ∀ id, h.journal.countP (answers id) ≤ 1
  alert : ∀ id, h.journal.countP (diagnoses id) ≤ 1
  recovered : ∀ n r, h.journal[n]? = some (.ciRecovered r) →
    ∃ d, .ciDiagnostic d ∈ h.journal.take n ∧ d.source = r.source ∧ d.subject = r.subject

def failedCi (t : Tuple) : Bool := isCiTransition t && t.payload.getStr "kind" = some "ci_failed"

def recoveredCi (t : Tuple) : Bool :=
  isCiTransition t && t.payload.getStr "kind" = some "ci_recovered"

/-- What a CI answer rests on: a diagnostic on the failed transition it is about, a recovery
on a diagnostic of its source and subject. -/
def Host.Grounds (h : Host) : Record → Prop
  | .ciDiagnostic d => ∃ t, .foreign t ∈ h.journal ∧ failedCi t = true ∧
    t.payload.getStr "subject" = some d.subject ∧ t.payload.getStr "source" = d.source
  | .ciRecovered r => ∃ d, .ciDiagnostic d ∈ h.journal ∧ d.source = r.source ∧ d.subject = r.subject
  | _ => True

/-- The invariant, with the markers of the transitions in `due` still to be written. -/
structure Settled (due : RecordId → Prop) (h : Host) : Prop where
  tidy : h.Tidy
  answered : h.Answered
  marked : ∀ id, ¬ due id → ∀ r ∈ h.journal, answers id r = true → h.marked (ciKey id) = true
  grounds : ∀ r ∈ h.journal, h.Grounds r

section
variable {c : Castle} {due : RecordId → Prop} {h h' : Host} {r : Record}

theorem grounds_mono (hj : ∀ r ∈ h.journal, r ∈ h'.journal) (hr : h.Grounds r) : h'.Grounds r := by
  cases r with
  | ciDiagnostic d =>
    obtain ⟨t, ht, hrest⟩ := hr
    exact ⟨t, hj _ ht, hrest⟩
  | ciRecovered r =>
    obtain ⟨d, hd, hrest⟩ := hr
    exact ⟨d, hj _ hd, hrest⟩
  | _ => trivial

theorem marked_eq_true {key : Key} : h.marked key = true ↔ ∃ mark, .marker key mark ∈ h.journal := by
  unfold Host.marked
  rw [any_eq_true]
  constructor
  · intro ⟨r, hr, hk⟩
    cases r with
    | marker k mark =>
      have he : k = key := by simpa using hk
      exact ⟨mark, he ▸ hr⟩
    | _ => cases hk
  · intro ⟨mark, hm⟩
    exact ⟨_, hm, by simp⟩

/-- The journal grows by answers that were not given yet and, for each transition that is
not due any more, by its marker. -/
theorem Settled.extend {due' : RecordId → Prop} (hs : Settled due h) (htidy : h'.Tidy)
    {more : List Record} (hj : h'.journal = h.journal ++ more)
    (hci : ∀ id, h.journal.countP (answers id) + more.countP (answers id) ≤ 1)
    (halert : ∀ id, h.journal.countP (diagnoses id) + more.countP (diagnoses id) ≤ 1)
    (hgrounds : ∀ r ∈ more, h.Grounds r)
    (hmark : ∀ id, ¬ due' id → (∃ mark, .marker (ciKey id) mark ∈ more) ∨
      (¬ due id ∧ ∀ r ∈ more, answers id r = false)) : Settled due' h' := by
  refine ⟨htidy, ⟨?_, ?_, ?_⟩, ?_, ?_⟩
  · intro id
    rw [hj, countP_append]
    exact hci id
  · intro id
    rw [hj, countP_append]
    exact halert id
  · intro n r hr
    rw [hj] at hr ⊢
    by_cases hn : n < h.journal.length
    · rw [getElem?_append_left hn] at hr
      obtain ⟨d, hd, hrest⟩ := hs.answered.recovered n r hr
      rw [take_append_of_le_length (Nat.le_of_lt hn)]
      exact ⟨d, hd, hrest⟩
    · rw [getElem?_append_right (by omega)] at hr
      obtain ⟨d, hd, hrest⟩ := hgrounds _ (mem_of_getElem? hr)
      refine ⟨d, ?_, hrest⟩
      rw [take_append]
      apply mem_append_left
      rw [take_of_length_le (by omega)]
      exact hd
  · intro id hdue r hr hans
    rw [marked_eq_true, hj]
    rw [hj] at hr
    rcases hmark id hdue with ⟨mark, hm⟩ | ⟨hold, hnone⟩
    · exact ⟨mark, mem_append_right _ hm⟩
    · rcases mem_append.mp hr with hr | hr
      · obtain ⟨mark, hm⟩ := marked_eq_true.mp (hs.marked id hold r hr hans)
        exact ⟨mark, mem_append_left _ hm⟩
      · rw [hnone r hr] at hans
        cases hans
  · intro r hr
    rw [hj] at hr
    have hgrow : ∀ r ∈ h.journal, r ∈ h'.journal := by
      rw [hj]
      exact fun r hr => mem_append_left _ hr
    apply grounds_mono hgrow
    rcases mem_append.mp hr with hr | hr
    · exact hs.grounds r hr
    · exact hgrounds r hr

def Silent (r : Record) : Prop := (∀ id, answers id r = false) ∧ ∀ id, diagnoses id r = false

theorem silent_of_plain (r : Record) (hr : Plain r) : Silent r := by
  cases r <;> first | exact ⟨fun _ => rfl, fun _ => rfl⟩ | exact hr.elim

theorem grounds_of_silent (hr : Silent r) : h.Grounds r := by
  cases r with
  | ciDiagnostic d | ciRecovered d => simpa [answers] using hr.1 d.transition
  | _ => trivial

theorem countP_silent {p : Record → Bool} {more : List Record} (h : ∀ r ∈ more, p r = false) :
    more.countP p = 0 := by
  rw [countP_eq_zero]
  intro r hr hp
  rw [h r hr] at hp
  cases hp

theorem Settled.goes (hs : Settled due h) (g : Goes c Silent h h') : Settled due h' := by
  obtain ⟨more, hj, hsilent⟩ := g.journal
  apply hs.extend (g.tidy hs.tidy) hj
  · intro id
    rw [countP_silent fun r hr => (hsilent r hr).1 id]
    exact hs.answered.ci id
  · intro id
    rw [countP_silent fun r hr => (hsilent r hr).2 id]
    exact hs.answered.alert id
  · exact fun r hr => grounds_of_silent (hsilent r hr)
  · exact fun id hdue => .inr ⟨hdue, fun r hr => (hsilent r hr).1 id⟩

theorem unanswered_goes {p : Record → Bool} (hp : ∀ r, Silent r → p r = false)
    (g : Goes c Silent h h') (h0 : h.journal.countP p = 0) : h'.journal.countP p = 0 := by
  obtain ⟨more, hj, hsilent⟩ := g.journal
  rw [hj, countP_append, h0, countP_silent fun r hr => hp r (hsilent r hr)]

/-- A diagnostic for the source and the subject of `t` is in the journal. -/
def Host.diagnosed (h : Host) (t : Tuple) : Bool :=
  h.journal.any fun r =>
    match r with
    | .ciDiagnostic d => d.source = t.payload.getStr "source" &&
      some d.subject = t.payload.getStr "subject"
    | _ => false

def Host.Crossed (h : Host) (t u : Tuple) : Prop :=
  failedCi t = true ∧ recoveredCi u = true ∧ t.payload.getStr "subject" = u.payload.getStr "subject" ∧
    t.payload.getStr "source" ≠ u.payload.getStr "source" ∧ h.diagnosed u = false
deriving Decidable

def Forged (t : Tuple) : Prop := t.category = .need ∧ t.identity = "sdlc_ci_diagnostic"
deriving Decidable

/-- What a cycle is given: tuples in `ok`, none of which leads the CI reaction astray, and
turns that lose no CI marker. -/
structure Watch (ok : Tuple → Prop) (h : Host) : Prop where
  fed : h.Fed ok
  marks : ∀ turn ∈ h.turns, turn.fate .ciMarker = .done
  forged : ∀ t, ok t → ¬ Forged t
  crossed : ∀ t u, ok t → ok u → ¬ h.Crossed t u

structure Heeded (ok : Tuple → Prop) (h : Host) : Prop where
  settled : Settled (fun _ => False) h
  watch : Watch ok h

variable {ok : Tuple → Prop} {t : Tuple}

theorem diagnosed_eq_true : h.diagnosed t = true ↔ ∃ d, .ciDiagnostic d ∈ h.journal ∧
    d.source = t.payload.getStr "source" ∧ some d.subject = t.payload.getStr "subject" := by
  unfold Host.diagnosed
  rw [any_eq_true]
  constructor
  · intro ⟨r, hr, hd⟩
    cases r with
    | ciDiagnostic d => exact ⟨d, hr, by simpa using hd⟩
    | _ => cases hd
  · intro ⟨d, hd, he⟩
    exact ⟨_, hd, by simpa using he⟩

theorem Watch.goes {p : Record → Prop} (hw : Watch ok h) (g : Goes c p h h') : Watch ok h' where
  fed := g.fed ok hw.fed
  marks := fun turn ht => hw.marks turn (g.turns turn ht)
  forged := hw.forged
  crossed := by
    intro t u ht hu ⟨hf, hr, hsub, hsrc, hn⟩
    refine hw.crossed t u ht hu ⟨hf, hr, hsub, hsrc, ?_⟩
    by_contra hd
    rw [Bool.not_eq_false, diagnosed_eq_true] at hd
    obtain ⟨d, hd, he⟩ := hd
    rw [diagnosed_eq_true.mpr ⟨d, g.mem hd, he⟩] at hn
    cases hn

theorem Heeded.goes (hh : Heeded ok h) (g : Goes c Silent h h') : Heeded ok h' :=
  ⟨hh.settled.goes g, hh.watch.goes g⟩

/-- A fact that parts which answer nothing do not take back. -/
def Quiet (c : Castle) (S : Host → Prop) : Prop := ∀ h h', Goes c Silent h h' → S h → S h'

theorem spec_quiet {α : Type} {S : Host → Prop} {m : Op α} (hS : Quiet c S)
    (hm : Moves (Goes c Silent) m) : Spec S m (fun _ => S) fun _ => S :=
  .of_final fun h hs => hS h _ (hm h) hs

theorem Heeded.answer (c : Castle) (hh : Heeded ok h) (hown : ∀ t, r ≠ .foreign t)
    (hans : ∀ id, answers id r = true → id = t.id) (hdiag : ∀ id, diagnoses id r = false)
    (hnew : h.journal.countP (answers t.id) = 0) (hr : h.Grounds r) :
    Settled (· = t.id) { h with journal := h.journal ++ [r] } ∧
      Watch ok { h with journal := h.journal ++ [r] } := by
  have g : Goes c (fun _ => True) h { h with journal := h.journal ++ [r] } :=
    (append_calm trivial hown).goes
  refine ⟨hh.settled.extend (g.tidy hh.settled.tidy) rfl ?_ ?_ ?_ ?_, hh.watch.goes g⟩
  · intro id
    rw [countP_singleton]
    split
    next ha => rw [hans id ha, hnew]
    · exact hh.settled.answered.ci id
  · intro id
    rw [countP_singleton, hdiag id]
    exact hh.settled.answered.alert id
  · intro r' hr'
    rw [mem_singleton.mp hr']
    exact hr
  · intro id hid
    refine .inr ⟨fun h => h, fun r' hr' => ?_⟩
    rw [mem_singleton.mp hr']
    by_contra ha
    exact hid (hans id (by simpa using ha))

theorem Settled.mark (c : Castle) {id : RecordId} (hs : Settled (· = id) h) (mark : Mark) :
    Settled (fun _ => False) { h with journal := h.journal ++ [.marker (ciKey id) mark] } := by
  have g : Goes c (fun _ => True) h { h with journal := h.journal ++ [.marker (ciKey id) mark] } :=
    (append_calm trivial fun _ h => by cases h).goes
  apply hs.extend (g.tidy hs.tidy) rfl
  · exact hs.answered.ci
  · exact hs.answered.alert
  · intro r hr
    rw [mem_singleton.mp hr]
    trivial
  · intro other _
    by_cases ho : other = id
    · exact .inl ⟨mark, by rw [ho]; exact mem_singleton.mpr rfl⟩
    · refine .inr ⟨ho, fun r hr => ?_⟩
      rw [mem_singleton.mp hr]
      rfl

theorem proceed_silent (c : Castle) (site : Site) : Moves (Goes c Silent) (proceed site) :=
  goes_of_calm (proceed_calm silent_of_plain site)

theorem ciMarker_heeded (c : Castle) (id : RecordId) (mark : Mark) :
    Spec (fun h => Settled (· = id) h ∧ Watch ok h) (out .ciMarker (.marker (ciKey id) mark))
      (fun _ => Heeded ok) fun _ => Heeded ok := by
  have hturn : Spec (fun h => Settled (· = id) h ∧ Watch ok h) nextTurn
      (fun turn h => turn.fate .ciMarker = .done ∧ Settled (· = id) h ∧ Watch ok h)
      fun _ => Heeded ok := by
    intro h hh
    have g : Goes c Silent h (nextTurn h).2 :=
      (nextTurn_calm (c := c) (fun t => silent_of_plain (.foreign t) trivial) h).goes
    have hkept : Settled (· = id) (nextTurn h).2 ∧ Watch ok (nextTurn h).2 :=
      ⟨hh.1.goes g, hh.2.goes g⟩
    revert hkept
    unfold nextTurn
    cases hts : h.turns with
    | nil => exact fun hkept => ⟨rfl, hkept⟩
    | cons turn rest =>
      exact fun hkept => ⟨hh.2.marks turn (by rw [hts]; exact mem_cons_self), hkept⟩
  have hproceed : Spec (fun h => Settled (· = id) h ∧ Watch ok h) (proceed .ciMarker)
      (fun _ h => Settled (· = id) h ∧ Watch ok h) fun _ => Heeded ok := by
    apply Spec.bind hturn
    intro turn
    cases turn.fate .ciMarker with
    | done => exact .pure fun _ h => h.2
    | fails => exact .raise fun _ h => by cases h.1
    | dies => exact .die fun _ h => by cases h.1
  apply Spec.bind hproceed
  intro _
  apply Spec.modify
  intro h ⟨hs, hw⟩
  have g : Goes c (fun _ => True) h { h with journal := h.journal ++ [.marker (ciKey id) mark] } :=
    (append_calm trivial fun _ h => by cases h).goes
  exact ⟨hs.mark c mark, hw.goes g⟩

theorem writeCiReaction_heeded (c : Castle) (t : Tuple) (kind : String) (hown : ∀ t, r ≠ .foreign t)
    (hans : ∀ id, answers id r = true → id = t.id) (hdiag : ∀ id, diagnoses id r = false) :
    Spec (fun h => Heeded ok h ∧ h.journal.countP (answers t.id) = 0 ∧ h.Grounds r)
      (writeCiReaction t r kind) (fun _ => Heeded ok) fun _ => Heeded ok := by
  have hquiet : Quiet c fun h => Heeded ok h ∧ h.journal.countP (answers t.id) = 0 ∧ h.Grounds r :=
    fun h h' g ⟨hh, hnew, hr⟩ => ⟨hh.goes g, unanswered_goes (fun r hr => hr.1 t.id) g hnew,
      grounds_mono (fun _ => g.mem) hr⟩
  have hfact : Spec (fun h => Heeded ok h ∧ h.journal.countP (answers t.id) = 0 ∧ h.Grounds r)
      (out .ciFact r) (fun _ h => Settled (· = t.id) h ∧ Watch ok h) fun _ => Heeded ok := by
    apply Spec.bind ((spec_quiet hquiet (proceed_silent c .ciFact)).mono (fun _ h => h)
      (fun _ _ h => h) fun _ _ h => h.1)
    intro _
    exact Spec.modify fun h ⟨hh, hnew, hr⟩ => hh.answer c hown hans hdiag hnew hr
  apply Spec.bind hfact
  intro _
  exact Spec.bind (ciMarker_heeded c t.id (.reacted kind)) fun _ => Spec.pure fun _ h => h

theorem Heeded.unanswered (hh : Heeded ok h) {id : RecordId} (hm : h.marked (ciKey id) = false) :
    h.journal.countP (answers id) = 0 := by
  rw [countP_eq_zero]
  intro r hr ha
  rw [hh.settled.marked id (fun h => h) r hr ha] at hm
  cases hm

/-- The diagnostic `has_ci_diagnostic` finds is one of the recovery's own source. -/
theorem Heeded.recovery (hh : Heeded ok h) {subject : String} (ht : .foreign t ∈ h.journal)
    (hrec : recoveredCi t = true) (hsub : t.payload.getStr "subject" = some subject)
    (hd : h.hasCiDiagnostic subject = true) (current : Tuple) :
    h.Grounds (.ciRecovered (ciReaction t subject current)) := by
  obtain ⟨d, hdiag, hdsub⟩ : ∃ d, .ciDiagnostic d ∈ h.journal ∧ d.subject = subject := by
    rw [Host.hasCiDiagnostic, Bool.or_eq_true, any_eq_true, any_eq_true] at hd
    rcases hd with ⟨r, hr, hd⟩ | ⟨u, hu, hd⟩
    · cases r with
      | ciDiagnostic d => exact ⟨d, hr, by simpa using hd⟩
      | _ => cases hd
    · -- a stored need of this name was written under it
      obtain ⟨v, hv, hcat, hident, -⟩ := hh.settled.tidy.rows u hu
      simp only [Bool.and_eq_true, decide_eq_true_eq] at hd
      exact absurd ⟨hcat.trans hd.1.1, hident.trans hd.1.2⟩
        (hh.watch.forged v (hh.watch.fed.2 v hv))
  obtain ⟨u, hu, hfail, husub, husrc⟩ := hh.settled.grounds _ hdiag
  by_cases hsrc : u.payload.getStr "source" = t.payload.getStr "source"
  · exact ⟨d, hdiag, by rw [← husrc, hsrc]; rfl, hdsub⟩
  · have hown : h.diagnosed t = true := by
      by_contra hn
      exact hh.watch.crossed u t (hh.watch.fed.2 u hu) (hh.watch.fed.2 t ht)
        ⟨hfail, hrec, by rw [husub, hsub, hdsub], hsrc, by simpa using hn⟩
    obtain ⟨e, he, hesrc, hesub⟩ := diagnosed_eq_true.mp hown
    refine ⟨e, he, hesrc, ?_⟩
    rw [hsub] at hesub
    exact Option.some.inj hesub

theorem reactToCiKind_heeded (c : Castle) {subject : String} (hci : isCiTransition t = true)
    (hsub : t.payload.getStr "subject" = some subject) (current : Tuple) :
    Spec (fun h => Heeded ok h ∧ .foreign t ∈ h.journal ∧ h.journal.countP (answers t.id) = 0)
      (reactToCiKind t subject current) (fun _ => Heeded ok) fun _ => Heeded ok := by
  unfold reactToCiKind
  simp only
  split
  next hkind =>
    apply (writeCiReaction_heeded c t "diagnostic" (r := .ciDiagnostic (ciReaction t subject current))
      (fun _ h => by cases h) (fun id ha => (of_decide_eq_true ha).symm) fun _ => rfl).pre
    intro h ⟨hh, ht, hnew⟩
    exact ⟨hh, hnew, t, ht, by simp [failedCi, hci, hkind], hsub, rfl⟩
  · split
    next hkind =>
      apply Spec.bind (Spec.get (Q := fun read h => read = h ∧ Heeded ok h ∧
        .foreign t ∈ h.journal ∧ h.journal.countP (answers t.id) = 0) fun h hh => ⟨rfl, hh⟩)
      intro read
      split
      next hd =>
        apply (writeCiReaction_heeded c t "recovered" (r := .ciRecovered
          (ciReaction t subject current)) (fun _ h => by cases h)
          (fun id ha => (of_decide_eq_true ha).symm) fun _ => rfl).pre
        intro h ⟨he, hh, ht, hnew⟩
        rw [he] at hd
        exact ⟨hh, hnew, hh.recovery ht (by simp [recoveredCi, hci, hkind]) hsub hd current⟩
      · exact .pure fun _ h => h.2.1
    · exact .pure fun _ h => h.1

theorem ciTransition_heeded (c : Castle) (t : Tuple) (hh : Heeded ok h)
    (ht : .foreign t ∈ h.journal) : Heeded ok (reactToSdlcCiTransition t h).2 := by
  have hspec : Spec (fun h => Heeded ok h ∧ .foreign t ∈ h.journal) (reactToSdlcCiTransition t)
      (fun _ => Heeded ok) fun _ => Heeded ok := by
    unfold reactToSdlcCiTransition
    split
    · exact .pure fun _ h => h.1
    next hci =>
      apply Spec.bind (Spec.get (Q := fun read h => read = h ∧ Heeded ok h ∧ .foreign t ∈ h.journal)
        fun h hh => ⟨rfl, hh⟩)
      intro read
      split
      · exact .pure fun _ h => h.2.1
      next hmark =>
        split
        · exact .pure fun _ h => h.2.1
        next subject hsub =>
          split
          · exact .pure fun _ h => h.2.1
          · apply (reactToCiKind_heeded c (by simpa using hci) hsub _).pre
            intro h ⟨he, hh, ht⟩
            rw [he] at hmark
            exact ⟨hh, ht, hh.unanswered (by simpa using hmark)⟩
  exact hspec.final ⟨hh, ht⟩

theorem undiagnosed (hd : c.hasAlertDiagnosis h t.id = false) :
    h.journal.countP (diagnoses t.id) = 0 := by
  rw [countP_eq_zero]
  intro r hr ha
  rw [Castle.hasAlertDiagnosis, Bool.or_eq_false_iff, any_eq_false] at hd
  cases r with
  | alertDiagnosis d => exact hd.1 _ hr ha
  | _ => cases ha

theorem alertReacted_silent (c : Castle) (id : RecordId) (kind : String) :
    Moves (Goes c Silent) (markSdlcAlertReacted id kind) :=
  goes_of_calm ((still silent_of_plain).markSdlcAlertReacted ⟨fun _ => rfl, fun _ => rfl⟩
    ⟨fun _ => rfl, fun _ => rfl⟩)

theorem settleAlert_silent (c : Castle) (id : RecordId) (kind : String) :
    Moves (Goes c Silent) (settleAlert id kind) :=
  goes_bind (alertReacted_silent c id kind) fun _ => goes_pure _

theorem Heeded.diagnose (c : Castle) (hh : Heeded ok h) {d : AlertDiagnosis}
    (hnew : h.journal.countP (diagnoses d.transition) = 0) :
    Heeded ok { h with journal := h.journal ++ [.alertDiagnosis d] } := by
  have g : Goes c (fun _ => True) h { h with journal := h.journal ++ [.alertDiagnosis d] } :=
    (append_calm trivial fun _ h => by cases h).goes
  refine ⟨hh.settled.extend (g.tidy hh.settled.tidy) rfl ?_ ?_ ?_ ?_, hh.watch.goes g⟩
  · exact hh.settled.answered.ci
  · intro id
    rw [countP_singleton]
    split
    next ha =>
      have : d.transition = id := of_decide_eq_true ha
      rw [← this, hnew]
    · exact hh.settled.answered.alert id
  · intro r hr
    rw [mem_singleton.mp hr]
    trivial
  · intro id _
    refine .inr ⟨fun h => h, fun r hr => ?_⟩
    rw [mem_singleton.mp hr]
    rfl

theorem heeded_quiet : Quiet c (Heeded ok) := fun _ _ g hh => hh.goes g

theorem diagnoseAlert_heeded (t : Tuple) (r : Space.SdlcTransitionRecord) :
    Spec (fun h => Heeded ok h ∧ h.journal.countP (diagnoses t.id) = 0) (diagnoseAlert c t r)
      (fun _ => Heeded ok) fun _ => Heeded ok := by
  have hquiet : Quiet c (Heeded ok) := heeded_quiet
  have hsettle := fun kind => (spec_quiet hquiet (settleAlert_silent c t.id kind)).pre
      fun h (hh : Heeded ok h ∧ h.journal.countP (diagnoses t.id) = 0) => hh.1
  apply Spec.bind (Spec.get (Q := fun _ h => Heeded ok h ∧ h.journal.countP (diagnoses t.id) = 0)
    fun _ hh => hh)
  intro read
  split
  · exact .pure fun _ h => h.1
  split
  · exact .pure fun _ h => h.1
  split
  · exact hsettle _
  split
  · exact hsettle _
  split
  · exact hsettle _
  split
  · exact hsettle _
  · apply Spec.bind (Spec.get (Q := fun _ h => Heeded ok h ∧
      h.journal.countP (diagnoses t.id) = 0) fun _ hh => hh)
    intro again
    have hquiet : Quiet c fun h => Heeded ok h ∧ h.journal.countP (diagnoses t.id) = 0 :=
      fun h h' g ⟨hh, hnew⟩ => ⟨hh.goes g, unanswered_goes (fun r hr => hr.2 t.id) g hnew⟩
    apply Spec.bind (Q := fun _ => Heeded ok)
    · apply Spec.bind ((spec_quiet hquiet (proceed_silent c .alertDiagnosis)).mono (fun _ h => h)
        (fun _ _ h => h) fun _ _ h => h.1)
      intro _
      exact .modify fun h hh => hh.1.diagnose c hh.2
    · intro _
      apply Spec.bind (spec_quiet heeded_quiet (alertReacted_silent c t.id _))
      exact fun _ => Spec.pure fun _ h => h

theorem alertTransition_heeded (t : Tuple) (hh : Heeded ok h) :
    Heeded ok (reactToSdlcAlertTransition c t h).2 := by
  have hspec : Spec (Heeded ok) (reactToSdlcAlertTransition c t) (fun _ => Heeded ok)
      fun _ => Heeded ok := by
    have hquiet : Quiet c (Heeded ok) := heeded_quiet
    have hsettle := fun kind read => (spec_quiet hquiet
      (settleAlert_silent c t.id kind)).pre fun h (hh : read = h ∧ Heeded ok h) => hh.2
    unfold reactToSdlcAlertTransition
    split
    · exact .pure fun _ h => h
    apply Spec.bind (Spec.get (Q := fun read h => read = h ∧ Heeded ok h) fun h hh => ⟨rfl, hh⟩)
    intro read
    split
    · exact .pure fun _ h => h.2
    split
    · exact .pure fun _ h => h.2
    split
    · exact .pure fun _ h => h.2
    split
    · exact hsettle _ read
    next hn =>
      split
      · exact hsettle _ read
      · apply (diagnoseAlert_heeded t _).pre
        intro h ⟨he, hh⟩
        rw [he] at hn
        exact ⟨hh, undiagnosed (by simpa using hn)⟩
  exact hspec.final hh

end

section
variable {c : Castle} {due : RecordId → Prop} {h h' : Host} {ok : Tuple → Prop}

theorem Settled.memory (hs : Settled due h) (up : Bool) (queueSeq cursorFile : Option Nat)
    (fires : List (String × Nat)) (reads : List (Nat × Nat)) (launches : List Launch)
    (turns : List Turn) :
    Settled due { h with up, queueSeq, cursorFile, fires, reads, launches, turns } :=
  ⟨⟨hs.tidy.unique, hs.tidy.rows⟩, ⟨hs.answered.ci, hs.answered.alert, hs.answered.recovered⟩,
    hs.marked, fun r hr => grounds_mono (fun _ h => h) (hs.grounds r hr)⟩

theorem settled_rests : c.Rests (Settled due) where
  goes := fun _ _ hs g => hs.goes (g.mono silent_of_plain)
  cursor := fun h cursorFile reads hs =>
    hs.memory h.up h.queueSeq cursorFile h.fires reads h.launches h.turns

theorem heeded_keeps : c.Keeps (Heeded ok) where
  goes := fun _ _ hh g => hh.goes (g.mono silent_of_plain)
  cursor := fun h cursorFile reads hh =>
    ⟨hh.settled.memory h.up h.queueSeq cursorFile h.fires reads h.launches h.turns,
      ⟨hh.watch.fed, hh.watch.marks, hh.watch.forged, hh.watch.crossed⟩⟩
  tidy := fun _ hh => hh.settled.tidy
  ci := fun t _ hh ht => ciTransition_heeded c t hh ht
  alert := fun t _ hh _ => alertTransition_heeded t hh

theorem execute_settled {α : Type} {m : Op α} {turns : List Turn}
    (hm : Settled due (m { h with turns }).2) : Settled due (h.execute turns m) := by
  unfold Host.execute
  split
  next h' he =>
    rw [he] at hm
    exact hm.memory false none _ [] _ [] []
  next he =>
    rw [he] at hm
    exact hm.memory _ _ _ _ _ _ []

end

def Host.foreigners (h : Host) : List Tuple :=
  h.journal.filterMap fun r =>
    match r with
    | .foreign t => some t
    | _ => none

theorem mem_foreigners {h : Host} {t : Tuple} : t ∈ h.foreigners ↔ .foreign t ∈ h.journal := by
  unfold Host.foreigners
  rw [mem_filterMap]
  constructor
  · intro ⟨r, hr, he⟩
    cases r with
    | foreign u =>
      cases he
      exact hr
    | _ => cases he
  · exact fun ht => ⟨_, ht, rfl⟩

/-- No marker behind a CI answer is lost in this step, no need passes for a diagnostic, and
no recovery meets the failure of another source without a diagnostic of its own. -/
def Label.heeds (h : Host) : Label → Prop
  | .cycle _ turns =>
    (∀ turn ∈ turns, turn.fate .ciMarker = .done) ∧
      (∀ t ∈ h.foreigners ++ turns.flatMap (·.arrivals), ¬ Forged t) ∧
      ∀ t ∈ h.foreigners ++ turns.flatMap (·.arrivals),
        ∀ u ∈ h.foreigners ++ turns.flatMap (·.arrivals), ¬ h.Crossed t u
  | _ => True

instance (h : Host) : (l : Label) → Decidable (l.heeds h)
  | .start _ => isTrue trivial
  | .cycle _ _ => inferInstanceAs (Decidable (_ ∧ _))
  | .quiet _ | .stop => isTrue trivial

section
variable {c : Castle}

theorem watch_of_heeds {h : Host} {registry : Option RepoRegistry} {turns : List Turn}
    (hg : (Label.cycle registry turns).heeds h) :
    Watch (fun t => t ∈ h.foreigners ++ turns.flatMap (·.arrivals)) { h with turns } where
  fed := by
    constructor
    · intro turn hturn t ht
      exact mem_append_right _ (mem_flatMap.mpr ⟨turn, hturn, ht⟩)
    · intro t ht
      exact mem_append_left _ (mem_foreigners.mpr ht)
  marks := hg.1
  forged := hg.2.1
  crossed := fun t u ht hu => hg.2.2 t ht u hu

theorem step_settled {h h' : Host} {l : Label} (hs : Settled (fun _ => False) h)
    (hstep : step c h l = some h') (hg : l.heeds h) : Settled (fun _ => False) h' := by
  cases l with
  | start turn =>
    simp only [step] at hstep
    split at hstep
    · cases hstep
    · cases hstep
      apply execute_settled
      apply initializeCursor_keeps (c := c) settled_rests
      exact hs.memory true h.queueSeq h.cursorFile h.fires h.reads h.launches [turn]
  | cycle registry turns =>
    simp only [step] at hstep
    split at hstep
    · cases hstep
      apply execute_settled
      have hheeded : Heeded _ { h with turns } :=
        ⟨hs.memory h.up h.queueSeq h.cursorFile h.fires h.reads h.launches turns,
          @watch_of_heeds h registry turns hg⟩
      exact ((runCycle_keeps (c := c) heeded_keeps registry).final hheeded).settled
    · cases hstep
  | quiet turn =>
    cases hstep
    apply execute_settled
    have g := (turn_calm (c := c) (p := Silent) silent_of_plain { h with turns := [turn] }).goes
    exact (hs.memory h.up h.queueSeq h.cursorFile h.fires h.reads h.launches [turn]).goes g
  | stop =>
    simp only [step] at hstep
    split at hstep
    · cases hstep
      exact hs.memory false none h.cursorFile [] h.reads [] []
    · cases hstep

theorem empty_settled : Settled (fun _ => False) Host.empty where
  tidy := ⟨fun _ _ ht => (not_mem_nil ht).elim, fun _ ht => (not_mem_nil ht).elim⟩
  answered := ⟨fun _ => Nat.zero_le _, fun _ => Nat.zero_le _, fun _ _ h => by cases h⟩
  marked := fun _ _ _ hr => (not_mem_nil hr).elim
  grounds := fun _ hr => (not_mem_nil hr).elim

end

/-- In every run in which no marker behind a CI answer is lost and no recovery is mistaken
for another source's, a CI transition has at most one answer, an alert transition at most
one diagnosis, and a recovery follows a diagnostic of its source and subject. -/
theorem transitions_answered_once (c : Castle) (labels : List Label)
    (h : Meets (step c) (fun h l => l.heeds h) Host.empty labels) :
    Keeps (step c) Host.Answered Host.empty labels :=
  (keeps_of_meets (fun _ _ _ hs hstep hg => step_settled hs hstep hg) empty_settled h).mono
    fun _ hs => hs.answered

def build (source kind : String) : List (String × Value) :=
  [("family", .string "ci"), ("kind", .string kind), ("source", .string source),
    ("subject", .string "barn/main")]

def currentBuild (id : RecordId) (source : String) : Tuple :=
  { event id "ci" ("sdlc:current:" ++ source ++ ":barn/main") (build source "ci_failed") with
    category := .fact }

def buildTransition (id : RecordId) (source kind : String) : Tuple :=
  event id "ci" ("sdlc:transition:" ++ source ++ ":ci:barn/main") (build source kind)

/-- A build fails; `fate` decides one write of the reaction, and the daemon goes on. -/
def failedBuild (site : Site) (fate : Fate) : List Label :=
  [.start {},
    .quiet { arrivals := [currentBuild 1 "forge", buildTransition 2 "forge" "ci_failed"] },
    .cycle (some []) (List.replicate 9 { fate := fun s => if s = site then fate else .done }),
    .start {}, .quiet { arrivals := [buildTransition 3 "forge" "ci_recovered"] },
    .cycle (some []) []]

/-- The process dies between the diagnostic and its marker, and the replay writes a second
diagnostic. -/
theorem lost_marker_repeats_diagnostic :
    ¬ Keeps (step (reviewCastle "review")) Host.Answered Host.empty (failedBuild .ciMarker .dies) := by
  intro hk
  have htwice : (run (step (reviewCastle "review")) .empty (failedBuild .ciMarker .dies)).any (fun h =>
      decide (1 < h.journal.countP (answers 2))) = true := by decide +kernel
  obtain ⟨h, hrun, htwice⟩ := run_of_any htwice
  have hle := (hk.last hrun).ci 2
  have hlt := of_decide_eq_true htwice
  omega

theorem transitions_answered_once_failed_build :
    Meets (step (reviewCastle "review")) (fun h l => l.heeds h) Host.empty (failedBuild .ciFact .dies) ∧
      Keeps (step (reviewCastle "review")) Host.Answered Host.empty (failedBuild .ciFact .dies) := by
  have hm : Meets (step (reviewCastle "review")) (fun h l => l.heeds h) .empty
      (failedBuild .ciFact .dies) := by decide +kernel
  exact ⟨hm, transitions_answered_once _ _ hm⟩

end RatKingdom.Reactor
