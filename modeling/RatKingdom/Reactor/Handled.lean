/-
No match is passed over.

The cursor is saved only at the end of a span whose every tuple was reacted to without an
error, and a trigger that ends without an error for a tuple it wants has left its marker.
Along a run this carries "every tuple a cycle has read at or below the saved cursor has
the marker of every trigger that wants it" from state to state, with one instance for a
key beside it.

Two things break it.  A start that finds no cursor file saves the newest sequence, also
when an earlier cycle had read tuples and left them for a retry.  A trigger named
`sdlc-ci` shares its key with the built-in CI reaction, whose marker then stands for it.
-/
import RatKingdom.Reactor.Moves

namespace RatKingdom.Reactor

open Core Lib List

namespace Host

/-- A cycle has read the tuple with commit sequence `n`. -/
def WasRead (h : Host) (n : Nat) : Prop := ∃ span ∈ h.reads, span.1 < n ∧ n ≤ span.2

/-- The journal holds the trigger path's own marker for the tuple: fired, queued or gave
up. -/
def Fired (h : Host) (trigger : Trigger) (tuple : RecordId) : Prop :=
  ∃ inst, .marker (trigger.key tuple) (.fired trigger.name inst) ∈ h.journal

end Host

def Castle.Due (c : Castle) (trigger : Trigger) (t : Tuple) : Prop :=
  t.inst ≠ reactorInstance ∧ isObservationalSdlcTuple t = false ∧ c.wants trigger t = true

/-- What the reactor promises in every state. -/
structure Castle.Handled (c : Castle) (h : Host) : Prop where
  dispatched : ∀ n cursor t, h.WasRead n → h.cursorFile = some cursor → n ≤ cursor →
    h.journal[n - 1]? = some (.foreign t) → ∀ loaded ∈ c.triggers, c.Due loaded.trigger t →
      h.Fired loaded.trigger t.id
  single : (h.instances.map (·.key)).Nodup

section
variable {c : Castle} {p : Record → Prop} {P : Host → Prop} {α β : Type}

theorem spec_true (m : Op α) : Spec P m (fun _ _ => True) fun _ _ => True := by
  intro h _
  cases m h with
  | mk out h' => cases out <;> trivial

theorem spec_after {m : Op α} {k : α → Op β} {Q : β → Host → Prop}
    (hk : ∀ a, Spec (fun _ => True) (k a) Q fun _ _ => True) :
    Spec P (m >>= k) Q fun _ _ => True := Spec.bind (spec_true m) hk

theorem spec_before {m : Op α} {k : α → Op β} {F : Host → Prop}
    (hF : ∀ h h', Goes c p h h' → F h → F h') (hm : Spec P m (fun _ => F) fun _ _ => True)
    (hk : ∀ a, Moves (Goes c p) (k a)) : Spec P (m >>= k) (fun _ => F) fun _ _ => True := by
  apply Spec.bind hm
  intro a
  have h := (spec_true (P := fun _ => True) (k a)).carry (hk a) hF
  exact h.mono (fun _ hs => ⟨trivial, hs⟩) (fun _ _ hq => hq.2) fun _ _ _ => trivial

theorem fired_goes {trigger : Trigger} {id : RecordId} (h h' : Host) (g : Goes c p h h')
    (hf : h.Fired trigger id) : h'.Fired trigger id := by
  obtain ⟨inst, hm⟩ := hf
  exact ⟨inst, g.mem hm⟩

theorem markFiredKey_fired (site : Site) (trigger : Trigger) (id : RecordId) (inst : String) :
    Spec P (markFiredKey site (trigger.key id) trigger.name inst)
      (fun _ h => h.Fired trigger id) fun _ _ => True := by
  apply spec_after
  intro _
  apply Spec.modify
  intro h _
  exact ⟨inst, mem_append_right _ mem_cons_self⟩

variable (c)
include c

theorem giveUpOrRetry_fired (trigger : Trigger) (tuple : RecordId) (reason : String) :
    Spec P (giveUpOrRetry (trigger.key tuple) trigger.name tuple reason)
      (fun _ h => h.Fired trigger tuple) fun _ _ => True := by
  apply spec_after
  intro attempt
  split
  · apply spec_after
    exact fun _ => .raise fun _ _ => trivial
  · apply spec_after
    intro _
    apply spec_before (fired_goes (c := c) (p := Plain)) (markFiredKey_fired _ _ _ _)
    exact fun _ => goes_pure _

theorem queueFire_fired (trigger : Trigger) (repoName repoPath : String)
    (params : List (String × Value)) (tuple : RecordId) :
    Spec P (queueFire (trigger.key tuple) trigger repoName repoPath params tuple)
      (fun _ h => h.Fired trigger tuple) fun _ _ => True := by
  apply spec_after
  intro _
  apply spec_before (fired_goes (c := c) (p := Plain)) (markFiredKey_fired _ _ _ _)
  intro _
  exact goes_bind (goes_of_calm (note_calm (fun _ => id) _ _ _ _)) fun _ => goes_pure _

theorem launchNow_fired (trigger : Trigger) (repoPath : String) (params : List (String × Value))
    (tuple : RecordId) :
    Spec P (launchNow c (trigger.key tuple) trigger repoPath params tuple)
      (fun _ h => h.Fired trigger tuple) fun _ _ => True := by
  apply spec_after
  intro launched
  cases launched with
  | error e => exact giveUpOrRetry_fired c trigger tuple _
  | ok inst =>
    apply spec_after
    intro _
    apply spec_before (fired_goes (c := c) (p := Plain)) (markFiredKey_fired _ _ _ _)
    intro _
    exact goes_bind (recordFire_goes (fun _ => id) _) fun _ => goes_pure _

theorem enqueueLanding_fired (trigger : Trigger) (tuple : RecordId) :
    Spec P (enqueueLanding (trigger.key tuple) trigger tuple)
      (fun _ h => h.Fired trigger tuple) fun _ _ => True := by
  apply spec_after
  intro answer
  split
  · apply spec_before (fired_goes (c := c) (p := Plain)) (markFiredKey_fired _ _ _ _)
    intro _
    exact goes_bind (recordFire_goes (fun _ => id) _) fun _ => goes_pure _
  · apply spec_before (fired_goes (c := c) (p := Plain)) (markFiredKey_fired _ _ _ _)
    exact fun _ => goes_pure _
  · exact giveUpOrRetry_fired c trigger tuple _

theorem fireLandAction_fired (trigger : Trigger) (repoName : String) (t : Tuple) :
    Spec P (fireLandAction c (trigger.key t.id) trigger repoName t)
      (fun _ h => h.Fired trigger t.id) fun _ _ => True := by
  have hretry := fun reason => giveUpOrRetry_fired c (P := P) trigger t.id reason
  unfold fireLandAction
  simp only
  split
  · exact hretry _
  split
  · exact hretry _
  split
  · apply spec_before (fired_goes (c := c) (p := Plain)) (markFiredKey_fired _ _ _ _)
    exact fun _ => goes_pure _
  split
  · exact hretry _
  split
  · exact hretry _
  · apply spec_after
    intro refused
    cases refused with
    | some e => exact giveUpOrRetry_fired c trigger t.id _
    | none => exact enqueueLanding_fired c trigger t.id

theorem dispatch_fired (registry : RepoRegistry) (loaded : Loaded) (t : Tuple) :
    Spec P (dispatch c registry loaded t) (fun _ h => h.Fired loaded.trigger t.id)
      fun _ _ => True := by
  apply spec_after
  intro limited
  split
  · apply spec_after
    exact fun _ => giveUpOrRetry_fired c loaded.trigger t.id _
  · simp only
    split
    · exact giveUpOrRetry_fired c loaded.trigger t.id _
    · cases loaded.trigger.action with
      | land => exact fireLandAction_fired c loaded.trigger _ t
      | workflow =>
        apply spec_after
        intro h
        apply spec_after
        intro _
        split
        · exact queueFire_fired c loaded.trigger _ _ _ t.id
        · exact launchNow_fired c loaded.trigger _ _ t.id

/-- A trigger that ends without an error for a tuple it wants has a marker for it, given
that a marker found beforehand was its own. -/
theorem tryFire_fired (registry : RepoRegistry) (loaded : Loaded) (t : Tuple)
    (hown : ∀ h, P h → h.marked (loaded.trigger.key t.id) = true → h.Fired loaded.trigger t.id) :
    Spec P (tryFire c registry loaded t)
      (fun _ h => c.wants loaded.trigger t = true → h.Fired loaded.trigger t.id)
      fun _ _ => True := by
  unfold tryFire
  simp only
  split
  next hex =>
    apply Spec.pure
    intro h _ hw
    simp [Castle.wants, hex] at hw
  split
  · exact .raise fun _ _ => trivial
  next pattern hpat =>
    split
    next hno =>
      apply Spec.pure
      intro h _ hw
      have hmatch : pattern.matches t = true := by
        simp only [Castle.wants, hpat, Bool.and_eq_true] at hw
        exact hw.2
      simp [hmatch] at hno
    · have hread : Spec P (alreadyFired (loaded.trigger.key t.id))
          (fun fired h => fired = true → h.Fired loaded.trigger t.id) fun _ _ => True := by
        apply Spec.bind (Spec.get (Q := fun read h => read = h ∧ P h) fun h hP => ⟨rfl, hP⟩)
        intro read
        apply Spec.pure
        intro h hh hm
        rw [hh.1] at hm
        exact hown h hh.2 hm
      apply Spec.bind hread
      intro fired
      split
      next hf =>
        apply Spec.pure
        intro h hh _
        exact hh hf
      · apply (dispatch_fired c registry loaded t).mono (fun _ h => h) _ fun _ _ h => h
        exact fun _ _ h _ => h

end

def Host.Fits (h : Host) (key : Key) : Mark → Prop
  | .fired trigger _ => trigger = key.head
  | .reacted _ => key.head = "sdlc-ci" ∨ (key.head = "sdlc-alert" ∧
      ∃ t, .foreign t ∈ h.journal ∧ isObservationalSdlcTuple t = true ∧ t.id = key.tuple)

structure Castle.Sound (c : Castle) (h : Host) : Prop where
  dispatched : ∀ n cursor t, h.WasRead n → h.cursorFile = some cursor → n ≤ cursor →
    h.journal[n - 1]? = some (.foreign t) → ∀ loaded ∈ c.triggers, c.Due loaded.trigger t →
      h.Fired loaded.trigger t.id
  engine : c.Engine h
  tidy : h.Tidy
  marks : ∀ key mark, .marker key mark ∈ h.journal → h.Fits key mark
  spans : ∀ span ∈ h.reads, span.2 ≤ h.journal.length

section
variable {c : Castle} {h : Host}

theorem Castle.Sound.handled (hs : c.Sound h) : c.Handled h := ⟨hs.dispatched, hs.engine.keys⟩

variable {h' : Host}

theorem fits_mono (hj : ∀ r ∈ h.journal, r ∈ h'.journal) {key : Key} {mark : Mark}
    (hf : h.Fits key mark) : h'.Fits key mark := by
  cases mark with
  | fired trigger inst => exact hf
  | reacted kind =>
    rcases hf with hci | ⟨halert, t, ht, hrest⟩
    · exact .inl hci
    · exact .inr ⟨halert, t, hj _ ht, hrest⟩

theorem getElem?_goes {p : Record → Prop} (g : Goes c p h h') {n : Nat}
    (hn : n < h.journal.length) : h'.journal[n]? = h.journal[n]? := by
  obtain ⟨more, hmore, -⟩ := g.journal
  rw [hmore, getElem?_append_left hn]

theorem sound_goes {alerts : RecordId → Prop} {h h' : Host} (hs : c.Sound h)
    (g : Goes c (Ours alerts) h h')
    (hal : ∀ id, alerts id → ∃ t, .foreign t ∈ h.journal ∧ isObservationalSdlcTuple t = true ∧
      t.id = id) : c.Sound h' where
  dispatched := by
    intro n cursor t hread hcur hle hent loaded hl hdue
    rw [Host.WasRead, g.reads] at hread
    rw [g.cursorFile] at hcur
    obtain ⟨span, hspan, hlt, hspan'⟩ := hread
    have hlen : n - 1 < h.journal.length := by
      have := hs.spans span hspan
      omega
    rw [getElem?_goes g hlen] at hent
    have hf := hs.dispatched n cursor t ⟨span, hspan, hlt, hspan'⟩ hcur hle hent loaded hl hdue
    exact fired_goes h h' g hf
  engine := g.engine hs.engine
  tidy := g.tidy hs.tidy
  marks := by
    intro key mark hm
    obtain ⟨more, hmore, hp⟩ := g.journal
    rw [hmore] at hm
    rcases mem_append.mp hm with hm | hm
    · exact fits_mono (fun r hr => g.mem hr) (hs.marks key mark hm)
    · have hours := hp _ hm
      cases mark with
      | fired trigger inst => exact hours
      | reacted kind =>
        rcases hours with hci | ⟨halert, hid⟩
        · exact .inl hci
        · obtain ⟨t, ht, hrest⟩ := hal key.tuple hid
          exact .inr ⟨halert, t, g.mem ht, hrest⟩
  spans := by
    intro span hspan
    rw [g.reads] at hspan
    obtain ⟨more, hmore, -⟩ := g.journal
    have := hs.spans span hspan
    rw [hmore, length_append]
    omega

theorem sound_plain (hs : c.Sound h) (g : Goes c (Ours fun _ => False) h h') :
    c.Sound h' := sound_goes hs g fun _ hf => hf.elim

theorem fired_of_marked (hs : c.Sound h) {trigger : Trigger} (hname : trigger.name ≠ "sdlc-ci")
    {t : Tuple} (ht : .foreign t ∈ h.journal) (hobs : isObservationalSdlcTuple t = false)
    (hm : h.marked (trigger.key t.id) = true) :
    h.Fired trigger t.id := by
  unfold Host.marked at hm
  rw [any_eq_true] at hm
  obtain ⟨r, hr, hkey⟩ := hm
  cases r with
  | marker key mark =>
    have hk : key = trigger.key t.id := by simpa using hkey
    subst hk
    have hfit := hs.marks _ _ hr
    cases mark with
    | fired name inst =>
      have hn : name = trigger.name := hfit
      exact ⟨inst, hn ▸ hr⟩
    | reacted kind =>
      rcases hfit with hci | ⟨-, u, hu, huobs, hid⟩
      · exact absurd hci hname
      · have : u = t := hs.tidy.unique u t hu ht hid
        rw [this, hobs] at huobs
        cases huobs
  | _ => cases hkey

/-- A fact no part of a cycle takes back. -/
def Stable (c : Castle) (F : Host → Prop) : Prop :=
  ∀ alerts h h', Goes c (Ours alerts) h h' → F h → F h'

theorem Stable.and {F G : Host → Prop} (hF : Stable c F) (hG : Stable c G) :
    Stable c fun h => F h ∧ G h :=
  fun alerts h h' g hh => ⟨hF alerts h h' g hh.1, hG alerts h h' g hh.2⟩

theorem stable_fired (trigger : Trigger) (tuple : RecordId) :
    Stable c fun h => h.Fired trigger tuple := fun _ h h' g hf => fired_goes h h' g hf

/-- The state of a loop: the invariant, what is known of the castle, and what has been
achieved unless something failed. -/
def Kept (c : Castle) (F D : Host → Prop) (tally : Tally) (h : Host) : Prop :=
  c.Sound h ∧ F h ∧ (tally.failed = false → D h)

section
variable {F D : Host → Prop}

def KeepsSound (c : Castle) (F : Host → Prop) {α : Type} (m : Op α) : Prop :=
  ∀ h, c.Sound h → F h → c.Sound (m h).2 ∧ ∀ G, Stable c G → G h → G (m h).2

theorem keepsSound_of_goes {α : Type} {m : Op α} (hm : Moves (Goes c (Ours fun _ => False)) m) :
    KeepsSound c F m :=
  fun h hs _ => ⟨sound_plain hs (hm h), fun _ hG hg => hG _ h _ (hm h) hg⟩

theorem keepsSound_ci (t : Tuple) : KeepsSound c F (reactToSdlcCiTransition t) :=
  keepsSound_of_goes (goes_of_calm (reactToSdlcCiTransition_calm t))

theorem keepsSound_alert (t : Tuple) (hF : ∀ h, F h → .foreign t ∈ h.journal) :
    KeepsSound c F (reactToSdlcAlertTransition c t) := by
  intro h hs hf
  by_cases hal : isProductionAlertTransition t = true
  · have hobs : isObservationalSdlcTuple t = true := by
      simp only [isProductionAlertTransition, Bool.and_eq_true] at hal
      exact hal.1.2
    have g := (reactToSdlcAlertTransition_calm (c := c) t h).goes
    refine ⟨sound_goes hs g fun id hid => ⟨t, hF h hf, hobs, hid.symm⟩, fun G hG hg => hG _ h _ g hg⟩
  · have hn : reactToSdlcAlertTransition c t = pure false := by
      unfold reactToSdlcAlertTransition
      simp [hal]
    rw [hn]
    exact ⟨hs, fun _ _ hg => hg⟩

section
variable {α : Type} {m : Op α} (hm : KeepsSound c F m) (hF : Stable c F) (hD : Stable c D)
  (tally : Tally)
include hm hF hD

theorem spec_kept :
    Spec (Kept c F D tally) m (fun _ => Kept c F D tally) fun _ => Kept c F D tally := by
  apply Spec.of_final
  intro h ⟨hs, hf, hd⟩
  obtain ⟨hs', hstable⟩ := hm h hs hf
  exact ⟨hs', hstable F hF hf, fun hok => hstable D hD (hd hok)⟩

theorem guarded_kept :
    Spec (Kept c F D tally) (guarded tally m) (Kept c F D) (fun _ h => c.Sound h ∧ F h) := by
  apply Spec.bind ((spec_kept hm hF hD tally).attempt fun h he => ⟨he.1, he.2.1⟩)
  intro done
  cases done with
  | ok a => exact .pure fun h hh => hh
  | error e =>
    apply Spec.pure
    intro h hh
    exact ⟨hh.1, hh.2.1, nofun⟩

end

variable {registry : RepoRegistry} {t : Tuple}

theorem fireOne_kept (hobs : isObservationalSdlcTuple t = false) (hF : Stable c F) (hD : Stable c D)
    (hmem : ∀ h, F h → .foreign t ∈ h.journal) {loaded : Loaded}
    (hn : loaded.trigger.name ≠ "sdlc-ci") (tally : Tally) :
    Spec (Kept c F D tally) (fireOne c registry t tally loaded)
      (Kept c F fun h => D h ∧ (c.wants loaded.trigger t = true → h.Fired loaded.trigger t.id))
      (fun _ h => c.Sound h ∧ F h) := by
  have hgoes : Moves (Goes c (Ours fun _ => False)) (tryFire c registry loaded t) :=
    tryFire_goes ours_of_plain registry loaded t
  have hkept : ∀ h h', Goes c (Ours fun _ => False) h h' → Kept c F D tally h →
      Kept c F D tally h' :=
    fun h h' g ⟨hs, hf, hd⟩ => ⟨sound_plain hs g, hF _ h h' g hf, fun hok => hD _ h h' g (hd hok)⟩
  have hfire := (tryFire_fired (P := Kept c F D tally) c registry loaded t
    fun h hh hm => fired_of_marked hh.1 hn (hmem h hh.2.1) hobs hm).carry hgoes hkept
  have hboth := hfire.mono (fun h (hh : Kept c F D tally h) => ⟨hh, hh⟩) (fun _ _ h => h)
    fun _ _ h => h
  apply Spec.bind (hboth.attempt fun h he => ⟨he.2.1, he.2.2.1⟩)
  intro done
  cases done with
  | ok fired =>
    cases fired with
    | true | false =>
      apply Spec.pure
      intro h ⟨hq, hs, hf, hd⟩
      exact ⟨hs, hf, fun hok => ⟨hd hok, hq⟩⟩
  | error e =>
    apply Spec.pure
    intro h ⟨_, hs, hf, _⟩
    exact ⟨hs, hf, nofun⟩

/-- Every trigger of `done` that wants the tuple has fired on it. -/
def FiredAll (c : Castle) (done : List Loaded) (t : Tuple) (h : Host) : Prop :=
  ∀ loaded ∈ done, c.wants loaded.trigger t = true → h.Fired loaded.trigger t.id

theorem stable_firedAll (done : List Loaded) (t : Tuple) : Stable c (FiredAll c done t) :=
  fun alerts h h' g hf loaded hl hw => stable_fired _ _ alerts h h' g (hf loaded hl hw)

theorem foldFire_kept (hobs : isObservationalSdlcTuple t = false) (hF : Stable c F)
    (hD : Stable c D) (hm : ∀ h, F h → .foreign t ∈ h.journal)
    (hnames : ∀ loaded ∈ c.triggers, loaded.trigger.name ≠ "sdlc-ci") (tally : Tally) :
    Spec (Kept c F D tally) (c.triggers.foldlM (fireOne c registry t) tally)
      (Kept c F fun h => D h ∧ FiredAll c c.triggers t h) (fun _ h => c.Sound h ∧ F h) := by
  have hloop := Spec.foldlM (I := fun done => Kept c F fun h => D h ∧ FiredAll c done t h)
    (E := fun _ h => c.Sound h ∧ F h) (b := fireOne c registry t) c.triggers ?_ tally
  · apply hloop.mono _ (fun _ _ hq => hq) fun _ _ he => he
    intro h ⟨hs, hf, hd⟩
    exact ⟨hs, hf, fun hok => ⟨hd hok, fun l hl => (not_mem_nil hl).elim⟩⟩
  · intro done loaded tally hl
    apply (fireOne_kept hobs hF (hD.and (stable_firedAll done t)) hm (hnames loaded hl) tally).mono
      (fun _ h => h) _ fun _ _ he => he
    intro tally' h ⟨hs, hf, hd⟩
    exact ⟨hs, hf, fun hok => ⟨(hd hok).1.1, forall_mem_concat.mpr ⟨(hd hok).1.2, (hd hok).2⟩⟩⟩

def Served (c : Castle) (t : Tuple) (h : Host) : Prop :=
  isObservationalSdlcTuple t = false → FiredAll c c.triggers t h

theorem stable_served (t : Tuple) : Stable c (Served c t) :=
  fun alerts h h' g hf hobs => stable_firedAll _ t alerts h h' g (hf hobs)

theorem fireTriggers_kept (hF : Stable c F) (hD : Stable c D)
    (hm : ∀ h, F h → .foreign t ∈ h.journal)
    (hnames : ∀ loaded ∈ c.triggers, loaded.trigger.name ≠ "sdlc-ci") (tally : Tally) :
    Spec (Kept c F D tally) (fireTriggers c registry t tally)
      (Kept c F fun h => D h ∧ Served c t h) (fun _ h => c.Sound h ∧ F h) := by
  unfold fireTriggers
  cases hobs : isObservationalSdlcTuple t with
  | true =>
    apply Spec.pure
    intro h ⟨hs, hf, hd⟩
    refine ⟨hs, hf, fun hok => ⟨hd hok, fun hno => ?_⟩⟩
    rw [hobs] at hno
    cases hno
  | false =>
    apply (foldFire_kept hobs hF hD hm hnames tally).mono (fun _ h => h) _ fun _ _ h => h
    intro tally' h ⟨hs, hf, hd⟩
    exact ⟨hs, hf, fun hok => ⟨(hd hok).1, fun _ => (hd hok).2⟩⟩

theorem builtin_kept (hF : Stable c F) (hD : Stable c D) (tally : Tally) :
    Spec (Kept c F D tally) (proceed .builtin).attempt (fun _ => Kept c F D tally)
      (fun _ h => c.Sound h ∧ F h) := by
  have hm : KeepsSound c F (proceed .builtin).attempt :=
    keepsSound_of_goes (goes_of_calm (calm_attempt (proceed_calm ours_of_plain .builtin)))
  exact (spec_kept hm hF hD tally).mono (fun _ h => h) (fun _ _ h => h) fun _ _ h => ⟨h.1, h.2.1⟩

theorem reactToTuple_kept (hF : Stable c F) (hD : Stable c D)
    (hm : ∀ h, F h → .foreign t ∈ h.journal)
    (hnames : ∀ loaded ∈ c.triggers, loaded.trigger.name ≠ "sdlc-ci") (tally : Tally) :
    Spec (Kept c F D tally) (reactToTuple c registry t tally)
      (Kept c F fun h => D h ∧ Served c t h) (fun _ h => c.Sound h ∧ F h) := by
  apply Spec.bind (builtin_kept hF hD tally)
  intro _
  apply Spec.bind (guarded_kept (keepsSound_ci t) hF hD tally)
  intro tally
  apply Spec.bind (guarded_kept (keepsSound_alert t hm) hF hD tally)
  intro tally
  apply Spec.bind (fireTriggers_kept hF hD hm hnames tally)
  intro tally
  have hD' := hD.and (stable_served (c := c) t)
  unfold linkResolution
  split
  · exact guarded_kept (keepsSound_of_goes (goes_of_calm (proceed_calm ours_of_plain _))) hF hD'
      tally
  · exact .pure fun _ h => h

def ServedAll (c : Castle) (done : List Record) (h : Host) : Prop :=
  ∀ t, .foreign t ∈ done → t.inst ≠ reactorInstance → Served c t h

theorem stable_servedAll (done : List Record) : Stable c (ServedAll c done) :=
  fun alerts h h' g hd t ht hinst => stable_served t alerts h h' g (hd t ht hinst)

theorem reactToRecord_kept (hF : Stable c F) {r : Record} (hm : ∀ h, F h → r ∈ h.journal)
    (hnames : ∀ loaded ∈ c.triggers, loaded.trigger.name ≠ "sdlc-ci") (done : List Record)
    (tally : Tally) :
    Spec (Kept c F (ServedAll c done) tally) (reactToRecord c registry tally r)
      (Kept c F (ServedAll c (done ++ [r]))) (fun _ h => c.Sound h ∧ F h) := by
  -- a record that needs no reaction extends the list for free
  have hskip : (∀ t, r = .foreign t → t.inst = reactorInstance) →
      Spec (Kept c F (ServedAll c done) tally) (pure tally : Op Tally)
        (Kept c F (ServedAll c (done ++ [r]))) (fun _ h => c.Sound h ∧ F h) := by
    intro hown
    apply Spec.pure
    intro h ⟨hs, hf, hd⟩
    refine ⟨hs, hf, fun hok t ht hinst => ?_⟩
    rcases mem_append.mp ht with ht | ht
    · exact hd hok t ht hinst
    · exact absurd (hown t (mem_singleton.mp ht).symm) hinst
  cases r with
  | foreign t =>
    by_cases hinst : t.inst = reactorInstance
    · simp only [reactToRecord, hinst, if_true]
      apply hskip
      intro u hu
      cases hu
      exact hinst
    · simp only [reactToRecord, hinst, if_false]
      apply (reactToTuple_kept hF (stable_servedAll done) hm hnames tally).mono (fun _ h => h) _
        fun _ _ h => h
      intro tally' h ⟨hs, hf, hd⟩
      refine ⟨hs, hf, fun hok u hu huinst => ?_⟩
      rcases mem_append.mp hu with hu | hu
      · exact (hd hok).1 u hu huinst
      · cases mem_singleton.mp hu
        exact (hd hok).2
  | _ => exact hskip fun t ht => by cases ht

theorem reactAll_kept (hF : Stable c F) {delta : List Record}
    (hm : ∀ h, F h → ∀ r ∈ delta, r ∈ h.journal)
    (hnames : ∀ loaded ∈ c.triggers, loaded.trigger.name ≠ "sdlc-ci") :
    Spec (Kept c F (ServedAll c []) {}) (delta.foldlM (reactToRecord c registry) {})
      (Kept c F (ServedAll c delta)) (fun _ h => c.Sound h ∧ F h) :=
  .foldlM (I := fun done => Kept c F (ServedAll c done)) delta
    (fun done r tally hr => reactToRecord_kept hF (fun h hf => hm h hf r hr) hnames done tally) {}

end

/-- What a cycle knows from reading the journal `j` past `cursorFile` on. -/
def Reading (j : List Record) (reads : List (Nat × Nat)) (cursorFile : Option Nat) (h : Host) : Prop :=
  h.reads = reads ∧ h.cursorFile = cursorFile ∧ ∃ more, h.journal = j ++ more

theorem stable_reading (j : List Record) (reads : List (Nat × Nat)) (cursorFile : Option Nat) :
    Stable c (Reading j reads cursorFile) := by
  intro alerts h h' g ⟨hr, hc, more, hj⟩
  obtain ⟨more', hj', -⟩ := g.journal
  exact ⟨g.reads.trans hr, g.cursorFile.trans hc, more ++ more', by rw [hj', hj, append_assoc]⟩

variable {j : List Record} {reads : List (Nat × Nat)} {cursorFile : Option Nat}

section
variable (hs : c.Sound h) (hread : Reading j reads cursorFile h)
  (hserved : ServedAll c (j.drop (cursorFile.getD 0)) h)
include hs hread hserved

theorem saved_sound {k : Nat} (hk : k ≤ j.length) : c.Sound { h with cursorFile := some k } where
  dispatched := by
    intro n cursor t hwas hcur hle hent loaded hl hdue
    cases hcur
    obtain ⟨-, hfile, more, hj⟩ := hread
    by_cases hold : n ≤ cursorFile.getD 0
    · -- the sequence was at or below the cursor before
      obtain ⟨span, hspan, hlt, hspan'⟩ := hwas
      cases hcf : cursorFile with
      | none =>
        rw [hcf] at hold
        simp only [Option.getD_none] at hold
        omega
      | some old =>
        rw [hcf] at hold hfile
        exact hs.dispatched n old t ⟨span, hspan, hlt, hspan'⟩ hfile hold hent loaded hl hdue
    · -- it lies in the span this cycle read
      have hlen : n - 1 < j.length := by omega
      have hent' : j[n - 1]? = some (.foreign t) := by
        have : h.journal[n - 1]? = some (.foreign t) := hent
        rwa [hj, getElem?_append_left hlen] at this
      have hm : .foreign t ∈ j.drop (cursorFile.getD 0) := by
        rw [mem_iff_getElem?]
        refine ⟨n - 1 - cursorFile.getD 0, ?_⟩
        rw [getElem?_drop, ← hent']
        congr 1
        omega
      exact hserved t hm hdue.1 hdue.2.1 loaded hl hdue.2.2
  engine := ⟨hs.engine.ids, hs.engine.keys⟩
  tidy := ⟨hs.tidy.unique, hs.tidy.rows⟩
  marks := hs.marks
  spans := hs.spans

theorem torn_sound (torn : Nat) :
    c.Sound { h with cursorFile := tornWrite h.cursorFile torn j.length } := by
  unfold tornWrite
  split
  · exact hs
  · exact saved_sound hs hread hserved (Nat.min_le_right _ _)

end

theorem saveCursor_sound :
    Spec (fun h => c.Sound h ∧ Reading j reads cursorFile h ∧
        ServedAll c (j.drop (cursorFile.getD 0)) h)
      (saveCursor j.length) (fun _ => c.Sound) fun _ => c.Sound := by
  have hstable := (stable_reading (c := c) j reads cursorFile).and
    (stable_servedAll (j.drop (cursorFile.getD 0)))
  have hturn : Spec (fun h => c.Sound h ∧ Reading j reads cursorFile h ∧
        ServedAll c (j.drop (cursorFile.getD 0)) h) nextTurn
      (fun _ h => c.Sound h ∧ Reading j reads cursorFile h ∧
        ServedAll c (j.drop (cursorFile.getD 0)) h) fun _ => c.Sound := by
    apply (Spec.of_final fun h hh => ?_).mono (fun _ h => h) (fun _ _ h => h) fun _ _ h => h.1
    have g : Goes c (Ours fun _ => False) h (nextTurn h).2 :=
      (nextTurn_calm (fun _ => trivial) h).goes
    exact ⟨sound_plain hh.1 g, hstable _ h _ g hh.2⟩
  apply Spec.bind hturn
  intro turn
  cases turn.fate .cursor with
  | done =>
    apply Spec.modify
    intro h ⟨hs, hread, hserved⟩
    exact saved_sound hs hread hserved (Nat.le_refl _)
  | fails =>
    apply Spec.bind (Spec.modify fun h ⟨hs, hread, hserved⟩ => torn_sound hs hread hserved turn.torn)
    exact fun _ => Spec.raise fun _ h => h
  | dies =>
    apply Spec.bind (Spec.modify fun h ⟨hs, hread, hserved⟩ => torn_sound hs hread hserved turn.torn)
    exact fun _ => Spec.die fun _ h => h

theorem backlog_sound {F : Host → Prop} (hF : Stable c F) {body : Tuple → Op Bool} {ts : List Tuple}
    (hbody : ∀ t ∈ ts, KeepsSound c F (body t)) :
    Spec (fun h => c.Sound h ∧ F h) (ts.foldlM (fun fired t => do
        let reacted ← body t
        pure (if reacted then fired + 1 else fired)) 0)
      (fun _ => c.Sound) fun _ => c.Sound := by
  refine .mono (E := fun _ => c.Sound)
    (.foldlM (I := fun _ _ h => c.Sound h ∧ F h) ts ?_ 0) (fun _ h => h) (fun _ _ h => h.1)
    fun _ _ h => h
  intro done t n ht
  have hone : Spec (fun h => c.Sound h ∧ F h) (body t) (fun _ h => c.Sound h ∧ F h)
      fun _ => c.Sound := by
    apply (Spec.of_final fun h hh => ?_).mono (fun _ h => h) (fun _ _ h => h) fun _ _ h => h.1
    obtain ⟨hs, hstable⟩ := hbody t ht h hh.1 hh.2
    exact ⟨hs, hstable F hF hh.2⟩
  exact .bind hone fun _ => .pure fun _ h => h

theorem ciBacklog_sound :
    Spec c.Sound reactToSdlcCiTransitionBacklog (fun _ => c.Sound) fun _ => c.Sound := by
  apply Spec.bind (Spec.get (Q := fun _ h => c.Sound h ∧ True) fun _ h => ⟨h, trivial⟩)
  intro read
  exact backlog_sound (fun _ _ _ _ h => h) fun t _ => keepsSound_ci t

theorem alertBacklog_sound :
    Spec c.Sound (reactToSdlcAlertTransitionBacklog c) (fun _ => c.Sound) fun _ => c.Sound := by
  let found (h : Host) :=
    h.scan fun t => t.scope = "production_alert" && isProductionAlertTransition t
  apply Spec.bind (Spec.get (Q := fun read h => c.Sound h ∧ ∀ t ∈ found read, .foreign t ∈ h.journal)
    fun h hs => ⟨hs, fun t ht => ?_⟩)
  · intro read
    apply backlog_sound
    · exact fun _ h h' g hall t ht => g.mem (hall t ht)
    · exact fun t ht => keepsSound_alert t fun h hall => hall t ht
  · have hrow : t ∈ h.rows ∧ isProductionAlertTransition t = true := by
      have := mem_filter.mp ((mem_insertionSort _).mp ht)
      refine ⟨this.1, ?_⟩
      have h2 := this.2
      simp only [Bool.and_eq_true] at h2
      exact h2.2
    obtain ⟨u, hu, -, -, hev⟩ := hs.tidy.rows t hrow.1
    have hcat : t.category = .event := by
      have h2 := hrow.2
      simp only [isProductionAlertTransition, Bool.and_eq_true] at h2
      exact of_decide_eq_true h2.1.1
    rw [← hev hcat]
    exact hu

theorem backlogPasses_sound (fired : Nat) :
    Spec c.Sound (backlogPasses c fired) (fun _ => c.Sound) fun _ => c.Sound := by
  apply Spec.bind ciBacklog_sound
  intro ci
  apply Spec.bind alertBacklog_sound
  intro alerts
  have hgoes : ∀ {α : Type} (m : Op α), Moves (Goes c (Ours fun _ => False)) m →
      Spec c.Sound m (fun _ => c.Sound) fun _ => c.Sound :=
    fun m hm => .of_final fun h hs => sound_plain hs (hm h)
  apply Spec.bind (hgoes _ (drainQueuedFires_goes ours_of_plain c.triggers))
  intro drained
  apply Spec.bind (hgoes _ (goes_of_calm (calm_attempt (proceed_calm ours_of_plain .builtin))))
  exact fun _ => .pure fun _ h => h

theorem reading_sound (hs : c.Sound h) :
    c.Sound { h with reads := (h.cursorFile.getD 0, h.journal.length) :: h.reads } where
  dispatched := by
    intro n cursor t ⟨span, hspan, hlt, hle'⟩ hcur hle hent loaded hl hdue
    rcases mem_cons.mp hspan with rfl | hspan
    · have hc : h.cursorFile = some cursor := hcur
      rw [hc] at hlt
      simp only [Option.getD_some] at hlt
      omega
    · exact hs.dispatched n cursor t ⟨span, hspan, hlt, hle'⟩ hcur hle hent loaded hl hdue
  engine := ⟨hs.engine.ids, hs.engine.keys⟩
  tidy := ⟨hs.tidy.unique, hs.tidy.rows⟩
  marks := hs.marks
  spans := by
    exact forall_mem_cons.mpr ⟨Nat.le_refl _, hs.spans⟩

theorem reactToSpan_sound (registry : RepoRegistry)
    (hnames : ∀ loaded ∈ c.triggers, loaded.trigger.name ≠ "sdlc-ci") (j : List Record)
    (reads : List (Nat × Nat)) (cursorFile : Option Nat) :
    Spec (fun h => c.Sound h ∧ Reading j reads cursorFile h)
      (reactToSpan c registry (cursorFile.getD 0) j.length (j.drop (cursorFile.getD 0)))
      (fun _ => c.Sound) fun _ => c.Sound := by
  have hm : ∀ h, Reading j reads cursorFile h → ∀ r ∈ j.drop (cursorFile.getD 0), r ∈ h.journal := by
    intro h ⟨_, _, more, hj⟩ r hr
    rw [hj]
    exact mem_append_left _ (mem_of_mem_drop hr)
  have hloop := @reactAll_kept c _ registry (stable_reading j reads cursorFile) _ hm hnames
  apply Spec.bind (hloop.mono _ (fun _ _ h => h) fun _ _ h => h.1)
  · intro tally
    apply Spec.bind (Q := fun _ => c.Sound)
    · unfold advanceCursor
      split
      next hsave =>
        have hok : tally.failed = false := by
          simp only [Bool.and_eq_true, Bool.not_eq_true'] at hsave
          exact hsave.1
        have hcursor := @saveCursor_sound c j reads cursorFile
        apply hcursor.mono _ (fun _ _ h => h) fun _ _ h => h
        exact fun h ⟨hs, hread, hserved⟩ => ⟨hs, hread, hserved hok⟩
      · exact .pure fun _ h => h.1
    · exact fun _ => backlogPasses_sound _
  · exact fun h ⟨hs, hread⟩ => ⟨hs, hread, fun _ t ht => (not_mem_nil ht).elim⟩

theorem runCycle_sound (registry : Option RepoRegistry)
    (hnames : ∀ loaded ∈ c.triggers, loaded.trigger.name ≠ "sdlc-ci") :
    Spec c.Sound (runCycle c registry) (fun _ => c.Sound) fun _ => c.Sound := by
  apply Spec.bind (Spec.get (Q := fun read h => read = h ∧ c.Sound h) fun _ hs => ⟨rfl, hs⟩)
  intro read
  simp only
  split
  · exact .raise fun _ h => h.2
  · apply Spec.bind (Spec.modify (Q := fun _ h => c.Sound h ∧ Reading read.journal
      ((read.cursorFile.getD 0, read.journal.length) :: read.reads) read.cursorFile h) ?_)
    · intro _
      cases registry with
      | none => exact .raise fun _ h => h.1
      | some registry => exact reactToSpan_sound registry hnames _ _ _
    · intro h ⟨he, hs⟩
      rw [he]
      exact ⟨reading_sound hs, rfl, rfl, [], by simp⟩

def Host.Unread (h : Host) : Prop := ∀ span ∈ h.reads, span.2 ≤ span.1

theorem unread_sound (hs : c.Sound h) (hu : h.Unread) (file : Option Nat) :
    c.Sound { h with cursorFile := file } where
  dispatched := by
    intro n cursor t ⟨span, hspan, hlt, hle⟩
    have := hu span hspan
    omega
  engine := ⟨hs.engine.ids, hs.engine.keys⟩
  tidy := ⟨hs.tidy.unique, hs.tidy.rows⟩
  marks := hs.marks
  spans := hs.spans

theorem saveCursor_unread (sequence : Nat) :
    Spec (fun h => c.Sound h ∧ h.Unread) (saveCursor sequence) (fun _ => c.Sound) fun _ => c.Sound := by
  have hturn : Spec (fun h => c.Sound h ∧ h.Unread) nextTurn (fun _ h => c.Sound h ∧ h.Unread)
      fun _ => c.Sound := by
    apply (Spec.of_final fun h hh => ?_).mono (fun _ h => h) (fun _ _ h => h) fun _ _ h => h.1
    have g : Goes c (Ours fun _ => False) h (nextTurn h).2 :=
      (nextTurn_calm (fun _ => trivial) h).goes
    refine ⟨sound_plain hh.1 g, ?_⟩
    unfold Host.Unread
    rw [g.reads]
    exact hh.2
  apply Spec.bind hturn
  intro turn
  cases turn.fate .cursor with
  | done => exact .modify fun h ⟨hs, hu⟩ => unread_sound hs hu _
  | fails =>
    apply Spec.bind (Spec.modify fun h ⟨hs, hu⟩ => unread_sound hs hu _)
    exact fun _ => Spec.raise fun _ h => h
  | dies =>
    apply Spec.bind (Spec.modify fun h ⟨hs, hu⟩ => unread_sound hs hu _)
    exact fun _ => Spec.die fun _ h => h

theorem initializeCursor_sound :
    Spec (fun h => c.Sound h ∧ (h.cursorFile.isSome ∨ h.Unread)) initializeCursor
      (fun _ => c.Sound) fun _ => c.Sound := by
  apply Spec.bind (Spec.get (Q := fun read h => read = h ∧ c.Sound h ∧
    (h.cursorFile.isSome ∨ h.Unread)) fun _ hh => ⟨rfl, hh⟩)
  intro read
  split
  · exact .pure fun _ hh => hh.2.1
  next hn =>
    split
    · apply (saveCursor_unread _).mono _ (fun _ _ h => h) fun _ _ h => h
      intro h ⟨he, hs, hor⟩
      rw [he] at hn
      exact ⟨hs, hor.resolve_left hn⟩
    · exact .pure fun _ hh => hh.2.1

theorem sound_memory (hs : c.Sound h) (up : Bool) (queueSeq : Option Nat)
    (fires : List (String × Nat)) (launches : List Launch) (turns : List Turn) :
    c.Sound { h with up, queueSeq, fires, launches, turns } :=
  ⟨hs.dispatched, ⟨hs.engine.ids, hs.engine.keys⟩, ⟨hs.tidy.unique, hs.tidy.rows⟩, hs.marks, hs.spans⟩

theorem execute_sound {α : Type} {m : Op α} {P : Host → Prop}
    (hm : Spec P m (fun _ => c.Sound) fun _ => c.Sound) {turns : List Turn}
    (hP : P { h with turns }) : c.Sound (h.execute turns m) := by
  have hfin := hm.final hP
  unfold Host.execute
  split
  next h' he =>
    rw [he] at hfin
    exact sound_memory hfin false none [] [] []
  next h' he =>
    rw [he] at hfin
    exact sound_memory hfin _ _ _ _ []

/-- The daemon starts behind its own cursor file or before anything was read, and runs no
trigger under the name of a built-in reaction. -/
def Castle.resumes (c : Castle) (h : Host) : Label → Prop
  | .start _ => h.cursorFile.isSome = true ∨ h.Unread
  | .cycle _ _ => ∀ loaded ∈ c.triggers, loaded.trigger.name ≠ "sdlc-ci"
  | _ => True

instance (c : Castle) (h : Host) (l : Label) : Decidable (c.resumes h l) :=
  match l with
  | .start _ =>
    inferInstanceAs (Decidable (h.cursorFile.isSome = true ∨ ∀ span ∈ h.reads, span.2 ≤ span.1))
  | .cycle _ _ => inferInstanceAs (Decidable (∀ _ ∈ _, _))
  | .quiet _ | .stop => isTrue trivial

theorem step_sound {l : Label} (hs : c.Sound h) (hstep : step c h l = some h')
    (hg : c.resumes h l) : c.Sound h' := by
  cases l with
  | start turn =>
    simp only [step] at hstep
    split at hstep
    · cases hstep
    · cases hstep
      apply execute_sound initializeCursor_sound
      exact ⟨sound_memory hs true h.queueSeq h.fires h.launches [turn], hg⟩
  | cycle registry turns =>
    simp only [step] at hstep
    split at hstep
    · cases hstep
      apply execute_sound (runCycle_sound registry hg)
      exact sound_memory hs h.up h.queueSeq h.fires h.launches turns
    · cases hstep
  | quiet turn =>
    cases hstep
    have hturn : Spec c.Sound nextTurn (fun _ => c.Sound) fun _ => c.Sound :=
      .of_final fun h hs => sound_plain hs (nextTurn_calm (fun _ => trivial) h).goes
    apply execute_sound hturn
    exact sound_memory hs h.up h.queueSeq h.fires h.launches [turn]
  | stop =>
    simp only [step] at hstep
    split at hstep
    · cases hstep
      exact sound_memory hs false none [] [] []
    · cases hstep

theorem empty_sound : c.Sound Host.empty where
  dispatched := fun _ _ _ ⟨_, hspan, _⟩ => (not_mem_nil hspan).elim
  engine := ⟨fun _ hi => (not_mem_nil hi).elim, nodup_nil⟩
  tidy := ⟨fun _ _ ht => (not_mem_nil ht).elim, fun _ ht => (not_mem_nil ht).elim⟩
  marks := fun _ _ hm => (not_mem_nil hm).elim
  spans := fun _ hspan => (not_mem_nil hspan).elim

end

/-- In every run of a castle in which the daemon resumes behind its cursor and no trigger
takes the name of a built-in reaction, no tuple a cycle has read lies at or below the saved
cursor without the marker of every trigger that wants it, and a key has one instance. -/
theorem reactor_passes_no_match (c : Castle) (labels : List Label)
    (h : Meets (step c) c.resumes Host.empty labels) :
    Keeps (step c) c.Handled Host.empty labels :=
  (keeps_of_meets (fun _ _ _ hs hstep hg => step_sound hs hstep hg) empty_sound h).mono
    fun _ hs => hs.handled

/-- The run can be checked for a tuple passed over: one read at or below the cursor that a
trigger wants and has no marker for. -/
def Castle.passedOver (c : Castle) (h : Host) (n : Nat) (loaded : Loaded) : Bool :=
  (match h.journal[n - 1]? with
    | some (.foreign t) => t.inst ≠ reactorInstance && !isObservationalSdlcTuple t &&
        c.wants loaded.trigger t && !h.journal.any fun r =>
          match r with
          | .marker key (.fired name _) => key = loaded.trigger.key t.id && name = loaded.trigger.name
          | _ => false
    | _ => false) &&
  (h.reads.any fun span => span.1 < n && n ≤ span.2) && (h.cursorFile.any fun cursor => n ≤ cursor)

theorem not_handled_of_passedOver {c : Castle} {h : Host} {n : Nat} {loaded : Loaded}
    (hl : loaded ∈ c.triggers) (hp : c.passedOver h n loaded = true) : ¬ c.Handled h := by
  intro hh
  unfold Castle.passedOver at hp
  simp only [Bool.and_eq_true] at hp
  obtain ⟨⟨hent, hread⟩, hcur⟩ := hp
  split at hent
  next t ht =>
    simp only [Bool.and_eq_true, decide_eq_true_eq, Bool.not_eq_true', any_eq_false] at hent
    obtain ⟨⟨⟨hinst, hobs⟩, hw⟩, hn⟩ := hent
    obtain ⟨span, hspan, hin⟩ := any_eq_true.mp hread
    simp only [Bool.and_eq_true, decide_eq_true_eq] at hin
    cases hfile : h.cursorFile with
    | none =>
      rw [hfile] at hcur
      cases hcur
    | some cursor =>
      have hle : n ≤ cursor := by
        rw [hfile] at hcur
        simpa using hcur
      obtain ⟨inst, hm⟩ := hh.dispatched n cursor t ⟨span, hspan, hin⟩ hfile hle ht loaded hl
        ⟨by simpa using hinst, hobs, hw⟩
      exact hn _ hm (by simp)
  · cases hent

def reviewCastle (name : String) : Castle :=
  { config := {}
    triggers := [⟨{ name, matcher := { category := some "event" }, run := "review" }, none⟩]
    landing := false
    templateParams := fun _ _ => []
    stableWorkflowInstanceId := fun key => key.head ++ "@" ++ toString key.tuple
    recordIdText := fun id => toString id
    parsesSpawn := fun _ => true, validSourceName := fun _ => true, textUnsafe := fun _ => false }

def event (id : RecordId) (scope identity : String) (payload : List (String × Value)) : Tuple :=
  Tuple.new id 0 .event scope identity "scribe" (.object payload)

/-- A new daemon on an empty space saves no cursor.  Its first launch fails, and the next
start takes the newest sequence for its cursor. -/
def firstBoot : List Label :=
  [.start {}, .quiet { arrivals := [event 1 "barn" "task_done" []] },
    .cycle (some [("barn", "/barn")])
      (List.replicate 4 { fate := fun site => if site = .launch then .fails else .done }),
    .stop, .start {}]

theorem passes_match {c : Castle} {labels : List Label} {n : Nat}
    (h : (run (step c) Host.empty labels).any
      (fun h => c.triggers.any fun loaded => c.passedOver h n loaded) = true) :
    ¬ Keeps (step c) c.Handled Host.empty labels := by
  intro hk
  obtain ⟨m, hm, hp⟩ := run_of_any h
  obtain ⟨loaded, hl, hp⟩ := any_eq_true.mp hp
  exact not_handled_of_passedOver hl hp (hk.last hm)

theorem first_boot_passes_match :
    ¬ Keeps (step (reviewCastle "review")) (reviewCastle "review").Handled Host.empty firstBoot :=
  passes_match (n := 1) (by decide +kernel)

def resumed : List Label :=
  [.quiet { arrivals := [event 1 "barn" "task_done" []] }, .start {},
    .quiet { arrivals := [event 2 "barn" "task_done" []] },
    .cycle (some [("barn", "/barn")])
      (List.replicate 4 { fate := fun site => if site = .firedMarker then .dies else .done }),
    .start {}, .cycle (some [("barn", "/barn")]) []]

theorem reactor_passes_no_match_resumed :
    Meets (step (reviewCastle "review")) (reviewCastle "review").resumes Host.empty resumed ∧
      Keeps (step (reviewCastle "review")) (reviewCastle "review").Handled Host.empty resumed := by
  have hm : Meets (step (reviewCastle "review")) (reviewCastle "review").resumes .empty
      resumed := by decide +kernel
  exact ⟨hm, reactor_passes_no_match _ _ hm⟩

end RatKingdom.Reactor
