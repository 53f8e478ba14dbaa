/-
When an answer that a repair is done can be trusted.

The marker of a repair and the terminal record of a decision are permanent and keyed by the
violation id.  A repair removes its contradiction before either is written, and nothing
raises one but a change from outside.  So the answers are true as long as no change brings
back a contradiction under an id that was repaired before (`answers_truthful`).
-/
import RatKingdom.Reconcile.Decide

namespace RatKingdom.Reconcile

open Core Tickets Lib List Option State
open Agents (AgentRecord)

def State.repairedIds (s : State) : List String :=
  s.repairs ++ (s.decisions.filter Decision.settles).map Decision.violationId ++
    s.calls.filterMap Call.settling

def Unrepeated (s : State) : Label → Prop
  | .change c => ∀ id ∈ s.repairedIds, id ∉ (c.apply s.world).contradictions
  | _ => True

instance : ∀ s l, Decidable (Unrepeated s l)
  | s, .change c => inferInstanceAs (Decidable (∀ _ ∈ _, _))
  | _, .restart _ | _, .repair | _, .decide _ | _, .invalidate _ _ | _, .advance _ _
  | _, .fail _ _ => isTrue trivial

variable {s : State}

theorem mem_repairedIds {id : String} :
    id ∈ s.repairedIds ↔ id ∈ s.repairs ∨
      (∃ d ∈ s.decisions, d.settles = true ∧ d.violationId = id) ∨
      ∃ c ∈ s.calls, c.settling = some id := by
  simp [repairedIds, mem_filterMap, and_assoc]

def Violation.Named (v : Violation) : Prop :=
  v.kind = Kind.terminalAssigneeActiveWork →
    ∃ agent, v.id = terminalAssigneeViolationId v.subject (spawnText agent)

def Outcome.done : Outcome → Bool
  | .applied _ _ => true
  | .alreadyApplied _ => true
  | .held _ _ => false

/-- The item is the repair it is named after, and the one the decision asked for. -/
def InPlan (target : Target) (item : RepairItem) : Prop :=
  item.Sound ∧ ∀ v d, target = some (v, d) → item.violationId = v.id

def Call.Sound (repairs : List String) : Call → Prop
  | .fetching target items => ∀ item ∈ items, InPlan target item
  | .applying target a => (∀ item ∈ a.items, InPlan target item) ∧
      ∀ r ∈ a.results, r.2.done = true → r.1.violationId ∈ repairs ∧
        ∀ v d, target = some (v, d) → r.1.violationId = v.id
  | .intending v _ => v.Named
  | .inspecting v _ => v.Named
  | .swapping v _ status _ => isActiveStatus status = true ∧
      ∃ agent, v.id = terminalAssigneeViolationId v.subject (spawnText agent)
  | _ => True

theorem Call.Sound.mono {repairs repairs' : List String} {c : Call} (h : c.Sound repairs)
    (hsub : ∀ id ∈ repairs, id ∈ repairs') : c.Sound repairs' := by
  cases c with
  | applying target a =>
    refine ⟨h.1, fun r hr hdone => ?_⟩
    obtain ⟨hm, hn⟩ := h.2 r hr hdone
    exact ⟨hsub _ hm, hn⟩
  | planning target agents | reporting req agents | deferring v d outcome gate intended
  | concluding v d outcome succeeded => trivial
  | fetching target items | intending v d | inspecting v d | swapping v d status assignee => exact h

variable {v : Violation}

theorem ticketViolations_named {tickets : List Tuple} {agents : List AgentRecord}
    {landed : List String} {facts : HandoffFacts}
    (h : v ∈ ticketViolations tickets agents landed facts) : v.Named := by
  rcases mem_append.mp ((mem_insertionSort _).mp h) with h | h
  · obtain ⟨t, -, record, -, rfl⟩ := mem_deliveredButOpen.mp h
    intro hkind
    have hne : Kind.deliveredButOpen ≠ Kind.terminalAssigneeActiveWork := by decide
    exact absurd hkind hne
  · obtain ⟨t, -, agent, -, -, rfl⟩ := mem_terminalAssigneeWithHandoffs h
    obtain ⟨hid, -, hsubject⟩ := abandoned_names facts t agent
    intro _
    exact ⟨agent, by rw [hid, hsubject]⟩

variable {input : Input} {item : RepairItem}

theorem plannedItems_inPlan {w : World} {agents : List AgentRecord} {target : Target}
    (h : item ∈ plannedItems w agents input target) :
    InPlan target item := by
  cases target with
  | none =>
    refine ⟨?_, nofun⟩
    simp only [plannedItems] at h
    split at h
    · exact plan_sound h
    · exact planWithHandoffs_sound h
  | some p =>
    obtain ⟨v, d⟩ := p
    obtain ⟨hm, hcond⟩ := mem_filter.mp h
    refine ⟨planWithHandoffs_sound hm, fun v' d' heq => ?_⟩
    cases heq
    simp only [Bool.and_eq_true, decide_eq_true_eq] at hcond
    exact hcond.1.1

/-- A call `dispatch` lets go on has repaired nothing yet. -/
theorem dispatch_sound {policy : AuthorityPolicy} {req : Request} {c : Call} (hv : v.Named)
    (h : dispatch policy req v input = some c) :
    (∀ repairs, c.Sound repairs) ∧ c.settling = none := by
  unfold dispatch at h
  split at h
  · unfold deferToHuman at h
    simp only [bind_eq_bind, bind_eq_some_iff] at h
    obtain ⟨-, -, holder, -, generation, -, reason, -, requested, -, -, -, h⟩ := h
    cases h
    exact ⟨fun _ => trivial, rfl⟩
  · split at h
    · cases h
    · dsimp only at h
      split at h
      · cases h
      · obtain ⟨action, -, rfl⟩ := map_eq_some_iff.mp h
        exact ⟨fun _ => hv, rfl⟩
      · unfold orchestrate at h
        simp only [bind_eq_bind, bind_eq_some_iff] at h
        obtain ⟨holder, -, generation, -, -, -, action, -, -, -, h⟩ := h
        split at h
        · cases h
          exact ⟨fun _ => trivial, rfl⟩
        · cases h
          exact ⟨fun _ => hv, rfl⟩

/-- The status that `inspect` hands on is active, of a violation of that kind. -/
theorem inspect_ok {w : World} {status : String} {assignee : Option String} (hv : v.Named)
    (h : inspect w v = .ok (status, assignee)) :
    isActiveStatus status = true ∧
      ∃ agent, v.id = terminalAssigneeViolationId v.subject (spawnText agent) := by
  unfold inspect at h
  split at h
  · cases h
  · rename_i hkind
    have hkind' : v.kind = Kind.terminalAssigneeActiveWork := by simpa using hkind
    refine ⟨?_, hv hkind'⟩
    split at h
    · cases h
    · cases h
    · dsimp only at h
      split at h
      · cases h
      · rename_i hactive
        split at h
        · cases h
        · split at h
          · cases h
            simpa using hactive
          · cases h

theorem mechanicalOutcome_done {results : List (RepairItem × Outcome)}
    (h : (mechanicalOutcome v results).2 = true) :
    ∃ r ∈ results, r.2.done = true := by
  match results, h with
  | (item, .applied detail journal) :: rest, _ | (item, .alreadyApplied detail) :: rest, _ =>
    exact ⟨_, mem_cons_self, rfl⟩

structure Inv (s : State) : Prop where
  quiet : ∀ id ∈ s.repairedIds, id ∉ s.world.contradictions
  sound : ∀ c ∈ s.calls, c.Sound s.repairs
  truthful : Truthful s

theorem inv_init (policy : AuthorityPolicy) (world : World) : Inv (init policy world) :=
  ⟨fun id h => (by cases h), fun c h => (by cases h), fun a h => (by cases h)⟩

namespace Inv

variable {s : State}

theorem calls (h : Inv s) {calls : List Call} (hcalls : ∀ c ∈ calls, c.Sound s.repairs ∧
      ∀ id, c.settling = some id → id ∉ s.world.contradictions) : Inv { s with calls } := by
  refine ⟨fun id hid => ?_, fun c hc => (hcalls c hc).1, h.truthful⟩
  rcases mem_repairedIds.mp hid with hr | hd | ⟨c, hc, hset⟩
  · exact h.quiet id (mem_repairedIds.mpr (.inl hr))
  · exact h.quiet id (mem_repairedIds.mpr (.inr (.inl hd)))
  · exact (hcalls c hc).2 id hset

variable {c : Call}

theorem call (h : Inv s) (hc : c ∈ s.calls) :
    c.Sound s.repairs ∧ ∀ id, c.settling = some id → id ∉ s.world.contradictions :=
  ⟨h.sound c hc, fun id hid => h.quiet id (mem_repairedIds.mpr (.inr (.inr ⟨c, hc, hid⟩)))⟩

theorem becomes (h : Inv s) (i : Nat) (hsound : c.Sound s.repairs)
    (hset : ∀ id, c.settling = some id → id ∉ s.world.contradictions) : Inv (s.becomes i c) := by
  refine h.calls fun c' hc' => ?_
  rcases mem_or_eq_of_mem_set hc' with hm | rfl
  · exact h.call hm
  · exact ⟨hsound, hset⟩

theorem ends (h : Inv s) (i : Nat) : Inv (s.ends i) :=
  h.calls fun _ hc => h.call (mem_of_mem_eraseIdx hc)

theorem start (h : Inv s) (hsound : c.Sound s.repairs) (hset : c.settling = none) :
    Inv (s.start c) := by
  refine h.calls fun c' hc' => ?_
  rcases mem_append.mp hc' with hm | hm
  · exact h.call hm
  · rw [mem_singleton.mp hm]
    refine ⟨hsound, fun id hid => ?_⟩
    rw [hset] at hid
    cases hid

theorem failed (h : Inv s) (i : Nat) (error : String) (c : Call) : Inv (s.failed i error c) := by
  unfold State.failed
  split
  · exact h.becomes i trivial nofun
  · exact h.becomes i trivial nofun
  · exact h.becomes i trivial nofun
  · exact h.becomes i trivial nofun
  · exact h.becomes i trivial nofun
  · exact h.ends i

theorem world (h : Inv s) {w : World} (hw : ∀ id ∈ s.repairedIds, id ∉ w.contradictions) :
    Inv { s with world := w } := ⟨hw, h.sound, h.truthful⟩

theorem wrote (h : Inv s) {b : Backlog}
    (hb : ∀ id ∈ { s.world with backlog := b : World }.contradictions,
      id ∈ s.world.contradictions) : Inv (s.wrote b) :=
  h.world fun id hid hm => h.quiet id hid (hb id hm)

theorem record (h : Inv s) {d : Decision}
    (hd : d.settles = true → d.violationId ∉ s.world.contradictions) : Inv (s.record d) := by
  refine ⟨fun id hid => ?_, h.sound, h.truthful⟩
  rcases mem_repairedIds.mp hid with hr | ⟨d', hd', hsettles, hn⟩ | hc
  · exact h.quiet id (mem_repairedIds.mpr (.inl hr))
  · rcases mem_append.mp hd' with hm | hm
    · exact h.quiet id (mem_repairedIds.mpr (.inr (.inl ⟨d', hm, hsettles, hn⟩)))
    · rw [mem_singleton.mp hm] at hsettles hn
      exact hn ▸ hd hsettles
  · exact h.quiet id (mem_repairedIds.mpr (.inr (.inr hc)))

theorem mark (h : Inv s) {id : String} (hid : id ∉ s.world.contradictions) : Inv (s.mark id) := by
  refine ⟨fun other hother => ?_, fun c hc => ?_, h.truthful⟩
  · rcases mem_repairedIds.mp hother with hr | hd
    · rcases mem_append.mp hr with hm | hm
      · exact h.quiet other (mem_repairedIds.mpr (.inl hm))
      · rw [mem_singleton.mp hm]
        exact hid
    · exact h.quiet other (mem_repairedIds.mpr (.inr hd))
  · exact (h.sound c hc).mono fun other hm => mem_append_left _ hm

theorem answer (h : Inv s) {item : String} {replayed : Option Decision}
    (ha : Answer.Reports ⟨item, replayed, s.world⟩ → item ∉ s.world.contradictions) :
    Inv (s.answer item replayed) := by
  exact ⟨h.quiet, h.sound, forall_mem_concat.mpr ⟨h.truthful, ha⟩⟩

theorem applyStep (h : Inv s) {i : Nat} {target : Target} {a a' : Applying}
    {rest : List RepairItem} {stamp : Stamp} {effect : Effect}
    (hc : Call.applying target a ∈ s.calls) (hitems : a.items = item :: rest)
    (hs : a.step s.world.backlog s.repairs stamp item rest = .ok (effect, a')) :
    Inv ((s.effect effect).becomes i (.applying target a')) := by
  obtain ⟨⟨hplan, hresults⟩, hset⟩ := h.call hc
  have hitem : InPlan target item := hplan item (hitems ▸ mem_cons_self)
  have hrest : ∀ x ∈ rest, InPlan target x := fun x hx =>
    hplan x (hitems ▸ mem_cons_of_mem _ hx)
  -- An item that is done has its marker, in front of the step or by it.
  have hnext : ∀ (repairs : List String) (outcome : Outcome), (∀ id ∈ s.repairs, id ∈ repairs) →
      (outcome.done = true → item.violationId ∈ repairs) →
      (Call.applying target (a.next item rest outcome)).Sound repairs := by
    intro repairs outcome hsub hdone
    refine ⟨hrest, fun r hr hrdone => ?_⟩
    rcases mem_append.mp hr with hr | hr
    · obtain ⟨hm, hn⟩ := hresults r hr hrdone
      exact ⟨hsub _ hm, hn⟩
    · rw [mem_singleton.mp hr] at hrdone ⊢
      exact ⟨hdone hrdone, hitem.2⟩
  have hph : ∀ outcome id, (Call.applying target (a.next item rest outcome)).settling = some id →
      id ∉ s.world.contradictions := nofun
  unfold Applying.step at hs
  split at hs
  · cases hs
    exact h.becomes i (hnext _ _ (fun _ hid => hid) nofun) nofun
  · rename_i action haction
    unfold Applying.execute at hs
    split at hs
    · -- The marker is looked up.
      split at hs
      · rename_i hmarked
        cases hs
        have hm : item.violationId ∈ s.repairs := contains_iff_mem.mp hmarked
        have hquiet := h.quiet _ (mem_repairedIds.mpr (.inl hm))
        exact (h.answer fun _ => hquiet).becomes i (hnext _ _ (fun _ hid => hid) fun _ => hm) nofun
      · cases hs
        exact h.becomes i ⟨hplan, hresults⟩ nofun
    · -- The swap.
      split at hs
      · cases hswap : action.swap s.world.backlog item.subject stamp with
        | error e =>
          rw [hswap] at hs
          cases hs
        | ok p =>
          obtain ⟨b, o⟩ := p
          obtain ⟨hsub, hgone⟩ := RepairAction.swap_ok hitem.1 haction hswap
          have hw : Inv (s.wrote b) := h.wrote hsub
          rw [hswap] at hs
          cases o with
          | applied =>
            cases hs
            refine hw.becomes i ⟨hplan, hresults⟩ fun id hid => ?_
            have hn : item.violationId = id := by
              simpa [Call.settling, hitems] using hid
            exact hn ▸ hgone rfl
          | drifted detail | gone =>
            cases hs
            exact hw.becomes i (hnext _ _ (fun _ hid => hid) nofun) nofun
      · cases hs
        exact h.becomes i (hnext _ _ (fun _ hid => hid) nofun) nofun
    · -- The marker is written.
      rename_i hannounce
      cases hs
      have hquiet : item.violationId ∉ s.world.contradictions :=
        hset _ (by simp [Call.settling, hannounce, hitems])
      refine (h.mark hquiet).becomes i (hnext _ _ ?_ fun _ => ?_) nofun
      · exact fun id hid => mem_append_left _ hid
      · exact mem_concat_self

theorem advance (h : Inv s) {i : Nat} {input : Input} (hc : c ∈ s.calls) :
    Inv (s.advance i input c) := by
  obtain ⟨hsound, hset⟩ := h.call hc
  cases c with
  | planning target agents => exact h.becomes i (fun item hitem => plannedItems_inPlan hitem) nofun
  | fetching target items =>
    refine h.becomes i ⟨hsound, fun r hr => ?_⟩ nofun
    cases hr
  | applying target a =>
    dsimp only [advance]
    split
    · split
      · exact h.ends i
      · rename_i v d
        refine h.becomes i trivial fun id hid => ?_
        have hdone : (mechanicalOutcome v a.results).2 = true ∧ v.id = id := by
          simpa [Call.settling] using hid
        obtain ⟨r, hr, hrdone⟩ := mechanicalOutcome_done hdone.1
        obtain ⟨hm, hname⟩ := hsound.2 r hr hrdone
        rw [← hdone.2, ← hname v d rfl]
        exact h.quiet _ (mem_repairedIds.mpr (.inl hm))
    · rename_i item rest hitems
      split
      · exact h.failed i _ _
      · rename_i effect a' hs
        exact h.applyStep hc hitems hs
  | reporting req agents =>
    dsimp only [advance]
    split
    · exact h.ends i
    · rename_i v hv
      have hnamed := ticketViolations_named (mem_of_find?_eq_some hv)
      split
      · exact h.ends i
      · rename_i c hd
        obtain ⟨hsound, hn⟩ := dispatch_sound hnamed hd
        refine h.becomes i (hsound _) fun id hid => ?_
        rw [hn] at hid
        cases hid
  | intending v d =>
    have hr : Inv (s.record (decision v d "attempting" false false)) := h.record nofun
    dsimp only [advance]
    split
    · exact hr.becomes i trivial nofun
    · exact hr.becomes i hsound nofun
  | inspecting v d =>
    dsimp only [advance]
    split
    · exact h.failed i _ _
    · rename_i status assignee hok
      exact h.becomes i (inspect_ok hsound hok) nofun
  | swapping v d status assignee =>
    obtain ⟨hactive, agent, hname⟩ := hsound
    dsimp only [advance]
    split
    · exact h.failed i _ _
    · rename_i b hswap
      obtain ⟨hsub, hgone⟩ := repairClearStaleOwnership_ok hactive hswap
      refine (h.wrote hsub).becomes i trivial fun id hid => ?_
      have hid' : v.id = id := some.inj hid
      rw [← hid', hname]
      exact hgone rfl agent
    · rename_i b detail hswap
      exact (h.wrote (repairClearStaleOwnership_ok hactive hswap).1).failed i _ _
    · rename_i b hswap
      exact (h.wrote (repairClearStaleOwnership_ok hactive hswap).1).failed i _ _
  | deferring v d outcome gate intended =>
    have hr : ∀ terminal, Inv (s.record (decision v d outcome false terminal (some gate))) := by
      intro terminal
      refine h.record fun hsettles => ?_
      simp [decision, Decision.settles] at hsettles
    dsimp only [advance]
    split
    · exact (hr true).ends i
    · exact (hr false).becomes i trivial nofun
  | concluding v d outcome succeeded =>
    refine (h.record fun hsettles => ?_).ends i
    have hsucceeded : succeeded = true := by
      cases succeeded with
      | true => rfl
      | false => cases hsettles
    exact hset v.id (by rw [hsucceeded]; rfl)

theorem replay (h : Inv s) {item : String} {d : Decision} (hd : s.findDecision item = some d) :
    Inv (s.answer item (some d)) := by
  refine h.answer fun hreports => ?_
  obtain ⟨hresolved, hauthority⟩ := hreports
  have hcond : d.violationId = item ∧ d.terminal = true := by simpa using find?_some hd
  have hsettles : d.settles = true := by
    simp [Decision.settles, hcond.2, hresolved, hauthority]
  exact h.quiet item (mem_repairedIds.mpr
    (.inr (.inl ⟨d, mem_of_find?_eq_some hd, hsettles, hcond.1⟩)))

end Inv

theorem inv_step {s' : State} {l : Label} (h : Inv s) (hs : s.step l = some s')
    (hl : Unrepeated s l) : Inv s' := by
  cases l with
  | change c =>
    cases hs
    exact h.world hl
  | restart policy =>
    cases hs
    have hcalls : Inv { s with calls := [] } := h.calls fun c hc => (by cases hc)
    exact ⟨hcalls.quiet, hcalls.sound, hcalls.truthful⟩
  | repair =>
    cases hs
    exact h.start trivial rfl
  | decide req =>
    simp only [step] at hs
    split at hs
    · rename_i d hd
      cases hs
      exact h.replay hd
    · cases hs
      exact h.start trivial rfl
  | invalidate v reason =>
    cases hs
    exact h.record nofun
  | advance i input =>
    obtain ⟨c, hc, rfl⟩ := map_eq_some_iff.mp hs
    exact h.advance (mem_of_getElem? hc)
  | fail i error =>
    obtain ⟨c, hc, rfl⟩ := map_eq_some_iff.mp hs
    exact h.failed i error c

/-- In every history in which no change brings back a contradiction under an id that was
repaired, `AlreadyApplied` and the replay of a resolved decision are only answered while
the contradiction does not stand. -/
theorem answers_truthful (policy : AuthorityPolicy) (world : World) (history : List Label)
    (h : Meets step Unrepeated (init policy world) history) :
    Keeps step Truthful (init policy world) history := by
  have hinv : Keeps step Inv (.init policy world) history :=
    keeps_of_meets (fun _ _ _ hi hs hl => inv_step hi hs hl) (inv_init policy world) h
  exact hinv.mono fun _ hi => hi.truthful

/-- A repaired contradiction that stands again is answered as done: `apply` skips it. -/
theorem marked_answered {i : Nat} {target : Target} {a : Applying}
    {rest : List RepairItem} {action : RepairAction} (hc : s.calls[i]? = some (.applying target a))
    (hitems : a.items = item :: rest) (hph : a.phase = .lookup)
    (haction : item.disposition = .planned action) (hmarked : item.violationId ∈ s.repairs)
    (hstands : item.violationId ∈ s.world.contradictions) :
    ¬ Keeps step Truthful s [.advance i input] := by
  intro h
  have hs : a.step s.world.backlog s.repairs input.stamp item rest =
      .ok (.answered item.violationId, a.next item rest (.alreadyApplied action.describe)) := by
    simp only [Applying.step, haction, Applying.execute, hph,
      contains_iff_mem.mpr hmarked, if_true]
  have hadv : step s (.advance i input) = some ((s.answer item.violationId none).becomes i
        (.applying target (a.next item rest (.alreadyApplied action.describe)))) := by
    simp only [step, hc, map_some, advance, hitems, hs, effect]
  have htrue : Truthful _ := h.2 _ hadv
  exact htrue _ (mem_concat_self) trivial hstands

namespace Sample

def deliveredTicket (status : String) : Tuple :=
  Tuple.new 1 0 .task "rat-kingdom" "TKT-babab-dadad-fafaf" "castle" (.object
    [("delivery", (DeliveryRecord.toValue ⟨"0123456789ab", "rk/whisker", "main", ""⟩)),
      ("status", .string status)])

def world (status : String) : World where
  backlog := Backlog.empty.put (deliveredTicket status)
  agents := []
  live := []
  landed := []
  queued := []

def landedInput : Input :=
  { facts := { isAncestor := fun _ => some .present, protectedTouch := fun _ => some false } }

def advances (i n : Nat) : List Label := List.replicate n (.advance i landedInput)

def request : Request := { item := deliveredButOpenId "TKT-babab-dadad-fafaf" }

def overlapping : List Label :=
  [.repair, .repair, .decide request] ++ advances 1 1 ++ advances 2 3 ++ advances 0 5 ++
    advances 1 2 ++ advances 2 4 ++ [.change (.put (deliveredTicket "done")), .decide request]

def reopenedTwice : List Label :=
  [.change (.put (deliveredTicket "open")), .repair] ++ advances 0 6 ++
    [.change (.put (deliveredTicket "open")), .repair] ++ advances 0 3

end Sample

theorem answers_truthful_overlapping :
    Keeps step Truthful (init {} (Sample.world "in_progress")) Sample.overlapping :=
  answers_truthful {} (Sample.world "in_progress") Sample.overlapping (by decide +kernel)

/-- The name of a delivered ticket that is not closed does not tell its second reopening
from the first. -/
theorem not_answers_truthful :
    ¬ Keeps step Truthful (init {} (Sample.world "closed")) Sample.reopenedTwice :=
  not_keeps_of_run (by decide +kernel)

end RatKingdom.Reconcile
