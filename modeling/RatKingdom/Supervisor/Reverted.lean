/-
A revert settles once and completely.

An operation whose candidate is on the target is never prepared again, as long as git can say
that the candidate is there.  What an operation has done it finds done when it is taken up
again: the pointer that is gone, the receipt on the ticket, the fact under its own id.
-/
import RatKingdom.Supervisor.Revert

namespace RatKingdom.Revert

open Lib Delivery List Registry

section
variable {C : Type}

/-- The phases an operation goes through; `refused` are the candidates whose advance has been. -/
inductive Phase.Leads (refused : C → Prop) : Phase C → Phase C → Prop
  | prepared (candidate : Candidate C) : Leads refused .intent (.prepared candidate)
  | advanced (candidate : Candidate C) : Leads refused (.prepared candidate) (.advanced candidate)
  | refused (candidate : Candidate C) (h : refused candidate.commit) :
      Leads refused (.prepared candidate) .intent
  | complete (candidate : Candidate C) : Leads refused (.advanced candidate) (.complete candidate)

def Written (refused : List (RecordId × C)) (journal : List (RevertOperation C)) : Prop :=
  Chained RevertOperation.id RevertOperation.revision
    (fun op => op.revision = 0 ∧ op.phase = .intent)
    (fun op op' => ∃ phase, Phase.Leads (fun commit => (op.id, commit) ∈ refused) op.phase phase ∧
      op' = op.next phase) journal

namespace Undo

def Unnamed (w : Undo C) (op : RevertOperation C) : Prop :=
  ∀ r ∈ w.registry.records, r.name = op.agent → r.spawn = op.spawn →
    r.mergeCommit ≠ some op.mergeCommit

def Moved (w : Undo C) (op : RevertOperation C) : Prop :=
  ∀ task ∈ op.task, ∀ status ∈ op.status, (op.id, task, status) ∈ w.moved

def Evidenced (w : Undo C) (op : RevertOperation C) (candidate : Candidate C) : Prop :=
  (w.facts.filter fun f => f.id = op.factId) = [op.fact candidate]

variable [PartialOrder C]

def Landed (w : Undo C) (op : RevertOperation C) (candidate : Candidate C) : Prop :=
  candidate.commit ≤ w.tips op.place

/-- Everything a complete operation was to do is done. -/
structure Settled (w : Undo C) (op : RevertOperation C) (candidate : Candidate C) : Prop where
  landed : w.Landed op candidate
  unnamed : w.Unnamed op
  moved : w.Moved op
  evidenced : w.Evidenced op candidate

structure Settles (w : Undo C) : Prop where
  once : ∀ p ∈ w.put, ∀ q ∈ w.put, p.1 = q.1 → p.2 = q.2
  phases : Written w.refused w.journal
  complete : ∀ op ∈ w.operations none, ∀ candidate, op.phase = .complete candidate →
    w.Settled op candidate
  own : ∀ p ∈ w.cleared, p.1 = p.2

end Undo

/-- Whoever takes the operation up goes by where its candidate is, or has done so for good. -/
def Phase.stands : Phase C → Bool
  | .intent => false
  | .prepared _ => true
  | .advanced _ => false
  | .complete _ => true

def Stage.finishing : Stage C → Option (RevertOperation C)
  | .confirmed op _ => some op
  | .settled op _ => some op
  | .reopened op _ => some op
  | .evidenced op _ => some op
  | .released op _ => some op
  | _ => none

def Stage.parting : Stage C → Option (RevertOperation C)
  | .settled op _ => some op
  | .reopened op _ => some op
  | .evidenced op _ => some op
  | .released op _ => some op
  | _ => none

/-- The operation relies on its candidate being on the target. -/
def Undo.Standing (w : Undo C) (op : RevertOperation C) : Prop :=
  op.phase.stands = true ∨ ∃ c ∈ w.calls, c.stage.finishing = some op

/-- The operation relies on its generation naming the commit no more. -/
def Undo.Parted (w : Undo C) (op : RevertOperation C) : Prop :=
  op.isComplete = true ∨ ∃ c ∈ w.calls, c.stage.parting = some op

def Stage.testing : Stage C → Option (RevertOperation C × Candidate C)
  | .running op =>
    match op.phase with
    | .prepared candidate => some (op, candidate)
    | _ => none
  | _ => none

/-- Git can say that a candidate is on its target when it is; no reset takes a candidate off its
target, and no delivery names a commit again, where the operation relies on it. -/
def Undo.Calm [PartialOrder C] (w : Undo C) : UndoMove C → Prop
  | .turn i io => ∀ c ∈ w.calls[i]?, ∀ p ∈ c.stage.testing,
      p.2.commit ≤ w.tips p.1.place → io.answers = true
  | .reset place commit => ∀ op ∈ w.operations none, w.Standing op → op.place = place →
      ∀ candidate ∈ op.candidate, candidate.commit ≤ w.tips place → candidate.commit ≤ commit
  | .deliver name commit => ∀ op ∈ w.operations none, w.Parted op →
      ∀ r ∈ w.registry.agents.get name, r.name = op.agent → r.spawn = op.spawn →
        commit ≠ op.mergeCommit
  | _ => True

namespace Undo

/-- The call works on the operation, as it is on record. -/
def Holds (w : Undo C) (i : Nat) (op : RevertOperation C) : Prop :=
  op ∈ w.operations none ∧ w.merging op.place = some i

def Unput (w : Undo C) (op : RevertOperation C) : Prop := ∀ p ∈ w.put, p.1 ≠ op.id

def Relies [PartialOrder C] (w : Undo C) (i : Nat) : Stage C → Prop
  | .holding record => w.merging record.place = some i
  | .running op => w.Holds i op
  | .made op _ => w.Holds i op ∧ op.phase = .intent
  | .tested op candidate landed =>
    w.Holds i op ∧ op.phase = .prepared candidate ∧ (landed = false → w.Unput op)
  | .swapped op candidate => w.Holds i op ∧ op.phase = .prepared candidate
  | .refused op candidate =>
    w.Holds i op ∧ op.phase = .prepared candidate ∧ w.Unput op ∧
      (op.id, candidate.commit) ∈ w.refused
  | .confirmed op candidate =>
    w.Holds i op ∧ op.phase = .advanced candidate ∧ w.Landed op candidate
  | .settled op candidate =>
    w.Holds i op ∧ op.phase = .advanced candidate ∧ w.Landed op candidate ∧ w.Unnamed op
  | .reopened op candidate =>
    w.Holds i op ∧ op.phase = .advanced candidate ∧ w.Landed op candidate ∧ w.Unnamed op ∧
      w.Moved op
  | .evidenced op candidate =>
    w.Holds i op ∧ op.phase = .advanced candidate ∧ w.Settled op candidate
  | .released op candidate =>
    w.Holds i op ∧ op.phase = .advanced candidate ∧ w.Settled op candidate
  | _ => True

structure Kept [PartialOrder C] (w : Undo C) : Prop where
  written : Written w.refused w.journal
  old : ∀ op ∈ w.operations none, op.id < w.nextId ∧ op.factId < w.nextId
  factIds : ∀ op ∈ w.operations none, ∀ op' ∈ w.operations none, op.factId = op'.factId → op = op'
  put : ∀ p ∈ w.put, ∃ op ∈ w.operations none, op.id = p.1 ∧
    ∃ candidate, op.candidate = some candidate ∧ candidate.commit = p.2 ∧
      (op.phase = .prepared candidate → w.Landed op candidate)
  complete : ∀ op ∈ w.operations none, ∀ candidate, op.phase = .complete candidate →
    w.Settled op candidate
  facts : ∀ f ∈ w.facts, ∃ op ∈ w.operations none, ∃ candidate, f = op.fact candidate ∧
    (op.phase = .advanced candidate ∨ op.phase = .complete candidate)
  distinct : (w.facts.map Fact.id).Nodup
  receipts : ∀ task, ∀ t ∈ w.tickets task, ∀ ids ∈ t.revertOperations, ∀ id ∈ ids,
    ∃ op ∈ w.operations none, op.id = id ∧ op.task = some task ∧ w.Moved op
  cleared : ∀ p ∈ w.cleared, p.1 = p.2
  calls : ∀ i c, w.calls[i]? = some c → w.Relies i c.stage

/-- What has been done for an operation is not undone. -/
structure Leaves [PartialOrder C] (w w' : Undo C) : Prop where
  refused : ∀ p ∈ w.refused, p ∈ w'.refused
  landed : ∀ op ∈ w.operations none, w.Standing op → ∀ candidate,
    op.candidate = some candidate → w.Landed op candidate → w'.Landed op candidate
  unnamed : ∀ op ∈ w.operations none, w.Parted op → w.Unnamed op → w'.Unnamed op
  moved : ∀ p ∈ w.moved, p ∈ w'.moved
  evidenced : ∀ op ∈ w.operations none, ∀ candidate, w.Evidenced op candidate →
    w'.Evidenced op candidate

/-- What a call relies on is left to it. -/
structure Carries [PartialOrder C] (w w' : Undo C) (j : Nat) : Prop extends Leaves w w' where
  merging : ∀ place, w.merging place = some j → w'.merging place = some j
  operations : ∀ op, w.Holds j op → op ∈ w'.operations none
  unput : ∀ op, w.Holds j op → w.Unput op → w'.Unput op

section
variable [PartialOrder C] {w w' : Undo C} {i j : Nat} {op : RevertOperation C}
  {candidate : Candidate C}

theorem Settles.of_kept (h : w.Kept) : w.Settles where
  once := by
    intro p hp q hq hid
    obtain ⟨op, hop, hopid, k, hk, hkp, -⟩ := h.put p hp
    obtain ⟨op', hop', hopid', k', hk', hkq, -⟩ := h.put q hq
    have hsame : op = op' := h.written.eq_of_key hop hop' (hopid.trans (hid.trans hopid'.symm))
    rw [hsame, hk'] at hk
    cases hk
    rw [← hkp, ← hkq]
  phases := h.written
  complete := h.complete
  own := h.cleared

omit [PartialOrder C] in
theorem Holds.ne {op' : RevertOperation C} (h : w.Holds j op') (hop : w.Holds i op) (hj : j ≠ i) :
    op' ≠ op := by
  intro heq
  rw [heq] at h
  exact hj (Option.some.inj (h.2.symm.trans hop.2))

theorem Carries.holds (h : Carries w w' j) (hop : w.Holds j op) : w'.Holds j op :=
  ⟨h.operations op hop, h.merging op.place hop.2⟩

theorem Leaves.movedOf (h : Leaves w w') (hop : w.Moved op) : w'.Moved op :=
  fun task htask status hstatus => h.moved _ (hop task htask status hstatus)

omit [PartialOrder C] in
theorem candidate_of_phase (hph : op.phase = .advanced candidate ∨ op.phase = .complete candidate) :
    op.candidate = some candidate := by
  unfold RevertOperation.candidate
  cases hph with
  | inl hadvanced | inr hadvanced =>
    rw [hadvanced]
    rfl

theorem Leaves.settled (h : Leaves w w') (hop : op ∈ w.operations none)
    (hph : op.phase = .advanced candidate ∨ op.phase = .complete candidate)
    (hstanding : w.Standing op) (hparted : w.Parted op) (hs : w.Settled op candidate) :
    w'.Settled op candidate :=
  ⟨h.landed op hop hstanding candidate (candidate_of_phase hph) hs.landed,
    h.unnamed op hop hparted hs.unnamed, h.movedOf hs.moved,
    h.evidenced op hop candidate hs.evidenced⟩

variable {c : Call C}

theorem Carries.relies (h : Carries w w' j) (hc : w.calls[j]? = some c) (hr : w.Relies j c.stage) :
    w'.Relies j c.stage := by
  have hmem : c ∈ w.calls := mem_of_getElem? hc
  cases hst : c.stage with
  | holding record =>
    rw [hst] at hr
    exact h.merging record.place hr
  | running op =>
    rw [hst] at hr
    exact h.holds hr
  | made op candidate | swapped op candidate =>
    rw [hst] at hr
    exact ⟨h.holds hr.1, hr.2⟩
  | tested op candidate landed =>
    rw [hst] at hr
    exact ⟨h.holds hr.1, hr.2.1, fun hl => h.unput op hr.1 (hr.2.2 hl)⟩
  | refused op candidate =>
    rw [hst] at hr
    exact ⟨h.holds hr.1, hr.2.1, h.unput op hr.1 hr.2.2.1, h.refused _ hr.2.2.2⟩
  | confirmed op candidate =>
    rw [hst] at hr
    obtain ⟨hop, hph, hl⟩ := hr
    have hstanding : w.Standing op := .inr ⟨c, hmem, by rw [hst]; rfl⟩
    exact ⟨h.holds hop, hph,
      h.landed op hop.1 hstanding candidate (candidate_of_phase (.inl hph)) hl⟩
  | settled op candidate =>
    rw [hst] at hr
    obtain ⟨hop, hph, hl, hu⟩ := hr
    have hstanding : w.Standing op := .inr ⟨c, hmem, by rw [hst]; rfl⟩
    have hparted : w.Parted op := .inr ⟨c, hmem, by rw [hst]; rfl⟩
    exact ⟨h.holds hop, hph,
      h.landed op hop.1 hstanding candidate (candidate_of_phase (.inl hph)) hl,
      h.unnamed op hop.1 hparted hu⟩
  | reopened op candidate =>
    rw [hst] at hr
    obtain ⟨hop, hph, hl, hu, hm⟩ := hr
    have hstanding : w.Standing op := .inr ⟨c, hmem, by rw [hst]; rfl⟩
    have hparted : w.Parted op := .inr ⟨c, hmem, by rw [hst]; rfl⟩
    exact ⟨h.holds hop, hph,
      h.landed op hop.1 hstanding candidate (candidate_of_phase (.inl hph)) hl,
      h.unnamed op hop.1 hparted hu, h.movedOf hm⟩
  | evidenced op candidate | released op candidate =>
    rw [hst] at hr
    have hstanding : w.Standing op := .inr ⟨c, hmem, by rw [hst]; rfl⟩
    have hparted : w.Parted op := .inr ⟨c, hmem, by rw [hst]; rfl⟩
    exact ⟨h.holds hr.1, hr.2.1, h.settled hr.1.1 (.inl hr.2.1) hstanding hparted hr.2.2⟩
  | asked | queued record | answered a | lost => trivial

variable {stage : Stage C}

theorem relies_set (hcalls : w'.calls = w.calls.set i { c with stage })
    (h : ∀ j c, w.calls[j]? = some c → w.Relies j c.stage) (hother : ∀ j, j ≠ i → Carries w w' j)
    (hst : w'.Relies i stage) :
    ∀ j c, w'.calls[j]? = some c → w'.Relies j c.stage := by
  intro j c' hc'
  rw [hcalls] at hc'
  by_cases hj : j = i
  · subst hj
    rw [getElem?_set_self'] at hc'
    obtain ⟨-, -, rfl⟩ := Option.map_eq_some_iff.mp hc'
    exact hst
  · rw [getElem?_set_ne (Ne.symm hj)] at hc'
    exact (hother j hj).relies hc' (h j c' hc')

/-- Where nothing is written to the journal. -/
theorem Leaves.kept (hl : Leaves w w') (hk : w.Kept) (hjournal : w'.journal = w.journal)
    (hnextId : w'.nextId = w.nextId)
    (hput : ∀ p ∈ w'.put, p ∈ w.put ∨ ∃ op ∈ w.operations none, op.id = p.1 ∧
      ∃ candidate, op.candidate = some candidate ∧ candidate.commit = p.2 ∧
        (op.phase = .prepared candidate → w'.Landed op candidate))
    (hfacts : ∀ f ∈ w'.facts, f ∈ w.facts ∨ ∃ op ∈ w.operations none, ∃ candidate,
      f = op.fact candidate ∧ op.phase = .advanced candidate)
    (hdistinct : (w'.facts.map Fact.id).Nodup)
    (hreceipts : ∀ task, ∀ t ∈ w'.tickets task, ∀ ids ∈ t.revertOperations, ∀ id ∈ ids,
      (∃ t ∈ w.tickets task, ∃ ids ∈ t.revertOperations, id ∈ ids) ∨
      ∃ op ∈ w.operations none, op.id = id ∧ op.task = some task ∧ w'.Moved op)
    (hcleared : ∀ p ∈ w'.cleared, p ∈ w.cleared ∨ p.1 = p.2)
    (hcalls : ∀ j c, w'.calls[j]? = some c → w'.Relies j c.stage) : w'.Kept := by
  have hops : w'.operations none = w.operations none := congrArg latestOf hjournal
  constructor
  · rw [hjournal]
    apply Chained.mono hk.written
    intro o e hfollows
    obtain ⟨phase, hleads, rfl⟩ := hfollows
    refine ⟨phase, ?_, rfl⟩
    generalize o.phase = old at hleads
    cases hleads with
    | prepared k => exact Phase.Leads.prepared k
    | advanced k => exact Phase.Leads.advanced k
    | refused k h => exact Phase.Leads.refused k (hl.refused _ h)
    | complete k => exact Phase.Leads.complete k
  · rw [hops, hnextId]
    exact hk.old
  · rw [hops]
    exact hk.factIds
  · intro p hp
    rw [hops]
    cases hput p hp with
    | inr hnew => exact hnew
    | inl hold =>
      obtain ⟨op, hop, hid, k, hcandidate, hcommit, hlanded⟩ := hk.put p hold
      refine ⟨op, hop, hid, k, hcandidate, hcommit, ?_⟩
      intro hph
      have hstands : op.phase.stands = true := by
        rw [hph]
        rfl
      exact hl.landed op hop (.inl hstands) k hcandidate (hlanded hph)
  · intro op hop k hph
    rw [hops] at hop
    have hstands : op.phase.stands = true := by
      rw [hph]
      rfl
    have hcomplete : op.isComplete = true := by
      unfold RevertOperation.isComplete
      rw [hph]
    exact hl.settled hop (.inr hph) (.inl hstands) (.inl hcomplete) (hk.complete op hop k hph)
  · intro f hf
    rw [hops]
    cases hfacts f hf with
    | inl hold => exact hk.facts f hold
    | inr hnew =>
      obtain ⟨op, hop, k, hfact, hph⟩ := hnew
      exact ⟨op, hop, k, hfact, .inl hph⟩
  · exact hdistinct
  · intro task t ht ids hids id hid
    rw [hops]
    cases hreceipts task t ht ids hids id hid with
    | inr hnew => exact hnew
    | inl hold =>
      obtain ⟨t', ht', ids', hids', hid'⟩ := hold
      obtain ⟨op, hop, hopid, htask, hmoved⟩ := hk.receipts task t' ht' ids' hids' id hid'
      exact ⟨op, hop, hopid, htask, hl.movedOf hmoved⟩
  · intro p hp
    cases hcleared p hp with
    | inl hold => exact hk.cleared p hold
    | inr hnew => exact hnew
  · exact hcalls

/-- Others change targets, records and tickets, and undo nothing that has been done; the receipts
on the tickets stay. -/
structure Outside (w w' : Undo C) : Prop where
  facts : w'.facts = w.facts
  journal : w'.journal = w.journal
  nextId : w'.nextId = w.nextId
  put : w'.put = w.put
  refused : w'.refused = w.refused
  moved : w'.moved = w.moved
  cleared : w'.cleared = w.cleared
  receipts : ∀ task, ∀ t ∈ w'.tickets task, ∃ old ∈ w.tickets task,
    old.revertOperations = t.revertOperations
  landed : ∀ op ∈ w.operations none, w.Standing op → ∀ candidate,
    op.candidate = some candidate → w.Landed op candidate → w'.Landed op candidate
  unnamed : ∀ op ∈ w.operations none, w.Parted op → w.Unnamed op → w'.Unnamed op

theorem Outside.leaves (h : Outside w w') : Leaves w w' where
  refused := by
    rw [h.refused]
    exact fun p hp => hp
  landed := h.landed
  unnamed := h.unnamed
  moved := by
    rw [h.moved]
    exact fun p hp => hp
  evidenced := by
    intro op _ k he
    unfold Undo.Evidenced
    rw [h.facts]
    exact he

theorem Outside.carries (h : Outside w w') (hmerging : ∀ place, w.merging place = some j →
    w'.merging place = some j) : Carries w w' j where
  toLeaves := h.leaves
  merging := hmerging
  operations := by
    intro op hop
    have hops : w'.operations none = w.operations none := congrArg latestOf h.journal
    rw [hops]
    exact hop.1
  unput := by
    intro op _ hop
    unfold Undo.Unput
    rw [h.put]
    exact hop

theorem Outside.kept (h : Outside w w') (hk : w.Kept)
    (hcalls : ∀ j c, w'.calls[j]? = some c → w'.Relies j c.stage) : w'.Kept := by
  apply h.leaves.kept hk h.journal h.nextId
  · rw [h.put]
    exact fun p hp => .inl hp
  · rw [h.facts]
    exact fun f hf => .inl hf
  · rw [h.facts]
    exact hk.distinct
  · intro task t ht ids hids id hid
    obtain ⟨old, hold, hsame⟩ := h.receipts task t ht
    rw [← hsame] at hids
    exact .inl ⟨old, hold, ids, hids, hid⟩
  · rw [h.cleared]
    exact fun p hp => .inl hp
  · exact hcalls

theorem Outside.kept_calls (h : Outside w w') (hk : w.Kept) (hcalls : w'.calls = w.calls)
    (hmerging : w'.merging = w.merging) : w'.Kept := by
  apply h.kept hk
  intro j c hc
  rw [hcalls] at hc
  apply (h.carries _).relies hc (hk.calls j c hc)
  rw [hmerging]
  exact fun _ hm => hm

/-- All that is on record, but the journal, stays where it is. -/
structure Still (w w' : Undo C) : Prop where
  tips : w'.tips = w.tips
  registry : w'.registry = w.registry
  tickets : w'.tickets = w.tickets
  facts : w'.facts = w.facts
  put : w'.put = w.put
  refused : w'.refused = w.refused
  moved : w'.moved = w.moved
  cleared : w'.cleared = w.cleared

theorem Still.leaves (h : Still w w') : Leaves w w' where
  refused := by
    rw [h.refused]
    exact fun p hp => hp
  landed := by
    intro op _ _ k _ hl
    unfold Undo.Landed
    rw [h.tips]
    exact hl
  unnamed := by
    intro op _ _ hu
    unfold Undo.Unnamed
    rw [h.registry]
    exact hu
  moved := by
    rw [h.moved]
    exact fun p hp => hp
  evidenced := by
    intro op _ k he
    unfold Undo.Evidenced
    rw [h.facts]
    exact he

theorem Still.settled (h : Still w w') (hs : w.Settled op candidate) : w'.Settled op candidate := by
  constructor
  · unfold Undo.Landed
    rw [h.tips]
    exact hs.landed
  · unfold Undo.Unnamed
    rw [h.registry]
    exact hs.unnamed
  · exact h.leaves.movedOf hs.moved
  · unfold Undo.Evidenced
    rw [h.facts]
    exact hs.evidenced

/-- What is done on record stays where it is, but perhaps for what is parked and who waits. -/
structure Same (w w' : Undo C) : Prop extends Still w w' where
  journal : w'.journal = w.journal
  nextId : w'.nextId = w.nextId

theorem Same.outside (h : Same w w') : Outside w w' where
  facts := h.facts
  journal := h.journal
  nextId := h.nextId
  put := h.put
  refused := h.refused
  moved := h.moved
  cleared := h.cleared
  receipts := by
    rw [h.tickets]
    exact fun task t ht => ⟨t, ht, rfl⟩
  landed := h.leaves.landed
  unnamed := h.leaves.unnamed

theorem goto_relies {stage' : Stage C} (hs : w.Relies i stage') :
    (w.goto i c stage).Relies i stage' := by
  have hsame : Same w (w.goto i c stage) := ⟨⟨rfl, rfl, rfl, rfl, rfl, rfl, rfl, rfl⟩, rfl, rfl⟩
  cases stage' with
  | evidenced op candidate | released op candidate => exact ⟨hs.1, hs.2.1, hsame.settled hs.2.2⟩
  | _ => exact hs

theorem goto_kept (hk : w.Kept) (hs : w.Relies i stage) : (w.goto i c stage).Kept := by
  have hsame : Same w (w.goto i c stage) := ⟨⟨rfl, rfl, rfl, rfl, rfl, rfl, rfl, rfl⟩, rfl, rfl⟩
  apply hsame.outside.kept hk
  apply relies_set rfl hk.calls
  · intro j _
    exact hsame.outside.carries fun _ hm => hm
  · exact goto_relies hs

theorem answer_kept {a : Answer C} (hk : w.Kept) : (w.answer i c a).Kept := by
  have hsame : Same w (w.answer i c a) := ⟨⟨rfl, rfl, rfl, rfl, rfl, rfl, rfl, rfl⟩, rfl, rfl⟩
  apply hsame.outside.kept hk
  apply relies_set rfl hk.calls
  · intro j hj
    apply hsame.outside.carries
    intro place hm
    unfold Undo.answer
    dsimp only
    rw [if_neg]
    · exact hm
    · intro hi
      rw [hm] at hi
      exact hj (Option.some.inj hi)
  · trivial

theorem fails_kept {text : String} (hk : w.Kept) : (w.fails i c op text).Kept := answer_kept hk

variable {phase : Phase C}

omit [PartialOrder C] in
theorem Written.next {refused : List (RecordId × C)} {journal : List (RevertOperation C)}
    (h : Written refused journal) (hop : op ∈ latestOf journal)
    (hleads : Phase.Leads (fun commit => (op.id, commit) ∈ refused) op.phase phase) :
    Written refused (journal ++ [op.next phase]) :=
  h.moved hop rfl rfl ⟨phase, hleads, rfl⟩

theorem Settled.next (hs : w.Settled op candidate) : w.Settled (op.next phase) candidate :=
  ⟨hs.landed, hs.unnamed, hs.moved, hs.evidenced⟩

omit [PartialOrder C] in
theorem candidate_next {refused : C → Prop} (hleads : Phase.Leads refused op.phase phase)
    (hunput : phase = .intent → w.Unput op) {p : RecordId × C} (hp : p ∈ w.put) (hid : op.id = p.1)
    (hcandidate : op.candidate = some candidate) :
    (op.next phase).candidate = some candidate := by
  unfold RevertOperation.candidate at hcandidate ⊢
  generalize hph : op.phase = old at hleads hcandidate
  cases hleads with
  | prepared k => cases hcandidate
  | advanced k | complete k => exact hcandidate
  | refused k hk => exact absurd hid.symm (hunput rfl p hp)

/-- The operation stays as it is, or goes on to its next phase; it starts over only where no
candidate of it was put on its target. -/
inductive Goes (w w' : Undo C) (op : RevertOperation C) : Prop
  | stays (h : op ∈ w'.operations none)
  | next (phase : Phase C)
      (hleads : Phase.Leads (fun commit => (op.id, commit) ∈ w.refused) op.phase phase)
      (hunput : phase = .intent → w.Unput op) (h : op.next phase ∈ w'.operations none)

theorem Still.put_goes (h : Still w w') (hk : w.Kept)
    (hgoes : ∀ op ∈ w.operations none, Goes w w' op) :
    ∀ p ∈ w'.put, ∃ op ∈ w'.operations none, op.id = p.1 ∧
      ∃ candidate, op.candidate = some candidate ∧ candidate.commit = p.2 ∧
        (op.phase = .prepared candidate → w'.Landed op candidate) := by
  intro p hp
  rw [h.put] at hp
  obtain ⟨op, hop, hid, k, hcandidate, hcommit, hlanded⟩ := hk.put p hp
  cases hgoes op hop with
  | stays hkeep =>
    refine ⟨op, hkeep, hid, k, hcandidate, hcommit, ?_⟩
    unfold Undo.Landed
    rw [h.tips]
    exact hlanded
  | next phase hleads hunput hnext =>
    refine ⟨op.next phase, hnext, hid, k, candidate_next hleads hunput hp hid hcandidate,
      hcommit, ?_⟩
    intro hprepared
    have hph : phase = .prepared k := hprepared
    -- nothing but an intent, which has no candidate yet, is prepared next
    rw [hph] at hleads
    unfold RevertOperation.candidate at hcandidate
    generalize op.phase = old at hleads hcandidate
    cases hleads
    cases hcandidate

theorem Still.facts_goes (h : Still w w') (hk : w.Kept)
    (hgoes : ∀ op ∈ w.operations none, Goes w w' op) :
    ∀ f ∈ w'.facts, ∃ op ∈ w'.operations none, ∃ candidate, f = op.fact candidate ∧
      (op.phase = .advanced candidate ∨ op.phase = .complete candidate) := by
  intro f hf
  rw [h.facts] at hf
  obtain ⟨op, hop, k, hfact, hph⟩ := hk.facts f hf
  cases hgoes op hop with
  | stays hkeep => exact ⟨op, hkeep, k, hfact, hph⟩
  | next phase hleads hunput hnext =>
    refine ⟨op.next phase, hnext, k, hfact, .inr ?_⟩
    generalize hold : op.phase = old at hleads hph
    cases hleads with
    | complete k' =>
      cases hph with
      | inl hadvanced =>
        cases hadvanced
        rfl
      | inr hdone => cases hdone
    | prepared k' | advanced k' | refused k' _ =>
      cases hph with
      | inl hadvanced | inr hadvanced => cases hadvanced

theorem Still.receipts_goes (h : Still w w') (hk : w.Kept)
    (hgoes : ∀ op ∈ w.operations none, Goes w w' op) :
    ∀ task, ∀ t ∈ w'.tickets task, ∀ ids ∈ t.revertOperations, ∀ id ∈ ids,
      ∃ op ∈ w'.operations none, op.id = id ∧ op.task = some task ∧ w'.Moved op := by
  intro task t ht ids hids id hid
  rw [h.tickets] at ht
  obtain ⟨op, hop, hopid, htask, hmoved⟩ := hk.receipts task t ht ids hids id hid
  have hmoved' : w'.Moved op := h.leaves.movedOf hmoved
  cases hgoes op hop with
  | stays hkeep => exact ⟨op, hkeep, hopid, htask, hmoved'⟩
  | next phase hleads hunput hnext => exact ⟨op.next phase, hnext, hopid, htask, hmoved'⟩

/-- Where nothing but the journal is written. -/
theorem Still.kept (h : Still w w') (hk : w.Kept)
    (hgoes : ∀ op ∈ w.operations none, Goes w w' op) (hwritten : Written w'.refused w'.journal)
    (hold : ∀ op ∈ w'.operations none, op.id < w'.nextId ∧ op.factId < w'.nextId)
    (hfactIds : ∀ op ∈ w'.operations none, ∀ op' ∈ w'.operations none,
      op.factId = op'.factId → op = op')
    (hcomplete : ∀ op ∈ w'.operations none, ∀ candidate, op.phase = .complete candidate →
      w.Settled op candidate)
    (hcalls : ∀ j c, w'.calls[j]? = some c → w'.Relies j c.stage) : w'.Kept where
  written := hwritten
  old := hold
  factIds := hfactIds
  put := h.put_goes hk hgoes
  complete := fun op hop candidate hph => h.settled (hcomplete op hop candidate hph)
  facts := h.facts_goes hk hgoes
  distinct := by
    rw [h.facts]
    exact hk.distinct
  receipts := h.receipts_goes hk hgoes
  cleared := by
    rw [h.cleared]
    exact hk.cleared
  calls := hcalls

theorem Still.carries (h : Still w w') (hmerging : ∀ place, w.merging place = some j →
    w'.merging place = some j) (hkeep : ∀ op, w.Holds j op → op ∈ w'.operations none) :
    Carries w w' j where
  toLeaves := h.leaves
  merging := hmerging
  operations := hkeep
  unput := by
    intro op _ hop
    unfold Undo.Unput
    rw [h.put]
    exact hop

/-- `advance_revert_phase`: the other operations stay as they are, and so does everything else
that is on record. -/
theorem persist_kept (hk : w.Kept) (hop : w.Holds i op)
    (hleads : Phase.Leads (fun commit => (op.id, commit) ∈ w.refused) op.phase phase)
    (hunput : phase = .intent → w.Unput op)
    (hcomplete : ∀ candidate, phase = .complete candidate → w.Settled op candidate)
    (hstill : Still w w') (hjournal : w'.journal = w.journal ++ [op.next phase])
    (hnextId : w'.nextId = w.nextId) (hcalls : w'.calls = w.calls.set i { c with stage })
    (hmerging : ∀ j, j ≠ i → ∀ place, w.merging place = some j → w'.merging place = some j)
    (hst : op.next phase ∈ w'.operations none → w'.Relies i stage) : w'.Kept := by
  have hm : ∀ x, x ∈ w'.operations none ↔ (x ∈ w.operations none ∧ x ≠ op) ∨ x = op.next phase := by
    intro x
    unfold Undo.operations latestOf
    rw [hjournal]
    exact hk.written.mem_moved hop.1 rfl rfl
  have hkeep : ∀ x ∈ w.operations none, x ≠ op → x ∈ w'.operations none :=
    fun x hx hne => (hm x).mpr (.inl ⟨hx, hne⟩)
  have hnext : op.next phase ∈ w'.operations none := (hm _).mpr (.inr rfl)
  have hgoes : ∀ x ∈ w.operations none, Goes w w' x := by
    intro x hx
    by_cases hne : x = op
    · rw [hne]
      exact .next phase hleads hunput hnext
    · exact .stays (hkeep x hx hne)
  have hwas : ∀ x ∈ w'.operations none, ∃ o ∈ w.operations none,
      o.id = x.id ∧ o.factId = x.factId := by
    intro x hx
    cases (hm x).mp hx with
    | inl hold => exact ⟨x, hold.1, rfl, rfl⟩
    | inr hnew =>
      rw [hnew]
      exact ⟨op, hop.1, rfl, rfl⟩
  have hwritten : Written w'.refused w'.journal := by
    rw [hstill.refused, hjournal]
    exact Written.next hk.written hop.1 hleads
  apply hstill.kept hk hgoes hwritten
  · intro x hx
    obtain ⟨o, ho, hid, hfact⟩ := hwas x hx
    rw [← hid, ← hfact, hnextId]
    exact hk.old o ho
  · intro x hx y hy heq
    obtain ⟨o, ho, hid, hfact⟩ := hwas x hx
    obtain ⟨o', ho', hid', hfact'⟩ := hwas y hy
    have hone : o = o' := hk.factIds o ho o' ho' (hfact.trans (heq.trans hfact'.symm))
    rw [hone] at hid
    exact hwritten.eq_of_key hx hy (hid.symm.trans hid')
  · intro x hx k hph
    cases (hm x).mp hx with
    | inl hold => exact hk.complete x hold.1 k hph
    | inr hnew =>
      rw [hnew] at hph ⊢
      exact (hcomplete k hph).next
  · apply relies_set hcalls hk.calls
    · intro j hj
      exact hstill.carries (hmerging j hj) fun x hx => hkeep x hx.1 (hx.ne hop hj)
    · exact hst hnext

variable {record : AgentRecord C}

omit [PartialOrder C] in
theorem opened_operations {commit : C} {now : Int}
    (hold : ∀ op ∈ w.operations none, op.id < w.nextId)
    (hjournal : w'.journal = w.journal ++ [w.opened c record commit now]) (x : RevertOperation C) :
    x ∈ w'.operations none ↔ x ∈ w.operations none ∨ x = w.opened c record commit now := by
  unfold Undo.operations latestOf
  rw [hjournal]
  apply mem_opened
  intro o ho hid
  exact absurd (hold o ho) (by rw [hid]; exact Nat.lt_irrefl _)

theorem opened_kept {commit : C} {now : Int} (hk : w.Kept)
    (hholding : w.merging record.place = some i) :
    Kept { w.goto i c (.running (w.opened c record commit now)) with
      journal := w.journal ++ [w.opened c record commit now], nextId := w.nextId + 2 } := by
  generalize hw' : ({ w.goto i c (.running (w.opened c record commit now)) with
    journal := w.journal ++ [w.opened c record commit now], nextId := w.nextId + 2 } : Undo C) = w'
  have hstill : Still w w' := by
    rw [← hw']
    exact ⟨rfl, rfl, rfl, rfl, rfl, rfl, rfl, rfl⟩
  have hmem : ∀ x, x ∈ w'.operations none ↔
      x ∈ w.operations none ∨ x = w.opened c record commit now := by
    apply opened_operations fun op hop => (hk.old op hop).1
    rw [← hw']
  have hkeep : ∀ x ∈ w.operations none, x ∈ w'.operations none :=
    fun x hx => (hmem x).mpr (.inl hx)
  have hold : ∀ x ∈ w.operations none, x.id ≠ w.nextId ∧ x.factId ≠ w.nextId + 1 := by
    intro x hx
    have hlt := hk.old x hx
    exact ⟨Nat.ne_of_lt hlt.1, Nat.ne_of_lt (Nat.lt_succ_of_lt hlt.2)⟩
  apply hstill.kept hk fun x hx => .stays (hkeep x hx)
  · rw [← hw']
    apply hk.written.opened
    · rw [hk.written.fresh_iff]
      intro o ho
      exact (hold o ho).1
    · exact ⟨rfl, rfl⟩
  · intro x hx
    have hnext : w'.nextId = w.nextId + 2 := by rw [← hw']
    rw [hnext]
    cases (hmem x).mp hx with
    | inl hxold =>
      have hlt := hk.old x hxold
      exact ⟨Nat.lt_add_right 2 hlt.1, Nat.lt_add_right 2 hlt.2⟩
    | inr hnew =>
      rw [hnew]
      exact ⟨Nat.lt_add_of_pos_right (by decide), Nat.lt_succ_self _⟩
  · intro x hx y hy hid
    cases (hmem x).mp hx with
    | inl hxold =>
      cases (hmem y).mp hy with
      | inl hyold => exact hk.factIds x hxold y hyold hid
      | inr hynew =>
        rw [hynew] at hid
        exact absurd hid (hold x hxold).2
    | inr hxnew =>
      cases (hmem y).mp hy with
      | inl hyold =>
        rw [hxnew] at hid
        exact absurd hid.symm (hold y hyold).2
      | inr hynew => rw [hxnew, hynew]
  · intro x hx k hph
    cases (hmem x).mp hx with
    | inl hxold => exact hk.complete x hxold k hph
    | inr hnew =>
      rw [hnew] at hph
      cases hph
  · have hcalls : w'.calls =
        w.calls.set i { c with stage := .running (w.opened c record commit now) } := by
      rw [← hw']
      rfl
    apply relies_set hcalls hk.calls
    · intro j _
      apply hstill.carries
      · rw [← hw']
        exact fun _ hm => hm
      · exact fun x hx => hkeep x hx.1
    refine ⟨(hmem _).mpr (.inr rfl), ?_⟩
    rw [← hw']
    exact hholding

theorem grown_landed (hgrow : ∀ place, w.tips place ≤ w'.tips place) (hl : w.Landed op candidate) :
    w'.Landed op candidate := hl.trans (hgrow op.place)

theorem swap_kept (hk : w.Kept) (hop : w.Holds i op) (hph : op.phase = .prepared candidate)
    (htip : w.tips op.place ≤ candidate.commit) :
    Kept { w.goto i c (.swapped op candidate) with
      tips := fun place => if place = op.place then candidate.commit else w.tips place
      put := w.put ++ [(op.id, candidate.commit)] } := by
  have hgrow : ∀ place, w.tips place ≤
      if place = op.place then candidate.commit else w.tips place := by
    intro place
    split
    · rename_i hplace
      rw [hplace]
      exact htip
    · exact le_refl _
  generalize hw' : ({ w.goto i c (.swapped op candidate) with
    tips := fun place => if place = op.place then candidate.commit else w.tips place
    put := w.put ++ [(op.id, candidate.commit)] } : Undo C) = w'
  have hleaves : Leaves w w' := by
    rw [← hw']
    refine ⟨fun p hp => hp, ?_, fun _ _ _ hu => hu, fun p hp => hp, fun _ _ _ he => he⟩
    intro x _ _ k _ hl
    exact grown_landed hgrow hl
  apply hleaves.kept hk
  · rw [← hw']
    rfl
  · rw [← hw']
    rfl
  · intro p hp
    rw [← hw'] at hp ⊢
    cases mem_append.mp hp with
    | inl hold => exact .inl hold
    | inr hnew =>
      rw [mem_singleton.mp hnew]
      refine .inr ⟨op, hop.1, rfl, candidate, ?_, rfl, ?_⟩
      · unfold RevertOperation.candidate
        rw [hph]
        rfl
      · intro _
        unfold Undo.Landed
        dsimp only
        rw [if_pos rfl]
  · rw [← hw']
    exact fun f hf => .inl hf
  · rw [← hw']
    exact hk.distinct
  · rw [← hw']
    exact fun task t ht ids hids id hid => .inl ⟨t, ht, ids, hids, hid⟩
  · rw [← hw']
    exact fun p hp => .inl hp
  · have hcalls : w'.calls = w.calls.set i { c with stage := .swapped op candidate } := by
      rw [← hw']
      rfl
    apply relies_set hcalls hk.calls
    · intro j hj
      refine ⟨hleaves, ?_, ?_, ?_⟩
      · rw [← hw']
        exact fun _ hm => hm
      · rw [← hw']
        exact fun x hx => hx.1
      · intro x hx hxunput p hp
        rw [← hw'] at hp
        cases mem_append.mp hp with
        | inl hold => exact hxunput p hold
        | inr hnew =>
          rw [mem_singleton.mp hnew]
          intro hid
          exact hx.ne hop hj (hk.written.eq_of_key hx.1 hop.1 hid.symm)
    · rw [← hw']
      exact ⟨hop, hph⟩

theorem refusal_kept (hk : w.Kept) (hop : w.Holds i op) (hph : op.phase = .prepared candidate)
    (hunput : w.Unput op) :
    Kept { w.goto i c (.refused op candidate) with
      refused := w.refused ++ [(op.id, candidate.commit)] } := by
  have hleaves : Leaves w { w.goto i c (.refused op candidate) with
      refused := w.refused ++ [(op.id, candidate.commit)] } :=
    ⟨fun p hp => mem_append_left _ hp, fun _ _ _ _ _ hl => hl, fun _ _ _ hu => hu,
      fun p hp => hp, fun _ _ _ he => he⟩
  apply hleaves.kept hk rfl rfl
  · exact fun p hp => .inl hp
  · exact fun f hf => .inl hf
  · exact hk.distinct
  · exact fun task t ht ids hids id hid => .inl ⟨t, ht, ids, hids, hid⟩
  · exact fun p hp => .inl hp
  · apply relies_set rfl hk.calls
    · intro j _
      exact ⟨hleaves, fun _ hm => hm, fun x hx => hx.1, fun _ _ hx => hx⟩
    · exact ⟨hop, hph, hunput, mem_append_right _ mem_cons_self⟩

omit [PartialOrder C] in
theorem change_records (reg : Registry C) (f : AgentRecord C → AgentRecord C) :
    (reg.change f).records = reg.records.map f := by
  unfold Registry.change Registry.records Table.filterMap
  simp only [Option.map_some, map_append, append_cancel_right_eq]
  induction reg.agents.rows with
  | nil => rfl
  | cons row rest ih =>
    rw [filterMap_cons]
    simp only [map_cons, ih]

variable {name : String}

omit [PartialOrder C] in
theorem unnamed_narrows (name : String) (spawn : SpawnId) (r : AgentRecord C) :
    r.name = (unnamed name spawn r).name ∧ r.spawn = (unnamed name spawn r).spawn ∧
      ∀ value ∈ (unnamed name spawn r).mergeCommit, value ∈ r.mergeCommit := by
  unfold unnamed
  split
  · refine ⟨rfl, rfl, fun value hvalue => ?_⟩
    cases hvalue
  · exact ⟨rfl, rfl, fun value hvalue => hvalue⟩

omit [PartialOrder C] in
/-- What `settle_revert` asks for, and what it does. -/
theorem settleRevert_ok [DecidableEq C] {reg reg' : Registry C} {spawn : SpawnId} {commit : C}
    {writes : Except String Unit} (h : reg.settleRevert name spawn commit writes = .ok reg') :
    (∀ r ∈ reg.records, matching name spawn r = true → ∀ value ∈ r.mergeCommit, value = commit) ∧
    ∀ r ∈ reg'.records, (r.mergeCommit ≠ some commit ∨ matching name spawn r = false) ∧
      ∃ old ∈ reg.records, old.name = r.name ∧ old.spawn = r.spawn ∧
        ∀ value ∈ r.mergeCommit, value ∈ old.mergeCommit := by
  unfold settleRevert at h
  dsimp only at h
  split at h
  · cases h
  · split at h
    · cases h
    · rename_i hown
      have hcommit : ∀ r ∈ reg.records, matching name spawn r = true →
          ∀ value ∈ r.mergeCommit, value = commit := by
        intro r hr hmatch value hvalue
        by_contra hne
        apply hown
        rw [any_eq_true]
        refine ⟨r, mem_filter.mpr ⟨hr, hmatch⟩, ?_⟩
        rw [Option.mem_def.mp hvalue, Option.any_some, decide_eq_true_iff]
        exact hne
      refine ⟨hcommit, ?_⟩
      split at h
      · cases hwrites : writes with
        | error text =>
          rw [hwrites] at h
          cases h
        | ok u =>
          rw [hwrites] at h
          cases h
          intro r hr
          rw [change_records] at hr
          obtain ⟨old, hold, rfl⟩ := mem_map.mp hr
          obtain ⟨hname, hspawn, hvalue⟩ := unnamed_narrows name spawn old
          refine ⟨?_, old, hold, hname, hspawn, hvalue⟩
          unfold unnamed
          split
          · left
            intro hsome
            cases hsome
          · rename_i hkept
            by_cases hmatch : matching name spawn old = true
            · left
              intro hsome
              apply hkept
              rw [hmatch, hsome]
              rfl
            · right
              exact Bool.eq_false_iff.mpr hmatch
      · rename_i hn
        cases h
        intro r hr
        refine ⟨?_, r, hr, rfl, rfl, fun value hvalue => hvalue⟩
        by_cases hmatch : matching name spawn r = true
        · left
          intro hsome
          apply hn
          rw [any_eq_true]
          refine ⟨r, mem_filter.mpr ⟨hr, hmatch⟩, ?_⟩
          rw [hsome]
          rfl
        · right
          exact Bool.eq_false_iff.mpr hmatch

omit [PartialOrder C] in
theorem narrowed_unnamed (hreg : ∀ r ∈ w'.registry.records, ∃ old ∈ w.registry.records,
    old.name = r.name ∧ old.spawn = r.spawn ∧ ∀ value ∈ r.mergeCommit, value ∈ old.mergeCommit)
    (hu : w.Unnamed op) : w'.Unnamed op := by
  intro r hr hname hspawn hsome
  obtain ⟨old, hold, hn, hs, hvalue⟩ := hreg r hr
  exact hu old hold (hn.trans hname) (hs.trans hspawn) (hvalue _ hsome)

variable {c : Call C}

theorem torn_kept {torn : List (String × SpawnId)} (hk : w.Kept) : Kept { w with torn } := by
  have hsame : Same w { w with torn } := ⟨⟨rfl, rfl, rfl, rfl, rfl, rfl, rfl, rfl⟩, rfl, rfl⟩
  exact hsame.outside.kept_calls hk rfl rfl

theorem settles_kept [DecidableEq C] {io : Io C} (hk : w.Kept) (hop : w.Holds i op)
    (hph : op.phase = .advanced candidate) (hl : w.Landed op candidate) :
    (w.settles i c op candidate io).Kept := by
  unfold Undo.settles
  split
  · exact torn_kept (fails_kept hk)
  · rename_i registry hsettle
    obtain ⟨hcommit, hnarrowed⟩ := settleRevert_ok hsettle
    have hleaves : Leaves w { w.goto i c (.settled op candidate) with
        registry
        torn := if w.registry.liveChanges op.agent op.spawn then [] else w.torn
        cleared := w.cleared ++ ((w.registry.records.filter (matching op.agent op.spawn)).filterMap
            fun r => r.mergeCommit).map fun commit => (op.mergeCommit, commit) } := by
      refine ⟨fun p hp => hp, fun _ _ _ _ _ hl => hl, ?_, fun p hp => hp, fun _ _ _ he => he⟩
      intro x _ _ hu
      exact narrowed_unnamed (fun r hr => (hnarrowed r hr).2) hu
    apply hleaves.kept hk rfl rfl
    · exact fun p hp => .inl hp
    · exact fun f hf => .inl hf
    · exact hk.distinct
    · exact fun task t ht ids hids id hid => .inl ⟨t, ht, ids, hids, hid⟩
    · intro p hp
      cases mem_append.mp hp with
      | inl hold => exact .inl hold
      | inr hnew =>
        right
        obtain ⟨commit, hmem, rfl⟩ := mem_map.mp hnew
        obtain ⟨r, hr, hsome⟩ := mem_filterMap.mp hmem
        have hfilter := mem_filter.mp hr
        exact (hcommit r hfilter.1 hfilter.2 commit hsome).symm
    · apply relies_set rfl hk.calls
      · intro j _
        exact ⟨hleaves, fun _ hm => hm, fun x hx => hx.1, fun _ _ hx => hx⟩
      · refine ⟨hop, hph, hl, ?_⟩
        intro r hr hn hspawn
        cases (hnarrowed r hr).1 with
        | inl hne => exact hne
        | inr hother =>
          have hmatch : matching op.agent op.spawn r = true := by
            unfold matching
            rw [hn, hspawn]
            simp
          rw [hmatch] at hother
          cases hother

omit [PartialOrder C] in
/-- What `revert_delivery` asks for, where it has not been there before. -/
theorem revertDelivery_ok [DecidableEq C] {ticket : Option (Ticket C)} {id target status : String}
    {mergeCommit : C} {operation : RecordId} {writes : Except String Unit} {t : Ticket C}
    (h : revertDelivery ticket id mergeCommit target operation status writes = .ok t)
    (hfirst : ¬ (ticket.any fun t => t.revertOperations.any fun ids => ids.contains operation) =
      true) :
    (∀ value ∈ ticket.bind fun t => t.delivery.commit, value = mergeCommit) ∧
    ∃ old ids, ticket = some old ∧ old.revertOperations = some ids ∧
      t.revertOperations = some (ids ++ [operation]) := by
  unfold revertDelivery at h
  cases ticket with
  | none => cases h
  | some old =>
    rw [Option.any_some] at hfirst
    dsimp only at h
    rw [if_neg hfirst] at h
    cases hrefuses : old.delivery.refuses id mergeCommit target with
    | some text =>
      rw [hrefuses] at h
      cases h
    | none =>
      rw [hrefuses] at h
      cases hreceipts : old.revertOperations with
      | none =>
        rw [hreceipts] at h
        cases h
      | some ids =>
        rw [hreceipts] at h
        cases hwrites : writes with
        | error text =>
          rw [hwrites] at h
          cases h
        | ok u =>
          rw [hwrites] at h
          cases h
          refine ⟨?_, old, ids, rfl, hreceipts, rfl⟩
          intro value hvalue
          rw [Option.bind_some] at hvalue
          unfold DeliveryField.refuses at hrefuses
          cases hdelivery : old.delivery with
          | absent | malformed =>
            rw [hdelivery] at hvalue
            cases hvalue
          | recorded delivery =>
            rw [hdelivery] at hvalue hrefuses
            cases hvalue
            dsimp only at hrefuses
            split at hrefuses
            · cases hrefuses
            · rename_i hsame
              by_contra hne
              exact hsame (.inl hne)

theorem reopens_kept [DecidableEq C] {io : Io C} (hk : w.Kept) (hop : w.Holds i op)
    (hph : op.phase = .advanced candidate) (hl : w.Landed op candidate) (hu : w.Unnamed op) :
    (w.reopens i c op candidate io).Kept := by
  unfold Undo.reopens
  split
  · rename_i task status htask hstatus
    split
    · exact fails_kept hk
    · rename_i ticket hrevert
      split
      · -- The receipt is there: the ticket was moved before.
        rename_i hreceipt
        apply goto_kept hk
        refine ⟨hop, hph, hl, hu, ?_⟩
        obtain ⟨t, ht, hids⟩ := (Option.any_eq_true _ _).mp hreceipt
        obtain ⟨ids, hids, hid⟩ := (Option.any_eq_true _ _).mp hids
        obtain ⟨x, hx, hxid, -, hmoved⟩ := hk.receipts task t ht ids hids op.id
          (contains_iff_mem.mp hid)
        rw [← hk.written.eq_of_key hx hop.1 hxid]
        exact hmoved
      · rename_i hfirst
        obtain ⟨hcommit, old, ids, hold, hids, hnew⟩ := revertDelivery_ok hrevert hfirst
        have hleaves : Leaves w { w.goto i c (.reopened op candidate) with
            tickets := fun id => if id = task then some ticket else w.tickets id
            moved := w.moved ++ [(op.id, task, status)]
            cleared := w.cleared ++ ((w.tickets task).bind fun t => t.delivery.commit).toList.map
              fun commit => (op.mergeCommit, commit) } :=
          ⟨fun p hp => hp, fun _ _ _ _ _ hl => hl, fun _ _ _ hu => hu,
            fun p hp => mem_append_left _ hp, fun _ _ _ he => he⟩
        have hmoved : ∀ task' ∈ op.task, ∀ status' ∈ op.status,
            (op.id, task', status') ∈ w.moved ++ [(op.id, task, status)] := by
          intro task' htask' status' hstatus'
          rw [htask] at htask'
          rw [hstatus] at hstatus'
          cases htask'
          cases hstatus'
          exact mem_append_right _ mem_cons_self
        apply hleaves.kept hk rfl rfl
        · exact fun p hp => .inl hp
        · exact fun f hf => .inl hf
        · exact hk.distinct
        · intro task' t ht ids' hids' id hid
          dsimp only at ht
          by_cases hsame : task' = task
          · rw [if_pos hsame] at ht
            cases ht
            rw [hnew] at hids'
            cases hids'
            cases mem_append.mp hid with
            | inl hbefore =>
              left
              rw [hsame]
              exact ⟨old, hold, ids, hids, hbefore⟩
            | inr hnow =>
              right
              refine ⟨op, hop.1, (mem_singleton.mp hnow).symm, ?_, hmoved⟩
              rw [hsame]
              exact htask
          · rw [if_neg hsame] at ht
            exact .inl ⟨t, ht, ids', hids', hid⟩
        · intro p hp
          cases mem_append.mp hp with
          | inl hbefore => exact .inl hbefore
          | inr hnow =>
            right
            obtain ⟨commit, hmem, rfl⟩ := mem_map.mp hnow
            exact (hcommit commit (Option.mem_toList.mp hmem)).symm
        · apply relies_set rfl hk.calls
          · intro j _
            exact ⟨hleaves, fun _ hm => hm, fun x hx => hx.1, fun _ _ hx => hx⟩
          · exact ⟨hop, hph, hl, hu, hmoved⟩
  · -- The task is no ticket, or there is none.
    rename_i hneither
    apply goto_kept hk
    refine ⟨hop, hph, hl, hu, ?_⟩
    intro task htask status hstatus
    exact absurd hstatus (hneither task status htask)

theorem evidenced_fact (hk : w.Kept) (hop : op ∈ w.operations none)
    (hph : op.phase = .advanced candidate) {f : Fact C} (hf : f ∈ w.facts)
    (hid : f.id = op.factId) : f = op.fact candidate := by
  obtain ⟨x, hx, k, hfact, hxphase⟩ := hk.facts f hf
  have hxid : x.factId = op.factId := by
    rw [hfact] at hid
    exact hid
  have hsame : x = op := hk.factIds x hx op hop hxid
  rw [hsame, hph] at hxphase
  cases hxphase with
  | inl hadvanced =>
    cases hadvanced
    rw [hfact, hsame]
  | inr hcomplete => cases hcomplete

variable {io : Io C}

theorem evidences_kept (hk : w.Kept) (hop : w.Holds i op) (hph : op.phase = .advanced candidate)
    (hl : w.Landed op candidate) (hu : w.Unnamed op) (hm : w.Moved op) :
    (w.evidences i c op candidate io).Kept := by
  unfold Undo.evidences
  split
  · exact fails_kept hk
  · by_cases hthere : (w.facts.any fun f => f.id = op.factId) = true
    · -- It was written before, under this id, and once.
      rw [if_pos hthere]
      apply goto_kept hk
      refine ⟨hop, hph, ⟨hl, hu, hm, ?_⟩⟩
      obtain ⟨f, hf, hid⟩ := any_eq_true.mp hthere
      have hid : f.id = op.factId := of_decide_eq_true hid
      rw [evidenced_fact hk hop.1 hph hf hid] at hf
      exact filter_key_of_mem hk.distinct hf
    · rw [if_neg hthere]
      have hfresh : ∀ f ∈ w.facts, f.id ≠ op.factId := by
        intro f hf hid
        exact hthere (any_eq_true.mpr ⟨f, hf, decide_eq_true hid⟩)
      have habsent : (w.facts.filter fun f => f.id = op.factId) = [] := by
        rw [filter_eq_nil_iff]
        intro f hf hid
        exact hfresh f hf (of_decide_eq_true hid)
      have hleaves : Leaves w { w.goto i c (.evidenced op candidate) with
          facts := w.facts ++ [op.fact candidate] } := by
        refine ⟨fun p hp => hp, fun _ _ _ _ _ hl => hl, fun _ _ _ hu => hu, fun p hp => hp, ?_⟩
        intro x hx k he
        have hne : op.factId ≠ x.factId := by
          intro heq
          unfold Undo.Evidenced at he
          rw [← hk.factIds op hop.1 x hx heq, habsent] at he
          cases he
        unfold Undo.Evidenced
        have hother : ([op.fact candidate].filter fun f => f.id = x.factId) = [] := by
          rw [filter_eq_nil_iff]
          intro f hf heq
          rw [mem_singleton.mp hf] at heq
          exact hne (of_decide_eq_true heq)
        rw [filter_append, he, hother, append_nil]
      apply hleaves.kept hk rfl rfl
      · exact fun p hp => .inl hp
      · intro f hf
        cases mem_append.mp hf with
        | inl hold => exact .inl hold
        | inr hnew => exact .inr ⟨op, hop.1, candidate, mem_singleton.mp hnew, hph⟩
      · exact nodup_concat_key hk.distinct hfresh
      · exact fun task t ht ids hids id hid => .inl ⟨t, ht, ids, hids, hid⟩
      · exact fun p hp => .inl hp
      · apply relies_set rfl hk.calls
        · intro j _
          exact ⟨hleaves, fun _ hm => hm, fun x hx => hx.1, fun _ _ hx => hx⟩
        · refine ⟨hop, hph, ⟨hl, hu, hm, ?_⟩⟩
          unfold Undo.Evidenced
          rw [filter_append, habsent, filter_cons_of_pos (by simp [RevertOperation.fact])]
          rfl

theorem releases_kept [DecidableEq C] (hk : w.Kept) (hop : w.Holds i op)
    (hph : op.phase = .advanced candidate) (hs : w.Settled op candidate) :
    (w.releases i c op candidate).Kept := by
  have hsame : Same w (w.releases i c op candidate) :=
    ⟨⟨rfl, rfl, rfl, rfl, rfl, rfl, rfl, rfl⟩, rfl, rfl⟩
  have hcarries : ∀ j, Carries w (w.releases i c op candidate) j :=
    fun j => hsame.outside.carries fun _ hm => hm
  apply hsame.outside.kept hk
  apply relies_set rfl hk.calls fun j _ => hcarries j
  exact ⟨(hcarries i).holds hop, hph, hsame.settled hs⟩

theorem finds_kept (hk : w.Kept) : (w.finds i c io).Kept := by
  unfold Undo.finds
  dsimp only
  split
  · exact answer_kept hk
  · exact answer_kept hk
  · split
    · exact answer_kept hk
    · exact goto_kept hk trivial

theorem takes_kept (hk : w.Kept) (hfree : w.merging record.place = none) :
    (w.takes i c record).Kept := by
  unfold Undo.takes
  split
  · exact answer_kept hk
  · rename_i current hfind
    have hplace : current.place = record.place := by
      have hmatch := find?_some hfind
      simp only [Bool.and_eq_true, decide_eq_true_eq] at hmatch
      unfold AgentRecord.place
      rw [hmatch.1.2, hmatch.2]
    have hsame : Same w { w.goto i c (.holding current) with
        merging := fun place => if place = record.place then some i else w.merging place } :=
      ⟨⟨rfl, rfl, rfl, rfl, rfl, rfl, rfl, rfl⟩, rfl, rfl⟩
    apply hsame.outside.kept hk
    apply relies_set rfl hk.calls
    · intro j _
      apply hsame.outside.carries
      intro place hm
      dsimp only
      rw [if_neg]
      · exact hm
      · intro heq
        rw [heq, hfree] at hm
        cases hm
    · unfold Undo.Relies
      dsimp only
      rw [if_pos hplace]

theorem mem_of_retried [DecidableEq C] {record : AgentRecord C} (hk : w.Kept)
    (h : w.retried c record = some op) : op ∈ w.operations none := by
  have hfound := (mem_filter.mp (mem_of_maxByKey h)).1
  have hkind : ∀ o e : RevertOperation C, (∃ phase,
      Phase.Leads (fun commit => (o.id, commit) ∈ w.refused) o.phase phase ∧ e = o.next phase) →
      decide (e.repo = record.repoName) = decide (o.repo = record.repoName) := by
    intro o e hnext
    obtain ⟨phase, -, rfl⟩ := hnext
    rfl
  exact ((hk.written.filter hkind).2 op).mp hfound |>.1

theorem chooses_kept [DecidableEq C] {record : AgentRecord C} {io : Io C}
    (hk : w.Kept) (hholding : w.merging record.place = some i) : (w.chooses i c record io).Kept := by
  unfold Undo.chooses
  split
  · rename_i op hretried
    split
    · exact answer_kept hk
    · split
      · exact answer_kept hk
      · rename_i hmatches
        have hplace : op.place = record.place := by
          unfold RevertOperation.place AgentRecord.place
          rw [not_or, not_or] at hmatches
          rw [not_ne_iff.mp hmatches.1, not_ne_iff.mp hmatches.2.1]
        apply goto_kept hk
        refine ⟨mem_of_retried hk hretried, ?_⟩
        rw [hplace]
        exact hholding
  · split
    · exact answer_kept hk
    · split
      · exact answer_kept hk
      · split
        · exact answer_kept hk
        · exact opened_kept hk hholding

section
variable [DecidableEq C] [DecidableLE C] {c : Call C} {io : Io C}

omit [DecidableEq C] in
theorem prepares_kept (hk : w.Kept) (hop : w.Holds i op) (hph : op.phase = .intent) :
    (w.prepares i c op io).Kept := by
  unfold Undo.prepares
  split
  · exact fails_kept hk
  · split
    · exact fails_kept hk
    · split
      · exact answer_kept hk
      · rename_i commit _
        have hsame : Same w { w.goto i c (.made op ⟨commit, w.tips op.place⟩) with
            parked := w.parked ++ [commit] } := ⟨⟨rfl, rfl, rfl, rfl, rfl, rfl, rfl, rfl⟩, rfl, rfl⟩
        apply hsame.outside.kept hk
        apply relies_set rfl hk.calls
        · intro j _
          exact hsame.outside.carries fun _ hm => hm
        · exact ⟨(hsame.outside.carries fun _ hm => hm).holds hop, hph⟩

omit [DecidableEq C] in
theorem tests_kept (hk : w.Kept) (hop : w.Holds i op) (hph : op.phase = .prepared candidate)
    (hanswers : candidate.commit ≤ w.tips op.place → io.answers = true) :
    (w.tests i c op candidate io).Kept := by
  unfold Undo.tests
  split
  · exact fails_kept hk
  · apply goto_kept hk
    refine ⟨hop, hph, ?_⟩
    intro hmissed p hp hid
    obtain ⟨x, hx, hxid, k, hcandidate, -, hlanded⟩ := hk.put p hp
    rw [hk.written.eq_of_key hx hop.1 (hxid.trans hid)] at hcandidate hlanded
    unfold RevertOperation.candidate at hcandidate
    rw [hph] at hcandidate
    cases hcandidate
    unfold Undo.onTarget at hmissed
    rw [hanswers (hlanded hph), Bool.true_and] at hmissed
    exact of_decide_eq_false hmissed (hlanded hph)

theorem advanceTargetTo_moves {tip commit expected : C} {swap : Swap}
    {outcome : Except String AdvanceOutcome}
    (h : advanceTargetTo tip commit expected swap = (outcome, true)) : tip ≤ commit := by
  unfold advanceTargetTo at h
  split at h
  · cases h
  · rename_i hcontains
    split at h
    · cases h
    · rename_i htip
      rw [not_ne_iff.mp htip]
      by_contra hnot
      apply hcontains
      refine ⟨?_, hnot⟩
      intro heq
      rw [heq] at hnot
      exact hnot (le_refl _)

theorem swaps_kept {landed : Bool} (hk : w.Kept) (hop : w.Holds i op)
    (hph : op.phase = .prepared candidate) (hunput : landed = false → w.Unput op) :
    (w.swaps i c op candidate landed io).Kept := by
  unfold Undo.swaps
  split
  · exact goto_kept hk ⟨hop, hph⟩
  · rename_i hlanded
    have hunput := hunput (Bool.eq_false_iff.mpr hlanded)
    split
    · exact fails_kept hk
    · split
      · exact fails_kept hk
      · rename_i moves hadvance
        cases moves with
        | true => exact swap_kept hk hop hph (advanceTargetTo_moves hadvance)
        | false => exact goto_kept hk ⟨hop, hph⟩
      · exact refusal_kept hk hop hph hunput
      · exact fails_kept hk

omit [DecidableEq C] in
theorem confirms_kept (hk : w.Kept) (hop : w.Holds i op) (hph : op.phase = .advanced candidate) :
    (w.confirms i c op candidate io).Kept := by
  unfold Undo.confirms
  split
  · exact fails_kept hk
  · split
    · rename_i hon
      apply goto_kept hk
      refine ⟨hop, hph, ?_⟩
      unfold Undo.onTarget at hon
      rw [Bool.and_eq_true] at hon
      have hl : candidate.commit ≤ w.tips op.place := of_decide_eq_true hon.2
      exact hl
    · exact fails_kept hk

end

omit [PartialOrder C] in
theorem holds_next (hop : w.Holds i op)
    (hmerging : ∀ place, w.merging place = some i → w'.merging place = some i)
    (hnext : op.next phase ∈ w'.operations none) : w'.Holds i (op.next phase) :=
  ⟨hnext, hmerging op.place hop.2⟩

theorem advances_kept (hk : w.Kept) (hop : w.Holds i op)
    (hleads : Phase.Leads (fun commit => (op.id, commit) ∈ w.refused) op.phase phase)
    (hforth : phase ≠ .intent) (hopen : ∀ candidate, phase ≠ .complete candidate) :
    (w.advancePhase i c op phase io fun w op => w.goto i c (.running op)).Kept := by
  unfold Undo.advancePhase
  split
  · exact fails_kept hk
  · have hstill : Still w
        (goto { w with journal := w.journal ++ [op.next phase] } i c (.running (op.next phase))) :=
      ⟨rfl, rfl, rfl, rfl, rfl, rfl, rfl, rfl⟩
    apply persist_kept hk hop hleads (fun heq => absurd heq hforth)
      (fun candidate heq => absurd heq (hopen candidate)) hstill rfl rfl rfl
    · exact fun _ _ _ hm => hm
    · exact holds_next hop fun _ hm => hm

theorem returns_kept {a : RevertOperation C → Answer C} (hk : w.Kept) (hop : w.Holds i op)
    (hleads : Phase.Leads (fun commit => (op.id, commit) ∈ w.refused) op.phase phase)
    (hunput : phase = .intent → w.Unput op)
    (hcomplete : ∀ candidate, phase = .complete candidate → w.Settled op candidate) :
    (w.advancePhase i c op phase io fun w op => w.answer i c (a op)).Kept := by
  unfold Undo.advancePhase
  split
  · exact fails_kept hk
  · have hstill : Still w
        (answer { w with journal := w.journal ++ [op.next phase] } i c (a (op.next phase))) :=
      ⟨rfl, rfl, rfl, rfl, rfl, rfl, rfl, rfl⟩
    apply persist_kept hk hop hleads hunput hcomplete hstill rfl rfl rfl
    · intro j hj place hm
      unfold Undo.answer
      dsimp only
      rw [if_neg]
      · exact hm
      · intro hi
        have hsame : some j = some i := hm.symm.trans hi
        exact hj (Option.some.inj hsame)
    · exact fun _ => trivial

theorem turn_kept [DecidableEq C] [DecidableLE C] {io : Io C} (hk : w.Kept)
    (hr : w.Relies i c.stage)
    (hcalm : ∀ p ∈ c.stage.testing, p.2.commit ≤ w.tips p.1.place → io.answers = true)
    (h : w.turn i c io = some w') : w'.Kept := by
  unfold Undo.turn at h
  generalize hst : c.stage = stage at h hr hcalm
  cases stage with
  | asked =>
    cases h
    exact finds_kept hk
  | queued record =>
    dsimp only at h
    split at h
    · rename_i hfree
      cases h
      exact takes_kept hk (Option.isNone_iff_eq_none.mp hfree)
    · cases h
  | holding record =>
    cases h
    exact chooses_kept hk hr
  | running op =>
    dsimp only at h
    cases hph : op.phase with
    | intent =>
      rw [hph] at h
      cases h
      exact prepares_kept hk hr hph
    | prepared candidate =>
      rw [hph] at h
      cases h
      apply tests_kept hk hr hph
      apply hcalm (op, candidate)
      unfold Stage.testing
      dsimp only
      rw [hph]
      rfl
    | advanced candidate =>
      rw [hph] at h
      cases h
      exact confirms_kept hk hr hph
    | complete candidate =>
      rw [hph] at h
      cases h
      exact answer_kept hk
  | made op candidate =>
    cases h
    apply advances_kept hk hr.1
    · rw [hr.2]
      exact Phase.Leads.prepared candidate
    · intro heq
      cases heq
    · intro k heq
      cases heq
  | tested op candidate landed =>
    cases h
    exact swaps_kept hk hr.1 hr.2.1 hr.2.2
  | swapped op candidate =>
    cases h
    apply advances_kept hk hr.1
    · rw [hr.2]
      exact Phase.Leads.advanced candidate
    · intro heq
      cases heq
    · intro k heq
      cases heq
  | refused op candidate =>
    cases h
    apply returns_kept hk hr.1
    · rw [hr.2.1]
      exact Phase.Leads.refused candidate hr.2.2.2
    · exact fun _ => hr.2.2.1
    · intro k heq
      cases heq
  | confirmed op candidate =>
    cases h
    exact settles_kept hk hr.1 hr.2.1 hr.2.2
  | settled op candidate =>
    cases h
    exact reopens_kept hk hr.1 hr.2.1 hr.2.2.1 hr.2.2.2
  | reopened op candidate =>
    cases h
    exact evidences_kept hk hr.1 hr.2.1 hr.2.2.1 hr.2.2.2.1 hr.2.2.2.2
  | evidenced op candidate =>
    cases h
    exact releases_kept hk hr.1 hr.2.1 hr.2.2
  | released op candidate =>
    cases h
    apply returns_kept hk hr.1
    · rw [hr.2.1]
      exact Phase.Leads.complete candidate
    · intro heq
      cases heq
    · intro k heq
      cases heq
      exact hr.2.2
  | answered a | lost => cases h

theorem call_kept (hk : w.Kept) (hasked : c.stage = .asked) :
    Kept { w with calls := w.calls ++ [c] } := by
  have hsame : Same w { w with calls := w.calls ++ [c] } :=
    ⟨⟨rfl, rfl, rfl, rfl, rfl, rfl, rfl, rfl⟩, rfl, rfl⟩
  apply hsame.outside.kept hk
  intro j c' hc'
  by_cases hj : j < w.calls.length
  · rw [getElem?_append_left hj] at hc'
    exact (hsame.outside.carries fun _ hm => hm).relies hc' (hk.calls j c' hc')
  · rw [getElem?_append_right (Nat.le_of_not_lt hj)] at hc'
    have hl := mem_of_getElem? hc'
    rw [mem_singleton.mp hl, hasked]
    trivial

theorem tips_kept {tips : Place → C} (hk : w.Kept)
    (hlanded : ∀ op ∈ w.operations none, w.Standing op → ∀ candidate,
      op.candidate = some candidate → candidate.commit ≤ w.tips op.place →
        candidate.commit ≤ tips op.place) :
    Kept { w with tips := tips } := by
  have houtside : Outside w { w with tips := tips } :=
    ⟨rfl, rfl, rfl, rfl, rfl, rfl, rfl, fun _ t ht => ⟨t, ht, rfl⟩, hlanded, fun _ _ _ hu => hu⟩
  exact houtside.kept_calls hk rfl rfl

theorem registry_kept {registry : Registry C} {torn : List (String × SpawnId)} (hk : w.Kept)
    (hunnamed : ∀ op ∈ w.operations none, w.Parted op → w.Unnamed op →
      Unnamed { w with registry, torn } op) : Kept { w with registry, torn } := by
  have houtside : Outside w { w with registry, torn } :=
    ⟨rfl, rfl, rfl, rfl, rfl, rfl, rfl, fun _ t ht => ⟨t, ht, rfl⟩, fun _ _ _ _ _ hl => hl, hunnamed⟩
  exact houtside.kept_calls hk rfl rfl

variable {reg : Registry C} {r : AgentRecord C}

omit [PartialOrder C] in
theorem update_records {f : AgentRecord C → AgentRecord C} (hr : r ∈ (reg.update name f).records) :
    r ∈ reg.records ∨ ∃ old ∈ reg.agents.get name, r = f old := by
  cases mem_append.mp hr with
  | inr harchived => exact .inl (mem_append_right _ harchived)
  | inl hl =>
    obtain ⟨row, hrow, rfl⟩ := mem_map.mp hl
    obtain ⟨old, hold, rfl⟩ := mem_map.mp hrow
    split
    · rename_i hn
      right
      refine ⟨old.2, ?_, rfl⟩
      rw [Option.mem_def, Table.get_eq_some_iff, ← hn]
      exact hold
    · left
      exact mem_append_left _ (mem_map_of_mem hold)

omit [PartialOrder C] in
theorem get_records (hr : r ∈ reg.agents.get name) : r ∈ reg.records := by
  rw [Option.mem_def, Table.get_eq_some_iff] at hr
  exact mem_append_left _ (mem_map_of_mem hr)

omit [PartialOrder C] in
theorem archive_records {whole : Bool} (hr : r ∈ (reg.archive name whole).records) :
    r ∈ reg.records := by
  cases mem_append.mp hr with
  | inl hl =>
    obtain ⟨row, hrow, rfl⟩ := mem_map.mp hl
    cases whole with
    | true => exact mem_append_left _ (mem_map_of_mem (mem_filter.mp hrow).1)
    | false => exact mem_append_left _ (mem_map_of_mem hrow)
  | inr harchived =>
    cases mem_append.mp harchived with
    | inl hold => exact mem_append_right _ hold
    | inr hmoved => exact get_records (Option.mem_toList.mp (mem_filter.mp hmoved).1)

theorem edited_kept {task status : String} {delivery : DeliveryField C} (hk : w.Kept) :
    (w.edited task delivery status).Kept := by
  have houtside : Outside w (w.edited task delivery status) := by
    refine ⟨rfl, rfl, rfl, rfl, rfl, rfl, rfl, ?_, fun _ _ _ _ _ hl => hl, fun _ _ _ hu => hu⟩
    intro id t ht
    unfold Undo.edited at ht
    dsimp only at ht
    split at ht
    · obtain ⟨old, hold, rfl⟩ := Option.map_eq_some_iff.mp ht
      exact ⟨old, hold, rfl⟩
    · exact ⟨t, ht, rfl⟩
  exact houtside.kept_calls hk rfl rfl

omit [PartialOrder C] in
theorem reload_records (hr : r ∈ w.reload.records) :
    ∃ old ∈ w.registry.records, old.name = r.name ∧ old.spawn = r.spawn ∧
      ∀ value ∈ r.mergeCommit, value ∈ old.mergeCommit := by
  unfold Undo.reload at hr
  generalize w.registry = reg, w.torn = torn at hr ⊢
  induction torn generalizing reg with
  | nil => exact ⟨r, hr, rfl, rfl, fun _ hvalue => hvalue⟩
  | cons g torn ih =>
    obtain ⟨r', hr', hn, hspawn, hvalue⟩ := ih _ hr
    rcases update_records hr' with hold | ⟨old, hold, rfl⟩
    · exact ⟨r', hold, hn, hspawn, hvalue⟩
    · obtain ⟨hname', hspawn', hvalue'⟩ := unnamed_narrows g.1 g.2 old
      exact ⟨old, get_records hold, hname'.trans hn, hspawn'.trans hspawn,
        fun value hv => hvalue' value (hvalue value hv)⟩

theorem restart_kept [DecidableEq C] {kept : List C} (hk : w.Kept) : (w.restart kept).Kept := by
  have hread : Kept { w with registry := w.reload, torn := [] } := registry_kept hk fun op _ _ hu =>
    narrowed_unnamed (fun r hr => reload_records hr) hu
  have hsame : Same { w with registry := w.reload, torn := [] } (w.restart kept) :=
    ⟨⟨rfl, rfl, rfl, rfl, rfl, rfl, rfl, rfl⟩, rfl, rfl⟩
  apply hsame.outside.kept hread
  intro j c hc
  unfold Undo.restart at hc
  rw [getElem?_map] at hc
  obtain ⟨old, -, rfl⟩ := Option.map_eq_some_iff.mp hc
  unfold Undo.lose
  split
  · rename_i a hanswered
    rw [hanswered]
    trivial
  · trivial

theorem kept_step [DecidableEq C] [DecidableLE C] (m : UndoMove C) (hk : w.Kept)
    (h : w.step m = some w') (hcalm : w.Calm m) : w'.Kept := by
  cases m with
  | call name block exact =>
    cases h
    exact call_kept hk rfl
  | turn i io =>
    obtain ⟨c, hc, hturn⟩ := Option.bind_eq_some_iff.mp h
    exact turn_kept hk (hk.calls i c hc) (hcalm c hc) hturn
  | forward place commit =>
    unfold Undo.step at h
    dsimp only at h
    obtain ⟨hgrow, h⟩ := Option.ite_none_right_eq_some.mp h
    cases h
    apply tips_kept hk
    intro op _ _ k _ hl
    split
    · rename_i hplace
      rw [hplace] at hl
      exact hl.trans hgrow
    · exact hl
  | reset place commit =>
    cases h
    apply tips_kept hk
    intro op hop hstanding k hcandidate hl
    split
    · rename_i hplace
      rw [hplace] at hl
      exact hcalm op hop hstanding hplace k hcandidate hl
    · exact hl
  | deliver name commit =>
    cases h
    apply registry_kept hk
    intro op hop hpast hu r hr hn hspawn
    cases update_records hr with
    | inl hold => exact hu r hold hn hspawn
    | inr hnew =>
      obtain ⟨old, hold, rfl⟩ := hnew
      intro hsome
      exact hcalm op hop hpast old hold hn hspawn (Option.some.inj hsome)
  | close task delivery | edit task delivery status =>
    cases h
    exact edited_kept hk
  | archive name whole =>
    cases h
    apply registry_kept hk
    exact fun op _ _ hu r hr => hu r (archive_records hr)
  | amend name mutate =>
    cases h
    apply registry_kept hk
    intro op _ _ hu r hr
    cases update_records hr with
    | inl hold => exact hu r hold
    | inr hnew =>
      obtain ⟨old, hold, rfl⟩ := hnew
      exact hu old (get_records hold)
  | restart kept =>
    cases h
    exact restart_kept hk

theorem fresh_kept (tips : Place → C) (registry : Registry C)
    (tickets : String → Option (Ticket C)) : (Undo.fresh tips registry tickets).Kept := by
  constructor
  · exact .nil
  · intro op hop
    cases hop
  · intro op hop
    cases hop
  · intro p hp
    cases hp
  · intro op hop
    cases hop
  · intro f hf
    cases hf
  · exact nodup_nil
  · intro task t ht ids hids id hid
    obtain ⟨old, -, rfl⟩ := Option.map_eq_some_iff.mp ht
    cases hids
    cases hid
  · intro p hp
    cases hp
  · intro i c hc
    cases hc

/-- In every state of a run, each operation has put at most one candidate on its target, has gone
through its phases in order, has left nothing undone where it is complete, and has cleared no
delivery but its own. -/
theorem reverts_settle [DecidableEq C] [DecidableLE C] (tips : Place → C) (registry : Registry C)
    (tickets : String → Option (Ticket C)) (ms : List (UndoMove C))
    (hm : Meets Undo.step Undo.Calm (Undo.fresh tips registry tickets) ms) :
    Keeps Undo.step Undo.Settles (Undo.fresh tips registry tickets) ms := by
  have hkept : Keeps Undo.step Undo.Kept (.fresh tips registry tickets) ms :=
    keeps_of_meets (fun _ m _ hk hs hcalm => kept_step m hk hs hcalm)
      (fresh_kept tips registry tickets) hm
  exact hkept.mono fun _ => .of_kept

end

end Undo

end

section
variable {C : Type} [DecidableEq C]

instance (w : Undo C) (op : RevertOperation C) : Decidable (w.Standing op) :=
  inferInstanceAs (Decidable (_ ∨ _))

instance (w : Undo C) (op : RevertOperation C) : Decidable (w.Parted op) :=
  inferInstanceAs (Decidable (_ ∨ _))

instance [PartialOrder C] [DecidableLE C] (w : Undo C) : ∀ m, Decidable (w.Calm m)
  | .call .. => isTrue trivial
  | .turn i io => inferInstanceAs (Decidable (∀ _ ∈ _, _))
  | .forward .. => isTrue trivial
  | .reset place commit => inferInstanceAs (Decidable (∀ _ ∈ _, _))
  | .deliver name commit => inferInstanceAs (Decidable (∀ _ ∈ _, _))
  | .close .. | .edit .. | .archive .. | .amend .. | .restart .. => isTrue trivial

end

/-- A rat whose delivery is the first commit of a straight history. -/
def whisker : AgentRecord Nat where
  name := "Whisker"
  spawn := 9
  repoRoot := "/rats"
  branch := some "rat/whisker/lusab"
  targetBranch := "main"
  mergeCommit := some 1
  createdAt := 0
  repoName := "rats"
  task := some "TKT-lusab"

def kennel : Registry Nat := ⟨⟨[("Whisker", whisker)], by decide⟩, []⟩

def closed : String → Option (Ticket Nat) := fun id =>
  if id = "TKT-lusab" then some ⟨.recorded ⟨1, "rat/whisker/lusab", "main", "noon"⟩, "closed", none⟩
    else none

def delivered : Undo Nat := Undo.fresh (fun _ => 2) kennel closed

def takesUp (i : Nat) : List (UndoMove Nat) :=
  [.call "Whisker" false none, .turn i { }, .turn i { }, .turn i { }]

def cutShort : List (UndoMove Nat) :=
  takesUp 0 ++ [.turn 0 { made := .ok 3 }, .turn 0 { }, .turn 0 { }, .turn 0 { }, .restart []]

/-- The target moves on; git cannot say whether it has the candidate, and the next candidate is
built on it. -/
theorem silent_ancestry_reverts_twice :
    ¬ Keeps Undo.step Undo.Settles delivered (cutShort ++ [.forward ("/rats", "main") 4] ++
      takesUp 1 ++ [.turn 1 { answers := false }, .turn 1 { }, .turn 1 { }] ++
      takesUp 2 ++ [.turn 2 { made := .ok 5 }, .turn 2 { }, .turn 2 { }, .turn 2 { }]) := by
  intro h
  have honce : Keeps Undo.step (fun w => ∀ p ∈ w.put, ∀ q ∈ w.put, p.1 = q.1 → p.2 = q.2) delivered
      (cutShort ++ [.forward ("/rats", "main") 4] ++
        takesUp 1 ++ [.turn 1 { answers := false }, .turn 1 { }, .turn 1 { }] ++
        takesUp 2 ++ [.turn 2 { made := .ok 5 }, .turn 2 { }, .turn 2 { }, .turn 2 { }]) :=
    h.mono fun _ hs => hs.once
  exact not_keeps_of_run (by decide +kernel) honce

/-- The daemon ends again, between the ticket and the fact. -/
theorem reverts_settle_after_restarts :
    Keeps Undo.step Undo.Settles delivered (cutShort ++ [.forward ("/rats", "main") 4] ++
      takesUp 1 ++ [.turn 1 { }, .turn 1 { }, .turn 1 { }, .turn 1 { }, .turn 1 { }, .turn 1 { },
        .restart []] ++
      takesUp 2 ++ [.turn 2 { }, .turn 2 { }, .turn 2 { }, .turn 2 { }, .turn 2 { },
        .turn 2 { }, .deliver "Whisker" 6]) :=
  Undo.reverts_settle (fun _ => 2) kennel closed _ (by decide +kernel)

end RatKingdom.Revert
