/-
The link from an instance to the child of its sub_workflow step.

The link is set before the child is stored, kept when a nested child is joined and
cleared when the top-level cursor advances, and whether it is cleared is told by the
flow that the nested calls hand up.  The flow loses the join when a `break` leaves a
list a child was joined in, and it never had it when a restarted step takes a way
that does not reach its sub_workflow step again.  `Returns` names these places;
`child_links` says that otherwise the link is clear after every advance and each
child is joined by one execution, or again by the same step after a restart.
-/
import RatKingdom.Workflow.Moves

namespace RatKingdom.Workflow

open List Option Frame Move

def Frame.isLoop : Frame → Bool
  | .steps .. => false
  | .loop .. => true

def Control.childId : Control → Option String
  | .linked c _ | .child c _ => some c
  | _ => none

/-- The join made in this execution of the top-level step is not lost: a frame or the
flow remembers it, or the execution is about to end. -/
def Control.carries : Control → Bool
  | .over _ => true
  | .ret .nextAfterNestedSubworkflow _ => true
  | .ret .brk k => k.any joined || !k.any isLoop
  | c => c.frames.any joined

def Control.alone : Control → Bool
  | .linked _ _ | .child _ _ | .ret (.nextWithSubworkflowResult _) _ => false
  | _ => true

variable {c : Control}

theorem carries_of_joined (h : c.frames.any joined = true) : c.carries = true := by
  unfold Control.carries
  split
  · rfl
  · rfl
  · exact Bool.or_eq_true_iff.mpr (.inl h)
  · exact h

theorem joined_of_carries (h : c.carries = true) (hr : ∀ f k, c ≠ .ret f k)
    (ho : ∀ err, c ≠ .over err) : c.frames.any joined = true := by
  unfold Control.carries at h
  split at h
  · exact absurd rfl (ho _)
  · exact absurd rfl (hr _ _)
  · exact absurd rfl (hr _ _)
  · exact h

variable {k : List Frame}

/-- The place a returned flow goes to carries the join, unless a `break` leaves a
list with a join in it for a loop around it. -/
theorem pass_carries {f : Flow} (h : pass f k = .goto c)
    (hb : ∀ fr rest, f = .brk → k = fr :: rest → fr.isLoop = false → fr.joined = true →
      rest.any isLoop = false)
    (hc : (Control.ret f k).carries = true) : c.carries = true := by
  unfold pass at h
  split at h
  · cases h; rfl
  · cases h
  · cases h
  · cases h
  · -- a break leaves a list
    rename_i arm started rest joined k
    cases h
    cases joined with
    | true =>
      have hl := hb (.steps arm started rest true) k rfl rfl rfl rfl
      simp [Control.carries, hl]
    | false => simpa [Control.carries, joined, isLoop] using hc
  · -- a break ends a loop
    rename_i turns left body joined k
    cases h
    cases joined with
    | true => rfl
    | false => simpa [Control.carries, joined, isLoop, Flow.after, Control.frames] using hc
  · rename_i arm started joined k
    cases h
    cases joined with
    | true => rfl
    | false => simpa [Control.carries, joined, Flow.after, Control.frames] using hc
  · cases h
    simpa [Control.carries, joined, Control.frames] using hc
  · rename_i turns body joined k
    cases h
    cases joined with
    | true => rfl
    | false => simpa [Control.carries, joined, Flow.after, Control.frames] using hc
  · cases h
    simpa [Control.carries, joined, Control.frames] using hc
  · cases h; rfl
  · cases h
  · cases h
  all_goals cases h; rfl

theorem runStep_carries (w : Setup) (ctx : WorkflowContext) (k : List Frame) (s : Step)
    (h : k.any joined = true) : (w.runStep ctx k s).carries = true := by
  unfold Setup.runStep
  split
  · simp [Control.carries, h]
  · rfl
  · dsimp only
    split <;> simp [Control.carries, Control.frames, joined, h]
  · simp [Control.carries, Control.frames, joined, h]
  · split
    · rfl
    · exact h
  · split
    · rfl
    · exact h
  · exact h

theorem runStep_alone (w : Setup) (ctx : WorkflowContext) (k : List Frame) (s : Step) :
    (w.runStep ctx k s).alone = true ∧
      ∀ s' ctx' k', w.runStep ctx k s = .busy s' ctx' k' → ctx' = ctx := by
  unfold Setup.runStep
  split
  · exact ⟨rfl, by intro _ _ _ h; cases h⟩
  · exact ⟨rfl, by intro _ _ _ h; cases h⟩
  · dsimp only
    split <;> exact ⟨rfl, by intro _ _ _ h; cases h⟩
  · exact ⟨rfl, by intro _ _ _ h; cases h⟩
  · split
    · exact ⟨rfl, by intro _ _ _ h; cases h⟩
    · exact ⟨rfl, by intro _ _ _ h; cases h; rfl⟩
  · split
    · exact ⟨rfl, by intro _ _ _ h; cases h⟩
    · exact ⟨rfl, by intro _ _ _ h; cases h; rfl⟩
  · exact ⟨rfl, by intro _ _ _ h; cases h; rfl⟩

theorem pass_alone {f : Flow} (h : pass f k = .goto c) :
    c.alone = true ∧ ∀ s ctx k', c ≠ .busy s ctx k' := by
  unfold pass at h
  split at h <;> cases h <;> (try unfold Flow.after; split) <;>
    exact ⟨rfl, by intro _ _ _ h; cases h⟩

/-- An update that leaves the cursor and the link alone. -/
def Change.Quiet (c : Change) : Prop :=
  ∀ i, (c.apply i).currentStep = i.currentStep ∧
    (c.apply i).context.activeSubworkflow = i.context.activeSubworkflow

def Exec.plain : Exec → Bool
  | .link _ | .childAnswer _ | .go => false
  | _ => true

structure Plain (d : Run) (t t' : Task) (m : Move) : Prop where
  mint : m.mint = none
  quiet : ∀ c, m.change = some c → c.Quiet
  index : t'.index = t.index
  carries : t.control.carries = true → t'.control.carries = true
  before : t.control.alone = true
  after : t'.control.alone = true
  context : ∀ s ctx k, t'.control = .busy s ctx k →
    ctx = d.context ∨ ∃ s' k', t.control = .busy s' ctx k'

open Plain

variable {d : Run}

theorem Plain.of_cursor {t : Task} {m : Move} {cur c : Control}
    (hcur : t.control = cur) (hn : ∀ o, m.next o = some (t.at c)) (hm : m.mint = none)
    (hq : ∀ x, m.change = some x → x.Quiet) (hc : cur.carries = true → c.carries = true)
    (hb : cur.alone = true) (ha : c.alone = true)
    (hx : ∀ s ctx k, c = .busy s ctx k → ∃ s' k', cur = .busy s' ctx k') :
    ∃ t', (∀ o, m.next o = some t') ∧ Plain d t t' m := by
  subst hcur
  exact ⟨_, hn,
    { mint := hm
      quiet := hq
      index := rfl
      carries := hc
      before := hb
      after := ha
      context := fun s ctx k h => .inr (hx s ctx k h) }⟩

theorem settle_quiet {ctx : WorkflowContext} {s : Step} {a : Answer} {c : Change}
    (h : settle ctx s a = some (.ok (some c))) : c.Quiet := by
  unfold settle at h
  intro i
  split at h <;> (try split at h) <;> (try split at h) <;> cases h <;> exact ⟨rfl, rfl⟩

variable {w : Setup}

theorem move_plain {t : Task} {e : Exec} {m : Move}
    (h : w.move d t e = some m) (he : e.plain = true) :
    ∃ t', (∀ o, m.next o = some t') ∧ Plain d t t' m := by
  have hn : ∀ x, (none : Option Change) = some x → x.Quiet := by intro x hx; cases hx
  have hflag : ∀ flag x, some (Change.awaiting flag) = some x → x.Quiet := by
    intro flag x hx; cases hx; exact fun i => ⟨rfl, rfl⟩
  unfold Setup.move at h
  split at h
  · rename_i hc
    split at h
    · cases h
      exact of_cursor hc (fun _ => rfl) rfl hn (fun _ => rfl) rfl rfl
        (by intro _ _ _ h; cases h)
    · cases h
      exact of_cursor hc (fun _ => rfl) rfl hn nofun rfl rfl (by intro _ _ _ h; cases h)
  · rename_i s k hc
    cases h
    refine ⟨_, fun _ => rfl, ?_⟩
    obtain ⟨ha, hx⟩ := runStep_alone w d.context k s
    exact
      { mint := rfl
        quiet := hn
        index := rfl
        carries := by
          rw [hc]
          exact fun hj => runStep_carries w d.context k s hj
        before := by rw [hc]; rfl
        after := ha
        context := fun s' ctx k' hb => .inl (hx s' ctx k' hb) }
  · rename_i a s ctx k hc
    split at h
    · cases h
    · cases h
      exact of_cursor hc (fun _ => rfl) rfl hn (fun _ => rfl) rfl rfl
        (by intro _ _ _ h; cases h)
    · cases h
      exact of_cursor hc (fun _ => rfl) rfl hn id rfl rfl (by intro _ _ _ h; cases h)
    · rename_i c hs
      cases h
      exact of_cursor hc (fun _ => rfl) rfl
        (by intro x hx; cases hx; exact settle_quiet hs) id rfl rfl
        (by intro _ _ _ h; cases h)
  · rename_i on ctx k hc
    cases h
    exact of_cursor hc (fun _ => rfl) rfl (hflag _) id rfl rfl
      (by intro _ _ _ h; cases h; exact ⟨_, _, rfl⟩)
  · rename_i on ctx k hc
    cases h
    exact of_cursor hc (fun _ => rfl) rfl (hflag _) id rfl rfl
      (by intro _ _ _ h; cases h; exact ⟨_, _, rfl⟩)
  · rename_i ctx k hc
    cases h
    exact of_cursor hc (fun _ => rfl) rfl (hflag _) id rfl rfl (by intro _ _ _ h; cases h)
  · rename_i k hc
    split at h
    all_goals
      cases h
      exact of_cursor hc (fun _ => rfl) rfl hn id rfl rfl (by intro _ _ _ h; cases h)
  · rename_i msg k hc
    cases h
    exact of_cursor hc (fun _ => rfl) rfl (hflag _) (fun _ => rfl) rfl rfl
      (by intro _ _ _ h; cases h)
  · rename_i k hc
    split at h
    · cases h
      exact of_cursor hc (fun _ => rfl) rfl hn id rfl rfl (by intro _ _ _ h; cases h)
    · cases h
  · rename_i k hc
    cases h
    exact of_cursor hc (fun _ => rfl) rfl hn id rfl rfl (by intro _ _ _ h; cases h)
  · rename_i answer k hc
    cases h
    exact of_cursor hc (fun _ => rfl) rfl (hflag _) id rfl rfl (by intro _ _ _ h; cases h)
  · rename_i text stored k hc
    cases h
    exact of_cursor hc (fun _ => rfl) rfl hn id rfl rfl (by intro _ _ _ h; cases h)
  · rename_i x k hc
    cases h
    exact of_cursor hc (fun _ => rfl) rfl
      (by intro x hx; cases hx; exact fun i => ⟨rfl, rfl⟩) id rfl rfl (by intro _ _ _ h; cases h)
  · cases he
  · cases he
  · cases he
  · cases he
  · cases he
  · cases he
  · cases he
  · cases h

/-- A sub_workflow step took a child's result into the instance: the step's top-level
index, and how often the daemon had been started anew. -/
structure Join where
  child : String
  index : Nat
  boot : Nat

structure Ties where
  boots : Nat
  child : Option String
  own : Bool
  joins : List Join
  /-- The advances after which the link was still set. -/
  leaks : List Nat

def Ties.empty : Ties where
  boots := 0
  child := none
  own := false
  joins := []
  leaks := []

def Ties.join (index : Nat) (b : Ties) : Ties :=
  { b with
    joins := b.joins ++
      (b.child.map fun c => { child := c, index := index, boot := b.boots : Join }).toList }

def Ties.returned (d : Run) (t : Task) (d' : Run) (ok : Bool) (b : Ties) : Ties :=
  match t.control with
  | .ret flow k =>
    match pass flow k with
    | .join v _ => if (d.write (some (.joined v)) ok).1 = .failed then b else b.join t.index
    | .advance clear result =>
      if (d.write (some (.advanced t.index clear result)) ok).1 = .persisted then
        let b := if result.isSome then b.join t.index else b
        { b with
          own := false
          leaks := b.leaks ++ (if d'.context.activeSubworkflow.isSome then [t.index] else []) }
      else b
    | _ => b
  | _ => b

def tie (d : Run) (l : Label) (d' : Run) (b : Ties) : Ties :=
  match l with
  | .restart => { b with boots := b.boots + 1, child := none, own := false }
  | .start => { b with child := none, own := false }
  | .exec (.link _) _ =>
    match d'.task.bind fun t => t.control.childId with
    | some c => if c ∈ d.minted then b else { b with own := true }
    | none => b
  | .exec (.childAnswer (.returned _)) _ =>
    { b with child := d.task.bind fun t => t.control.childId }
  | .exec .go ok => d.task.elim b fun t => b.returned d t d' ok
  | _ => b

/-- The link is clear after every advance, and two joins of one child are made by the
same top-level step, with a restart between them. -/
structure Tied (b : Ties) : Prop where
  clear : b.leaks = []
  apart : b.joins.Pairwise fun x y => x.child = y.child → x.index = y.index ∧ x.boot ≠ y.boot

/-- The conditions on a flow that is returned: no `break` leaves a list a child was
joined in for a loop around it, no child is joined while a call around remembers a
join, and a step that ends without a join is not one whose link an earlier run drew. -/
def Returns (s : Run × Ties) : Flow → List Frame → Prop
  | .brk, fr :: rest => fr.isLoop = false → fr.joined = true → rest.any isLoop = false
  | .nextWithSubworkflowResult _, _ :: rest => rest.any joined = false
  | .next, [] => s.2.own = false → s.1.context.activeSubworkflow = none
  | _, _ => True

def Control.Returning (P : Flow → List Frame → Prop) : Control → Prop
  | .ret f k => P f k
  | _ => True

/-- The condition on a step: a task starts on an instance that is there, and what it
returns is as `Returns` says. -/
def KeepsLink (s : Run × Ties) : Label → Prop
  | .start => s.1.live.isSome = true
  | .exec .go _ => ∀ t ∈ s.1.task, t.control.Returning (Returns s)
  | _ => True

instance (s : Run × Ties) (f : Flow) (k : List Frame) : Decidable (Returns s f k) := by
  unfold Returns; split <;> infer_instance

instance (s : Run × Ties) (c : Control) : Decidable (c.Returning (Returns s)) := by
  unfold Control.Returning; split <;> infer_instance

instance (s : Run × Ties) (l : Label) : Decidable (KeepsLink s l) := by
  unfold KeepsLink; split <;> infer_instance

instance (b : Ties) : Decidable (Tied b) :=
  decidable_of_iff (b.leaks = [] ∧
      b.joins.Pairwise fun x y => x.child = y.child → x.index = y.index ∧ x.boot ≠ y.boot)
    ⟨fun h => ⟨h.1, h.2⟩, fun h => ⟨h.clear, h.apart⟩⟩

def Run.bond (d : Run) : Option (Nat × Option String) :=
  d.held.map fun x => (x.1, x.2.activeSubworkflow)

def Control.holds (b : Ties) : Control → Option String
  | .linked c _ | .child c _ => some c
  | .ret (.nextWithSubworkflowResult _) _ => b.child
  | _ => none

/-- A child drawn by this instance that no other top-level step has joined. -/
def Claimed (s : Run × Ties) (i : Nat) (c : String) : Prop :=
  c ∈ s.1.minted ∧ ∀ j ∈ s.2.joins, j.child = c → j.index = i

/-- What the control of a task at the top-level step `i` may hold. -/
structure Bound (s : Run × Ties) (i : Nat) (c : Control) : Prop where
  busy : ∀ x ctx k child, c = .busy x ctx k → ctx.activeSubworkflow = some child → Claimed s i child
  child : ∀ x, c.holds s.2 = some x → Claimed s i x
  held : c.alone = false → (c.holds s.2).isSome = true
  carried : (∃ j ∈ s.2.joins, j.boot = s.2.boots ∧ j.index = i) → c.carries = true
  own : s.2.own = true → c.carries = true ∨ c.alone = false

structure Linked (s : Run × Ties) : Prop where
  mirror : Mirror s.1
  begun : s.1.begun = true → s.1.bond.isSome = true
  pending : s.1.pending ≠ none → s.1.begun = false
  task : ∀ t, s.1.task = some t →
    s.1.begun = true ∧ (∃ l, s.1.bond = some (t.index, l)) ∧ Bound s t.index t.control
  boots : ∀ j ∈ s.2.joins, j.boot ≤ s.2.boots ∧ (s.1.begun = false → j.boot < s.2.boots)
  joins : ∀ j ∈ s.2.joins, j.child ∈ s.1.minted ∧ ∃ i l, s.1.bond = some (i, l) ∧ j.index ≤ i
  link : ∀ i c, s.1.bond = some (i, some c) → Claimed s i c
  tied : Tied s.2

theorem linked_fresh : Linked (Run.fresh, .empty) where
  mirror := mirror_fresh
  begun := by intro h; cases h
  pending := fun _ => rfl
  task := by intro t ht; cases ht
  boots := by intro j hj; cases hj
  joins := by intro j hj; cases hj
  link := by intro i c h; cases h
  tied := { clear := rfl, apart := List.Pairwise.nil }

variable {d d' : Run}

theorem Claimed.mono {b b' : Ties} {i : Nat} {c : String} (h : Claimed (d, b) i c)
    (hm : ∀ x ∈ d.minted, x ∈ d'.minted) (hj : b'.joins = b.joins) : Claimed (d', b') i c :=
  ⟨hm c h.1, by rw [show (d', b').2.joins = b.joins from hj]; exact h.2⟩

variable {s : Run × Ties}

theorem Claimed.act {i : Nat} {c : String} (h : Claimed s i c) {e : Exec}
    {m : Move} {ok : Bool} {b : Ties} (hj : b.joins = s.2.joins) :
    Claimed (s.1.apply e m ok, b) i c :=
  h.mono (fun _ hx => by rw [apply_minted]; exact mem_append_left _ hx) hj

theorem Bound.of_alone {i : Nat}
    (hb : ∀ x ctx k child, c = .busy x ctx k → ctx.activeSubworkflow = some child →
      Claimed s i child)
    (ha : c.alone = true)
    (hc : (∃ j ∈ s.2.joins, j.boot = s.2.boots ∧ j.index = i) ∨ s.2.own = true →
      c.carries = true) : Bound s i c where
  busy := hb
  child := by
    intro x hx
    unfold Control.holds at hx
    split at hx
    · cases ha
    · cases ha
    · cases ha
    · cases hx
  held := by rw [ha]; intro h; cases h
  carried := fun h => hc (.inl h)
  own := fun h => .inl (hc (.inr h))

theorem bond_of_live {i : Instance} (h : d.live = some i) :
    d.bond = some (i.currentStep, i.context.activeSubworkflow) := by
  simp [Run.bond, held_of_live h, Instance.core]

theorem bond_of_context {c : String} (h : d.context.activeSubworkflow = some c) :
    ∃ i, d.bond = some (i, some c) := by
  unfold Run.context at h
  cases hl : d.live with
  | none => rw [hl] at h; cases h
  | some x =>
    rw [hl] at h
    have hx : x.context.activeSubworkflow = some c := h
    exact ⟨x.currentStep, by rw [bond_of_live hl, hx]⟩

theorem idle_bond {l : Label} (h : w.step d l = some d')
    (hl : ∀ e ok, l ≠ .exec e ok) (hm : Mirror d) :
    Mirror d' ∧ (d'.bond = d.bond ∨ (d.bond = none ∧ d'.bond = some (0, none))) := by
  obtain ⟨hm', hh⟩ := step_held h hl hm
  refine ⟨hm', ?_⟩
  obtain hh | ⟨hn, hs, -⟩ := hh
  · exact .inl (by rw [Run.bond, hh]; rfl)
  · exact .inr ⟨by rw [Run.bond, hn]; rfl, by rw [Run.bond, hs]; rfl⟩

theorem tie_idle {l : Label} (b : Ties) (hl : ∀ e ok, l ≠ .exec e ok)
    (hs : l ≠ .start) (hr : l ≠ .restart) : tie d l d' b = b := by
  cases l with
  | start => exact absurd rfl hs
  | restart => exact absurd rfl hr
  | exec e ok => exact absurd rfl (hl e ok)
  | _ => rfl

theorem Linked.not_joined (h : Linked s) (hn : s.1.bond = none) : s.2.joins = [] := by
  cases hj : s.2.joins with
  | nil => rfl
  | cons j js =>
    obtain ⟨-, i, l, hb, -⟩ := h.joins j (by rw [hj]; exact mem_cons_self)
    rw [hn] at hb
    cases hb

theorem Linked.record (h : Linked s) {b : Ties}
    (hb : d.bond = s.1.bond ∨ (s.1.bond = none ∧ d.bond = some (0, none)))
    (hm : d.minted = s.1.minted) (hj : b.joins = s.2.joins) :
    (∀ j ∈ b.joins, j.child ∈ d.minted ∧ ∃ i l, d.bond = some (i, l) ∧ j.index ≤ i) ∧
      ∀ i c, d.bond = some (i, some c) → Claimed (d, b) i c := by
  obtain hb | ⟨hn, hs⟩ := hb
  · rw [hb, hm, hj]
    exact ⟨h.joins, fun i c hi => (h.link i c hi).mono (fun x hx => hm ▸ hx) hj⟩
  · rw [hj, h.not_joined hn]
    refine ⟨(by intro j hj; cases hj), ?_⟩
    rw [hs]
    intro i c hi
    cases hi

theorem Bound.same {b : Ties} {i : Nat} (h : Bound (d, b) i c) (hm : d'.minted = d.minted) :
    Bound (d', b) i c where
  busy := fun x ctx k child hc hx => (h.busy x ctx k child hc hx).mono (fun _ hx => hm ▸ hx) rfl
  child := fun x hx => (h.child x hx).mono (fun _ hx => hm ▸ hx) rfl
  held := h.held
  carried := h.carried
  own := h.own

theorem Linked.idle {l : Label} (h : Linked s)
    (hs : w.step s.1 l = some d) (hl : ∀ e ok, l ≠ .exec e ok) (hg : KeepsLink s l) :
    Linked (d, tie s.1 l d s.2) := by
  obtain ⟨s, b⟩ := s
  have hi := step_idle hs hl
  obtain ⟨hm, hb⟩ := idle_bond hs hl h.mirror
  have hsome : s.bond.isSome = true → d.bond.isSome = true := by
    obtain hb | ⟨-, hb⟩ := hb
    · rw [hb]; exact id
    · rw [hb]; exact fun _ => rfl
  have hfree : s.live = none ∧ s.archived = none → s.bond = none := by
    intro hn
    simp [Run.bond, held_eq_none.mpr hn]
  obtain ⟨hls, hlr, hbegun⟩ | ⟨rfl, hp, hbegun, hpend⟩ | ⟨rfl, hbegun, htask⟩ := hi.begun
  · -- the book and the start of the task are as before
    rw [tie_idle b hl hls hlr]
    obtain ⟨hj, hk⟩ := h.record (b := b) hb hi.minted rfl
    have htask : ∀ t, d.task = some t → s.task = some t := by
      intro t ht
      obtain hk | hk | ⟨hst, -⟩ := hi.task
      · exact hk ▸ ht
      · rw [hk] at ht; cases ht
      · exact absurd hst hls
    exact
      { mirror := hm
        begun := fun hx => hsome (h.begun (hbegun ▸ hx))
        pending := by
          intro hx
          obtain hx | hx | hx := hi.pending hx
          · exact hbegun.trans (h.pending hx)
          · exact hx
          · cases hbeg : s.begun with
            | false => exact hbegun.trans hbeg
            | true =>
              have hsb := h.begun hbeg
              rw [hfree hx] at hsb
              cases hsb
        task := by
          intro t ht
          obtain ⟨hbt, ⟨x, hx⟩, hbd⟩ := h.task t (htask t ht)
          refine ⟨hbegun.trans hbt, ?_, hbd.same hi.minted⟩
          obtain hb | ⟨hn, -⟩ := hb
          · exact ⟨x, hb.trans hx⟩
          · rw [hn] at hx; cases hx
        boots := fun j hj => ⟨(h.boots j hj).1, fun hx => (h.boots j hj).2 (hbegun ▸ hx)⟩
        joins := hj
        link := hk
        tied := h.tied }
  · -- the task starts where the cursor is
    have hlive : ∃ x, s.live = some x := isSome_iff_exists.mp hg
    obtain ⟨x, hx⟩ := hlive
    have hbs : s.bond = some (x.currentStep, x.context.activeSubworkflow) := bond_of_live hx
    have hbd : d.bond = s.bond := by
      obtain hb | ⟨hn, -⟩ := hb
      · exact hb
      · rw [hn] at hbs; cases hbs
    have hnb : s.begun = false := h.pending (by rw [hp]; simp)
    obtain ⟨hj, hk⟩ := h.record (b := { b with child := none, own := false }) (.inl hbd)
      hi.minted rfl
    exact
      { mirror := hm
        begun := fun _ => by rw [hbd, hbs]; rfl
        pending := by intro hx; exact absurd hpend hx
        task := by
          intro t ht
          have ht' : t = { index := x.currentStep, control := .top } := by
            obtain hk | hk | ⟨-, hk⟩ := hi.task
            · rw [hk] at ht
              have := (h.task t ht).1
              rw [hnb] at this
              cases this
            · rw [hk] at ht; cases ht
            · rw [hk, hx] at ht; cases ht; rfl
          subst ht'
          refine ⟨hbegun, ⟨_, hbd.trans hbs⟩, .of_alone ?_ rfl ?_⟩
          · intro _ _ _ _ hc; cases hc
          · rintro (⟨j, hj, hjb, -⟩ | ho)
            · have := (h.boots j hj).2 hnb
              exact absurd hjb (Nat.ne_of_lt this)
            · cases ho
        boots := by
          intro j hj
          refine ⟨(h.boots j hj).1, ?_⟩
          intro hx
          rw [hbegun] at hx
          cases hx
        joins := hj
        link := hk
        tied := { clear := h.tied.clear, apart := h.tied.apart } }
  · obtain ⟨hj, hk⟩ := h.record
      (b := { b with boots := b.boots + 1, child := none, own := false }) hb hi.minted rfl
    have hlt : ∀ j ∈ b.joins, j.boot < b.boots + 1 := fun j hj =>
      Nat.lt_succ_of_le (h.boots j hj).1
    exact
      { mirror := hm
        begun := by intro hx; rw [hbegun] at hx; cases hx
        pending := fun _ => hbegun
        task := by intro t ht; rw [htask] at ht; cases ht
        boots := fun j hj => ⟨Nat.le_of_lt (hlt j hj), fun _ => hlt j hj⟩
        joins := hj
        link := hk
        tied := { clear := h.tied.clear, apart := h.tied.apart } }

theorem exec_bond {e : Exec} {m : Move} {ok : Bool} (hm : Mirror d)
    (hq : (d.write m.change ok).1 = .persisted → ∀ c, m.change = some c → c.Quiet) :
    (d.apply e m ok).bond = d.bond := by
  obtain ⟨-, ⟨hp, c, i, hc, hl, hh, -⟩ | ⟨-, hh, -⟩⟩ := @exec_held e m ok d hm
  · obtain ⟨hi, hx⟩ := hq hp c hc i
    rw [bond_of_live hl, Run.bond, hh]
    exact congrArg some (Prod.ext hi hx)
  · rw [Run.bond, hh]; rfl

/-- An action that keeps the cursor, the link and the joins owes only the place it
goes to. -/
theorem Linked.act (h : Linked s) {e : Exec} {m : Move} {ok : Bool} {t : Task}
    (ht : s.1.task = some t) {b : Ties} (hb : (s.1.apply e m ok).bond = s.1.bond)
    (hj : b.joins = s.2.joins) (hn : b.boots = s.2.boots) (hl : b.leaks = s.2.leaks)
    (hnext : ∀ t', m.next (s.1.write m.change ok).1 = some t' →
      t'.index = t.index ∧ Bound (s.1.apply e m ok, b) t.index t'.control) :
    Linked (s.1.apply e m ok, b) := by
  obtain ⟨hbegun, hcur, -⟩ := h.task t ht
  have hmint : ∀ x ∈ s.1.minted, x ∈ (s.1.apply e m ok).minted := by
    intro x hx
    exact mem_append_left _ hx
  exact
    { mirror := (exec_held h.mirror).1
      begun := by rw [apply_begun, hb]; exact h.begun
      pending := by rw [apply_pending, apply_begun]; exact h.pending
      task := by
        intro t' ht'
        obtain ⟨hi, hbd⟩ := hnext t' ht'
        rw [apply_begun, hb, hi]
        exact ⟨hbegun, hcur, hbd⟩
      boots := by rw [apply_begun, hj, hn]; exact h.boots
      joins := by
        intro j hj'
        rw [hj] at hj'
        obtain ⟨hc, hi⟩ := h.joins j hj'
        rw [hb]
        exact ⟨hmint _ hc, hi⟩
      link := by
        intro i c hi
        rw [hb] at hi
        exact (h.link i c hi).mono hmint hj
      tied := { clear := hl.trans h.tied.clear, apart := by rw [hj]; exact h.tied.apart } }

theorem tie_plain {e : Exec} {ok : Bool} (b : Ties) (he : e.plain = true) :
    tie d (.exec e ok) d' b = b := by
  cases e with
  | link c | childAnswer a | go => cases he
  | _ => rfl

theorem Linked.claimed_context (h : Linked s) {t : Task}
    (ht : s.1.task = some t) {c : String} (hc : s.1.context.activeSubworkflow = some c) :
    Claimed s t.index c := by
  obtain ⟨i, hi⟩ := bond_of_context hc
  obtain ⟨-, ⟨l, hl⟩, -⟩ := h.task t ht
  have hit : i = t.index := by
    rw [hi] at hl
    exact congrArg Prod.fst (some.inj hl)
  exact hit ▸ h.link i c hi

theorem Linked.plain {e : Exec} {ok : Bool} {t : Task} {m : Move} (h : Linked s)
    (ht : s.1.task = some t) (hm : w.move s.1 t e = some m) (he : e.plain = true) :
    Linked (s.1.apply e m ok, tie s.1 (.exec e ok) (s.1.apply e m ok) s.2) := by
  obtain ⟨t', hn, hp⟩ := move_plain hm he
  obtain ⟨-, -, hbd⟩ := h.task t ht
  have hmint : (s.1.apply e m ok).minted = s.1.minted := by
    rw [apply_minted, hp.mint]
    exact append_nil _
  have hclaim : ∀ i c, Claimed s i c → Claimed (s.1.apply e m ok, s.2) i c := fun i c hc =>
    hc.mono (fun _ hx => hmint ▸ hx) rfl
  rw [tie_plain s.2 he]
  apply h.act ht (exec_bond h.mirror fun _ => hp.quiet) rfl rfl rfl
  intro u hu
  rw [hn] at hu
  cases hu
  refine ⟨hp.index, .of_alone ?_ hp.after ?_⟩
  · intro x ctx k child hc hx
    obtain rfl | ⟨x', k', hc'⟩ := hp.context x ctx k hc
    · exact hclaim _ _ (h.claimed_context ht hx)
    · exact hclaim _ _ (hbd.busy x' ctx k' child hc' hx)
  · rintro (hj | ho)
    · exact hp.carries (hbd.carried hj)
    · obtain hc | hc := hbd.own ho
      · exact hp.carries hc
      · rw [hp.before] at hc
        cases hc

theorem move_link {t : Task} {child : String} {m : Move} (h : w.move d t (.link child) = some m) :
    ∃ ctx k, t.control = .busy .subWorkflow ctx k ∧ link d t ctx k child = some m := by
  unfold Setup.move at h
  split at h
  all_goals first
    | (rename_i he hc; cases he; exact ⟨_, _, hc, h⟩)
    | (rename_i he hc; cases he)
    | cases h

theorem carries_frames {c c' : Control} (hf : c'.frames = c.frames) (hr : ∀ f k, c ≠ .ret f k)
    (ho : ∀ err, c ≠ .over err) (h : c.carries = true) : c'.carries = true :=
  carries_of_joined (hf ▸ joined_of_carries h hr ho)

/-- A fresh child is linked durably. -/
theorem Linked.drawn (h : Linked s) {t : Task} (ht : s.1.task = some t) {e : Exec} {m : Move}
    {ok : Bool} {child : String} (hin : child ∉ s.1.minted) (hc : m.change = some (.linked child))
    (hm : m.mint = some child) (hp : (s.1.write m.change ok).1 = .persisted)
    (hn : m.next .persisted = some (t.at (.linked child k)))
    (hk : t.control.carries = true → (Control.linked child k).carries = true) :
    Linked (s.1.apply e m ok, { s.2 with own := true }) := by
  obtain ⟨hbegun, ⟨l, hcur⟩, hbd⟩ := h.task t ht
  obtain ⟨hmirror, ⟨-, c, i, hc', hl, hh, -⟩ | ⟨hp', -⟩⟩ := @exec_held e m ok s.1 h.mirror
  · rw [hc] at hc'
    cases hc'
    have hit : i.currentStep = t.index := by
      rw [bond_of_live hl] at hcur
      exact congrArg Prod.fst (some.inj hcur)
    have hbond : (s.1.apply e m ok).bond = some (t.index, some child) := by
      rw [Run.bond, hh]
      show some (i.currentStep, some child) = _
      rw [hit]
    have hminted : (s.1.apply e m ok).minted = s.1.minted ++ [child] := by
      rw [apply_minted, hm]; rfl
    -- no join is of a child drawn only now
    have hclaim : ∀ b : Ties, b.joins = s.2.joins → Claimed (s.1.apply e m ok, b) t.index child := by
      intro b hj
      refine ⟨by rw [hminted]; exact mem_append_right _ mem_cons_self, ?_⟩
      intro j hj' hjc
      rw [hj] at hj'
      exact absurd (hjc ▸ (h.joins j hj').1) hin
    exact
      { mirror := hmirror
        begun := fun _ => by rw [hbond]; rfl
        pending := by rw [apply_pending, apply_begun]; exact h.pending
        task := by
          intro t' ht'
          rw [apply_task, hp, hn] at ht'
          cases ht'
          refine ⟨by rw [apply_begun]; exact hbegun, ⟨_, hbond⟩, ?_⟩
          exact
            { busy := by intro _ _ _ _ hb; cases hb
              child := by intro x hx; cases hx; exact hclaim _ rfl
              held := fun _ => rfl
              carried := fun hj => hk (hbd.carried hj)
              own := fun _ => .inr rfl }
        boots := by rw [apply_begun]; exact h.boots
        joins := by
          intro j hj
          obtain ⟨hjm, x, y, hb, hle⟩ := h.joins j hj
          rw [hcur] at hb
          cases hb
          exact ⟨by rw [hminted]; exact mem_append_left _ hjm, _, _, hbond, hle⟩
        link := by
          intro x c hx
          rw [hbond] at hx
          cases hx
          exact hclaim _ rfl
        tied := { clear := h.tied.clear, apart := h.tied.apart } }
  · exact absurd hp hp'

theorem Linked.ends (h : Linked s) {t : Task} (ht : s.1.task = some t)
    {e : Exec} {m : Move} {ok : Bool} {err : Option String}
    (hq : (s.1.write m.change ok).1 = .persisted → ∀ c, m.change = some c → c.Quiet)
    (hn : m.next (s.1.write m.change ok).1 = some (t.at (.over err))) :
    Linked (s.1.apply e m ok, s.2) := by
  apply h.act ht (exec_bond h.mirror hq) rfl rfl rfl
  intro u hu
  rw [hn] at hu
  cases hu
  exact ⟨rfl, .of_alone (by intro _ _ _ _ hc; cases hc) rfl fun _ => rfl⟩

theorem Linked.exec_link {child : String} {ok : Bool} {t : Task} {m : Move} (h : Linked s)
    (ht : s.1.task = some t) (hm : w.move s.1 t (.link child) = some m) :
    Linked (s.1.apply (.link child) m ok,
      tie s.1 (.exec (.link child) ok) (s.1.apply (.link child) m ok) s.2) := by
  obtain ⟨ctx, k, hc, hl⟩ := move_link hm
  obtain ⟨hbegun, ⟨l, hcur⟩, hbd⟩ := h.task t ht
  have hcarries : ∀ c, t.control.carries = true → (Control.linked c k).carries = true := fun c =>
    carries_frames (by rw [hc]; rfl) (by rw [hc]; simp) (by rw [hc]; simp)
  unfold Move.link at hl
  split at hl
  · -- the step takes the child that is linked already
    rename_i existing hx
    cases hl
    have hclaim : Claimed s t.index existing := hbd.busy _ _ _ _ hc hx
    have htie : tie s.1 (.exec (.link child) ok)
        (s.1.apply (.link child) (Move.goto t (.linked existing k)) ok) s.2 = s.2 := by
      simp [tie, Move.goto, Task.at, Control.childId, hclaim.1]
    rw [htie]
    apply h.act ht (exec_bond h.mirror (by intro hp; cases hp)) rfl rfl rfl
    intro u hu
    cases hu
    exact ⟨rfl,
      { busy := by intro _ _ _ _ hc'; cases hc'
        child := by intro x hx'; cases hx'; exact hclaim.act rfl
        held := fun _ => rfl
        carried := fun hj => hcarries _ (hbd.carried hj)
        own := fun _ => .inr rfl }⟩
  · obtain ⟨hin, hl⟩ := ite_none_left_eq_some.mp hl
    by_cases hp : (s.1.write (some (.linked child)) ok).1 = .persisted
    · cases hl
      simp only [tie, apply_task, hp, bind_some, Task.at, Control.childId, hin, if_false]
      exact h.drawn ht hin rfl rfl hp rfl (hcarries _)
    · have hn : m.next (s.1.write m.change ok).1 =
          some (t.at (.over (some "could not durably link sub_workflow"))) := by
        cases hl
        cases ho : (s.1.write (some (.linked child)) ok).1 with
        | persisted => exact absurd ho hp
        | _ => rfl
      have htie : tie s.1 (.exec (.link child) ok) (s.1.apply (.link child) m ok) s.2 = s.2 := by
        simp only [tie, apply_task, hn, bind_some, Task.at, Control.childId]
      rw [htie]
      refine h.ends ht (fun hp' => ?_) hn
      cases hl
      exact absurd hp' hp

def childNext (k : List Frame) (child : String) : ChildAnswer → Control
  | .runs => .child child k
  | .returned v => .ret (.nextWithSubworkflowResult v) k
  | .failed msg => .over (some msg)

theorem move_child {t : Task} {a : ChildAnswer} {m : Move}
    (h : w.move d t (.childAnswer a) = some m) :
    ∃ c k, (t.control = .linked c k ∨ t.control = .child c k) ∧ m = goto t (childNext k c a) := by
  unfold Setup.move at h
  cases hc : t.control with
  | linked c k =>
    rw [hc] at h
    cases a <;> cases h <;> exact ⟨c, k, .inl rfl, rfl⟩
  | child c k =>
    rw [hc] at h
    cases a with
    | runs => cases h
    | returned v | failed msg => cases h; exact ⟨c, k, .inr rfl, rfl⟩
  | _ => rw [hc] at h; cases a <;> cases h

theorem Linked.exec_child {a : ChildAnswer} {ok : Bool} {t : Task} {m : Move} (h : Linked s)
    (ht : s.1.task = some t) (hm : w.move s.1 t (.childAnswer a) = some m) :
    Linked (s.1.apply (.childAnswer a) m ok,
      tie s.1 (.exec (.childAnswer a) ok) (s.1.apply (.childAnswer a) m ok) s.2) := by
  obtain ⟨c, k, hc, rfl⟩ := move_child hm
  obtain ⟨-, -, hbd⟩ := h.task t ht
  have hid : t.control.childId = some c := by
    obtain hc | hc := hc <;> (rw [hc]; rfl)
  have hclaim : Claimed s t.index c := by
    apply hbd.child c
    obtain hc | hc := hc <;> (rw [hc]; rfl)
  have hk : t.control.carries = true → k.any joined = true := by
    obtain hc | hc := hc <;> (rw [hc]; exact id)
  cases a with
  | runs =>
    apply h.act ht (exec_bond h.mirror (by intro hp; cases hp)) rfl rfl rfl
    intro u hu
    cases hu
    exact ⟨rfl,
      { busy := by intro _ _ _ _ hb; cases hb
        child := by intro x hx; cases hx; exact hclaim.act rfl
        held := fun _ => rfl
        carried := fun hj => hk (hbd.carried hj)
        own := fun _ => .inr rfl }⟩
  | returned v =>
    have htie : (s.1.task.bind fun t => t.control.childId) = some c := by
      rw [ht]
      exact hid
    simp only [tie, htie]
    refine h.act ht (exec_bond h.mirror (by intro hp; cases hp)) ?_ ?_ ?_ ?_
    · rfl
    · rfl
    · rfl
    intro u hu
    cases hu
    exact ⟨rfl,
      { busy := by intro _ _ _ _ hb; cases hb
        child := by intro x hx; cases hx; exact hclaim.act rfl
        held := fun _ => rfl
        carried := fun hj => hk (hbd.carried hj)
        own := fun _ => .inr rfl }⟩
  | failed msg => exact h.ends ht (by intro hp; cases hp) rfl

theorem move_go {t : Task} {m : Move} (h : w.move d t .go = some m) :
    ∃ f k, t.control = .ret f k ∧ m = returned t f k := by
  unfold Setup.move at h
  cases hc : t.control with
  | ret f k => rw [hc] at h; cases h; exact ⟨f, k, rfl, rfl⟩
  | _ => rw [hc] at h; cases h

theorem pass_result {v : Value} (h : pass (.nextWithSubworkflowResult v) k = .goto c) :
    c.carries = true := by
  cases k with
  | nil => cases h
  | cons fr k =>
    cases fr with
    | steps arm started rest joined =>
      cases joined with
      | true => cases h; rfl
      | false => cases h
    | loop turns left body joined => cases h

/-- A result that is taken was carried by no call around, so that no join of this
execution came before it. -/
theorem Linked.joinable (h : Linked s) {t : Task} (ht : s.1.task = some t) {v : Value}
    (hc : t.control = .ret (.nextWithSubworkflowResult v) k) (hn : k.any joined = false) :
    ∃ c, s.2.child = some c ∧ Claimed s t.index c ∧
      ∀ j ∈ s.2.joins, j.index = t.index → j.boot ≠ s.2.boots := by
  obtain ⟨-, -, hbd⟩ := h.task t ht
  have hsome : (t.control.holds s.2).isSome = true := hbd.held (by rw [hc]; rfl)
  obtain ⟨c, hch⟩ := isSome_iff_exists.mp hsome
  refine ⟨c, ?_, hbd.child c hch, ?_⟩
  · rw [hc] at hch
    exact hch
  · intro j hj hji hjb
    have hcar := hbd.carried ⟨j, hj, hjb, hji⟩
    rw [hc] at hcar
    have : k.any joined = true := hcar
    rw [hn] at this
    cases this

theorem Ties.join_joins {b : Ties} {c : String} (h : b.child = some c) (i : Nat) :
    (b.join i).joins = b.joins ++ [{ child := c, index := i, boot := b.boots }] := by
  simp [Ties.join, h]

theorem Tied.join (h : Tied s.2) {i : Nat} {c : String} (hc : s.2.child = some c)
    (hcl : Claimed s i c) (hnew : ∀ j ∈ s.2.joins, j.index = i → j.boot ≠ s.2.boots) :
    Tied (s.2.join i) where
  clear := h.clear
  apart := by
    rw [Ties.join_joins hc]
    refine pairwise_append.mpr ⟨h.apart, pairwise_singleton _ _, ?_⟩
    intro x hx y hy hxy
    rw [mem_singleton.mp hy] at hxy ⊢
    have hi : x.index = i := hcl.2 x hx hxy
    exact ⟨hi, hnew x hx hi⟩

theorem tie_go {t : Task} {d' : Run} {ok : Bool} (ht : s.1.task = some t) :
    tie s.1 (.exec .go ok) d' s.2 = s.2.returned s.1 t d' ok := by
  simp [tie, ht]

theorem pass_join {f : Flow} {k k' : List Frame} {v : Value} (h : pass f k = .join v k') :
    ∃ fr rest, f = .nextWithSubworkflowResult v ∧ k = fr :: rest ∧ fr.joined = false ∧
      k'.any joined = true := by
  unfold pass at h
  split at h
  all_goals cases h
  exact ⟨_, _, rfl, rfl, rfl, rfl⟩

theorem pass_advance {f : Flow} {clear : Bool} {result : Option Value}
    (h : pass f k = .advance clear result) :
    k = [] ∧ ((f = .next ∧ clear = false ∧ result = none) ∨
      (∃ v, f = .nextWithSubworkflowResult v ∧ clear = true ∧ result = some v) ∨
      (f = .nextAfterNestedSubworkflow ∧ clear = true ∧ result = none)) := by
  unfold pass at h
  split at h
  all_goals cases h
  · exact ⟨rfl, .inl ⟨rfl, rfl, rfl⟩⟩
  · exact ⟨rfl, .inr (.inl ⟨_, rfl, rfl, rfl⟩)⟩
  · exact ⟨rfl, .inr (.inr ⟨rfl, rfl, rfl⟩)⟩

section
variable {w : Setup} {s : Run × Ties} {ok : Bool} {t : Task} {m : Move} {f : Flow} {k : List Frame}

section
variable (h : Linked s) (ht : s.1.task = some t) (hc : t.control = .ret f k) (hg : Returns s f k)
include h ht hc hg

theorem Linked.go_goto (hp : pass f k = .goto c) : Linked (s.1.apply .go (goto t c) ok, s.2) := by
  obtain ⟨-, -, hbd⟩ := h.task t ht
  obtain ⟨ha, hbusy⟩ := pass_alone hp
  apply h.act ht (exec_bond h.mirror (by intro hp; cases hp)) rfl rfl rfl
  intro u hu
  cases hu
  refine ⟨rfl, .of_alone ?_ ha ?_⟩
  · intro x ctx k' child hb
    exact absurd hb (hbusy x ctx k')
  · -- a break that leaves a joined list for a loop around it is not allowed
    have hcar : t.control.carries = true → c.carries = true := by
      rw [hc]
      apply pass_carries hp
      rintro fr rest rfl rfl
      exact hg
    rintro (hj | ho)
    · exact hcar (hbd.carried hj)
    · obtain hx | hx := hbd.own ho
      · exact hcar hx
      · rw [hc] at hx
        cases f with
        | nextWithSubworkflowResult v => exact pass_result hp
        | _ => cases hx

theorem Linked.go_join {v : Value} {k' : List Frame} (hp : pass f k = .join v k')
    (hm : m.change = some (.joined v))
    (hn : m.next (s.1.write m.change ok).1 = some (t.at (.ret .next k'))) :
    Linked (s.1.apply .go m ok, s.2.join t.index) := by
  obtain ⟨fr, rest, rfl, rfl, hfr, hk'⟩ := pass_join hp
  have hnone : (fr :: rest).any joined = false := by
    rw [any_cons, hfr]
    exact hg
  obtain ⟨hbegun, ⟨l, hcur⟩, -⟩ := h.task t ht
  obtain ⟨c, hch, hcl, hnew⟩ := h.joinable ht hc hnone
  have hb : (s.1.apply .go m ok).bond = s.1.bond := by
    apply exec_bond h.mirror
    intro _ x hx
    rw [hm] at hx
    cases hx
    exact fun i => ⟨rfl, rfl⟩
  have hmint : ∀ x ∈ s.1.minted, x ∈ (s.1.apply .go m ok).minted := fun x hx => by
    exact mem_append_left _ hx
  have hj := Ties.join_joins hch t.index
  exact
    { mirror := (exec_held h.mirror).1
      begun := by rw [apply_begun, hb]; exact h.begun
      pending := by rw [apply_pending, apply_begun]; exact h.pending
      task := by
        intro t' ht'
        rw [apply_task, hn] at ht'
        cases ht'
        rw [apply_begun, hb]
        refine ⟨hbegun, ⟨l, hcur⟩, .of_alone ?_ rfl fun _ => carries_of_joined hk'⟩
        intro _ _ _ _ hx
        cases hx
      boots := by
        intro j hj'
        rw [hj] at hj'
        rw [apply_begun]
        obtain hj' | hj' := mem_append.mp hj'
        · exact h.boots j hj'
        · rw [mem_singleton.mp hj', hbegun]
          exact ⟨Nat.le_refl _, by intro hx; cases hx⟩
      joins := by
        intro j hj'
        rw [hj] at hj'
        rw [hb]
        obtain hj' | hj' := mem_append.mp hj'
        · obtain ⟨hx, hy⟩ := h.joins j hj'
          exact ⟨hmint _ hx, hy⟩
        · rw [mem_singleton.mp hj']
          exact ⟨hmint _ hcl.1, t.index, l, hcur, Nat.le_refl _⟩
      link := by
        intro i x hx
        rw [hb] at hx
        obtain ⟨hy, hz⟩ := h.link i x hx
        refine ⟨hmint _ hy, ?_⟩
        intro j hj' hjc
        rw [hj] at hj'
        obtain hj' | hj' := mem_append.mp hj'
        · exact hz j hj' hjc
        · rw [mem_singleton.mp hj']
          rw [hcur] at hx
          exact congrArg Prod.fst (some.inj hx)
      tied := h.tied.join hch hcl hnew }

theorem Linked.go_advance {clear : Bool} {result : Option Value}
    (hp : pass f k = .advance clear result) (hm : m.change = some (.advanced t.index clear result))
    (hn : m.next .persisted = some { index := t.index + 1, control := .top })
    (ho : (s.1.write m.change ok).1 = .persisted) {b : Ties}
    (hb : b = if result.isSome then s.2.join t.index else s.2) :
    (s.1.apply .go m ok).context.activeSubworkflow = none ∧
      Linked (s.1.apply .go m ok, { b with own := false, leaks := b.leaks ++ [] }) := by
  obtain ⟨rfl, hf⟩ := pass_advance hp
  obtain ⟨hbegun, ⟨l, hcur⟩, hbd⟩ := h.task t ht
  obtain ⟨hmirror, ⟨-, c, i, hc', hl, hh, hlive⟩ | ⟨ho', -⟩⟩ := @exec_held .go m ok s.1 h.mirror
  swap
  · exact absurd ho ho'
  rw [hm] at hc'
  cases hc'
  -- a step that joined nothing leaves a clear link: it drew none, and found none
  have hclear : (if clear = true then none else i.context.activeSubworkflow) = none := by
    obtain ⟨rfl, rfl, rfl⟩ | ⟨v, rfl, rfl, rfl⟩ | ⟨rfl, rfl, rfl⟩ := hf
    · have hown : s.2.own = false := by
        cases hx : s.2.own with
        | false => rfl
        | true =>
          obtain hy | hy := hbd.own hx
          · rw [hc] at hy; cases hy
          · rw [hc] at hy; cases hy
      have hctx : s.1.context = i.context := by simp [Run.context, hl]
      have := hg hown
      rw [hctx] at this
      simpa using this
    · rfl
    · rfl
  have hbond : (s.1.apply .go m ok).bond = some (t.index + 1, none) := by
    rw [Run.bond, hh]
    exact congrArg (fun x => some (t.index + 1, x)) hclear
  have hctx : (s.1.apply .go m ok).context.activeSubworkflow = none := by
    have : (s.1.apply .go m ok).context =
        (Change.advanced t.index clear result).onContext i.context := by
      rw [Run.context, hlive]; rfl
    rw [this]
    exact hclear
  -- the joins are the old ones and perhaps one of this step
  have hjoins : Tied b ∧ b.boots = s.2.boots ∧ b.leaks = s.2.leaks ∧
      ∀ j ∈ b.joins, j ∈ s.2.joins ∨ (j.child ∈ s.1.minted ∧ j.index = t.index ∧
        j.boot = s.2.boots) := by
    cases result with
    | none =>
      subst hb
      exact ⟨h.tied, rfl, rfl, fun j hj => .inl hj⟩
    | some v =>
      have hres : f = .nextWithSubworkflowResult v := by
        obtain ⟨-, -, hx⟩ | ⟨v', rfl, -, hx⟩ | ⟨-, -, hx⟩ := hf
        · cases hx
        · cases hx; rfl
        · cases hx
      subst hres
      subst hb
      obtain ⟨c, hch, hcl, hnew⟩ := h.joinable ht hc rfl
      refine ⟨h.tied.join hch hcl hnew, rfl, rfl, ?_⟩
      intro j hj
      replace hj : j ∈ (s.2.join t.index).joins := hj
      rw [Ties.join_joins hch] at hj
      obtain hj | hj := mem_append.mp hj
      · exact .inl hj
      · rw [mem_singleton.mp hj]
        exact .inr ⟨hcl.1, rfl, rfl⟩
  obtain ⟨htied, hboots, hleaks, hmem⟩ := hjoins
  have hle : ∀ j ∈ b.joins, j.index ≤ t.index := by
    intro j hj
    obtain hj | ⟨-, hj, -⟩ := hmem j hj
    · obtain ⟨-, x, y, hx, hxl⟩ := h.joins j hj
      rw [hcur] at hx
      cases hx
      exact hxl
    · exact Nat.le_of_eq hj
  exact ⟨hctx,
    { mirror := hmirror
      begun := fun _ => by rw [hbond]; rfl
      pending := by rw [apply_pending, apply_begun]; exact h.pending
      task := by
        intro t' ht'
        rw [apply_task, ho, hn] at ht'
        cases ht'
        refine ⟨by rw [apply_begun]; exact hbegun, ⟨none, hbond⟩, .of_alone ?_ rfl ?_⟩
        · intro _ _ _ _ hx; cases hx
        · rintro (⟨j, hj, -, hji⟩ | hx)
          · have hlt : j.index < t.index + 1 := Nat.lt_succ_of_le (hle j hj)
            exact absurd hji (Nat.ne_of_lt hlt)
          · cases hx
      boots := by
        intro j hj
        rw [apply_begun, hboots]
        obtain hj | ⟨-, -, hj⟩ := hmem j hj
        · exact h.boots j hj
        · rw [hbegun, hj]
          exact ⟨Nat.le_refl _, by intro hx; cases hx⟩
      joins := by
        intro j hj
        have hji := hle j hj
        refine ⟨?_, t.index + 1, none, hbond, by omega⟩
        apply mem_append_left
        obtain hj | ⟨hj, -⟩ := hmem j hj
        · exact (h.joins j hj).1
        · exact hj
      link := by
        intro y c hy
        rw [hbond] at hy
        cases hy
      tied :=
        { clear := by rw [append_nil]; exact htied.clear
          apart := htied.apart } }⟩

end

theorem Linked.exec_go (h : Linked s) (ht : s.1.task = some t) (hm : w.move s.1 t .go = some m)
    (hg : KeepsLink s (.exec .go ok)) :
    Linked (s.1.apply .go m ok, tie s.1 (.exec .go ok) (s.1.apply .go m ok) s.2) := by
  obtain ⟨f, k, hc, rfl⟩ := move_go hm
  have hret : Returns s f k := by
    have := hg t ht
    rwa [hc] at this
  rw [tie_go ht]
  unfold Ties.returned
  rw [hc]
  dsimp only
  cases hp : pass f k with
  | goto c =>
    have hmove : returned t f k = goto t c := by rw [returned, hp]
    rw [hmove]
    exact h.go_goto ht hc hret hp
  | panic =>
    have hnext : ∀ o, (returned t f k).next o = none := by
      intro o; rw [returned, hp]
    have hchange : (returned t f k).change = none := by rw [returned, hp]
    refine h.act ht (exec_bond h.mirror ?_) rfl rfl rfl ?_
    · intro ho
      rw [hchange] at ho
      cases ho
    · intro u hu
      rw [hnext] at hu
      cases hu
  | join v k' =>
    have hchange : (returned t f k).change = some (.joined v) := by rw [returned, hp]
    dsimp only
    by_cases ho : (s.1.write (some (.joined v)) ok).1 = .failed
    · rw [if_pos ho]
      refine @Linked.ends s h t ht .go (.returned t f k) ok
        (some "could not persist workflow state") ?_ ?_
      · intro hx
        rw [hchange, ho] at hx
        cases hx
      · rw [hchange, ho, returned, hp]
    · rw [if_neg ho]
      refine h.go_join ht hc hret hp hchange ?_
      rw [hchange, returned, hp]
      cases hx : (s.1.write (some (.joined v)) ok).1 with
      | failed => exact absurd hx ho
      | _ => rfl
  | advance clear result =>
    have hchange : (returned t f k).change = some (.advanced t.index clear result) := by
      rw [returned, hp]
    dsimp only
    by_cases ho : (s.1.write (some (.advanced t.index clear result)) ok).1 = .persisted
    · rw [if_pos ho]
      obtain ⟨hctx, hl⟩ := h.go_advance ht hc hret hp hchange
        (by rw [returned, hp]) (by rw [hchange]; exact ho) rfl
      rw [hctx]
      exact hl
    · rw [if_neg ho]
      refine @Linked.ends s h t ht .go (.returned t f k) ok
        (some "could not durably advance workflow") ?_ ?_
      · intro hx
        rw [hchange] at hx
        exact absurd hx ho
      · rw [hchange, returned, hp]
        cases hx : (s.1.write (some (.advanced t.index clear result)) ok).1 with
        | persisted => exact absurd hx ho
        | _ => rfl

end

theorem linked_step (w : Setup) (s : Run × Ties) (l : Label) (s' : Run × Ties) (h : Linked s)
    (hs : Lib.watched w.step tie s l = some s') (hg : KeepsLink s l) : Linked s' := by
  obtain ⟨d, b⟩ := s'
  obtain ⟨hd, rfl⟩ := Lib.watched_eq_some hs
  by_cases hl : ∃ e ok, l = .exec e ok
  · obtain ⟨e, ok, rfl⟩ := hl
    obtain ⟨t, m, ht, hm, he⟩ := Setup.exec_cases hd
    rw [he]
    cases e with
    | link child => exact h.exec_link ht hm
    | childAnswer a => exact h.exec_child ht hm
    | go => exact h.exec_go ht hm hg
    | _ => exact h.plain ht hm rfl
  · exact h.idle hd (fun e ok he => hl ⟨e, ok, he⟩) hg

/-- Every instance with its run and its book, and the child ids drawn by any. -/
structure Engine where
  runs : String → Run × Ties
  drawn : List String

open Engine

def Engine.fresh : Engine where
  runs := fun _ => (Run.fresh, .empty)
  drawn := []

def Label.draws : Label → Option String
  | .exec (.link child) _ => some child
  | _ => none

/-- A step at one instance; a restart of the daemon is a restart at each.  The ids
that link steps draw are new to all instances. -/
def Engine.step (w : String → Setup) (s : Engine) (a : String × Label) : Option Engine :=
  if a.2.draws.any (· ∈ s.drawn) then none
  else
    (Lib.watched (w a.1).step tie (s.runs a.1) a.2).map fun d =>
      { runs := Function.update s.runs a.1 d, drawn := s.drawn ++ a.2.draws.toList }

/-- Link and joins are in order at every instance, and no child is joined by two. -/
structure Unshared (s : Engine) : Prop where
  tied : ∀ id, Tied (s.runs id).2
  apart : ∀ p q, p ≠ q → ∀ x ∈ (s.runs p).2.joins, ∀ y ∈ (s.runs q).2.joins, x.child ≠ y.child

def KeepsLinks (s : Engine) (a : String × Label) : Prop := KeepsLink (s.runs a.1) a.2
deriving Decidable

structure Engine.Sound (s : Engine) : Prop where
  linked : ∀ id, Linked (s.runs id)
  drawn : ∀ id, ∀ c ∈ (s.runs id).1.minted, c ∈ s.drawn
  owner : ∀ p q c, c ∈ (s.runs p).1.minted → c ∈ (s.runs q).1.minted → p = q

theorem Engine.sound_fresh : fresh.Sound where
  linked := fun _ => linked_fresh
  drawn := by intro id c hc; cases hc
  owner := by intro p q c hc; cases hc

theorem Engine.Sound.unshared {s : Engine} (h : s.Sound) : Unshared s where
  tied := fun id => (h.linked id).tied
  apart := by
    intro p q hpq x hx y hy hxy
    have hp := ((h.linked p).joins x hx).1
    have hq := ((h.linked q).joins y hy).1
    exact hpq (h.owner p q x.child hp (hxy ▸ hq))

theorem move_mint {t : Task} {e : Exec} {m : Move} (h : w.move d t e = some m) :
    m.mint = none ∨ ∃ child, e = .link child ∧ m.mint = some child := by
  cases e with
  | link child =>
    obtain ⟨ctx, k, -, hl⟩ := move_link h
    unfold link at hl
    split at hl
    · cases hl; exact .inl rfl
    · split at hl
      · cases hl
      · cases hl; exact .inr ⟨child, rfl, rfl⟩
  | childAnswer a =>
    obtain ⟨c, k, -, rfl⟩ := move_child h
    exact .inl rfl
  | go =>
    obtain ⟨f, k, -, rfl⟩ := move_go h
    unfold returned
    split <;> exact .inl rfl
  | _ =>
    obtain ⟨t', -, hp⟩ := move_plain h rfl
    exact .inl hp.mint

theorem step_minted {l : Label} (h : w.step d l = some d') :
    ∀ c ∈ d'.minted, c ∈ d.minted ∨ l.draws = some c := by
  by_cases hl : ∃ e ok, l = .exec e ok
  · obtain ⟨e, ok, rfl⟩ := hl
    obtain ⟨t, m, -, hm, rfl⟩ := Setup.exec_cases h
    intro c hc
    rw [apply_minted] at hc
    obtain hc | hc := mem_append.mp hc
    · exact .inl hc
    · obtain hn | ⟨child, rfl, hn⟩ := move_mint hm
      · rw [hn] at hc; cases hc
      · rw [hn] at hc
        rw [mem_singleton.mp hc]
        exact .inr rfl
  · have hi := step_idle h fun e ok he => hl ⟨e, ok, he⟩
    exact fun c hc => .inl (hi.minted ▸ hc)

theorem Engine.sound_step (w : String → Setup) (s : Engine) (a : String × Label) (s' : Engine)
    (h : s.Sound) (hs : step w s a = some s') (hg : KeepsLinks s a) : s'.Sound := by
  unfold step at hs
  obtain ⟨hnew, hs⟩ := ite_none_left_eq_some.mp hs
  obtain ⟨d, hd, rfl⟩ := map_eq_some_iff.mp hs
  have hstep := (Lib.watched_eq_some hd).1
  have hfresh : ∀ c, a.2.draws = some c → c ∉ s.drawn := by
    intro c hc hin
    rw [hc] at hnew
    exact hnew (by simpa using hin)
  have hother : ∀ id, id ≠ a.1 → Function.update s.runs a.1 d id = s.runs id := fun id hid =>
    Function.update_of_ne hid _ _
  have hself : Function.update s.runs a.1 d a.1 = d := Function.update_self _ _ _
  -- an id on a run was drawn before, or just now at this instance
  have hin : ∀ id, ∀ c ∈ (Function.update s.runs a.1 d id).1.minted,
      c ∈ (s.runs id).1.minted ∨ (id = a.1 ∧ a.2.draws = some c) := by
    intro id c hc
    by_cases hid : id = a.1
    · subst hid
      rw [hself] at hc
      exact (step_minted hstep c hc).imp id fun hx => ⟨rfl, hx⟩
    · rw [hother id hid] at hc
      exact .inl hc
  exact
    { linked := by
        intro id
        show Linked (Function.update s.runs a.1 d id)
        by_cases hid : id = a.1
        · subst hid
          rw [hself]
          exact linked_step (w a.1) _ _ d (h.linked a.1) hd hg
        · rw [hother id hid]
          exact h.linked id
      drawn := by
        intro id c hc
        obtain hc | ⟨-, hc⟩ := hin id c hc
        · exact mem_append_left _ (h.drawn id c hc)
        · apply mem_append_right
          rw [hc]
          exact mem_cons_self
      owner := by
        intro p q c hp hq
        obtain hp | ⟨hpa, hp⟩ := hin p c hp
        · obtain hq | ⟨-, hq⟩ := hin q c hq
          · exact h.owner p q c hp hq
          · exact absurd (h.drawn p c hp) (hfresh c hq)
        · obtain hq | ⟨hqa, -⟩ := hin q c hq
          · exact absurd (h.drawn q c hq) (hfresh c hp)
          · rw [hpa, hqa] }

/-- In every run whose returned flows are as `Returns` says, at whichever instance,
the link is clear after every advance of a cursor, and two executions join the same
child only when they are executions of one top-level step with a restart between. -/
theorem child_links (w : String → Setup) (as : List (String × Label))
    (hg : Lib.Meets (step w) KeepsLinks fresh as) :
    Lib.Keeps (step w) Unshared fresh as :=
  (Lib.keeps_of_meets (sound_step w) sound_fresh hg).mono fun _ h => h.unshared

def nested (body : List Step) : Setup where
  steps := [.repeated 1 body]
  requireApprovalForLanding := false

def entersLoop : List Label :=
  [.start, .exec .pick true, .exec .begin true, .exec .go true, .exec .go true, .exec .begin true]

/-- A child is joined inside the loop, the daemon stops before the cursor advances,
and the resumed step takes the same child again. -/
def rejoinRun : List Label :=
  [.launch 0 true] ++ entersLoop ++ [.exec (.link "c") true, .exec (.childAnswer .runs) true,
      .exec (.childAnswer (.returned .null)) true, .exec .go true, .restart,
      .resume true true] ++ entersLoop ++
    [.exec (.link "d") true, .exec (.childAnswer (.returned .null)) true, .exec .go true,
      .exec .go true, .exec .go true, .exec .go true, .exec .go true]

theorem child_links_rejoined :
    Lib.Keeps (step fun _ => nested [.subWorkflow]) Unshared fresh
      (rejoinRun.map fun l => ("p", l)) :=
  child_links (fun _ => nested [.subWorkflow]) _ (by decide +kernel)

/-- A `break` follows the sub_workflow in the loop, and the cursor advances. -/
def breakRun : List Label :=
  [.launch 0 true] ++ entersLoop ++ [.exec (.link "c") true, .exec (.childAnswer .runs) true,
      .exec (.childAnswer (.returned .null)) true, .exec .go true, .exec .go true,
      .exec .begin true, .exec .go true, .exec .go true, .exec .go true]

theorem break_keeps_link :
    ¬ Lib.Keeps (step fun _ => nested [.subWorkflow, .brk]) Unshared fresh
      (breakRun.map fun l => ("p", l)) := by
  intro hk
  have hrun : ((Lib.run (step fun _ => nested [.subWorkflow, .brk]) .fresh
      (breakRun.map fun l => ("p", l))).any fun s => !decide (Tied (s.runs "p").2)) = true := by
    decide +kernel
  obtain ⟨s, hs, hn⟩ := Lib.run_of_any hrun
  have ht := (hk.last hs).tied "p"
  simp [ht] at hn

end RatKingdom.Workflow
