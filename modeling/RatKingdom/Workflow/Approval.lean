/-
Approval gates and the decisions they act on.

A decision is a permanent tuple that a gate reads by the instance's id alone, oldest
first.  The book says where the instance was parked when each decision was recorded,
and which decision each gate acted on.  `one_gate` holds in the runs in which the
oldest decision a gate finds when it looks, if it finds one, was recorded for this
very gate and not yet acted on; `first_decision_opens_second_gate` is a run in which
the decision of one gate is still there for the next.
-/
import RatKingdom.Workflow.Moves

namespace RatKingdom.Workflow

open List

def Control.answer : Control → Option Decision
  | .got answer _ | .acting answer _ => answer
  | _ => none

def Control.isWaiting : Control → Bool
  | .waiting _ => true
  | _ => false

def Control.Open (c : Control) : Prop := c.isWaiting = false ∧ c.answer = none

theorem runStep_open (w : Setup) (ctx : WorkflowContext) (k : List Frame) (s : Step) :
    (w.runStep ctx k s).Open := by
  unfold Setup.runStep
  split
  · exact ⟨rfl, rfl⟩
  · exact ⟨rfl, rfl⟩
  · dsimp only
    split <;> exact ⟨rfl, rfl⟩
  · exact ⟨rfl, rfl⟩
  · split <;> exact ⟨rfl, rfl⟩
  · split <;> exact ⟨rfl, rfl⟩
  · exact ⟨rfl, rfl⟩

variable {k : List Frame}

theorem pass_open {f : Flow} {c : Control} (h : pass f k = .goto c) : c.Open := by
  unfold pass at h
  split at h <;> cases h <;> exact ⟨rfl, rfl⟩

variable {t t' : Task} {o : Written}

theorem returned_open {f : Flow} (h : (Move.returned t f k).next o = some t') :
    t'.control.Open := by
  unfold Move.returned at h
  split at h
  · rename_i c hp
    cases h
    exact pass_open hp
  · cases o <;> cases h <;> exact ⟨rfl, rfl⟩
  · cases o <;> cases h <;> exact ⟨rfl, rfl⟩
  · cases h

variable {d : Run} {m : Move}

theorem link_open {ctx : WorkflowContext} {child : String} (h : Move.link d t ctx k child = some m)
    (hn : m.next o = some t') : t'.control.Open := by
  unfold Move.link at h
  split at h
  · cases h; cases hn; exact ⟨rfl, rfl⟩
  · split at h
    · cases h
    · cases h
      cases o <;> cases hn <;> exact ⟨rfl, rfl⟩

inductive GateMove (d : Run) (t t' : Task) : Exec → Prop
  | register {k : List Frame} (h : t.control = .parked k) (hn : t'.control = .waiting k)
      (hd : d.decisions = []) : GateMove d t t' .look
  | found {k : List Frame} {x : Decision} (h : t.control = .parked k)
      (hn : t'.control = .got (some x) k) (hd : d.decisions.head? = some x) : GateMove d t t' .look
  | woken {k : List Frame} {x : Decision} (h : t.control = .waiting k)
      (hn : t'.control = .got (some x) k) (hd : d.decisions.head? = some x) : GateMove d t t' .wake
  | resolved {k : List Frame} {a : Option Decision} (h : t.control = .got a k)
      (hn : t'.control = .acting a k) : GateMove d t t' .resolve
  | refused {k : List Frame} {text : String} {stored : Bool} (h : t.control = .acting none k)
      (hn : t'.control = .acting (some { id := d.stamp, approved := false, text := text }) k) :
      GateMove d t t' (.refuse text stored)

variable {w : Setup} {e : Exec}

/-- Every action of the task is one of these or ends where no decision is at stake. -/
theorem move_gate (h : w.move d t e = some m) (hn : m.next o = some t') :
    t'.index = t.index ∧ GateMove d t t' e ∨ t'.control.Open := by
  unfold Setup.move at h
  split at h
  · split at h <;> (cases h; cases hn; exact .inr ⟨rfl, rfl⟩)
  · cases h; cases hn; exact .inr (runStep_open w _ _ _)
  · split at h
    · cases h
    all_goals cases h; cases hn; exact .inr ⟨rfl, rfl⟩
  · cases h; cases hn; exact .inr ⟨rfl, rfl⟩
  · cases h; cases hn; exact .inr ⟨rfl, rfl⟩
  · cases h; cases hn; exact .inr ⟨rfl, rfl⟩
  · split at h
    · cases h; cases hn
      rename_i hc _ _ hd
      exact .inl ⟨rfl, .found hc rfl hd⟩
    · cases h; cases hn
      refine .inl ⟨rfl, .register ?_ rfl ?_⟩
      · assumption
      · rename_i hd; exact head?_eq_none_iff.mp hd
  · cases h; cases hn; exact .inr ⟨rfl, rfl⟩
  · split at h
    · cases h; cases hn
      rename_i hc _ _ hd
      exact .inl ⟨rfl, .woken hc rfl hd⟩
    · cases h
  · cases h; cases hn; exact .inr ⟨rfl, rfl⟩
  · cases h; cases hn
    refine .inl ⟨rfl, .resolved ?_ rfl⟩; assumption
  · cases h; cases hn
    refine .inl ⟨rfl, .refused ?_ rfl⟩; assumption
  · cases h; cases hn; exact .inr ⟨rfl, rfl⟩
  · exact .inr (link_open h hn)
  · cases h; cases hn; exact .inr ⟨rfl, rfl⟩
  · cases h; cases hn; exact .inr ⟨rfl, rfl⟩
  · cases h; cases hn; exact .inr ⟨rfl, rfl⟩
  · cases h; cases hn; exact .inr ⟨rfl, rfl⟩
  · cases h; cases hn; exact .inr ⟨rfl, rfl⟩
  · cases h; exact .inr (returned_open hn)
  · cases h

theorem move_out (h : w.move d t e = some m) (he : ∀ text stored, e ≠ .refuse text stored) :
    m.out = none := by
  unfold Setup.move at h
  split at h
  · split at h
    · cases h; rfl
    · cases h; rfl
  · cases h; rfl
  · split at h
    · cases h
    · cases h; rfl
    · cases h; rfl
    · cases h; rfl
  · cases h; rfl
  · cases h; rfl
  · cases h; rfl
  · split at h
    · cases h; rfl
    · cases h; rfl
  · cases h; rfl
  · split at h
    · cases h; rfl
    · cases h
  · cases h; rfl
  · cases h; rfl
  · exact absurd rfl (he _ _)
  · cases h; rfl
  · unfold Move.link at h
    split at h
    · cases h; rfl
    · split at h
      · cases h
      · cases h; rfl
  · cases h; rfl
  · cases h; rfl
  · cases h; rfl
  · cases h; rfl
  · cases h; rfl
  · cases h
    unfold Move.returned
    split <;> rfl
  · cases h

def Run.parkedAt (d : Run) : Option Spot :=
  d.task.bind fun t => if t.control.isParked then some t.spot else none

def Run.ruling (d : Run) : Option (Nat × Spot) :=
  d.task.bind fun t =>
    match t.control with
    | .acting (some x) _ => some (x.id, t.spot)
    | _ => none

/-- By decision: the gate the instance was parked at when it was recorded, and the
gate that acted on it. -/
structure Rulings where
  recorded : List (Nat × Option Spot)
  acted : List (Nat × Spot)

def Rulings.empty : Rulings where
  recorded := []
  acted := []

def rule (d : Run) (l : Label) (_ : Run) (b : Rulings) : Rulings :=
  match l with
  | .approve _ _ => { b with recorded := b.recorded ++ [(d.stamp, d.parkedAt)] }
  | .exec (.refuse _ _) _ =>
    { b with recorded := b.recorded ++ [(d.stamp, d.task.map Task.spot)] }
  | .exec .grant _ => { b with acted := b.acted ++ d.ruling.toList }
  | _ => b

/-- Every decision a gate acted on was recorded once, while the instance was parked
at that gate, and no decision was acted on twice. -/
structure OneGate (b : Rulings) : Prop where
  ids : (b.recorded.map Prod.fst).Nodup
  bound : ∀ a ∈ b.acted, (a.1, some a.2) ∈ b.recorded
  once : (b.acted.map Prod.fst).Nodup

/-- A decision for the gate at `p` that no gate has acted on. -/
def Due (b : Rulings) (p : Spot) (x : Decision) : Prop :=
  (x.id, some p) ∈ b.recorded ∧ x.id ∉ b.acted.map Prod.fst
deriving Decidable

variable {b : Rulings}

theorem Due.recorded {p : Spot} {x : Decision} (h : Due b p x) (r : List (Nat × Option Spot)) :
    Due { b with recorded := b.recorded ++ r } p x :=
  ⟨mem_append_left _ h.1, h.2⟩

/-- The condition on a gate that looks for its decision: the oldest one of the
instance, when there is one, is due to this gate. -/
def Fits (s : Run × Rulings) : Label → Prop
  | .exec .look _ => ∀ x ∈ s.1.decisions.head?, ∀ p ∈ s.1.parkedAt, Due s.2 p x
  | _ => True

structure Ruled (s : Run × Rulings) : Prop where
  fresh : ∀ r ∈ s.2.recorded, r.1 < s.1.stamp
  safe : OneGate s.2
  waiting : ∀ t, s.1.task = some t → t.control.isWaiting = true →
    ∀ x ∈ s.1.decisions, Due s.2 t.spot x
  held : ∀ t x, s.1.task = some t → t.control.answer = some x → Due s.2 t.spot x

instance (s : Run × Rulings) (l : Label) : Decidable (Fits s l) := by
  unfold Fits; split <;> infer_instance

instance (b : Rulings) : Decidable (OneGate b) :=
  decidable_of_iff
    ((b.recorded.map Prod.fst).Nodup ∧ (∀ a ∈ b.acted, (a.1, some a.2) ∈ b.recorded) ∧
      (b.acted.map Prod.fst).Nodup)
    ⟨fun h => ⟨h.1, h.2.1, h.2.2⟩, fun h => ⟨h.ids, h.bound, h.once⟩⟩

theorem ruled_fresh : Ruled (Run.fresh, .empty) where
  fresh := by intro r hr; cases hr
  safe :=
    { ids := nodup_nil
      bound := by intro a ha; cases ha
      once := nodup_nil }
  waiting := by intro t ht; cases ht
  held := by intro t x ht; cases ht

variable {s : Run × Rulings}

theorem Ruled.not_acted (h : Ruled s) : s.1.stamp ∉ s.2.acted.map Prod.fst := by
  intro hm
  obtain ⟨a, ha, he⟩ := mem_map.mp hm
  have hr := h.fresh _ (h.safe.bound a ha)
  omega

theorem OneGate.record (h : OneGate b) {n : Nat} (hn : ∀ r ∈ b.recorded, r.1 < n)
    (p : Option Spot) : OneGate { b with recorded := b.recorded ++ [(n, p)] } where
  ids := by
    have hx : n ∉ b.recorded.map Prod.fst := by
      intro hm
      obtain ⟨r, hr, rfl⟩ := mem_map.mp hm
      exact absurd (hn r hr) (Nat.lt_irrefl _)
    simpa [nodup_append] using ⟨h.ids, fun a q hq ha => hx (mem_map.mpr ⟨(a, q), hq, ha⟩)⟩
  bound := fun a ha => mem_append_left _ (h.bound a ha)
  once := h.once

theorem rule_idle {d' : Run} {l : Label} (b : Rulings) (hl : ∀ e ok, l ≠ .exec e ok)
    (ha : ∀ approved text, l ≠ .approve approved text) : rule d l d' b = b := by
  cases l with
  | approve approved text => exact absurd rfl (ha approved text)
  | exec e ok => exact absurd rfl (hl e ok)
  | _ => rfl

theorem Ruled.record_waiting (h : Ruled s) (ht : s.1.task = some t)
    (hw : t.control.isWaiting = true) (approved : Bool) (text : String) :
    Due { s.2 with recorded := s.2.recorded ++ [(s.1.stamp, s.1.parkedAt)] } t.spot
      { id := s.1.stamp, approved := approved, text := text } := by
  have hp : s.1.parkedAt = some t.spot := by
    cases hc : t.control with
    | waiting k => simp [Run.parkedAt, ht, hc, Control.isParked]
    | _ => simp [hc, Control.isWaiting] at hw
  refine ⟨?_, h.not_acted⟩
  rw [hp]
  exact mem_append_right _ mem_cons_self

theorem Ruled.idle {l : Label} (h : Ruled s) (hs : w.step s.1 l = some d)
    (hl : ∀ e ok, l ≠ .exec e ok) : Ruled (d, rule s.1 l d s.2) := by
  have hi := step_idle hs hl
  -- the task is the one before, or it starts with no decision at stake
  have htask : ∀ t, d.task = some t →
      s.1.task = some t ∨ (t.control.isWaiting = false ∧ t.control.answer = none) := by
    intro t ht
    obtain hk | hk | ⟨-, hk⟩ := hi.task
    · exact .inl (hk ▸ ht)
    · rw [hk] at ht; cases ht
    · rw [hk] at ht; cases ht; exact .inr ⟨rfl, rfl⟩
  obtain ⟨hd, hst⟩ | ⟨approved, text, rfl, hst, hd⟩ := hi.decisions
  · have hr : rule s.1 l d s.2 = s.2 := by
      apply rule_idle _ hl
      rintro approved text rfl
      simp only [Setup.step, Run.approve] at hs
      split at hs
      · cases hs
        exact absurd hst (Nat.succ_ne_self _)
      · cases hs
    rw [hr]
    exact
      { fresh := fun r hr => by rw [hst]; exact h.fresh r hr
        safe := h.safe
        waiting := by
          intro t ht hw x hx
          obtain ht | ⟨hc, -⟩ := htask t ht
          · exact h.waiting t ht hw x (hd ▸ hx)
          · rw [hc] at hw; cases hw
        held := by
          intro t x ht hx
          obtain ht | ⟨-, hc⟩ := htask t ht
          · exact h.held t x ht hx
          · rw [hc] at hx; cases hx }
  · exact
      { fresh := by
          intro r hr
          rw [hst]
          obtain hr | hr := mem_append.mp hr
          · exact Nat.lt_succ_of_lt (h.fresh r hr)
          · rw [mem_singleton.mp hr]
            exact Nat.lt_succ_self _
        safe := h.safe.record h.fresh _
        waiting := by
          intro t ht hw x hx
          obtain ht | ⟨hc, -⟩ := htask t ht
          · rw [hd] at hx
            obtain hx | hx := mem_append.mp hx
            · exact (h.waiting t ht hw x hx).recorded _
            · rw [mem_singleton.mp hx]
              exact h.record_waiting ht hw approved text
          · rw [hc] at hw; cases hw
        held := by
          intro t x ht hx
          obtain ht | ⟨-, hc⟩ := htask t ht
          · exact (h.held t x ht hx).recorded _
          · rw [hc] at hx; cases hx }

theorem spot_of_frames (hi : t'.index = t.index) (hf : t'.control.frames = t.control.frames) :
    t'.spot = t.spot := by
  unfold Task.spot
  rw [hi, hf]

theorem Ruled.ruling (h : Ruled s) {a : Nat × Spot} (ha : s.1.ruling = some a) :
    (a.1, some a.2) ∈ s.2.recorded ∧ a.1 ∉ s.2.acted.map Prod.fst := by
  unfold Run.ruling at ha
  cases ht : s.1.task with
  | none => rw [ht] at ha; cases ha
  | some t =>
    rw [ht, Option.bind_some] at ha
    split at ha
    · rename_i x k hc
      cases ha
      exact h.held t x ht (by rw [hc]; rfl)
    · cases ha

theorem OneGate.act (h : OneGate b) {a : Nat × Spot} (hr : (a.1, some a.2) ∈ b.recorded)
    (hn : a.1 ∉ b.acted.map Prod.fst) :
    OneGate { b with acted := b.acted ++ [a] } where
  ids := h.ids
  bound := by
    intro c hc
    obtain hc | hc := mem_append.mp hc
    · exact h.bound c hc
    · rw [mem_singleton.mp hc]
      exact hr
  once := by
    rw [map_append]
    refine nodup_append.mpr ⟨h.once, by simp, ?_⟩
    intro i hi j hj hij
    rw [map_singleton, mem_singleton] at hj
    exact hn (hj ▸ hij ▸ hi)

theorem Ruled.note (h : Ruled s) (e : Exec) (ok : Bool) (d : Run) :
    (∀ r ∈ (rule s.1 (.exec e ok) d s.2).recorded, r.1 < s.1.stamp + e.stamps) ∧
      OneGate (rule s.1 (.exec e ok) d s.2) := by
  cases e with
  | refuse text stored =>
    refine ⟨fun r hr => ?_, h.safe.record h.fresh _⟩
    obtain hr | hr := mem_append.mp hr
    · exact Nat.lt_succ_of_lt (h.fresh r hr)
    · rw [mem_singleton.mp hr]
      exact Nat.lt_succ_self _
  | grant =>
    refine ⟨h.fresh, ?_⟩
    cases ha : s.1.ruling with
    | none => simpa [rule, ha] using h.safe
    | some a =>
      obtain ⟨hr, hn⟩ := h.ruling ha
      simpa only [rule, ha, Option.toList_some] using h.safe.act hr hn
  | _ => exact ⟨h.fresh, h.safe⟩

theorem Ruled.exec {ok : Bool} (h : Ruled s) (hs : w.step s.1 (.exec e ok) = some d)
    (hg : Fits s (.exec e ok)) :
    Ruled (d, rule s.1 (.exec e ok) d s.2) := by
  obtain ⟨t, m, ht, hm, rfl⟩ := Setup.exec_cases hs
  obtain ⟨hfresh, hsafe⟩ := h.note e ok (s.1.apply e m ok)
  refine { fresh := hfresh, safe := hsafe, waiting := ?_, held := ?_ }
  · intro t' ht' hw x hx
    obtain ⟨hi, hgm⟩ | hopen := move_gate hm ht'
    · cases hgm with
      | register hc hn hd =>
        have ho := move_out hm (by intro text stored he; cases he)
        simp [hd, ho] at hx
      | found hc hn hd | woken hc hn hd | resolved hc hn | refused hc hn => rw [hn] at hw; cases hw
    · rw [hopen.1] at hw; cases hw
  · intro t' x ht' hx
    obtain ⟨hi, hgm⟩ | hopen := move_gate hm ht'
    · have hspot : t'.control.frames = t.control.frames → t'.spot = t.spot := spot_of_frames hi
      cases hgm with
      | register hc hn hd => rw [hn] at hx; cases hx
      | found hc hn hd =>
        rw [hn] at hx
        cases hx
        rw [hspot (by rw [hc, hn]; rfl)]
        exact hg x hd t.spot (by simp [Run.parkedAt, ht, hc, Control.isParked])
      | woken hc hn hd =>
        rw [hn] at hx
        cases hx
        rw [hspot (by rw [hc, hn]; rfl)]
        exact h.waiting t ht (by rw [hc]; rfl) x (mem_of_head? hd)
      | resolved hc hn =>
        rw [hn] at hx
        rw [hspot (by rw [hc, hn]; rfl)]
        exact h.held t x ht (by rw [hc]; exact hx)
      | refused hc hn =>
        rw [hn] at hx
        cases hx
        rw [hspot (by rw [hc, hn]; rfl)]
        refine ⟨mem_append_right _ ?_, h.not_acted⟩
        rw [ht]
        exact mem_cons_self
    · rw [hopen.2] at hx; cases hx

theorem ruled_step (w : Setup) (s : Run × Rulings) (l : Label) (s' : Run × Rulings)
    (h : Ruled s) (hs : Lib.watched w.step rule s l = some s') (hg : Fits s l) : Ruled s' := by
  obtain ⟨d, b⟩ := s'
  obtain ⟨hd, rfl⟩ := Lib.watched_eq_some hs
  by_cases hl : ∃ e ok, l = .exec e ok
  · obtain ⟨e, ok, rfl⟩ := hl
    exact h.exec hd hg
  · exact h.idle hd (fun e ok he => hl ⟨e, ok, he⟩)

/-- In every run whose gates find, when they look, no decision but one that is due
to them, each gate acts on a decision recorded while the instance was parked at it,
and no decision is acted on twice. -/
theorem one_gate (w : Setup) (ls : List Label)
    (hg : Lib.Meets (Lib.watched w.step rule) Fits (Run.fresh, .empty) ls) :
    Lib.Keeps (Lib.watched w.step rule) (fun s => OneGate s.2) (Run.fresh, .empty) ls :=
  (Lib.keeps_of_meets (ruled_step w) ruled_fresh hg).mono fun _ h => h.safe

def gated (gates : Nat) : Setup where
  steps := List.replicate gates .approval
  requireApprovalForLanding := true

def gateLooks : List Label :=
  [.exec .pick true, .exec .begin true, .exec .park true, .exec .look true]

/-- The daemon stops after the decision was recorded; the gate is entered again and
takes it. -/
theorem one_gate_reentered :
    Lib.Keeps (Lib.watched (gated 1).step rule) (fun s => OneGate s.2) (Run.fresh, .empty)
      ([.launch 0 true, .start] ++ gateLooks ++
        [.approve true "yes", .restart, .resume true true, .start] ++ gateLooks ++
        [.exec .resolve true, .exec .grant true, .exec .go true]) :=
  one_gate (gated 1) _ (by decide +kernel)

theorem first_decision_opens_second_gate :
    ¬ Lib.Keeps (Lib.watched (gated 2).step rule) (fun s => OneGate s.2) (Run.fresh, .empty)
      ([.launch 0 true, .start] ++ gateLooks ++
        [.approve true "yes", .exec .wake true, .exec .resolve true, .exec .grant true,
          .exec .go true] ++ gateLooks ++ [.exec .resolve true, .exec .grant true]) :=
  Lib.not_keeps_of_run (by decide +kernel)

end RatKingdom.Workflow
