/-
Delivery evidence does not move backward.

A call that leaves the registry has made its commit the generation's, above every commit before
it.  The calls that wait for the ticket stand in the order of their commits, and the last of them
names what the generation names: the ticket follows when they write in that order.
-/
import RatKingdom.Supervisor.Delivery

namespace RatKingdom.Delivery

open Lib List Option Stores

variable {C : Type}

section
variable {reg : Registry C} {g : SpawnId} {name : String} {r : AgentRecord C}

theorem pointer_of_row {p : String × AgentRecord C} (hp : p ∈ reg.agents.rows)
    (hg : p.2.spawn = g) : reg.pointer g = p.2.mergeCommit := by
  have hfind : reg.records.find? (fun r => r.spawn = g) = some p.2 := by
    cases hf : reg.records.find? fun r => r.spawn = g with
    | none =>
      have := find?_eq_none.mp hf p.2 (mem_map.mpr ⟨p, hp, rfl⟩)
      simp [hg] at this
    | some r =>
      obtain ⟨q, hq, rfl⟩ := mem_map.mp (mem_of_find?_eq_some hf)
      have hqs : q.2.spawn = g := of_decide_eq_true (find?_some hf :)
      rw [reg.spawns q hq p hp (hqs.trans hg.symm)]
  unfold Registry.pointer
  rw [find?_append, hfind]
  rfl

theorem pointer_of_not_live (h : ∀ p ∈ reg.agents.rows, p.2.spawn ≠ g) :
    reg.pointer g = (reg.archived.find? fun r => r.spawn = g).bind AgentRecord.mergeCommit := by
  have hn : reg.records.find? (fun r => r.spawn = g) = none := by
    apply find?_eq_none.mpr
    intro r hr
    obtain ⟨p, hp, rfl⟩ := mem_map.mp hr
    simp [h p hp]
  unfold Registry.pointer
  rw [find?_append, hn, none_or]

theorem mem_rows_of_get (h : reg.agents.get name = some r) : (name, r) ∈ reg.agents.rows :=
  Table.get_eq_some_iff.mp h

theorem pointer_setPointer {commit : C} (h : reg.agents.get name = some r) (hg : r.spawn = g) :
    (reg.setPointer name commit).pointer g = some commit := by
  have hm : (name, { r with mergeCommit := some commit }) ∈
      (reg.setPointer name commit).agents.rows :=
    mem_map.mpr ⟨(name, r), mem_rows_of_get h, if_pos rfl⟩
  exact pointer_of_row hm hg

/-- The archive holds no other copy of the generation when its record comes to it. -/
def Registry.Sole (reg : Registry C) (g : SpawnId) (name : String) : Prop :=
  ∀ r ∈ reg.agents.get name, r.spawn = g → ∀ a ∈ reg.archived, a.spawn ≠ g
deriving Decidable

theorem mem_rows_archive {p : String × AgentRecord C} :
    p ∈ (reg.archive name).agents.rows ↔ p ∈ reg.agents.rows ∧ p.1 ≠ name := by
  simp [Registry.archive, Table.erase]

theorem pointer_archive (h : reg.Sole g name) : (reg.archive name).pointer g = reg.pointer g := by
  by_cases hl : ∃ p ∈ reg.agents.rows, p.2.spawn = g
  · obtain ⟨p, hp, hpg⟩ := hl
    rw [pointer_of_row hp hpg]
    by_cases hn : p.1 = name
    · have hget : reg.agents.get name = some p.2 := by
        rw [← hn]
        exact Table.get_eq_some_iff.mpr hp
      have hfree := h p.2 hget hpg
      have hgone : ∀ q ∈ (reg.archive name).agents.rows, q.2.spawn ≠ g := by
        intro q hq hqg
        obtain ⟨hq, hne⟩ := mem_rows_archive.mp hq
        rw [reg.spawns q hq p hp (hqg.trans hpg.symm)] at hne
        exact hne hn
      have hnew : (reg.archive name).archived = reg.archived ++ [p.2] := by
        have hno : (reg.archived.any fun a => a.generation = p.2.generation) = false := by
          apply any_eq_false.mpr
          intro a ha heq
          have hs : a.generation = p.2.generation := of_decide_eq_true heq
          exact hfree a ha ((congrArg Prod.snd hs).trans hpg)
        simp [Registry.archive, hget, hno]
      have hnone : reg.archived.find? (fun r => r.spawn = g) = none := by
        apply find?_eq_none.mpr
        intro a ha
        simp [hfree a ha]
      rw [pointer_of_not_live hgone, hnew, find?_append, hnone, none_or,
        find?_cons_of_pos (by simp [hpg])]
      rfl
    · exact pointer_of_row (mem_rows_archive.mpr ⟨hp, hn⟩) hpg
  · have hno : ∀ p ∈ reg.agents.rows, p.2.spawn ≠ g := fun p hp hpg => hl ⟨p, hp, hpg⟩
    have hno' : ∀ p ∈ (reg.archive name).agents.rows, p.2.spawn ≠ g :=
      fun p hp => hno p (mem_rows_archive.mp hp).1
    rw [pointer_of_not_live hno, pointer_of_not_live hno']
    unfold Registry.archive
    simp only
    rw [find?_append]
    have hextra : ((reg.agents.get name).toList.filter fun r =>
        !reg.archived.any fun a => a.generation = r.generation).find? (fun r => r.spawn = g) =
        none := by
      apply find?_eq_none.mpr
      intro r hr
      have hget : reg.agents.get name = some r :=
        mem_toList.mp (mem_filter.mp hr).1
      simp [hno (name, r) (mem_rows_of_get hget)]
    rw [hextra, or_none]

end

section
variable [DecidableEq C] {d : Stores C} {g : SpawnId} {c : Call C}

def Registry.live (reg : Registry C) (g : SpawnId) (c : Call C) : Bool :=
  (findGeneration reg.listAll c.repoRoot c.record.branch c.record.target g).any fun r =>
    reg.agents.get r.name = some r

theorem resolve_live (h : d.registry.live g c = true) :
    ∃ r, d.registry.agents.get r.name = some r ∧ r.spawn = g ∧
      (r.mergeCommit = none ∧ d.resolve g c = .set r.name ∨
        r.mergeCommit = some c.record.mergeCommit ∧ d.resolve g c = .alreadyRecorded ∨
        ∃ existing, r.mergeCommit = some existing ∧ d.resolve g c = .conflict r.name existing) := by
  obtain ⟨r, hfound, hl⟩ := any_eq_true _ _ |>.mp h
  have hspawn : r.spawn = g := by
    exact of_decide_eq_true (find?_some hfound :)
  refine ⟨r, of_decide_eq_true hl, hspawn, ?_⟩
  unfold resolve resolveMergePointer
  simp only [hfound]
  cases hm : r.mergeCommit with
  | none => simp
  | some existing =>
    by_cases he : existing = c.record.mergeCommit
    · simp [he]
    · simp [he]

variable {env : Env}

omit [DecidableEq C] in
theorem update_live {r : AgentRecord C} {commit : C}
    (h : d.registry.agents.get r.name = some r) (hp : env.persists = true) :
    d.update r.name commit env = ({ d with registry := d.registry.setPointer r.name commit },
      true) := by
  unfold update
  rw [h, hp]
  rfl

end

section
variable [PartialOrder C] {l : List C} {c : C}

theorem le_of_getLast? (h : l.Pairwise (· ≤ ·)) (hl : l.getLast? = some c) : ∀ a ∈ l, a ≤ c := by
  obtain ⟨ys, rfl⟩ := getLast?_eq_some_iff.mp hl
  intro a ha
  rcases mem_append.mp ha with ha | ha
  · exact (pairwise_append.mp h).2.2 a ha c (mem_singleton.mpr rfl)
  · exact le_of_eq (mem_singleton.mp ha)

theorem pairwise_concat (h : l.Pairwise (· ≤ ·)) (hle : ∀ a ∈ l, a ≤ c) :
    (l ++ [c]).Pairwise (· ≤ ·) := by
  apply pairwise_append.mpr
  refine ⟨h, pairwise_singleton _ _, ?_⟩
  intro a ha b hb
  rw [mem_singleton.mp hb]
  exact hle a ha

end

theorem cons_append_of_eq {α : Type} {x : α} {pre : List α} (h : ∀ y ∈ pre, y = x) (post : List α) :
    x :: (pre ++ post) = pre ++ x :: post := by
  induction pre with
  | nil => rfl
  | cons y pre ih =>
    have hy : y = x := h y mem_cons_self
    rw [hy, cons_append, ih fun z hz => h z (mem_cons_of_mem _ hz), cons_append]

section
variable [PartialOrder C] {d : Stores C} {g : SpawnId} {i : Nat} {c : Call C}

/-- Neither store falls behind. -/
def View.Ahead (v w : View C) : Prop :=
  (∀ a ∈ v.pointer, ∃ b ∈ w.pointer, a ≤ b) ∧ ∀ a ∈ v.ticket, ∃ b ∈ w.ticket, a ≤ b

theorem View.Ahead.refl (v : View C) : v.Ahead v :=
  ⟨fun a ha => ⟨a, ha, le_refl a⟩, fun a ha => ⟨a, ha, le_refl a⟩⟩

theorem View.Ahead.trans {u v w : View C} (h : u.Ahead v) (h' : v.Ahead w) : u.Ahead w := by
  constructor
  · intro a ha
    obtain ⟨b, hb, hab⟩ := h.1 a ha
    obtain ⟨x, hx, hbx⟩ := h'.1 b hb
    exact ⟨x, hx, hab.trans hbx⟩
  · intro a ha
    obtain ⟨b, hb, hab⟩ := h.2 a ha
    obtain ⟨x, hx, hbx⟩ := h'.2 b hb
    exact ⟨x, hx, hab.trans hbx⟩

def Stores.chain (d : Stores C) : List C := d.held.toList ++ d.waiting.map Prod.snd

/-- The chain goes up, and the generation names its end. -/
structure Base (g : SpawnId) (d : Stores C) : Prop where
  waits : ∀ e ∈ d.waiting, ∃ c, d.calls[e.1]? = some c ∧ c.stage = .ticket ∧
    c.record.mergeCommit = e.2
  queued : ∀ (i : Nat) (c : Call C), d.calls[i]? = some c → c.stage = .ticket →
    (i, c.record.mergeCommit) ∈ d.waiting
  nodup : (d.waiting.map Prod.fst).Nodup
  order : d.chain.Pairwise (· ≤ ·)
  last : d.chain.getLast? = d.registry.pointer g
  checked : ∀ (i : Nat) (c : Call C) agent recorded, d.calls[i]? = some c →
    c.stage = .advance agent recorded → recorded ≤ c.record.mergeCommit

omit [PartialOrder C] in
theorem calls_set {P : Nat → Call C → Prop} {c' : Call C} {calls : List (Call C)}
    (h : ∀ j x, calls[j]? = some x → j ≠ i → P j x) (hc : P i c') :
    ∀ j x, (calls.set i c')[j]? = some x → P j x := by
  intro j x hj
  rw [getElem?_set] at hj
  by_cases hij : i = j
  · rw [if_pos hij] at hj
    split at hj
    · cases hj
      exact hij ▸ hc
    · cases hj
  · rw [if_neg hij] at hj
    exact h j x hj fun he => hij he.symm

omit [PartialOrder C] in
theorem getElem?_set_ne {j : Nat} {x c' : Call C} {calls : List (Call C)} (hj : calls[j]? = some x)
    (hne : j ≠ i) : (calls.set i c')[j]? = some x := by
  rw [getElem?_set, if_neg fun he => hne he.symm]
  exact hj

theorem Base.not_waiting (h : Base g d) (hc : d.calls[i]? = some c) (hs : c.stage ≠ .ticket) :
    ∀ e ∈ d.waiting, e.1 ≠ i := by
  intro e he hei
  obtain ⟨x, hx, hst, -⟩ := h.waits e he
  rw [hei, hc] at hx
  cases hx
  exact hs hst

theorem Base.checked_set (h : Base g d) {c' : Call C}
    (hadv : ∀ agent recorded, c'.stage = .advance agent recorded →
      recorded ≤ c'.record.mergeCommit) :
    ∀ (j : Nat) (x : Call C) agent recorded, (d.calls.set i c')[j]? = some x →
      x.stage = .advance agent recorded → recorded ≤ x.record.mergeCommit := by
  intro j x agent recorded hj hx
  exact calls_set (P := fun _ x => x.stage = .advance agent recorded →
    recorded ≤ x.record.mergeCommit) (fun j x hj _ hx => h.checked j x agent recorded hj hx)
    (fun hx => hadv agent recorded hx) j x hj hx

theorem base_goto (h : Base g d) (hc : d.calls[i]? = some c) (hs : c.stage ≠ .ticket)
    {stage : Stage C} (hst : stage ≠ .ticket)
    (hadv : ∀ agent recorded, stage = .advance agent recorded → recorded ≤ c.record.mergeCommit)
    (events : List (Event C)) : Base g ({ d with events }.goto i c stage) where
  waits e he := by
    obtain ⟨x, hx, hrest⟩ := h.waits e he
    exact ⟨x, getElem?_set_ne hx (h.not_waiting hc hs e he), hrest⟩
  queued := calls_set (fun j x hj _ hx => h.queued j x hj hx) fun hx => absurd hx hst
  nodup := h.nodup
  order := h.order
  last := h.last
  checked := h.checked_set hadv

theorem base_enqueue (h : Base g d) (hc : d.calls[i]? = some c) (hs : c.stage ≠ .ticket)
    {registry : Registry C} (hp : registry.pointer g = some c.record.mergeCommit)
    (hle : ∀ a ∈ d.chain, a ≤ c.record.mergeCommit) (events : List (Event C)) :
    Base g ({ d with registry, events }.enqueue i c) := by
  have hchain : ({ d with registry, events }.enqueue i c).chain =
      d.chain ++ [c.record.mergeCommit] := by
    simp [chain, enqueue, goto, held]
  have hlen : i < d.calls.length := (List.getElem?_eq_some_iff.mp hc).1
  constructor
  · intro e he
    rcases mem_append.mp he with he | he
    · obtain ⟨x, hx, hrest⟩ := h.waits e he
      exact ⟨x, getElem?_set_ne hx (h.not_waiting hc hs e he), hrest⟩
    · obtain rfl := mem_singleton.mp he
      refine ⟨{ c with stage := .ticket }, ?_, rfl, rfl⟩
      exact getElem?_set_self hlen
  · apply calls_set
    · intro j x hj _ hx
      exact mem_append_left _ (h.queued j x hj hx)
    · intro _
      exact mem_append_right _ (mem_singleton.mpr rfl)
  · have hfst : ({ d with registry, events }.enqueue i c).waiting.map Prod.fst =
        d.waiting.map Prod.fst ++ [i] := by
      simp [enqueue]
    rw [hfst, nodup_append]
    refine ⟨h.nodup, nodup_singleton i, ?_⟩
    intro a ha b hb
    obtain ⟨e, he, rfl⟩ := mem_map.mp ha
    rw [mem_singleton.mp hb]
    exact h.not_waiting hc hs e he
  · rw [hchain]
    exact pairwise_concat h.order hle
  · rw [hchain, getLast?_concat]
    exact hp.symm
  · exact h.checked_set nofun

theorem ahead_enqueue (h : Base g d) {registry : Registry C}
    (hp : registry.pointer g = some c.record.mergeCommit)
    (hle : ∀ a ∈ d.chain, a ≤ c.record.mergeCommit) (events : List (Event C)) :
    (d.view g).Ahead (({ d with registry, events }.enqueue i c).view g) := by
  constructor
  · intro a ha
    refine ⟨c.record.mergeCommit, hp, hle a ?_⟩
    have hl : d.chain.getLast? = some a := h.last.trans ha
    exact mem_of_getLast? hl
  · intro a ha
    exact ⟨a, ha, le_refl a⟩

/-- The calls that left the registry before this one, for another commit, have written. -/
def Stores.InTurn (d : Stores C) (i : Nat) (c : Call C) : Prop :=
  ∀ e ∈ d.waiting.takeWhile (fun e => e.1 ≠ i), e.2 = c.record.mergeCommit

theorem writeTicket_spec (h : Base g d) (hc : d.calls[i]? = some c) (hs : c.stage = .ticket)
    (ht : d.InTurn i c) (hw : env.writes = true) :
    Base g (d.writeTicket i c env) ∧ (d.view g).Ahead ((d.writeTicket i c env).view g) := by
  obtain ⟨pre, post, hsplit⟩ := append_of_mem (h.queued i c hc hs)
  have hnodup := h.nodup
  rw [hsplit, map_append, map_cons] at hnodup
  obtain ⟨-, hpost, hdisj⟩ := nodup_append.mp hnodup
  have hpre : ∀ e ∈ pre, e.1 ≠ i := by
    intro e he heq
    exact hdisj e.1 (mem_map.mpr ⟨e, he, rfl⟩) i mem_cons_self heq
  have hpost' : ∀ e ∈ post, e.1 ≠ i := by
    intro e he heq
    exact (nodup_cons.mp hpost).1 (heq ▸ mem_map.mpr ⟨e, he, rfl⟩)
  have hfilter : d.waiting.filter (fun e => e.1 ≠ i) = pre ++ post := by
    rw [hsplit, filter_append, filter_cons_of_neg (by simp),
      filter_eq_self.mpr (by simpa using hpre), filter_eq_self.mpr (by simpa using hpost')]
  have heq : ∀ e ∈ pre, e.2 = c.record.mergeCommit := by
    intro e he
    apply ht e
    rw [hsplit, takeWhile_append_of_pos (by simpa using hpre)]
    exact mem_append_left _ he
  have hwrite : d.writeTicket i c env = { d with
        calls := d.calls.set i { c with stage := .ok }
        waiting := pre ++ post
        ticket := ⟨some c.record, "closed"⟩ } := by
    simp only [writeTicket, hw, if_true, goto, hfilter]
  have hchain : (d.writeTicket i c env).chain = d.waiting.map Prod.snd := by
    rw [hwrite, hsplit]
    simp only [chain, held, map_some, toList_some, map_append, map_cons, singleton_append]
    apply cons_append_of_eq
    intro y hy
    obtain ⟨e, he, rfl⟩ := mem_map.mp hy
    exact heq e he
  obtain ⟨-, horder, hheld⟩ := pairwise_append.mp h.order
  constructor
  · constructor
    · intro e he
      rw [hwrite] at he ⊢
      have hm : e ∈ d.waiting ∧ e.1 ≠ i := by
        rw [← hfilter] at he
        simpa using mem_filter.mp he
      obtain ⟨x, hx, hrest⟩ := h.waits e hm.1
      exact ⟨x, getElem?_set_ne hx hm.2, hrest⟩
    · rw [hwrite]
      apply calls_set
      · intro j x hj hne hx
        simp only
        rw [← hfilter]
        exact mem_filter.mpr ⟨h.queued j x hj hx, decide_eq_true hne⟩
      · nofun
    · rw [hwrite]
      simp only
      rw [← hfilter]
      exact (filter_sublist.map Prod.fst).nodup h.nodup
    · rw [hchain]
      exact horder
    · have hl := h.last
      have hne : d.waiting.map Prod.snd ≠ [] := by
        rw [hsplit]
        simp
      unfold chain at hl
      rw [getLast?_append_of_ne_nil _ hne] at hl
      rw [hchain, hl, hwrite]
    · rw [hwrite]
      exact h.checked_set nofun
  · rw [hwrite]
    constructor
    · intro a ha
      exact ⟨a, ha, le_refl a⟩
    · intro a ha
      refine ⟨c.record.mergeCommit, rfl, hheld a (mem_toList.mpr ha) _ ?_⟩
      exact mem_map.mpr ⟨_, h.queued i c hc hs, rfl⟩

theorem Base.chain_le (h : Base g d) {commit : C} (hp : d.registry.pointer g = some commit) :
    ∀ a ∈ d.chain, a ≤ commit :=
  le_of_getLast? h.order (h.last.trans hp)

theorem Base.chain_eq_nil (h : Base g d) (hp : d.registry.pointer g = none) : d.chain = [] :=
  getLast?_eq_none_iff.mp (h.last.trans hp)

variable [DecidableEq C]

theorem decide_spec (h : Base g d) (hc : d.calls[i]? = some c) (hne : c.stage ≠ .ticket)
    (hl : d.registry.live g c = true) (hp : env.persists = true) :
    Base g (d.decide g i c env) ∧ (d.view g).Ahead ((d.decide g i c env).view g) := by
  obtain ⟨r, hget, hspawn, hcase⟩ := resolve_live hl
  have hpoint : d.registry.pointer g = r.mergeCommit :=
    pointer_of_row (mem_rows_of_get hget) hspawn
  unfold Stores.decide
  rcases hcase with ⟨hm, hres⟩ | ⟨hm, hres⟩ | ⟨existing, hm, hres⟩
  · have hle : ∀ a ∈ d.chain, a ≤ c.record.mergeCommit := by
      rw [h.chain_eq_nil (hpoint.trans hm)]
      intro a ha
      cases ha
    simp only [hres, update_live hget hp, if_true]
    exact ⟨base_enqueue h hc hne (pointer_setPointer hget hspawn) hle d.events,
      ahead_enqueue h (pointer_setPointer hget hspawn) hle d.events⟩
  · have hpc := hpoint.trans hm
    simp only [hres]
    exact ⟨base_enqueue h hc hne hpc (h.chain_le hpc) d.events,
      ahead_enqueue h hpc (h.chain_le hpc) d.events⟩
  · simp only [hres]
    refine ⟨base_goto h hc hne ?_ ?_ d.events, View.Ahead.refl _⟩
    · nofun
    · nofun

omit [PartialOrder C] in
/-- The second lock does what the first does, unless it finds another commit. -/
theorem advance_eq_decide {recorded : C} {decision : MergePointerDecision C}
    (h : d.resolve g c = decision) (hno : ∀ agent existing, decision ≠ .conflict agent existing) :
    d.advance g i c recorded env = d.decide g i c env := by
  unfold advance Stores.decide
  rw [h]
  cases decision with
  | conflict agent existing => exact absurd rfl (hno agent existing)
  | _ => rfl

theorem advance_spec (h : Base g d) (hc : d.calls[i]? = some c) {agent : String} {recorded : C}
    (hs : c.stage = .advance agent recorded) (hl : d.registry.live g c = true)
    (hp : env.persists = true) :
    Base g (d.advance g i c recorded env) ∧
      (d.view g).Ahead ((d.advance g i c recorded env).view g) := by
  have hne : c.stage ≠ .ticket := by
    rw [hs]
    intro heq
    cases heq
  obtain ⟨r, hget, hspawn, ⟨-, hres⟩ | ⟨-, hres⟩ | ⟨existing, hm, hres⟩⟩ := resolve_live hl
  · rw [advance_eq_decide hres nofun]
    exact decide_spec h hc hne hl hp
  · rw [advance_eq_decide hres nofun]
    exact decide_spec h hc hne hl hp
  · have hpoint := (pointer_of_row (mem_rows_of_get hget) hspawn).trans hm
    unfold advance
    by_cases hsame : existing = recorded
    · have hup : recorded ≤ c.record.mergeCommit := h.checked i c agent recorded hc hs
      have hle : ∀ a ∈ d.chain, a ≤ c.record.mergeCommit := fun a ha =>
        (h.chain_le hpoint a ha).trans (hsame ▸ hup)
      simp only [hres, if_pos hsame, update_live hget hp, if_true]
      exact ⟨base_enqueue h hc hne (pointer_setPointer hget hspawn) hle _,
        ahead_enqueue h (pointer_setPointer hget hspawn) hle _⟩
    · simp only [hres, if_neg hsame]
      refine ⟨base_goto h hc hne ?_ ?_ _, View.Ahead.refl _⟩
      · nofun
      · nofun

variable [DecidableLE C]

omit [DecidableEq C] in
theorem check_spec (h : Base g d) (hc : d.calls[i]? = some c) {agent : String} {recorded : C}
    (hs : c.stage = .check agent recorded) (policy : SuccessorPolicy) (env : Env) :
    Base g (d.check policy i c agent recorded env) ∧
      (d.view g).Ahead ((d.check policy i c agent recorded env).view g) := by
  have hne : c.stage ≠ .ticket := by
    rw [hs]
    intro heq
    cases heq
  have hend : ∀ (stage : Stage C) (events : List (Event C)), stage = .ok ∨ stage = .failed →
      Base g ({ d with events }.goto i c stage) := by
    intro stage events hst
    apply base_goto h hc hne
    · rcases hst with rfl | rfl <;> intro heq <;> cases heq
    · intro agent' recorded' heq
      rcases hst with rfl | rfl <;> cases heq
  unfold check
  cases hdis : env.discovers with
  | false => exact ⟨hend .failed d.events (.inr rfl), View.Ahead.refl _⟩
  | true =>
    cases hcl : classifySuccessor policy (recorded ≤ c.record.mergeCommit)
        (c.record.mergeCommit ≤ recorded) with
    | staleReplay => exact ⟨hend .ok _ (.inl rfl), View.Ahead.refl _⟩
    | unrelated => exact ⟨hend .failed _ (.inr rfl), View.Ahead.refl _⟩
    | advance =>
      have hup : recorded ≤ c.record.mergeCommit := by
        by_contra hnot
        rw [decide_eq_false hnot] at hcl
        cases policy <;> cases hcand : decide (c.record.mergeCommit ≤ recorded) <;>
          rw [hcand] at hcl <;> cases hcl
      refine ⟨base_goto h hc hne ?_ ?_ d.events, View.Ahead.refl _⟩
      · nofun
      · intro agent' recorded' heq
        cases heq
        exact hup

end

section
variable [PartialOrder C]

/-- The generation's commit moves to one that contains it, and the ticket's is not replaced by
one that it contains. -/
def View.Forward (v w : View C) : Prop :=
  (∀ a ∈ v.pointer, ∃ b ∈ w.pointer, a ≤ b) ∧ ∀ a ∈ v.ticket, ∃ b ∈ w.ticket, ¬ b < a

theorem View.Ahead.forward {v w : View C} (h : v.Ahead w) : v.Forward w := by
  refine ⟨h.1, ?_⟩
  intro a ha
  obtain ⟨b, hb, hab⟩ := h.2 a ha
  exact ⟨b, hb, fun hlt => absurd hab (not_le_of_gt hlt)⟩

/-- Evidence never moves backward, and where no call is under way the two stores agree. -/
def Stores.Sound (d : Stores C) (g : SpawnId) : Prop :=
  d.seen.Pairwise View.Forward ∧
    ((∀ c ∈ d.calls, c.stage = .ok ∨ c.stage = .failed) → (d.view g).ticket = (d.view g).pointer)

/-- What a run keeps: nothing that was seen is ahead of what is there. -/
structure Kept (g : SpawnId) (d : Stores C) : Prop where
  base : Base g d
  ahead : ∀ v ∈ d.seen, v.Ahead (d.view g)
  forward : d.seen.Pairwise View.Forward

theorem Base.agree {g : SpawnId} {d : Stores C} (h : Base g d)
    (hend : ∀ c ∈ d.calls, c.stage = .ok ∨ c.stage = .failed) : d.held = d.registry.pointer g := by
  have hn : d.waiting = [] := by
    apply eq_nil_iff_forall_not_mem.mpr
    intro e he
    obtain ⟨c, hc, hst, -⟩ := h.waits e he
    rcases hend c (mem_of_getElem? hc) with hok | hfail
    · rw [hst] at hok
      cases hok
    · rw [hst] at hfail
      cases hfail
  have hl := h.last
  rw [chain, hn, map_nil, append_nil] at hl
  rw [← hl]
  cases d.held <;> rfl

theorem kept_look {g : SpawnId} {d d' : Stores C} (h : Kept g d) (hseen : d'.seen = d.seen)
    (hb : Base g d') (hahead : (d.view g).Ahead (d'.view g)) : Kept g (d'.look g) where
  base := ⟨hb.waits, hb.queued, hb.nodup, hb.order, hb.last, hb.checked⟩
  ahead := by
    intro v hv
    rcases mem_append.mp hv with hv | hv
    · rw [hseen] at hv
      exact (h.ahead v hv).trans hahead
    · rw [mem_singleton.mp hv]
      exact View.Ahead.refl _
  forward := by
    apply pairwise_append.mpr
    rw [hseen]
    refine ⟨h.forward, pairwise_singleton _ _, ?_⟩
    intro v hv w hw
    rw [mem_singleton.mp hw]
    exact ((h.ahead v hv).trans hahead).forward

variable [DecidableEq C] [DecidableLE C] {policy : SuccessorPolicy} {g : SpawnId} {d d' : Stores C}

/-- A turn in which the generation is live and the stores are written, and a ticket in its
turn. -/
def Stores.Orderly (d : Stores C) (g : SpawnId) (i : Nat) (c : Call C) (env : Env) : Prop :=
  match c.stage with
  | .decide => d.registry.live g c = true ∧ env.persists = true
  | .advance _ _ => d.registry.live g c = true ∧ env.persists = true
  | .ticket => env.writes = true ∧ d.InTurn i c
  | _ => True

def Orderly (g : SpawnId) (d : Stores C) : Move C → Prop
  | .call _ _ => True
  | .turn i env => ∀ c ∈ d.calls[i]?, d.Orderly g i c env
  | .archive name => d.registry.Sole g name

theorem seen_turn {i : Nat} {c : Call C} (h : d.turn policy g i c env = some d') :
    d'.seen = d.seen := by
  have hupdate : ∀ agent commit, (d.update agent commit env).1.seen = d.seen := by
    intro agent commit
    unfold Stores.update
    split <;> rfl
  unfold Stores.turn at h
  cases hs : c.stage with
  | decide =>
    rw [hs] at h
    cases h
    unfold Stores.decide
    split
    · simp only
      split <;> exact hupdate _ _
    · rfl
    · rfl
    · rfl
  | check agent recorded =>
    rw [hs] at h
    cases h
    unfold Stores.check
    split
    · rfl
    · split <;> rfl
  | advance agent recorded =>
    rw [hs] at h
    cases h
    unfold Stores.advance
    split
    · split
      · simp only
        split <;> exact hupdate _ _
      · rfl
    · rfl
    · simp only
      split <;> exact hupdate _ _
    · rfl
  | ticket =>
    rw [hs] at h
    cases h
    unfold Stores.writeTicket
    simp only
    split <;> rfl
  | ok | failed =>
    rw [hs] at h
    cases h

theorem turn_spec {i : Nat} {c : Call C} (h : Base g d) (hc : d.calls[i]? = some c)
    (ht : d.turn policy g i c env = some d') (hg : d.Orderly g i c env) :
    Base g d' ∧ (d.view g).Ahead (d'.view g) := by
  unfold turn at ht
  unfold Stores.Orderly at hg
  cases hs : c.stage with
  | decide =>
    rw [hs] at ht hg
    cases ht
    exact decide_spec h hc (by rw [hs]; nofun) hg.1 hg.2
  | check agent recorded =>
    rw [hs] at ht
    cases ht
    exact check_spec h hc hs policy env
  | advance agent recorded =>
    rw [hs] at ht hg
    cases ht
    exact advance_spec h hc hs hg.1 hg.2
  | ticket =>
    rw [hs] at ht hg
    cases ht
    exact writeTicket_spec h hc hs hg.2 hg.1
  | ok | failed =>
    rw [hs] at ht
    cases ht

omit [DecidableEq C] [DecidableLE C] in
theorem base_call (h : Base g d) (repoRoot : String) (record : DeliveryRecord C) :
    Base g { d with calls := d.calls ++ [⟨repoRoot, record, .decide⟩] } := by
  have hold : ∀ (j : Nat) (x : Call C), (d.calls ++ [⟨repoRoot, record, .decide⟩])[j]? = some x →
      d.calls[j]? = some x ∨ x.stage = .decide := by
    intro j x hj
    by_cases hlt : j < d.calls.length
    · rw [getElem?_append_left hlt] at hj
      exact .inl hj
    · right
      rw [getElem?_append_right (Nat.le_of_not_lt hlt)] at hj
      rw [mem_singleton.mp (mem_of_getElem? hj)]
  constructor
  · intro e he
    obtain ⟨x, hx, hrest⟩ := h.waits e he
    refine ⟨x, ?_, hrest⟩
    rw [getElem?_append_left (List.getElem?_eq_some_iff.mp hx).1]
    exact hx
  · intro j x hj hst
    rcases hold j x hj with hj | hnew
    · exact h.queued j x hj hst
    · rw [hst] at hnew
      cases hnew
  · exact h.nodup
  · exact h.order
  · exact h.last
  · intro j x agent recorded hj hst
    rcases hold j x hj with hj | hnew
    · exact h.checked j x agent recorded hj hst
    · rw [hst] at hnew
      cases hnew

theorem kept_step {m : Move C} (h : Kept g d) (hs : step policy g d m = some d')
    (hg : Orderly g d m) : Kept g d' := by
  cases m with
  | call repoRoot record =>
    cases hs
    exact kept_look h rfl (base_call h.base repoRoot record) (View.Ahead.refl _)
  | turn i env =>
    simp only [step, bind_eq_bind, bind_eq_some_iff] at hs
    obtain ⟨c, hc, x, hx, hs⟩ := hs
    cases hs
    obtain ⟨hb, hahead⟩ := turn_spec h.base hc hx (hg c hc)
    exact kept_look h (seen_turn hx) hb hahead
  | archive name =>
    cases hs
    have hp : (d.registry.archive name).pointer g = d.registry.pointer g := pointer_archive hg
    have hb : Base g { d with registry := d.registry.archive name } :=
      ⟨h.base.waits, h.base.queued, h.base.nodup, h.base.order, h.base.last.trans hp.symm,
        h.base.checked⟩
    have hview : view { d with registry := d.registry.archive name } g = d.view g := by
      unfold view
      simp only [hp]
      rfl
    exact kept_look h rfl hb (hview ▸ View.Ahead.refl _)

/-- Where each call finds its generation live, the stores are written, and the ticket is written
in the order in which the calls left the registry, delivery evidence never moves backward, and
the ticket and the generation agree when the calls have finished. -/
theorem evidence_forward (policy : SuccessorPolicy) (g : SpawnId) (registry : Registry C)
    (ticket : Ticket C) (moves : List (Move C))
    (hagree : ticket.delivery.map DeliveryRecord.mergeCommit = registry.pointer g)
    (h : Meets (step policy g) (Orderly g) (Stores.open registry ticket g) moves) :
    Keeps (step policy g) (fun d => d.Sound g) (Stores.open registry ticket g) moves := by
  have hchain : ∀ o : Option C, (o.toList ++ ([] : List (Nat × C)).map Prod.snd).Pairwise (· ≤ ·) ∧
      (o.toList ++ ([] : List (Nat × C)).map Prod.snd).getLast? = o := by
    intro o
    cases o with
    | none => exact ⟨List.Pairwise.nil, rfl⟩
    | some a => exact ⟨pairwise_singleton _ _, rfl⟩
  have hbase : Base g (.open registry ticket g) := by
    refine ⟨?_, ?_, nodup_nil, (hchain _).1, (hchain _).2.trans hagree, ?_⟩
    · nofun
    · nofun
    · nofun
  have hkept : Kept g (.open registry ticket g) := by
    refine ⟨hbase, ?_, pairwise_singleton _ _⟩
    intro v hv
    rw [mem_singleton.mp hv]
    exact View.Ahead.refl _
  exact (keeps_of_meets (fun d m d' hk hs hg => kept_step hk hs hg) hkept h).mono
    fun d hk => ⟨hk.forward, hk.base.agree⟩

end

instance decidableForward (v w : View Nat) : Decidable (v.Forward w) :=
  inferInstanceAs (Decidable (_ ∧ _))

instance decidableSound (d : Stores Nat) (g : SpawnId) : Decidable (d.Sound g) :=
  inferInstanceAs (Decidable (_ ∧ _))

instance decidableTurn (d : Stores Nat) (g : SpawnId) (i : Nat) (c : Call Nat) (env : Env) :
    Decidable (d.Orderly g i c env) := by
  unfold Stores.Orderly Stores.InTurn
  cases c.stage <;> infer_instance

instance decidableOrderly (g : SpawnId) (d : Stores Nat) : ∀ m, Decidable (Orderly g d m)
  | .call _ _ => isTrue trivial
  | .turn i env => inferInstanceAs (Decidable (∀ _ ∈ _, _))
  | .archive name => inferInstanceAs (Decidable (d.registry.Sole g name))

/-- A registry with one live generation that has delivered nothing. -/
def oneRat : Registry Nat where
  agents := ⟨[("rat", ⟨"rat", 7, "/repos/rat", some "rat/fix", "main", none, 0⟩)], by decide⟩
  archived := []
  spawns := by
    intro p hp q hq _
    rw [mem_singleton.mp hp, mem_singleton.mp hq]

def allGood : Env := ⟨true, true, true⟩

def landed (commit : Nat) : Move Nat := .call "/repos/rat" ⟨commit, "rat/fix", "main", "now"⟩

def overtaken : List (Move Nat) :=
  [landed 1, landed 2, .turn 0 allGood, .turn 1 allGood, .turn 1 allGood, .turn 1 allGood,
    .turn 1 allGood, .turn 0 allGood]

/-- The generation names commit 2, and the ticket goes back from it to commit 1. -/
theorem late_ticket_rolls_back :
    ¬ Keeps (step .advanceOnDescendant 7) (fun d => d.Sound 7)
      (Stores.open oneRat ⟨none, "open"⟩ 7) overtaken := by
  decide +kernel

/-- In the order of the registry, both landings come to commit 2. -/
theorem evidence_forward_in_order :
    Keeps (step .advanceOnDescendant 7) (fun d => d.Sound 7) (Stores.open oneRat ⟨none, "open"⟩ 7)
      [landed 1, landed 2, .turn 0 allGood, .turn 1 allGood, .turn 1 allGood, .turn 1 allGood,
        .turn 0 allGood, .turn 1 allGood] :=
  evidence_forward .advanceOnDescendant 7 oneRat ⟨none, "open"⟩ _ rfl (by decide +kernel)

end RatKingdom.Delivery
