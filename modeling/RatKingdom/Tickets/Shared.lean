/-
The shared backlog: castles that work on the same tickets.

An edit keeps the author of the ticket it rewrites, and a castle exports only the tuples
under its own label; the take of the old version is exported whoever took it.  So an edit
on a castle that did not create the ticket takes it away from the one that did and never
sends the new version.  Where every ticket is edited on the castle that created it, its
last version reaches every castle.
-/
import RatKingdom.Sync.Standing
import RatKingdom.Tickets.Backlog

namespace RatKingdom.Tickets

open Core Lib Space Sync List

variable {c : Ed25519} {n : Nat}

structure Version where
  replaced : Option RecordId
  tuple : Tuple

/-- The castles, the edit each has under its ticket lock, and the history of versions. -/
structure Backlog (n : Nat) where
  kingdom : Kingdom n
  editing : Fin n → Option Edit
  versions : List Version

open Backlog

def Backlog.fresh (r : Realm c n) : Backlog n :=
  { kingdom := Kingdom.fresh r, editing := fun _ => none, versions := [] }

def Backlog.store (s : Backlog n) (i : Fin n) : Store := (s.kingdom.sites i).space.store

/-- `emit` is any write but a ticket. -/
inductive Move (n : Nat) where
  | create (i : Fin n) (t : NewTicket) (draws : List Nat) (id : RecordId) (now : DateTime)
  | begin (i : Fin n) (op : TicketEdit)
  | finish (i : Fin n) (id : RecordId) (now : DateTime)
  | emit (i : Fin n) (t : Tuple)
  | exchange (i : Fin n) (outStamps takeStamps : List Stamp) (contact : Contact)
  | compact (i : Fin n)

def Backlog.lock (s : Backlog n) (i : Fin n) (e : Option Edit) : Backlog n :=
  { s with editing := Function.update s.editing i e }

section
variable (r : Realm c n) (s : Backlog n)

def Backlog.move (m : Sync.Move n) : Option (Backlog n) :=
  (s.kingdom.step r m).map fun kingdom => { s with kingdom }

/-- `space.out` of a ticket.  A write the store refuses changes nothing. -/
def Backlog.put (i : Fin n) (replaced : Option RecordId) (t : Tuple) : Option (Backlog n) :=
  if s.kingdom.freshTuples [t] then
    match (s.kingdom.sites i).space.out t with
    | .error _ => some s
    | .ok _ => (s.move r (.space i (.out t))).map fun s =>
        { s with versions := s.versions ++ [⟨replaced, t⟩] }
  else none

def Backlog.create (i : Fin n) (t : NewTicket) (draws : List Nat) (id : RecordId) (now : DateTime) :
    Option (Backlog n) :=
  match createIdempotent (r.castle i).label (s.store i) t draws id now with
  | .ok (ticket, true) => s.put r i none ticket
  | .ok (_, false) => some s
  | .error _ => some s

def Backlog.begin (i : Fin n) (op : TicketEdit) : Option (Backlog n) :=
  match beginEdit (s.store i) op with
  | .ok (some e) =>
    (s.move r (.space i (.checkAndRegister (ticketPattern e.existing.identity) true))).map fun s =>
      s.lock i (some e)
  | .ok none => some s
  | .error _ => some s

def Backlog.finish (i : Fin n) (id : RecordId) (now : DateTime) : Option (Backlog n) :=
  match s.editing i with
  | none => none
  | some e =>
    match e.rewrite now with
    | .error _ => some (s.lock i none)
    | .ok payload =>
      (s.put r i (some e.existing.id) (withPayload e.existing id payload)).map fun s => s.lock i none

def Backlog.step : Move n → Option (Backlog n)
  | .create i t draws id now =>
    if (s.editing i).isNone && draws.length = idCollisionRetries then s.create r i t draws id now
    else none
  | .begin i op => if (s.editing i).isNone then s.begin r i op else none
  | .finish i id now => s.finish r i id now
  | .emit i t => if t.category = .task then none else s.move r (.space i (.out t))
  | .exchange i outStamps takeStamps contact => s.move r (.exchange i outStamps takeStamps contact)
  | .compact i => s.move r (.compact i)

end

def Backlog.Latest (s : Backlog n) (t : Tuple) : Prop :=
  (∃ v ∈ s.versions, v.tuple = t) ∧ ∀ v ∈ s.versions, v.replaced ≠ some t.id

/-- Every ticket ever created is live on every castle, with the payload of a last edit. -/
def Backlog.Everywhere (s : Backlog n) : Prop :=
  ∀ v ∈ s.versions, ∀ i, ∃ t ∈ (s.store i).tuples, t.category = .task ∧
    t.identity = v.tuple.identity ∧
    ∃ u, s.Latest u ∧ u.identity = v.tuple.identity ∧ t.payload = u.payload

/-- No castle has an old version of a ticket. -/
def Backlog.Current (s : Backlog n) : Prop :=
  ∀ i, ∀ t ∈ (s.store i).tuples, t.category = .task → s.Latest t

/-- No edit is under way, and no cycle changes a ref or a space. -/
def Backlog.Rested (r : Realm c n) (s : Backlog n) : Prop :=
  Settled r s.kingdom ∧ ∀ i, s.editing i = none

def takesOwn (castle : String) (s : Store) (op : TicketEdit) : Prop :=
  ∀ e, beginEdit s op = .ok (some e) → e.existing.inst = castle

/-- The ticket an edit takes was created on the castle that edits it, the store has a
sequence number left for the new version, and what is not a ticket is parsed as it is
written. -/
def editsAtHome (r : Realm c n) (s : Backlog n) : Move n → Prop
  | .begin i op => takesOwn (r.castle i).label (s.store i) op
  | .finish i _ _ => (s.store i).lastSequence < Store.maxSequence
  | .emit _ t => c.exact t = true
  | _ => True

def dropsSafely (r : Realm c n) (s : Backlog n) : Move n → Prop
  | .compact i => dropGuard r s.kingdom (.compact i)
  | _ => True

instance (castle : String) (s : Store) (op : TicketEdit) : Decidable (takesOwn castle s op) :=
  match h : beginEdit s op with
  | .ok (some e) => decidable_of_iff (e.existing.inst = castle)
      ⟨fun he e' h' => (by rw [h] at h'; cases h'; exact he), fun he => he e h⟩
  | .ok none => isTrue fun _ h' => (by rw [h] at h'; cases h')
  | .error _ => isTrue fun _ h' => (by rw [h] at h'; cases h')

instance (r : Realm c n) (s : Backlog n) : (m : Move n) → Decidable (editsAtHome r s m)
  | .create _ _ _ _ _ => isTrue trivial
  | .begin i op => inferInstanceAs (Decidable (takesOwn (r.castle i).label (s.store i) op))
  | .finish i _ _ => inferInstanceAs (Decidable ((s.store i).lastSequence < Store.maxSequence))
  | .emit _ t => inferInstanceAs (Decidable (c.exact t = true))
  | .exchange _ _ _ _ | .compact _ => isTrue trivial

instance (r : Realm c n) (s : Backlog n) : (m : Move n) → Decidable (dropsSafely r s m)
  | .create _ _ _ _ _ | .begin _ _ | .finish _ _ _ | .emit _ _ | .exchange _ _ _ _ => isTrue trivial
  | .compact i => inferInstanceAs (Decidable (dropGuard r s.kingdom (.compact i)))

section
variable {r : Realm c n} {s s' : Backlog n}

theorem lock_self (i : Fin n) (e : Option Edit) : (s.lock i e).editing i = e := by
  simp [lock]

variable {i : Fin n}

theorem lock_ne {j : Fin n} (h : j ≠ i) (e : Option Edit) :
    (s.lock i e).editing j = s.editing j := by
  simp [lock, h]

theorem move_some {m : Sync.Move n} (h : s.move r m = some s') :
    ∃ kingdom, s.kingdom.step r m = some kingdom ∧ s' = { s with kingdom } := by
  obtain ⟨kingdom, hk, rfl⟩ := Option.map_eq_some_iff.mp h
  exact ⟨kingdom, hk, rfl⟩

theorem put_cases {replaced : Option RecordId} {t : Tuple} (h : s.put r i replaced t = some s') :
    (s' = s ∧ ∃ e, (s.kingdom.sites i).space.out t = .error e) ∨
      ∃ space, s.kingdom.freshTuples [t] = true ∧ (s.kingdom.sites i).space.out t = .ok space ∧
        s' = { s with
          kingdom := s.kingdom.worked i { s.kingdom.sites i with space } [t]
          versions := s.versions ++ [⟨replaced, t⟩] } := by
  unfold Backlog.put at h
  obtain ⟨hfresh, h⟩ := Option.ite_none_right_eq_some.mp h
  split at h
  · rename_i e he
    cases h
    exact .inl ⟨rfl, e, he⟩
  · rename_i space hout
    obtain ⟨m, hm, rfl⟩ := Option.map_eq_some_iff.mp h
    obtain ⟨kingdom, hk, rfl⟩ := move_some hm
    refine .inr ⟨space, hfresh, hout, ?_⟩
    have hs : (s.kingdom.sites i).space.step (.out t) = some space := by
      simp only [Inner.step, hout, settle, id]
    simp only [Kingdom.step, localOp, written, hfresh, Bool.and_self, if_true, hs,
      Option.map_some, Option.some.injEq] at hk
    subst hk
    rfl

theorem take_spec {i : Fin n} {e : Edit} (he : e.Sound (s.store i)) {kingdom : Kingdom n}
    (h : s.kingdom.step r (.space i (.checkAndRegister (ticketPattern e.existing.identity) true)) =
      some kingdom) :
    ∃ space, (s.kingdom.sites i).space.step
        (.checkAndRegister (ticketPattern e.existing.identity) true) = some space ∧
      kingdom = s.kingdom.worked i { s.kingdom.sites i with space } [] ∧
      space.waiters = (s.kingdom.sites i).space.waiters ∧
      space.store = (s.store i).erase e.existing.id := by
  simp only [Kingdom.step, localOp, written, Kingdom.freshTuples, all_nil, Bool.and_self,
    if_true] at h
  obtain ⟨space, hs, rfl⟩ := Option.map_eq_some_iff.mp h
  refine ⟨space, hs, rfl, ?_⟩
  obtain ⟨row, rest, hq, hrow⟩ := he.taken
  have hq' : (s.kingdom.sites i).space.store.query (ticketPattern e.existing.identity) true (some 1) =
      row :: rest := hq
  simp only [Inner.step, Inner.checkAndRegister, hq', Option.some.injEq] at hs
  subst hs
  rw [← hrow]
  exact ⟨rfl, rfl⟩

variable {m : Move n}

/-- Below every step there is one of the castles, or none. -/
theorem step_kingdom (h : s.step r m = some s') :
    s'.kingdom = s.kingdom ∨ ∃ k, s.kingdom.step r k = some s'.kingdom ∧
      (dropsSafely r s m → dropGuard r s.kingdom k) := by
  have hmove : ∀ {t t' : Backlog n} {k : Sync.Move n}, t.move r k = some t' →
      t.kingdom.step r k = some t'.kingdom := by
    intro t t' k hk
    obtain ⟨kingdom, hk', rfl⟩ := move_some hk
    exact hk'
  have hput : ∀ {t t' : Backlog n} {i : Fin n} {replaced : Option RecordId} {u : Tuple},
      t.put r i replaced u = some t' → t'.kingdom = t.kingdom ∨
        ∃ k, t.kingdom.step r k = some t'.kingdom ∧ dropGuard r t.kingdom k := by
    intro t t' i replaced u hp
    unfold Backlog.put at hp
    split at hp
    · split at hp
      · cases hp
        exact .inl rfl
      · obtain ⟨m, hm, rfl⟩ := Option.map_eq_some_iff.mp hp
        have hk := hmove hm
        exact .inr ⟨.space i (.out u), hk, trivial⟩
    · cases hp
  cases m with
  | create i t draws id now =>
    simp only [step] at h
    split at h
    · unfold create at h
      split at h
      · exact (hput h).imp_right fun hk => by
          obtain ⟨k, hk, hg⟩ := hk
          exact ⟨k, hk, fun _ => hg⟩
      · cases h
        exact .inl rfl
      · cases h
        exact .inl rfl
    · cases h
  | begin i op =>
    simp only [step] at h
    split at h
    · unfold begin at h
      split at h
      · obtain ⟨m, hm, rfl⟩ := Option.map_eq_some_iff.mp h
        have hk := hmove hm
        exact .inr ⟨_, hk, fun _ => trivial⟩
      · cases h
        exact .inl rfl
      · cases h
        exact .inl rfl
    · cases h
  | finish i id now =>
    simp only [step, finish] at h
    split at h
    · cases h
    · split at h
      · cases h
        exact .inl rfl
      · obtain ⟨m, hm, rfl⟩ := Option.map_eq_some_iff.mp h
        exact (hput hm).imp_right fun hk => by
          obtain ⟨k, hk, hg⟩ := hk
          exact ⟨k, hk, fun _ => hg⟩
  | emit i t =>
    simp only [step] at h
    split at h
    · cases h
    · exact .inr ⟨_, hmove h, fun _ => trivial⟩
  | exchange i outStamps takeStamps contact => exact .inr ⟨_, hmove h, fun _ => trivial⟩
  | compact i => exact .inr ⟨_, hmove h, fun hg => hg⟩

end

variable {t : Tuple}

theorem contact_written_task {k : Castle c} {contact : Contact} (h : t ∈ contact.written k) :
    t.category ≠ .task := by
  cases contact with
  | skipped | synced => cases h
  | unreachable id now error | pushFailed id now error =>
    rw [mem_singleton.mp h]
    exact nofun

theorem contact_written_exact {k : Castle c} {contact : Contact} (h : t ∈ contact.written k) :
    c.exact t = true := by
  cases contact with
  | skipped | synced => cases h
  | unreachable id now error | pushFailed id now error =>
    rw [mem_singleton.mp h]
    rfl

variable {r : Realm c n}

theorem shared_of_ticket {s : Kingdom n} {a : Fin n} (hb : (a, t) ∈ s.born)
    (ht : IsTicket (r.castle a).label t) : Shared r s a t := by
  refine ⟨hb, ht.inst, ?_, ?_⟩
  · rw [ht.lifecycle]
    exact nofun
  · have hne : t.identity ≠ castlePresence := by
      intro he
      have hid := ht.identity
      rw [he] at hid
      exact absurd hid (by decide)
    simp [syntheticCastlePresence, hne]

structure Wrote (r : Realm c n) (s : Kingdom n) (a : Fin n) (t : Tuple) : Prop where
  born : (a, t) ∈ s.born
  ticket : IsTicket (r.castle a).label t

theorem Wrote.shared {s : Kingdom n} {a : Fin n} (h : Wrote r s a t) :
    Shared r s a t := shared_of_ticket h.born h.ticket

/-- What the versions of a backlog rest on when every edit is made at home: the tickets
are the task tuples of the kingdom, a version that was replaced is gone where it was
written, and each ticket has a version that stands or is being edited. -/
structure Tended (r : Realm c n) (s : Backlog n) : Prop where
  sound : Sound r s.kingdom
  exact : ∀ p ∈ s.kingdom.born, c.exact p.2 = true
  unattended : Unattended s.kingdom
  versions : ∀ v ∈ s.versions, ∃ a, Wrote r s.kingdom a v.tuple
  tasks : ∀ p ∈ s.kingdom.born, p.2.category = .task → ∃ v ∈ s.versions, v.tuple = p.2
  editing : ∀ i e, s.editing i = some e → Wrote r s.kingdom i e.existing ∧
    ¬ (fate s.kingdom i e.existing.id).live i ∧
      ∀ now, ∃ v, e.rewrite now = .ok v ∧ isObject v = true ∧ v.doubles = []
  replaced : ∀ v ∈ s.versions, ∀ id, v.replaced = some id →
    ∃ a t, Wrote r s.kingdom a t ∧ t.id = id ∧ ¬ (fate s.kingdom a t.id).live a
  held : ∀ a t, Wrote r s.kingdom a t →
    (∃ u, Wrote r s.kingdom a u ∧ u.identity = t.identity ∧ (fate s.kingdom a u.id).Standing a) ∨
      ∃ e, s.editing a = some e ∧ e.existing.identity = t.identity

section
variable {r : Realm c n} {s s' : Backlog n} {t : Tuple}

theorem Wrote.mono {k k' : Kingdom n} (hb : ∀ p ∈ k.born, p ∈ k'.born) {a : Fin n}
    (h : Wrote r k a t) : Wrote r k' a t := ⟨hb _ h.born, h.ticket⟩

variable {i : Fin n}

theorem Tended.wrote (h : Tended r s) {row : Row} (hrow : row ∈ (s.store i).rows)
    (ht : row.tuple.category = .task) :
    ∃ a, Wrote r s.kingdom a row.tuple ∧ ∃ v ∈ s.versions, v.tuple = row.tuple := by
  obtain ⟨o, ho, -⟩ := (h.sound.site i).journal row ((h.sound.site i).rows row hrow)
  obtain ⟨v, hv, hvt⟩ := h.tasks _ ho ht
  obtain ⟨a, ha⟩ := h.versions v hv
  rw [hvt] at ha
  exact ⟨a, ha, v, hv, hvt⟩

theorem Tended.latest (h : Tended r s) {a : Fin n} {u : Tuple} (hu : Wrote r s.kingdom a u)
    (hl : (fate s.kingdom a u.id).live a) : s.Latest u := by
  refine ⟨h.tasks _ hu.born hu.ticket.category, fun v hv hr => ?_⟩
  obtain ⟨b, t, ht, hid, hgone⟩ := h.replaced v hv _ hr
  have heq : (b, t) = (a, u) := h.sound.ledger.tuple_eq ht.born hu.born hid
  cases heq
  exact hgone hl

theorem Tended.exports (h : Tended r s) (i : Fin n) :
    (s.kingdom.sites i).exportsExactly (r.castle i) := by
  intro l hl t ht
  obtain ⟨j, hj, -, -, rfl⟩ := ((captureDelta_some hl).2.2.2 t).mp (mem_filter.mp ht).1
  obtain ⟨o, ho, -⟩ := (h.sound.site i).journal j hj
  exact h.exact _ ho

theorem IsTicket.exact {castle : String} (h : IsTicket castle t) : c.exact t = true := by
  rw [Ed25519.exact, h.doubles]
  rfl

theorem tended_fresh (r : Realm c n) : Tended r (fresh r) := by
  have hn : ∀ p ∈ (Kingdom.fresh r).born, p.2.category ≠ .task ∧ c.exact p.2 = true := by
    intro p hp
    simp only [Kingdom.fresh, mem_ofFn] at hp
    obtain ⟨i, rfl⟩ := hp
    exact ⟨Category.noConfusion, rfl⟩
  refine ⟨(kingdomInv_fresh r).toSound, fun p hp => (hn p hp).2, fun i => rfl, by simp [fresh],
    fun p hp ht => ?_,
    by simp [fresh], by simp [fresh], fun a t ht => ?_⟩
  · exact absurd ht (hn p hp).1
  · exact absurd ht.ticket.category (hn _ ht.born).1

section
variable (h : Tended r s)
include h

/-- A step of the castles that writes no ticket, keeps what stands and leaves no reader
waiting. -/
theorem Tended.quiet {m : Sync.Move n} {kingdom : Kingdom n}
    (hs : s.kingdom.step r m = some kingdom) (hexact : exactGuard r s.kingdom m)
    (hun : Unattended kingdom) (hborn : ∀ p ∈ kingdom.born, c.exact p.2 = true)
    (htasks : ∀ p ∈ kingdom.born, p.2.category = .task → p ∈ s.kingdom.born)
    (hstand : ∀ a t, Wrote r s.kingdom a t → (fate s.kingdom a t.id).Standing a →
      (fate kingdom a t.id).Standing a) :
    Tended r { s with kingdom } := by
  have hmono : ∀ p ∈ s.kingdom.born, p ∈ kingdom.born := fun p hp => born_mono hs hp
  have hgone : ∀ {a : Fin n} {t : Tuple}, Wrote r s.kingdom a t →
      ¬ (fate s.kingdom a t.id).live a → ¬ (fate kingdom a t.id).live a :=
    fun hw hg => gone_step h.sound hw.shared hs hexact hg
  refine ⟨sound_step h.sound hs hexact, hborn, hun, fun v hv => ?_, fun p hp ht => h.tasks p
    (htasks p hp ht) ht,
    fun i e he => ?_, fun v hv id hr => ?_, fun a t ht => ?_⟩
  · obtain ⟨a, ha⟩ := h.versions v hv
    exact ⟨a, ha.mono hmono⟩
  · obtain ⟨hw, hg, hrw⟩ := h.editing i e he
    exact ⟨hw.mono hmono, hgone hw hg, hrw⟩
  · obtain ⟨a, t, hw, hid, hg⟩ := h.replaced v hv id hr
    exact ⟨a, t, hw.mono hmono, hid, hgone hw hg⟩
  · have ht' : Wrote r s.kingdom a t := ⟨htasks _ ht.born ht.ticket.category, ht.ticket⟩
    rcases h.held a t ht' with ⟨u, hu, hid, hst⟩ | he
    · exact .inl ⟨u, hu.mono hmono, hid, hstand a u hu hst⟩
    · exact .inr he

theorem Tended.put {i : Fin n} {replaced : Option RecordId} {t : Tuple}
    (ht : IsTicket (r.castle i).label t)
    (hr : ∀ id, replaced = some id → ∃ u, Wrote r s.kingdom i u ∧ u.id = id ∧
      ¬ (fate s.kingdom i u.id).live i)
    (hp : s.put r i replaced t = some s') :
    (s' = s ∧ ∃ e, (s.kingdom.sites i).space.out t = .error e) ∨
      Tended r s' ∧ s'.editing = s.editing ∧ (∀ p ∈ s.kingdom.born, p ∈ s'.kingdom.born) ∧
        Wrote r s'.kingdom i t ∧ (fate s'.kingdom i t.id).Standing i := by
  rcases put_cases hp with hrefused | ⟨space, hfresh, hout, rfl⟩
  · exact .inl hrefused
  right
  have hs : (s.kingdom.sites i).space.step (.out t) = some space := by
    simp only [Inner.step, hout, settle, id]
  have hkstep : s.kingdom.step r (.space i (.out t)) =
      some (s.kingdom.worked i { s.kingdom.sites i with space } [t]) := by
    simp only [Kingdom.step, localOp, written, hfresh, Bool.and_self, if_true, hs, Option.map_some]
  obtain ⟨-, hspace⟩ := insertAndOffer_unattended (h.unattended i) hout
  have hmono : ∀ p ∈ s.kingdom.born,
      p ∈ (s.kingdom.worked i { s.kingdom.sites i with space } [t]).born :=
    fun p hp => mem_born_worked.mpr (.inl hp)
  have hnew : Wrote r (s.kingdom.worked i { s.kingdom.sites i with space } [t]) i t :=
    ⟨mem_born_worked.mpr (.inr ⟨rfl, mem_cons_self⟩), ht⟩
  have hst := standing_written h.sound h.unattended hfresh hout
  have hold : ∀ {a : Fin n} {u : Tuple}, Wrote r s.kingdom a u → (fate s.kingdom a u.id).Standing a →
      (fate (s.kingdom.worked i { s.kingdom.sites i with space } [t]) a u.id).Standing a := by
    intro a u hu hst
    refine standing_space hst hu.shared (show localOp (.out t) = true from rfl) hfresh hs
      fun hx => ?_
    rw [hspace]
    exact existsId_of_subset (fun row hrow => mem_rows_push.mpr (.inl hrow)) hx
  have hgone : ∀ {a : Fin n} {u : Tuple}, Wrote r s.kingdom a u → ¬ (fate s.kingdom a u.id).live a →
      ¬ (fate (s.kingdom.worked i { s.kingdom.sites i with space } [t]) a u.id).live a :=
    fun hw hg => gone_step h.sound hw.shared hkstep trivial hg
  refine ⟨⟨sound_step h.sound hkstep trivial, fun p hp => ?_, ?_, fun v hv => ?_, fun p hp hcat =>
    ?_, fun j e he => ?_,
    fun v hv id hrep => ?_, fun a u hu => ?_⟩, rfl, hmono, hnew, hst⟩
  · rcases mem_born_worked.mp hp with hb | ⟨-, hw⟩
    · exact h.exact p hb
    · exact mem_singleton.mp hw ▸ ht.exact
  · refine unattended_worked h.unattended ?_ _
    rw [hspace]
    exact h.unattended i
  · rcases mem_append.mp hv with hv | hv
    · obtain ⟨a, ha⟩ := h.versions v hv
      exact ⟨a, ha.mono hmono⟩
    · rw [mem_singleton.mp hv]
      exact ⟨i, hnew⟩
  · rcases mem_born_worked.mp hp with hb | ⟨-, hw⟩
    · obtain ⟨v, hv, hvt⟩ := h.tasks p hb hcat
      exact ⟨v, mem_append_left _ hv, hvt⟩
    · exact ⟨_, mem_append_right _ mem_cons_self, (mem_singleton.mp hw).symm⟩
  · obtain ⟨hw, hg, hrw⟩ := h.editing j e he
    exact ⟨hw.mono hmono, hgone hw hg, hrw⟩
  · rcases mem_append.mp hv with hv | hv
    · obtain ⟨a, u, hw, hid, hg⟩ := h.replaced v hv id hrep
      exact ⟨a, u, hw.mono hmono, hid, hgone hw hg⟩
    · rw [mem_singleton.mp hv] at hrep
      obtain ⟨u, hw, hid, hg⟩ := hr id hrep
      exact ⟨i, u, hw.mono hmono, hid, hgone hw hg⟩
  · rcases mem_born_worked.mp hu.born with hb | ⟨hi, hw⟩
    · rcases h.held a u ⟨hb, hu.ticket⟩ with ⟨v, hv, hid, hstv⟩ | he
      · exact .inl ⟨v, hv.mono hmono, hid, hold hv hstv⟩
      · exact .inr he
    · dsimp only at hi hw
      rw [hi, mem_singleton.mp hw]
      exact .inl ⟨t, hnew, rfl, hst⟩

theorem Tended.begin {op : TicketEdit} (hfree : s.editing i = none)
    (hstep : s.begin r i op = some s') (hg : editsAtHome r s (.begin i op)) : Tended r s' := by
  unfold Backlog.begin at hstep
  split at hstep
  · rename_i e he
    have hhome : e.existing.inst = (r.castle i).label := hg e he
    have hsound := begin_sound he
    obtain ⟨m, hm, rfl⟩ := Option.map_eq_some_iff.mp hstep
    obtain ⟨kingdom, hk, rfl⟩ := move_some hm
    obtain ⟨space, hs, rfl, hwait, hstore⟩ := take_spec hsound hk
    obtain ⟨row, rest, hq, hrow⟩ := hsound.taken
    obtain ⟨hmem, hmatch⟩ := query_spec (hq ▸ mem_cons_self)
    -- The tuple taken is a version the castle itself wrote.
    obtain ⟨a, ha, -⟩ := h.wrote hmem (hrow ▸ (ticketPattern_matches hmatch).1)
    rw [hrow] at ha
    have hai : a = i := r.labels (ha.ticket.inst.symm.trans hhome)
    subst hai
    have hmono : ∀ p ∈ s.kingdom.born,
        p ∈ (s.kingdom.worked a { s.kingdom.sites a with space } []).born :=
      fun p hp => mem_born_worked.mpr (.inl hp)
    have hback : ∀ p ∈ (s.kingdom.worked a { s.kingdom.sites a with space } []).born,
        p ∈ s.kingdom.born := by
      intro p hp
      exact (mem_born_worked.mp hp).resolve_right fun hn => not_mem_nil hn.2
    have hgone : ∀ {b : Fin n} {t : Tuple}, Wrote r s.kingdom b t →
        ¬ (fate s.kingdom b t.id).live b →
        ¬ (fate (s.kingdom.worked a { s.kingdom.sites a with space } []) b t.id).live b :=
      fun hw hl => gone_step h.sound hw.shared hk trivial hl
    refine ⟨sound_step h.sound hk trivial, fun p hp => h.exact p (hback p hp), unattended_worked
      h.unattended (hwait.trans (h.unattended a)) _,
      fun v hv => ?_, fun p hp ht => h.tasks p (hback p hp) ht, fun j e' he' => ?_,
      fun v hv id hr => ?_, fun b t ht => ?_⟩
    · obtain ⟨b, hb⟩ := h.versions v hv
      exact ⟨b, hb.mono hmono⟩
    · by_cases hj : j = a
      · subst hj
        rw [lock_self] at he'
        cases he'
        refine ⟨ha.mono hmono, ?_, fun now => ?_⟩
        rotate_left
        · obtain ⟨v, hv, hobj⟩ := hsound.rewrites ha.ticket.payload now
          exact ⟨v, hv, hobj, begin_doubles he ha.ticket.doubles hv⟩
        simp only [Backlog.lock, fate, worked_self, hstore]
        rw [Bool.not_eq_true]
        exact Store.existsId_eq_false.mpr fun x hx => (Store.mem_erase_rows.mp hx).2
      · rw [lock_ne hj] at he'
        obtain ⟨hw, hl, hrw⟩ := h.editing j e' he'
        exact ⟨hw.mono hmono, hgone hw hl, hrw⟩
    · obtain ⟨b, t, hw, hid, hl⟩ := h.replaced v hv id hr
      exact ⟨b, t, hw.mono hmono, hid, hgone hw hl⟩
    · have ht' : Wrote r s.kingdom b t := ⟨hback _ ht.born, ht.ticket⟩
      rcases h.held b t ht' with ⟨u, hu, hid, hst⟩ | ⟨e', he', hid⟩
      · by_cases hue : u.id = e.existing.id
        · have heq : (b, u) = (a, e.existing) := h.sound.ledger.tuple_eq hu.born ha.born hue
          cases heq
          exact .inr ⟨e, lock_self _ _, hid⟩
        · refine .inl ⟨u, hu.mono hmono, hid, standing_space hst hu.shared rfl rfl hs fun hx => ?_⟩
          obtain ⟨x, hx, hxid⟩ := Store.existsId_eq_true.mp hx
          rw [hstore]
          refine Store.existsId_eq_true.mpr ⟨x, Store.mem_erase_rows.mpr ⟨hx, fun hn => hue ?_⟩, hxid⟩
          exact hxid.symm.trans hn
      · have hba : b ≠ a := by
          intro hn
          rw [hn, hfree] at he'
          cases he'
        exact .inr ⟨e', (lock_ne hba _).trans he', hid⟩
  · cases hstep
    exact h
  · cases hstep
    exact h

theorem Tended.release {e : Edit} (he : s.editing i = some e) (ht : Wrote r s.kingdom i t)
    (hid : t.identity = e.existing.identity) (hst : (fate s.kingdom i t.id).Standing i) :
    Tended r (s.lock i none) := by
  refine ⟨h.sound, h.exact, h.unattended, h.versions, h.tasks, fun j e' he' => ?_, h.replaced,
    fun a u hu => ?_⟩
  · by_cases hj : j = i
    · subst hj
      rw [lock_self] at he'
      cases he'
    · rw [lock_ne hj] at he'
      exact h.editing j e' he'
  · rcases h.held a u hu with hs | ⟨e', he', hid'⟩
    · exact .inl hs
    · by_cases ha : a = i
      · subst ha
        rw [he] at he'
        cases he'
        exact .inl ⟨t, ht, hid.trans hid', hst⟩
      · exact .inr ⟨e', (lock_ne ha _).trans he', hid'⟩

theorem Tended.accepts (hfresh : s.kingdom.freshTuples [t] = true)
    (hseq : (s.store i).lastSequence < Store.maxSequence) {e : Error} :
    (s.kingdom.sites i).space.out t ≠ .error e := by
  have hx : (s.store i).existsId t.id = false := by
    refine Store.existsId_eq_false.mpr fun row hrow hid => ?_
    obtain ⟨o, ho, -⟩ := (h.sound.site i).journal row ((h.sound.site i).rows row hrow)
    exact freshTuples_spec hfresh t mem_cons_self _ ho hid
  have ha : Space.accepts (s.store i) t = true := by
    simp only [Space.accepts, hx, Bool.not_false, Bool.true_and, decide_eq_true_eq]
    exact hseq
  intro he
  rcases insertAndOffer_spec (s.kingdom.sites i).space t with ⟨-, m, hm, -⟩ | ⟨hn, -⟩
  · have he' : (s.kingdom.sites i).space.insertAndOffer t = .error e := he
    rw [hm] at he'
    cases he'
  · have hn' : Space.accepts (s.store i) t = false := hn
    rw [ha] at hn'
    cases hn'

theorem Tended.finish {id : RecordId} {now : DateTime} (hs : s.finish r i id now = some s')
    (hg : editsAtHome r s (.finish i id now)) : Tended r s' := by
  unfold Backlog.finish at hs
  split at hs
  · cases hs
  · rename_i e he
    obtain ⟨hw, hgone, hrw⟩ := h.editing i e he
    obtain ⟨payload, hpay, hobj, hdoubles⟩ := hrw now
    rw [hpay] at hs
    obtain ⟨m, hm, rfl⟩ := Option.map_eq_some_iff.mp hs
    have ht := hw.ticket.withPayload hobj hdoubles id
    have hprev : ∀ id', some e.existing.id = some id' → ∃ u, Wrote r s.kingdom i u ∧ u.id = id' ∧
        ¬ (fate s.kingdom i u.id).live i := by
      intro id' hid
      exact ⟨e.existing, hw, Option.some.inj hid, hgone⟩
    rcases h.put ht hprev hm with ⟨-, err, hrefused⟩ | ⟨hm', hlock, -, hnew, hst⟩
    · have hfresh : s.kingdom.freshTuples [withPayload e.existing id payload] = true := by
        unfold Backlog.put at hm
        split at hm
        · assumption
        · cases hm
      exact absurd hrefused (h.accepts hfresh hg)
    · exact hm'.release (e := e) (by rw [hlock]; exact he) hnew rfl hst

theorem Tended.create {t : NewTicket} {draws : List Nat} {id : RecordId} {now : DateTime}
    (hstep : s.create r i t draws id now = some s') : Tended r s' := by
  unfold Backlog.create at hstep
  split at hstep
  · rename_i ticket hc
    obtain ⟨ht, -⟩ := createIdempotent_spec hc
    have hfirst : ∀ id', (none : Option RecordId) = some id' → ∃ u, Wrote r s.kingdom i u ∧
        u.id = id' ∧ ¬ (fate s.kingdom i u.id).live i := by
      intro id' hid
      cases hid
    rcases h.put ht hfirst hstep with ⟨rfl, -⟩ | ⟨hs, -⟩
    · exact h
    · exact hs
  · cases hstep
    exact h
  · cases hstep
    exact h

end

theorem unattended_out {k : Kingdom n} (h : Unattended k) {space : Inner}
    (hs : (k.sites i).space.step (.out t) = some space) :
    space.waiters = [] ∧ ∀ row ∈ (k.sites i).space.store.rows, row ∈ space.store.rows := by
  simp only [Inner.step, Option.some.injEq] at hs
  cases ho : (k.sites i).space.out t with
  | error e =>
    rw [ho] at hs
    subst hs
    exact ⟨h i, fun _ hr => hr⟩
  | ok m =>
    rw [ho] at hs
    obtain ⟨-, rfl⟩ := insertAndOffer_unattended (h i) ho
    subst hs
    exact ⟨h i, fun row hr => mem_rows_push.mpr (.inl hr)⟩

theorem Tended.emit (h : Tended r s) (hcat : t.category ≠ .task) (hexact : c.exact t = true)
    (hstep : s.move r (.space i (.out t)) = some s') : Tended r s' := by
  obtain ⟨kingdom, hk, rfl⟩ := move_some hstep
  obtain ⟨j, op, space, hm, hop, hfresh, hs, rfl⟩ | ⟨j, o, u, x, site, remote, hm, -⟩ | ⟨j, hm, -⟩ :=
    step_cases hk
  · cases hm
    obtain ⟨hwait, hsub⟩ := unattended_out h.unattended hs
    refine h.quiet hk trivial (unattended_worked h.unattended hwait _) (fun p hp => ?_)
      (fun p hp ht => ?_)
      fun a u hu hst => standing_space hst hu.shared hop hfresh hs (existsId_of_subset hsub)
    all_goals rcases mem_born_worked.mp hp with hb | ⟨-, hw⟩
    · exact h.exact p hb
    · exact mem_singleton.mp hw ▸ hexact
    · exact hb
    · rw [mem_singleton.mp hw] at ht
      exact absurd ht hcat
  · cases hm
  · cases hm

theorem Tended.exchange (h : Tended r s) {outStamps takeStamps : List Stamp} {contact : Contact}
    (hs : s.move r (.exchange i outStamps takeStamps contact) = some s') :
    Tended r s' := by
  obtain ⟨kingdom, hk, rfl⟩ := move_some hs
  obtain ⟨j, op, space, hm, -⟩ | ⟨j, o, u, x, site, remote, hm, hstamps, hfresh, hx, rfl⟩
    | ⟨j, hm, -⟩ :=
    step_cases hk
  · cases hm
  · cases hm
    have hun := exchange_unattended (h.unattended i) hx
    refine h.quiet hk (h.exports i) (unattended_exchanged h.unattended hun.waiters _ _) (fun p hp => ?_)
      (fun p hp ht => ?_)
      fun a t hw hst =>
        standing_exchange h.sound hst hw.shared h.unattended (h.exports i) hstamps hfresh hx
    all_goals rcases mem_born_worked.mp hp with hb | ⟨-, hw⟩
    · exact h.exact p hb
    · exact contact_written_exact hw
    · exact hb
    · exact absurd ht (contact_written_task hw)
  · cases hm

theorem Tended.compact (h : Tended r s) (hs : s.move r (.compact i) = some s') :
    Tended r s' := by
  obtain ⟨kingdom, hk, rfl⟩ := move_some hs
  obtain ⟨j, op, space, hm, -⟩ | ⟨j, o, u, x, site, remote, hm, -⟩ | ⟨j, hm, rfl⟩ := step_cases hk
  · cases hm
  · cases hm
  · cases hm
    obtain ⟨own, he⟩ := compact_frame (r.castle i) (s.kingdom.sites i)
    have hback : ∀ p ∈ (s.kingdom.worked i ((s.kingdom.sites i).compact (r.castle i)) []).born,
        p ∈ s.kingdom.born :=
      fun p hp => (mem_born_worked.mp hp).resolve_right fun hn => not_mem_nil hn.2
    refine h.quiet hk trivial (unattended_worked h.unattended ?_ _) (fun p hp => h.exact p (hback p hp))
      (fun p hp _ => hback p hp) fun a t hw hst => standing_compact h.sound hst hw.shared
    rw [he]
    exact h.unattended i

theorem tended_step (h : Tended r s) (hs : s.step r m = some s') (hg : editsAtHome r s m) :
    Tended r s' := by
  cases m with
  | create i t draws id now =>
    simp only [step] at hs
    split at hs
    · exact h.create hs
    · cases hs
  | begin i op =>
    simp only [step] at hs
    split at hs
    · rename_i hfree
      exact h.begin (Option.isNone_iff_eq_none.mp hfree) hs hg
    · cases hs
  | finish i id now => exact h.finish hs hg
  | emit i t =>
    simp only [step] at hs
    split at hs
    · cases hs
    · rename_i hno
      exact h.emit hno hg hs
  | exchange i outStamps takeStamps contact => exact h.exchange hs
  | compact i => exact h.compact hs

theorem everywhere_of_rested (h : Tended r s) (hrest : s.Rested r) : s.Everywhere := by
  intro v hv i
  obtain ⟨a, ha⟩ := h.versions v hv
  rcases h.held a v.tuple ha with ⟨u, hu, hid, hst⟩ | ⟨e, he, -⟩
  · have hm := standing_everywhere h.sound hrest.1 hu.shared hst i
    exact ⟨u, hm, hu.ticket.category, hid, u, h.latest hu hst.live, hid, rfl⟩
  · rw [hrest.2 a] at he
    cases he

theorem current_of_rested (h : Tended r s) (hk : KingdomInv r s.kingdom) (hrest : s.Rested r) :
    s.Current := by
  intro i t ht hcat
  obtain ⟨row, hrow, rfl⟩ := mem_map.mp ht
  obtain ⟨a, ha, -⟩ := h.wrote hrow hcat
  have hagree := (converged_of_settled hk hrest.1 a row.tuple ha.shared).1 i a ht
  exact h.latest ha ((mem_tuples_iff_live h.sound ha.born a).mp hagree)

theorem Tended.exactGuard (h : Tended r s) (m : Sync.Move n) : Sync.exactGuard r s.kingdom m := by
  cases m with
  | exchange i _ _ _ => exact h.exports i
  | _ => trivial

theorem kingdomInv_backlog (ht : Tended r s) (h : KingdomInv r s.kingdom) (hs : s.step r m = some s')
    (hg : dropsSafely r s m) : KingdomInv r s'.kingdom := by
  rcases step_kingdom hs with he | ⟨k, hk, hsafe⟩
  · rw [he]
    exact h
  · exact kingdomInv_step h hk (hsafe hg) (ht.exactGuard k)

end

/-- In every run, over any number of castles, in which every ticket is edited on the castle
that created it, a backlog at rest has every ticket on every castle as its last edit left
it; and, when no compaction forgets a take too soon, no older version beside it. -/
theorem home_edits_reach_every_castle (r : Realm c n) (moves : List (Move n))
    (h : Meets (step r) (editsAtHome r) (fresh r) moves) :
    Keeps (step r) (fun s => s.Rested r → s.Everywhere) (fresh r) moves ∧
      (Meets (step r) (dropsSafely r) (fresh r) moves →
        Keeps (step r) (fun s => s.Rested r → s.Current) (fresh r) moves) := by
  constructor
  · refine (keeps_of_meets (P := Tended r) ?_ (tended_fresh r) h).mono fun s hs =>
      everywhere_of_rested hs
    intro s m s' hs hstep hg
    exact tended_step hs hstep hg
  · intro hsafe
    refine (keeps_of_meets (P := fun s => Tended r s ∧ KingdomInv r s.kingdom) ?_
      ⟨tended_fresh r, kingdomInv_fresh r⟩ (h.and hsafe)).mono fun s hs => current_of_rested hs.1 hs.2
    intro s m s' hs hstep hg
    exact ⟨tended_step hs.1 hstep hg.1, kingdomInv_backlog hs.1 hs.2 hstep hg.2⟩

/-- The castle of `twoCastles` that files the ticket. -/
def north : Fin 2 := ⟨0, Nat.zero_lt_two⟩

/-- The other castle of `twoCastles`. -/
def south : Fin 2 := ⟨1, Nat.one_lt_two⟩

def cycle (i : Fin 2) (outStamps takeStamps : List Stamp) : List (Move 2) :=
  [.exchange i outStamps takeStamps .synced, .compact i]

def filed : List (Move 2) :=
  [.create north { title := "work" } [1, 2, 3, 4, 5, 6, 7, 8] 10 0] ++
    cycle north [(20, 0)] [(21, 0)] ++ cycle south [] [(22, 0)]

/-- North claims it, and the castles cycle in turn until nothing changes. -/
def claimedAtHome : List (Move 2) :=
  filed ++ [.begin north (.claim "TKT-babab-babab-babad"), .finish north 11 1] ++
    cycle north [(30, 0)] [(31, 0), (32, 0)] ++ cycle south [] [(33, 0)] ++
    cycle north [] [(34, 0)] ++ cycle south [] [(35, 0)] ++ cycle north [] [(36, 0)] ++
    cycle south [] [(37, 0)] ++ cycle north [] [(38, 0)] ++ cycle south [] [(39, 0)] ++
    cycle north [] [(40, 0)]

theorem home_edits_reach_every_castle_claimed :
    ((run (step twoCastles) (fresh twoCastles) claimedAtHome).map fun s =>
      (resting twoCastles s.kingdom 0 && resting twoCastles s.kingdom 1,
        (s.store 1).rows.map fun row => (row.tuple.id, row.tuple.payload.getStr "status"))) =
      some (true, [(1, none), (11, some "in_progress")]) ∧
    Keeps (step twoCastles) (fun s => s.Rested twoCastles → s.Everywhere)
      (fresh twoCastles) claimedAtHome ∧
    Keeps (step twoCastles) (fun s => s.Rested twoCastles → s.Current)
      (fresh twoCastles) claimedAtHome :=
  have h := home_edits_reach_every_castle twoCastles claimedAtHome (by decide +kernel)
  ⟨by decide +kernel, h.1, h.2 (by decide +kernel)⟩

def claimedAbroad : List (Move 2) :=
  filed ++ [.begin south (.claim "TKT-babab-babab-babad"), .finish south 11 1] ++
    cycle south [] [(30, 0), (31, 0)] ++ cycle north [] [(32, 0)] ++
    cycle north [] [(33, 0)] ++ cycle south [] [(34, 0)] ++ cycle north [] [(35, 0)] ++
    cycle south [] [(36, 0)] ++ cycle north [] [(37, 0)] ++ cycle south [] [(38, 0)]

theorem sound_step_backlog {r : Realm namedScheme n} {s s' : Backlog n} (h : Sound r s.kingdom)
    (hs : s.step r m = some s') : Sound r s'.kingdom := by
  rcases step_kingdom hs with he | ⟨k, hk, -⟩
  · rw [he]
    exact h
  · exact sound_step h hk (named_exact _ k)

/-- At the end nothing is under way and both castles rest; north, which filed the ticket,
has no tuple of it. -/
theorem claim_abroad_loses_ticket :
    ¬ Keeps (step twoCastles) (fun s => s.Rested twoCastles → s.Everywhere)
      (fresh twoCastles) claimedAbroad := by
  have hend : (run (step twoCastles) (.fresh twoCastles) claimedAbroad).any (fun s =>
      resting twoCastles s.kingdom 0 && resting twoCastles s.kingdom 1 &&
        (s.editing 0).isNone && (s.editing 1).isNone && !s.versions.isEmpty &&
        (s.store 0).tuples.all fun t => t.category ≠ .task) = true := by
    decide +kernel
  intro hk
  obtain ⟨s, hs, hP⟩ := run_of_any hend
  simp only [Bool.and_eq_true, Bool.not_eq_true', all_eq_true, decide_eq_true_eq,
    Option.isNone_iff_eq_none] at hP
  obtain ⟨⟨⟨⟨⟨hrest₀, hrest₁⟩, hfree₀⟩, hfree₁⟩, hsome⟩, hn⟩ := hP
  have hsound : Sound twoCastles s.kingdom :=
    run_invariant (I := fun s => Sound twoCastles s.kingdom)
      (fun _ _ _ h hstep => sound_step_backlog h hstep)
      (kingdomInv_fresh twoCastles).toSound hs
  have hrested : s.Rested twoCastles := by
    constructor
    · intro i
      match i with
      | 0 => exact rests_of_resting hsound hrest₀
      | 1 => exact rests_of_resting hsound hrest₁
    · intro i
      match i with
      | 0 => exact hfree₀
      | 1 => exact hfree₁
  obtain ⟨v, hv⟩ := exists_mem_of_ne_nil s.versions (by simpa using hsome)
  obtain ⟨t, ht, hcat, -⟩ := (hk.last hs) hrested v hv 0
  exact hn t ht hcat

end RatKingdom.Tickets
