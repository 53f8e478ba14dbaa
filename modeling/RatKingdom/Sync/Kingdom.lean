/-
Any number of castles around one remote.

A castle's cycle runs to its end without another call in between: `Site.exchange` is all
of it up to the compaction, put together from the parts of `run_cycle`, and a run of the
machine of one castle.  The step of a kingdom is a call on the space of one castle, an
exchange, or a compaction.
-/
import Mathlib.Logic.Relation
import RatKingdom.Sync.Resurrect

namespace RatKingdom.Sync

open Core Lib Space Std List Function Site State

variable {c : Ed25519}

/-- How the part of a cycle that talks to the remote ends. -/
inductive Contact where
  | skipped
  | unreachable (id : RecordId) (now : DateTime) (error : String)
  | pushFailed (id : RecordId) (now : DateTime) (error : String)
  | synced

def Site.collectAll (k : Castle c) (s : Site) : List RecordId → List Stamp → Collect → Collect
  | id :: rest, stamp :: stamps, l => s.collectAll k rest stamps (s.collectOne k l id rest stamp)
  | _, _, l => l

/-- The records of a cycle: one stamp per tuple to export and per id that may have been
consumed. -/
def Site.gather (k : Castle c) (s : Site) (outStamps takeStamps : List Stamp) : Option Collect :=
  match s.captureDelta with
  | none => none
  | some l =>
    if outStamps.length = (ours k l.delta (liveIds s.space.store)).length then
      let m := s.beginCollect k (s.scan k l outStamps)
      if takeStamps.length = m.pending.length then some (s.collectAll k m.pending takeStamps m)
        else none
    else none

def Site.append (c : Ed25519) (s : Site) (l : Collect) : Site :=
  { s with
    own := s.own ++ l.records.map (.reread c)
    cursor := if l.delta.boundary > l.cursor then some l.delta.boundary else s.cursor }

def Site.report (k : Castle c) (s : Site) (id : RecordId) (now : DateTime) (error : String) :
    Option Site :=
  match s.space.out (syncFailure k id now error) with
  | .error _ => none
  | .ok space => some { s with space }

def Site.contact (k : Castle c) (s : Site) (remote : Refs) : Contact → Option (Site × Refs)
  | .skipped => if k.remoteConfigured then none else some (s, remote)
  | .unreachable id now error =>
    if k.remoteConfigured then (s.report k id now error).map fun s => (s, remote) else none
  | .pushFailed id now error =>
    if k.remoteConfigured then
      (report k { s with tracking := s.tracking ∪ remote } id now error).map fun s => (s, remote)
    else none
  | .synced =>
    if k.remoteConfigured then
      some ({ s with tracking := s.tracking ∪ remote },
        remote.insert k.identity.actor (s.own.map some))
    else none

def Site.importAll (k : Castle c) (view : LogView) : List (RecordId × Tuple) → Site → Option Site
  | [], s => some s
  | (id, t) :: rest, s =>
    match s.importOne k view id t with
    | .error _ => none
    | .ok (s', _) => s'.importAll k view rest

def Site.deleteAll : List RecordId → Site → Site
  | [], s => s
  | id :: rest, s => deleteAll rest { s with space := (s.space.delete id).1 }

def Site.finish (k : Castle c) (s : Site) : Option Site :=
  (s.importAll k (s.log k) (s.log k).tuples.toList).map fun m =>
    let d := m.deleteAll ((s.log k).taken.toList.map Prod.fst)
    { d with presence := liveIds d.space.store }

/-- The tuples the next cycle exports are parsed as they are written. -/
def Site.exportsExactly (k : Castle c) (s : Site) : Prop :=
  ∀ l ∈ s.captureDelta, ∀ t ∈ ours k l.delta (liveIds s.space.store), c.exact t = true

/-- `Syncer::run_cycle` up to its compaction. -/
def Site.exchange (k : Castle c) (s : Site) (remote : Refs) (outStamps takeStamps : List Stamp)
    (contact : Contact) : Option (Site × Refs) :=
  match s.gather k outStamps takeStamps with
  | none => none
  | some l =>
    match (s.append c l).contact k remote contact with
    | none => none
    | some (m, remote') => (m.finish k).map fun s' => (s', remote')

/-- The castles, with what each drew when its ref was created. -/
structure Realm (c : Ed25519) (n : Nat) where
  castle : Fin n → Castle c
  labels : Injective fun i => (castle i).label
  actors : Injective fun i => (castle i).identity.actor
  tupleId : Fin n → RecordId
  tupleIds : Injective tupleId
  recordId : Fin n → RecordId
  recordIds : Injective recordId
  opened : Fin n → DateTime

def presenceTuple (k : Castle c) (tupleId : RecordId) (now : DateTime) : Tuple :=
  Tuple.new tupleId now .fact systemScope castlePresence k.label
    (.object [("castle", .string k.label), ("since", .string (DateTime.toRfc3339 now))])

/-- `born` is the history of tuples written, with the castle that wrote each, `signed`
that of records, and `removed` that of ids some castle has stored and lost. -/
structure Kingdom (n : Nat) where
  sites : Fin n → Site
  remote : Refs
  born : List (Fin n × Tuple)
  signed : List SyncRecord
  removed : List RecordId

variable {n : Nat}

def Realm.announced (r : Realm c n) (i : Fin n) : Tuple :=
  presenceTuple (r.castle i) (r.tupleId i) (r.opened i)

def Realm.announcing (r : Realm c n) (i : Fin n) : SyncRecord :=
  announcement (r.castle i) (r.tupleId i) (r.recordId i) (r.opened i)

def Kingdom.fresh (r : Realm c n) : Kingdom n :=
  { sites := fun i => .fresh (r.castle i) (r.tupleId i) (r.recordId i) (r.opened i)
    remote := ∅
    born := List.ofFn fun i => (i, r.announced i)
    signed := List.ofFn r.announcing
    removed := [] }

inductive Move (n : Nat) where
  /-- A call on the space of castle `i`. -/
  | space (i : Fin n) (op : Op)
  | exchange (i : Fin n) (outStamps takeStamps : List Stamp) (contact : Contact)
  | compact (i : Fin n)

/-- The writes, takes, reads and deletes of a castle's rats, with the moves of a blocked
reader. -/
def localOp : Op → Bool
  | .out _ => true
  | .delete _ => true
  | .checkAndRegister _ _ => true
  | .receive _ => true
  | .decideTimeout _ => true
  | .dropReceiver _ => true
  | .observeClosed _ => true
  | .removeWaiter _ => true
  | _ => false

def written : Op → List Tuple
  | .out t => [t]
  | _ => []

def Contact.written (k : Castle c) : Contact → List Tuple
  | .unreachable id now error => [syncFailure k id now error]
  | .pushFailed id now error => [syncFailure k id now error]
  | _ => []

def goneIds (s : Store) : List RecordId :=
  (s.journal.map fun j => j.tuple.id).filter fun id => !s.existsId id

/-- Castle `i` has worked: its site, the tuples it wrote and the ids it has lost. -/
def Kingdom.worked (s : Kingdom n) (i : Fin n) (site : Site) (tuples : List Tuple) : Kingdom n :=
  { s with
    sites := update s.sites i site
    born := s.born ++ tuples.map fun t => (i, t)
    removed := s.removed ++ goneIds site.space.store }

/-- Castle `i` has run a cycle up to its compaction. -/
def Kingdom.exchanged (s : Kingdom n) (i : Fin n) (site : Site) (remote : Refs) (tuples : List Tuple) :
    Kingdom n :=
  { s.worked i site tuples with
    remote
    signed := s.signed ++ site.own.drop (s.sites i).own.length }

def Kingdom.freshTuples (s : Kingdom n) (tuples : List Tuple) : Bool :=
  tuples.all fun t => s.born.all fun p => p.2.id ≠ t.id

def Kingdom.step (r : Realm c n) (s : Kingdom n) : Move n → Option (Kingdom n)
  | .space i op =>
    if localOp op && s.freshTuples (written op) then
      ((s.sites i).space.step op).map fun space =>
        s.worked i { s.sites i with space } (written op)
    else none
  | .exchange i outStamps takeStamps contact =>
    if freshStamps s.signed (outStamps ++ takeStamps) &&
        s.freshTuples (contact.written (r.castle i)) then
      ((s.sites i).exchange (r.castle i) s.remote outStamps takeStamps contact).map fun p =>
        s.exchanged i p.1 p.2 (contact.written (r.castle i))
    else none
  | .compact i => some (s.worked i ((s.sites i).compact (r.castle i)) [])

section
variable {k : Castle c}

/-- The machine of one castle gets from `a` to `b` with no call of anybody else, and
exports what is parsed as it was written. -/
def Reaches (k : Castle c) : State → State → Prop :=
  Relation.ReflTransGen fun a b => ∃ l : Label, l.plain = true ∧ exportGuard k a l ∧ a.step k l = some b

def Label.quiet : Label → Bool
  | .space _ | .scan _ => false
  | _ => true

variable {a b : State}

theorem Reaches.cons {d : State} {l : Label} (hl : l.quiet = true) (hs : a.step k l = some b)
    (h : Reaches k b d) : Reaches k a d := by
  refine .head ⟨l, ?_, ?_, hs⟩ h
  all_goals cases l <;> first | rfl | trivial

theorem Reaches.exportInv (h : Reaches k a b) (ha : ExportInv k a) : ExportInv k b := by
  induction h with
  | refl => exact ha
  | tail _ hlast ih =>
    obtain ⟨l, hl, hg, hs⟩ := hlast
    exact exportInv_step hl hg ih hs

theorem freshStamps_of_subset {own own' : List SyncRecord} {stamps : List Stamp}
    (h : freshStamps own' stamps = true) (hsub : ∀ r ∈ own, r ∈ own') :
    freshStamps own stamps = true := by
  obtain ⟨hnd, hne⟩ := freshStamps_iff.mp h
  simp only [freshStamps_iff]
  exact ⟨hnd, fun st hst r hr => hne st hst r (hsub r hr)⟩

theorem freshStamps_cons {own : List SyncRecord} {stamp : Stamp} {stamps : List Stamp}
    (h : freshStamps own (stamp :: stamps) = true) :
    freshStamps own [stamp] = true ∧ freshStamps own stamps = true ∧ ∀ st ∈ stamps, st.1 ≠ stamp.1 := by
  obtain ⟨hnd, hne⟩ := freshStamps_iff.mp h
  rw [map_cons, nodup_cons] at hnd
  simp only [freshStamps_iff]
  refine ⟨⟨nodup_singleton _, fun st hst r hr => ?_⟩,
    ⟨hnd.2, fun st hst r hr => hne st (mem_cons_of_mem _ hst) r hr⟩, fun st hst he => ?_⟩
  · exact hne st (mem_singleton.mp hst ▸ mem_cons_self) r hr
  · exact hnd.1 (he ▸ mem_map_of_mem hst)

/-- The take-detection loop finds the ids of the log that were observed here; each costs a
stamp, found or not. -/
theorem collectAll_spec (s : Site) (pending : List RecordId) (stamps : List Stamp) (l : Collect)
    (hp : l.pending = pending) (hlen : stamps.length = pending.length) :
    ∃ found : List (SyncRecord × Tuple),
      s.collectAll k pending stamps l = { l with pending := [], takes := l.takes ++ found } ∧
      (found.map fun p => p.1.id).Sublist (stamps.map Prod.fst) ∧
      (∀ p ∈ found, ∃ stamp ∈ stamps, ∃ id ∈ pending, p.1 = takeRecord k stamp id ∧
        ∃ t, l.view.tuples[id]? = some t ∧
          observedLocally k s.space.store l.prevKnown l.delta id t = true) ∧
      ∀ id ∈ pending, ∀ t, l.view.tuples[id]? = some t →
        observedLocally k s.space.store l.prevKnown l.delta id t = true →
        ∃ p ∈ found, p.1.op = .take id := by
  induction pending generalizing stamps l with
  | nil =>
    refine ⟨[], ?_, nil_sublist _, by simp, by simp⟩
    simp only [collectAll, append_nil]
    rw [← hp]
  | cons id rest ih =>
    cases stamps with
    | nil => simp at hlen
    | cons stamp stamps =>
      have hlen' : stamps.length = rest.length := by simpa using hlen
      rw [collectAll]
      by_cases hobs : ∃ t, l.view.tuples[id]? = some t ∧
          observedLocally k s.space.store l.prevKnown l.delta id t = true
      · obtain ⟨t, ht, ho⟩ := hobs
        have hone : s.collectOne k l id rest stamp =
            { l with pending := rest, takes := l.takes ++ [(takeRecord k stamp id, t)] } := by
          simp only [collectOne, ht, ho, if_true]
        rw [hone]
        obtain ⟨found, he, hsub, hfrom, hall⟩ := ih stamps
          { l with pending := rest, takes := l.takes ++ [(takeRecord k stamp id, t)] } rfl hlen'
        refine ⟨(takeRecord k stamp id, t) :: found, ?_, ?_, ?_, ?_⟩
        · rw [he, append_assoc]
          rfl
        · exact hsub.cons_cons stamp.1
        · intro p hp'
          rcases mem_cons.mp hp' with rfl | hp'
          · exact ⟨stamp, mem_cons_self, id, mem_cons_self, rfl, t, ht, ho⟩
          · obtain ⟨st, hst, m, hm, he'⟩ := hfrom p hp'
            exact ⟨st, mem_cons_of_mem _ hst, m, mem_cons_of_mem _ hm, he'⟩
        · intro m hm u hu hou
          rcases mem_cons.mp hm with rfl | hm
          · exact ⟨_, mem_cons_self, rfl⟩
          · obtain ⟨p, hp', hop⟩ := hall m hm u hu hou
            exact ⟨p, mem_cons_of_mem _ hp', hop⟩
      · have hone : s.collectOne k l id rest stamp = { l with pending := rest } := by
          unfold collectOne
          split
          · rfl
          · rename_i t ht
            rw [if_neg fun ho => hobs ⟨t, ht, ho⟩]
        rw [hone]
        obtain ⟨found, he, hsub, hfrom, hall⟩ := ih stamps { l with pending := rest } rfl hlen'
        refine ⟨found, he, hsub.cons stamp.1, ?_, ?_⟩
        · intro p hp'
          obtain ⟨st, hst, m, hm, he'⟩ := hfrom p hp'
          exact ⟨st, mem_cons_of_mem _ hst, m, mem_cons_of_mem _ hm, he'⟩
        · exact forall_mem_cons.mpr ⟨fun u hu hou => absurd ⟨u, hu, hou⟩ hobs, hall⟩

theorem reaches_collectAll {s : State} (pending : List RecordId) (stamps : List Stamp) (l : Collect)
    (hp : l.pending = pending) (hlen : stamps.length = pending.length)
    (hfresh : freshStamps (s.site.own ++ l.records) stamps = true) :
    Reaches k { s with phase := .collecting l }
      { s with phase := .collecting (s.site.collectAll k pending stamps l) } := by
  induction pending generalizing stamps l with
  | nil =>
    exact .refl
  | cons id rest ih =>
    cases stamps with
    | nil => simp at hlen
    | cons stamp stamps =>
      obtain ⟨hone, hrest, hne⟩ := freshStamps_cons hfresh
      refine .cons (l := .collect stamp) rfl
        (b := { s with phase := .collecting (s.site.collectOne k l id rest stamp) }) ?_ ?_
      · simp only [step, hp, hone, if_true]
      · have hpend : (s.site.collectOne k l id rest stamp).pending = rest := by
          unfold collectOne
          split
          · rfl
          · split <;> rfl
        refine ih stamps _ hpend (by simpa using hlen) ?_
        -- The records grow by the stamp just spent, at most.
        obtain ⟨hnd, hno⟩ := freshStamps_iff.mp hrest
        simp only [freshStamps_iff]
        refine ⟨hnd, fun st hst r hr => ?_⟩
        have hm : r ∈ s.site.own ++ l.records ∨ r.id = stamp.1 := by
          unfold collectOne at hr
          split at hr
          · exact .inl hr
          · split at hr
            · simp only [Collect.records, map_append, map_cons, map_nil,
                mem_append, mem_singleton] at hr ⊢
              rcases hr with hr | hr | hr | rfl
              · exact .inl (.inl hr)
              · exact .inl (.inr (.inl hr))
              · exact .inl (.inr (.inr hr))
              · exact .inr rfl
            · exact .inl hr
        rcases hm with hr | hr
        · exact hno st hst r hr
        · rw [hr]
          exact (hne st hst).symm

variable {view : LogView} {site : Site}

theorem reaches_importAll {s : State} (pending : List (RecordId × Tuple))
    (h : s.site.importAll k view pending = some site) :
    ∃ resurrected, Reaches k { s with phase := .importing view pending }
      { s with site, resurrected, phase := .importing view [] } := by
  induction pending generalizing s with
  | nil =>
    simp only [importAll, Option.some.injEq] at h
    subst h
    exact ⟨s.resurrected, .refl⟩
  | cons p rest ih =>
    obtain ⟨id, t⟩ := p
    simp only [importAll] at h
    split at h
    · cases h
    · rename_i m new hi
      let mid : State := { s with
        site := m
        resurrected := if new && s.site.space.store.hasPersistenceEvent id then s.resurrected ++ [id]
          else s.resurrected }
      obtain ⟨res, hr⟩ := ih (s := mid) h
      refine ⟨res, .cons (l := .next) rfl (b := { mid with phase := .importing view rest }) ?_ hr⟩
      simp only [step, State.next, hi]
      rfl

theorem reaches_deleteAll {s : State} (pending : List RecordId) :
    Reaches k { s with phase := .deleting pending }
      { s with site := s.site.deleteAll pending, phase := .deleting [] } := by
  induction pending generalizing s with
  | nil => exact .refl
  | cons id rest ih =>
    exact .cons (l := .next) rfl rfl
      (ih (s := { s with site := { s.site with space := (s.site.space.delete id).1 } }))

variable {s : Site} {outStamps takeStamps : List Stamp} {l : Collect}

theorem gather_some (h : s.gather k outStamps takeStamps = some l) :
    ∃ cap : Capture, ∃ m : Collect, s.captureDelta = some cap ∧
      outStamps.length = (ours k cap.delta (liveIds s.space.store)).length ∧
      m = s.beginCollect k (s.scan k cap outStamps) ∧ takeStamps.length = m.pending.length ∧
      l = s.collectAll k m.pending takeStamps m := by
  unfold gather at h
  split at h
  · cases h
  · rename_i cap hcap
    dsimp only at h
    split at h
    · rename_i ho
      split at h
      · rename_i ht
        cases h
        exact ⟨cap, _, hcap, ho, rfl, ht, rfl⟩
      · cases h
    · cases h

theorem reaches_gather {s : State} (h : s.site.gather k outStamps takeStamps = some l)
    (hexact : s.site.exportsExactly k)
    (hfresh : freshStamps s.site.own (outStamps ++ takeStamps) = true) :
    Reaches k { s with phase := .idle } { s with phase := .collecting l } ∧ l.pending = [] := by
  obtain ⟨cap, m, hcap, ho, hm, ht, rfl⟩ := gather_some h
  obtain ⟨hnd, hne⟩ := freshStamps_iff.mp hfresh
  rw [map_append, nodup_append] at hnd
  have hout : freshStamps s.site.own outStamps = true := by
    simp only [freshStamps_iff]
    exact ⟨hnd.1, fun st hst r hr => hne st (mem_append_left _ hst) r hr⟩
  have htake : freshStamps (s.site.own ++ m.records) takeStamps = true := by
    simp only [freshStamps_iff]
    refine ⟨hnd.2.1, fun st hst r hr => ?_⟩
    rcases mem_append.mp hr with hr | hr
    · exact hne st (mem_append_right _ hst) r hr
    · have hids := map_id_outRecords (k := k) outStamps _ ho
      have hid : r.id ∈ outStamps.map Prod.fst := by
        rw [← hids]
        subst hm
        have hr' : r ∈ (s.site.scan k cap outStamps).outs := by
          simpa [Collect.records, beginCollect] using hr
        exact mem_map_of_mem hr'
      exact fun he => hnd.2.2 r.id hid st.1 (mem_map_of_mem hst) he
  constructor
  · refine .cons (l := .next) rfl (b := { s with phase := .captured cap }) ?_ ?_
    · simp only [step, State.next, hcap]
    · refine Relation.ReflTransGen.head ⟨.scan outStamps, rfl, hexact cap hcap, ?_⟩
        (b := { s with phase := .scanned (s.site.scan k cap outStamps) }) ?_
      · simp only [step, ho, hout, decide_true, Bool.and_self, if_true]
      · refine Reaches.cons (l := .next) rfl (b := { s with phase := .collecting m }) ?_ ?_
        · simp only [step, State.next, hm]
        · exact reaches_collectAll m.pending takeStamps m rfl ht htake
  · obtain ⟨found, he, -⟩ := collectAll_spec (k := k) s.site m.pending takeStamps m rfl ht
    rw [he]

variable {id : RecordId}

theorem reaches_report {s : State} {now : DateTime} {error : String}
    (h : s.site.report k id now error = some site) :
    Reaches k { s with phase := .failing l } { s with site, phase := .viewing l } := by
  unfold report at h
  split at h
  · cases h
  · rename_i space ho
    cases h
    exact .cons (l := .obstacle id now error) rfl (by simp only [step, ho]) .refl

variable {remote remote' : Refs} {contact : Contact}

theorem reaches_contact {s : State} (h : s.site.contact k remote contact = some (site, remote')) :
    Reaches k { s with phase := .syncing l } { s with site, phase := .viewing l } := by
  cases contact with
  | skipped =>
    simp only [contact] at h
    split at h
    · cases h
    · rename_i hr
      cases h
      exact .cons (l := .next) rfl (by simp only [step, State.next, hr]; rfl) .refl
  | unreachable id now error =>
    simp only [contact] at h
    split at h
    · rename_i hr
      obtain ⟨site', hrep, he⟩ := Option.map_eq_some_iff.mp h
      cases he
      refine .cons (l := .unreachable) rfl (b := { s with phase := .failing l }) ?_
        (reaches_report hrep)
      simp only [step, hr, if_true]
    · cases h
  | pushFailed id now error =>
    simp only [contact] at h
    obtain ⟨hr, h⟩ := Option.ite_none_right_eq_some.mp h
    obtain ⟨site', hrep, he⟩ := Option.map_eq_some_iff.mp h
    cases he
    let fetched : State := { s with site := { s.site with tracking := s.site.tracking ∪ remote } }
    refine .cons (l := .fetch remote) rfl (b := { fetched with phase := .pushing l }) ?_ ?_
    · simp only [step, hr, if_true]
      rfl
    · refine .cons (l := .pushFailed) rfl (b := { fetched with phase := .failing l }) rfl ?_
      exact reaches_report (s := fetched) hrep
  | synced =>
    simp only [contact] at h
    split at h
    · rename_i hr
      cases h
      let fetched : State := { s with site := { s.site with tracking := s.site.tracking ∪ remote } }
      refine .cons (l := .fetch remote) rfl (b := { fetched with phase := .pushing l }) ?_ ?_
      · simp only [step, hr, if_true]
        rfl
      · exact .cons (l := .push) rfl rfl .refl
    · cases h

theorem reaches_finish {s : State} (h : s.site.finish k = some site) :
    ∃ resurrected, Reaches k { s with phase := .viewing l }
      { s with site, resurrected, phase := .compacting } := by
  obtain ⟨m, hm, he⟩ := Option.map_eq_some_iff.mp h
  obtain ⟨res, hr⟩ := reaches_importAll _ hm
  refine ⟨res, .cons (l := .next) rfl rfl (hr.trans ?_)⟩
  let ids := (s.site.log k).taken.toList.map Prod.fst
  let imported : State := { s with site := m, resurrected := res }
  refine Reaches.cons (l := .next) rfl (b := { imported with phase := .deleting ids }) rfl ?_
  refine (reaches_deleteAll ids).trans ?_
  subst he
  exact Reaches.cons (l := .next) rfl rfl
    (.cons (l := .next) rfl rfl (.cons (l := .next) rfl rfl .refl))

theorem reaches_exchange {s : State}
    (h : s.site.exchange k remote outStamps takeStamps contact = some (site, remote'))
    (hexact : s.site.exportsExactly k)
    (hfresh : freshStamps s.site.own (outStamps ++ takeStamps) = true) :
    ∃ takes resurrected, Reaches k { s with phase := .idle }
      { site, phase := .compacting, takes, resurrected } := by
  unfold exchange at h
  split at h
  · cases h
  · rename_i l hl
    split at h
    · cases h
    · rename_i m remote'' hc
      obtain ⟨site', hfin, he⟩ := Option.map_eq_some_iff.mp h
      cases he
      obtain ⟨hgather, hnil⟩ := reaches_gather hl hexact hfresh
      let takes := s.takes ++ l.takes.map fun p => (p.2.id, p.2)
      let appended : State := { s with
        site := { s.site with own := s.site.own ++ l.records.map (.reread c) }, takes }
      let exported : State := { s with site := s.site.append c l, takes }
      obtain ⟨res, hrest⟩ := reaches_finish (s := { exported with site := m }) (l := l) hfin
      refine ⟨takes, res, hgather.trans ?_⟩
      refine Reaches.cons (l := .next) rfl (b := { appended with phase := .appended l }) ?_ ?_
      · simp only [step, State.next, hnil]
        rfl
      · refine .cons (l := .next) rfl (b := { exported with phase := .syncing l }) ?_ ?_
        · simp only [step, State.next, exported, append, appended]
          split <;> rfl
        · exact (reaches_contact (s := exported) hc).trans hrest

/-- `s'` is `s` with some tuples of `P` inserted and some rows gone. -/
structure Adds (P : Tuple → Prop) (s s' : Store) : Prop where
  journal : ∃ more, s'.journal = s.journal ++ more ∧ ∀ j ∈ more, P j.tuple
  rows : ∀ r ∈ s'.rows, r ∈ s.rows ∨ (r ∈ s'.journal ∧ P r.tuple)

theorem Adds.refl (P : Tuple → Prop) (s : Store) : Adds P s s :=
  ⟨⟨[], (append_nil _).symm, by simp⟩, fun _ hr => .inl hr⟩

variable {P : Tuple → Prop}

theorem Adds.mono {Q : Tuple → Prop} {s s' : Store} (h : Adds P s s') (hPQ : ∀ t, P t → Q t) :
    Adds Q s s' := by
  obtain ⟨more, he, hP⟩ := h.journal
  refine ⟨⟨more, he, fun j hj => hPQ _ (hP j hj)⟩, fun r hr => ?_⟩
  exact (h.rows r hr).imp_right fun hn => ⟨hn.1, hPQ _ hn.2⟩

theorem Adds.mem_journal {s s' : Store} (h : Adds P s s') {j : Row} (hj : j ∈ s.journal) :
    j ∈ s'.journal := by
  obtain ⟨more, he, -⟩ := h.journal
  rw [he]
  exact mem_append_left _ hj

theorem Adds.journal_cases {s s' : Store} (h : Adds P s s') {j : Row} (hj : j ∈ s'.journal) :
    j ∈ s.journal ∨ P j.tuple := by
  obtain ⟨more, he, hP⟩ := h.journal
  rw [he] at hj
  exact (mem_append.mp hj).imp_right (hP j)

theorem Adds.trans {a b d : Store} (h : Adds P a b) (h' : Adds P b d) : Adds P a d := by
  obtain ⟨more, he, hP⟩ := h.journal
  obtain ⟨more', he', hP'⟩ := h'.journal
  refine ⟨⟨more ++ more', by rw [he', he, append_assoc], ?_⟩, fun r hr => ?_⟩
  · intro j hj
    exact (mem_append.mp hj).elim (hP j) (hP' j)
  · rcases h'.rows r hr with hr | hr
    · exact (h.rows r hr).imp_right fun hn => ⟨h'.mem_journal hn.1, hn.2⟩
    · exact .inr hr

theorem adds_erase (P : Tuple → Prop) (s : Store) (id : RecordId) : Adds P s (s.erase id) :=
  ⟨⟨[], (append_nil _).symm, by simp⟩, fun _ hr => .inl (Store.mem_erase_rows.mp hr).1⟩

variable {t : Tuple}

theorem adds_push (ht : P t) (s : Store) : Adds P s (s.push t) := by
  refine ⟨⟨[⟨s.lastSequence + 1, t⟩], rfl, ?_⟩, fun r hr => ?_⟩
  · intro j hj
    rw [mem_singleton.mp hj]
    exact ht
  · rcases mem_append.mp hr with hr | hr
    · exact .inl hr
    · refine .inr ⟨mem_append_right _ hr, ?_⟩
      rw [mem_singleton.mp hr]
      exact ht

theorem adds_insertAndOffer {s s' : Inner} (ht : P t) (h : s.insertAndOffer t = .ok s') :
    Adds P s.store s'.store ∧ s'.store.lastSequence = s.store.lastSequence + 1 := by
  unfold Inner.insertAndOffer at h
  split at h
  · cases h
  · rename_i store hins
    cases h
    obtain ⟨-, rfl⟩ := Store.insert_ok hins
    have hpush := adds_push ht s.store
    rcases offer_store { s with store := s.store.push t } ⟨(s.store.push t).lastSequence, t⟩ with
      he | he
    · rw [he]
      exact ⟨hpush, rfl⟩
    · rw [he]
      exact ⟨hpush.trans (adds_erase P _ _), rfl⟩

/-- A call of a castle's rats stores at most one row, of the tuple it writes. -/
theorem localOp_cases {s s' : Inner} {op : Op} (hop : localOp op = true) (h : s.step op = some s') :
    (s'.store.journal = s.store.journal ∧ ∀ r ∈ s'.store.rows, r ∈ s.store.rows) ∨
      ∃ j : Row, j.tuple ∈ written op ∧ s.store.lastSequence < j.sequence ∧
        s'.store.journal = s.store.journal ++ [j] ∧ ∀ r ∈ s'.store.rows, r ∈ s.store.rows ∨ r = j := by
  cases op with
  | out t =>
    simp only [Inner.step, Inner.out, Option.some.injEq] at h
    unfold Inner.insertAndOffer at h
    split at h
    · subst h
      exact .inl ⟨rfl, fun _ hr => hr⟩
    · rename_i store hins
      obtain ⟨-, rfl⟩ := Store.insert_ok hins
      refine .inr ⟨⟨s.store.lastSequence + 1, t⟩, mem_cons_self, Nat.lt_succ_self _, ?_⟩
      have hpush : ∀ r ∈ (s.store.push t).rows, r ∈ s.store.rows ∨ r = ⟨s.store.lastSequence + 1, t⟩ :=
        fun r hr => (mem_append.mp hr).imp_right mem_singleton.mp
      subst h
      rcases offer_store { s with store := s.store.push t } ⟨(s.store.push t).lastSequence, t⟩ with
        he | he
      · simp only [settle, id_eq, he]
        exact ⟨rfl, hpush⟩
      · simp only [settle, id_eq, he]
        exact ⟨rfl, fun r hr => hpush r (Store.mem_erase_rows.mp hr).1⟩
  | delete id => cases h; exact .inl ⟨rfl, fun r hr => (Store.mem_erase_rows.mp hr).1⟩
  | checkAndRegister p destructive =>
    cases h
    rcases checkAndRegister_cases s p destructive with ⟨row, rest, -, he⟩ | ⟨-, he⟩
    · rw [he]
      split
      · exact .inl ⟨rfl, fun r hr => (Store.mem_erase_rows.mp hr).1⟩
      · exact .inl ⟨rfl, fun _ hr => hr⟩
    · rw [he]
      exact .inl ⟨rfl, fun _ hr => hr⟩
  | receive i =>
    obtain ⟨r, row, -, -, -, rfl⟩ := receive_some h
    exact .inl ⟨rfl, fun _ hr => hr⟩
  | decideTimeout i =>
    obtain ⟨r, -, -, -, rfl⟩ := decideTimeout_some h
    exact .inl ⟨rfl, fun _ hr => hr⟩
  | dropReceiver i =>
    obtain ⟨r, -, -, rfl⟩ := dropReceiver_some h
    exact .inl ⟨rfl, fun _ hr => hr⟩
  | observeClosed i =>
    obtain ⟨r, -, -, -, -, rfl⟩ := observeClosed_some h
    exact .inl ⟨rfl, fun _ hr => hr⟩
  | removeWaiter i =>
    obtain ⟨r, -, -, rfl⟩ := removeWaiter_some h
    exact .inl ⟨rfl, fun _ hr => hr⟩
  | outIfNew t | outCoordinator t | reinforce t | replace expected t
  | acceptSdlcSignal g acceptedAt rollback | gcExpired decayStep now => cases hop

theorem adds_localOp {s s' : Inner} {op : Op} (hop : localOp op = true) (h : s.step op = some s') :
    Adds (fun t => t ∈ written op) s.store s'.store := by
  rcases localOp_cases hop h with ⟨hj, hr⟩ | ⟨j, hw, -, hj, hr⟩
  · exact ⟨⟨[], by rw [hj, append_nil], by simp⟩, fun r hr' => .inl (hr r hr')⟩
  · refine ⟨⟨[j], hj, fun j' hj' => mem_singleton.mp hj' ▸ hw⟩, fun r hr' => ?_⟩
    rcases hr r hr' with hr' | rfl
    · exact .inl hr'
    · exact .inr ⟨hj ▸ mem_append_right _ mem_cons_self, hw⟩

variable {s' : Site}

theorem importOne_cases {new : Bool} (h : s.importOne k view id t = .ok (s', new)) :
    (s' = s ∧ (id ∉ view.taken → t.inst ≠ k.label → s.space.store.existsId t.id = true)) ∨
      (id ∉ view.taken ∧ t.inst ≠ k.label ∧ ∃ space, s' = { s with space } ∧
        Adds (fun u => u = t) s.space.store space.store ∧
        space.store.lastSequence = s.space.store.lastSequence + 1) := by
  unfold importOne at h
  split at h
  · rename_i hskip
    cases h
    refine .inl ⟨rfl, fun hk hi => ?_⟩
    simp only [Bool.or_eq_true, decide_eq_true_eq, ExtTreeMap.contains_iff_mem] at hskip
    exact (hskip.elim hk hi).elim
  · rename_i hskip
    simp only [Bool.or_eq_true, decide_eq_true_eq, ExtTreeMap.contains_iff_mem, not_or] at hskip
    split at h
    · cases h
    · rename_i space new' ho
      cases h
      unfold Inner.outIfNew at ho
      split at ho
      · rename_i hx
        cases ho
        exact .inl ⟨rfl, fun _ _ => hx⟩
      · split at ho
        · cases ho
        · rename_i m hm
          cases ho
          obtain ⟨ha, hl⟩ := adds_insertAndOffer (P := fun u => u = t) rfl hm
          exact .inr ⟨hskip.1, hskip.2, space, rfl, ha, hl⟩

/-- The import loop writes what the log offers.  It leaves the counter alone only when
all of that is there. -/
theorem importAll_spec {pending : List (RecordId × Tuple)}
    (h : s.importAll k view pending = some s') :
    (∃ space, s' = { s with space } ∧
      Adds (fun t => ∃ id, (id, t) ∈ pending ∧ id ∉ view.taken ∧ t.inst ≠ k.label)
        s.space.store space.store) ∧
    s.space.store.lastSequence ≤ s'.space.store.lastSequence ∧
    (s'.space.store.lastSequence = s.space.store.lastSequence → s' = s ∧
      ∀ p ∈ pending, p.1 ∉ view.taken → p.2.inst ≠ k.label → s.space.store.existsId p.2.id = true) := by
  induction pending generalizing s with
  | nil =>
    cases h
    exact ⟨⟨_, rfl, .refl _ _⟩, Nat.le_refl _, fun _ => ⟨rfl, by simp⟩⟩
  | cons p rest ih =>
    obtain ⟨id, t⟩ := p
    simp only [importAll] at h
    split at h
    · cases h
    · rename_i m new hi
      obtain ⟨⟨space, rfl, hadds⟩, hle, hsame⟩ := ih h
      have hrest : Adds (fun u => ∃ id', (id', u) ∈ (id, t) :: rest ∧ id' ∉ view.taken ∧
          u.inst ≠ k.label) m.space.store space.store :=
        hadds.mono fun u hu => by
          obtain ⟨id', hm, hr⟩ := hu
          exact ⟨id', mem_cons_of_mem _ hm, hr⟩
      rcases importOne_cases hi with ⟨rfl, hx⟩ | ⟨hk, hinst, sp, rfl, ha, hl⟩
      · refine ⟨⟨space, rfl, hrest⟩, hle, fun he => ⟨(hsame he).1,
          forall_mem_cons.mpr ⟨?_, (hsame he).2⟩⟩⟩
        exact hx
      · refine ⟨⟨space, rfl, (ha.mono fun u hu => ?_).trans hrest⟩, ?_, fun he => ?_⟩
        · subst hu
          exact ⟨id, mem_cons_self, hk, hinst⟩
        · have hle' : sp.store.lastSequence ≤ space.store.lastSequence := hle
          show s.space.store.lastSequence ≤ space.store.lastSequence
          omega
        · have hle' : sp.store.lastSequence ≤ space.store.lastSequence := hle
          have he' : space.store.lastSequence = s.space.store.lastSequence := he
          omega

theorem deleteAll_spec (ids : List RecordId) (s : Site) :
    ∃ space, s.deleteAll ids = { s with space } ∧ space.store.journal = s.space.store.journal ∧
      space.store.lastSequence = s.space.store.lastSequence ∧
      ∀ r, r ∈ space.store.rows ↔ r ∈ s.space.store.rows ∧ r.tuple.id ∉ ids := by
  induction ids generalizing s with
  | nil => exact ⟨s.space, rfl, rfl, rfl, by simp⟩
  | cons id rest ih =>
    obtain ⟨space, he, hj, hl, hr⟩ := ih { s with space := (s.space.delete id).1 }
    refine ⟨space, he, hj, hl, fun r => ?_⟩
    rw [hr]
    simp only [Inner.delete, Store.delete, Store.mem_erase_rows, mem_cons, not_or, and_assoc]

structure Exported (k : Castle c) (s : Site) (stamps : List Stamp) (records : List SyncRecord) :
    Prop where
  exact : s.exportsExactly k → ∀ rec ∈ records, rec.reread c = rec
  ids : (records.map SyncRecord.id).Sublist (stamps.map Prod.fst)
  made : ∀ rec ∈ records, ∃ stamp,
    (∃ j ∈ s.space.store.journal, s.cursor.getD 0 < j.sequence ∧ j.tuple.inst = k.label ∧
      j.tuple.id ∈ liveIds s.space.store ∧ rec = outRecord k stamp j.tuple) ∨
    ∃ id ∈ (s.log k).tuples, rec = takeRecord k stamp id
  outs : ∀ r ∈ s.space.store.rows, r ∈ s.space.store.journal → Durable k r →
    s.cursor.getD 0 < r.sequence → r.sequence ≤ s.space.store.lastSequence →
    ∃ rec ∈ records, rec.op = .out r.tuple
  takes : ∀ id ∈ (s.log k).missing (liveIds s.space.store),
    s.space.store.hasPersistenceEvent id = true → ∃ rec ∈ records, rec.op = .take id

theorem captureDelta_some {l : Capture} (h : s.captureDelta = some l) :
    l.cursor = s.cursor.getD 0 ∧ s.cursor.getD 0 ≤ s.space.store.lastSequence ∧
      l.delta.boundary = s.space.store.lastSequence ∧
      ∀ t, t ∈ l.delta.tuples ↔ ∃ j ∈ s.space.store.journal, s.cursor.getD 0 < j.sequence ∧
        j.sequence ≤ s.space.store.lastSequence ∧ j.tuple = t := by
  unfold captureDelta at h
  split at h
  · cases h
  · rename_i delta hd
    cases h
    unfold Store.persistenceDelta at hd
    dsimp only at hd
    split at hd
    · cases hd
    · rename_i hle
      cases hd
      refine ⟨rfl, Nat.not_lt.mp hle, rfl, fun t => ?_⟩
      simp only [Option.getD_some, mem_map, mem_filter, Bool.and_eq_true,
        decide_eq_true_eq, and_assoc]

theorem gather_exported (h : s.gather k outStamps takeStamps = some l) :
    Exported k s (outStamps ++ takeStamps) l.records ∧
      (s.append c l).cursor.getD 0 = s.space.store.lastSequence := by
  obtain ⟨cap, m, hcap, ho, hm, ht, rfl⟩ := gather_some h
  obtain ⟨hcur, hle, hbound, hdelta⟩ := captureDelta_some hcap
  obtain ⟨found, he, hsub, hfrom, hall⟩ := collectAll_spec (k := k) s m.pending takeStamps m rfl ht
  have hscan : m.toScan = s.scan k cap outStamps := by rw [hm]; rfl
  have hview : m.view = s.log k := by rw [hm]; rfl
  have hpend : m.pending = (s.log k).missing (liveIds s.space.store) := by rw [hm]; rfl
  have htakes : m.takes = [] := by rw [hm]; rfl
  have hrec : (s.collectAll k m.pending takeStamps m).records =
      (outStamps.zip (ours k cap.delta (liveIds s.space.store))).map (fun p => outRecord k p.1 p.2) ++
        found.map Prod.fst := by
    rw [he]
    show m.outs ++ (m.takes ++ found).map Prod.fst = _
    rw [htakes, nil_append, hscan]
    rfl
  rw [hrec]
  constructor
  · constructor
    · intro hexact rec hmem
      rcases mem_append.mp hmem with hmem | hmem
      · obtain ⟨p, hp, rfl⟩ := mem_map.mp hmem
        exact SyncRecord.reread_of_out rfl (hexact cap hcap _ (of_mem_zip hp).2)
      · obtain ⟨p, hp, rfl⟩ := mem_map.mp hmem
        obtain ⟨stamp, -, id, -, he', -⟩ := hfrom p hp
        exact he' ▸ SyncRecord.reread_of_take rfl
    · rw [map_append, map_append, map_id_outRecords _ _ ho, map_map]
      exact (List.Sublist.refl _).append hsub
    · intro rec hmem
      rcases mem_append.mp hmem with hmem | hmem
      · obtain ⟨p, hp, rfl⟩ := mem_map.mp hmem
        have hours := (of_mem_zip hp).2
        simp only [ours, mem_filter, Bool.and_eq_true, decide_eq_true_eq, contains_iff_mem] at hours
        obtain ⟨j, hj, hlt, -, htj⟩ := (hdelta p.2).mp hours.1
        refine ⟨p.1, .inl ⟨j, hj, hlt, ?_⟩⟩
        rw [htj]
        exact ⟨hours.2.1.2, hours.2.2, rfl⟩
      · obtain ⟨p, hp, rfl⟩ := mem_map.mp hmem
        obtain ⟨stamp, -, id, hid, hrec', -⟩ := hfrom p hp
        rw [hpend] at hid
        exact ⟨stamp, .inr ⟨id, (mem_missing.mp hid).1.1, hrec'⟩⟩
    · intro r hr hj hd hlt hseq
      have hours : r.tuple ∈ ours k cap.delta (liveIds s.space.store) := by
        simp only [ours, mem_filter, Bool.and_eq_true, decide_eq_true_eq, contains_iff_mem]
        exact ⟨(hdelta _).mpr ⟨r, hj, hlt, hseq, rfl⟩, ⟨hd.1, hd.2⟩, mem_liveIds.mpr ⟨r, hr, hd.1, rfl⟩⟩
      obtain ⟨rec, hmem, hop⟩ := exists_outRecord ho hours
      exact ⟨rec, mem_append_left _ hmem, hop⟩
    · intro id hid hpe
      have hmem := (mem_missing.mp hid).1.1
      obtain ⟨t, ht'⟩ := Option.isSome_iff_exists.mp (ExtTreeMap.mem_iff_isSome_getElem?.mp hmem)
      obtain ⟨p, hp, hop⟩ := hall id (hpend ▸ hid) t (hview ▸ ht') (by simp [observedLocally, hpe])
      exact ⟨p.1, mem_append_right _ (mem_map_of_mem hp), hop⟩
  · have hcap' : (s.collectAll k m.pending takeStamps m).toCapture = cap := by
      rw [he]
      show m.toScan.toCapture = cap
      rw [hscan]
      rfl
    show (if (s.collectAll k m.pending takeStamps m).toCapture.delta.boundary >
      (s.collectAll k m.pending takeStamps m).toCapture.cursor then _ else _ : Option Nat).getD 0 = _
    rw [hcap', hbound, hcur]
    split
    · rfl
    · omega

structure Contacted (k : Castle c) (contact : Contact) (s : Site) (remote : Refs) (s' : Site)
    (remote' : Refs) : Prop where
  own : s'.own = s.own
  cursor : s'.cursor = s.cursor
  tracking : s'.tracking = s.tracking ∨ s'.tracking = s.tracking ∪ remote
  remote : remote' = remote ∨ remote' = remote.insert k.identity.actor (s.own.map some)
  space : Adds (fun t => t ∈ contact.written k) s.space.store s'.space.store

theorem report_spec {now : DateTime} {error : String} (h : s.report k id now error = some s') :
    ∃ space, s' = { s with space } ∧
      Adds (fun t => t ∈ [syncFailure k id now error]) s.space.store space.store := by
  unfold report at h
  split at h
  · cases h
  · rename_i space ho
    cases h
    exact ⟨space, rfl, (adds_insertAndOffer mem_cons_self ho).1⟩

theorem contact_spec (h : s.contact k remote contact = some (s', remote')) :
    Contacted k contact s remote s' remote' := by
  cases contact with
  | skipped =>
    simp only [contact] at h
    split at h
    · cases h
    · cases h
      exact ⟨rfl, rfl, .inl rfl, .inl rfl, .refl _ _⟩
  | unreachable id now error =>
    simp only [contact] at h
    split at h
    · obtain ⟨m, hrep, he⟩ := Option.map_eq_some_iff.mp h
      cases he
      obtain ⟨space, rfl, ha⟩ := report_spec hrep
      exact ⟨rfl, rfl, .inl rfl, .inl rfl, ha⟩
    · cases h
  | pushFailed id now error =>
    simp only [contact] at h
    split at h
    · obtain ⟨m, hrep, he⟩ := Option.map_eq_some_iff.mp h
      cases he
      obtain ⟨space, rfl, ha⟩ := report_spec hrep
      exact ⟨rfl, rfl, .inr rfl, .inl rfl, ha⟩
    · cases h
  | synced =>
    simp only [contact] at h
    split at h
    · cases h
      exact ⟨rfl, rfl, .inr rfl, .inr rfl, .refl _ _⟩
    · cases h

theorem log_congr (ho : s'.own = s.own) (ht : s'.tracking = s.tracking) : s'.log k = s.log k := by
  unfold log repo
  rw [ho, ht]

theorem finish_spec (h : s.finish k = some s') :
    s'.own = s.own ∧ s'.tracking = s.tracking ∧ s'.cursor = s.cursor ∧ s'.log k = s.log k ∧
      Adds (fun t => ∃ id, Offers k (s.log k) id t) s.space.store s'.space.store ∧
      (∀ id ∈ (s.log k).taken, s'.space.store.existsId id = false) ∧
      (s'.space.store.lastSequence = s.space.store.lastSequence →
        ∀ id t, Offers k (s.log k) id t → s.space.store.existsId id = true) := by
  obtain ⟨m, hm, rfl⟩ := Option.map_eq_some_iff.mp h
  obtain ⟨⟨space, rfl, hadds⟩, -, hsame⟩ := importAll_spec hm
  obtain ⟨space', he, hj, hl, hrows⟩ :=
    deleteAll_spec ((s.log k).taken.toList.map Prod.fst) { s with space }
  rw [he]
  have hdel : Adds (fun t => ∃ id, Offers k (s.log k) id t) space.store space'.store :=
    ⟨⟨[], by rw [hj, append_nil], by simp⟩, fun r hr => .inl ((hrows r).mp hr).1⟩
  refine ⟨rfl, rfl, rfl, log_congr rfl rfl, (hadds.mono fun t ht => ?_).trans hdel, ?_, ?_⟩
  · obtain ⟨id, hmem, hk, hi⟩ := ht
    exact ⟨id, ExtTreeMap.mem_toList_iff_getElem?_eq_some.mp hmem, hk, hi⟩
  · intro id hid
    refine Store.existsId_eq_false.mpr fun r hr hrid => ((hrows r).mp hr).2 ?_
    obtain ⟨u, hu⟩ := Option.isSome_iff_exists.mp (ExtTreeMap.mem_iff_isSome_getElem?.mp hid)
    rw [hrid]
    exact mem_map.mpr ⟨(id, u), ExtTreeMap.mem_toList_iff_getElem?_eq_some.mpr hu, rfl⟩
  · intro hseq id t hoff
    obtain ⟨ht, hk, hi⟩ := hoff
    have hid : t.id = id := (exists_out_of_tuples ht).1
    rw [← hid]
    exact (hsame (hl.symm.trans hseq)).2 (id, t) (ExtTreeMap.mem_toList_iff_getElem?_eq_some.mpr ht)
      hk hi

/-- What castle `k` does in a cycle before it compacts. -/
structure Exchanged (k : Castle c) (contact : Contact) (stamps : List Stamp) (s : Site)
    (remote : Refs) (s' : Site) (remote' : Refs) : Prop where
  own : ∃ records, s'.own = s.own ++ records.map (.reread c) ∧ Exported k s stamps records
  cursor : s'.cursor.getD 0 = s.space.store.lastSequence
  tracking : s'.tracking = s.tracking ∨ s'.tracking = s.tracking ∪ remote
  remote : remote' = remote ∨ remote' = remote.insert k.identity.actor (s'.own.map some)
  space : Adds (fun t => t ∈ contact.written k ∨ ∃ id, Offers k (s'.log k) id t)
    s.space.store s'.space.store
  dropped : ∀ id ∈ (s'.log k).taken, s'.space.store.existsId id = false

theorem exchange_some (h : s.exchange k remote outStamps takeStamps contact = some (s', remote')) :
    ∃ l m, s.gather k outStamps takeStamps = some l ∧
      (s.append c l).contact k remote contact = some (m, remote') ∧ m.finish k = some s' := by
  unfold exchange at h
  split at h
  · cases h
  · rename_i l hl
    split at h
    · cases h
    · rename_i m remote'' hc
      obtain ⟨s'', hfin, he⟩ := Option.map_eq_some_iff.mp h
      cases he
      exact ⟨l, m, hl, hc, hfin⟩

theorem exchange_spec (h : s.exchange k remote outStamps takeStamps contact = some (s', remote')) :
    Exchanged k contact (outStamps ++ takeStamps) s remote s' remote' := by
  obtain ⟨l, m, hl, hc, hfin⟩ := exchange_some h
  obtain ⟨hexp, hcur⟩ := gather_exported hl
  have hm := contact_spec hc
  obtain ⟨ho, ht, hcur', hlog, hadds, hdrop, -⟩ := finish_spec hfin
  refine ⟨⟨l.records, ho.trans hm.own, hexp⟩, ?_, ?_, ?_, ?_, ?_⟩
  · rw [hcur', hm.cursor, hcur]
  · rw [ht]
    exact hm.tracking
  · rw [ho, hm.own]
    exact hm.remote
  · rw [hlog]
    exact (hm.space.mono fun t ht => .inl ht).trans (hadds.mono fun t ht => .inr ht)
  · rw [hlog]
    exact hdrop

/-- An exchange that reaches the remote and stores nothing new finds every offered tuple
in the space. -/
theorem exchange_synced {s s' : Site} {remote remote' : Refs} {outStamps takeStamps : List Stamp}
    (h : s.exchange k remote outStamps takeStamps .synced = some (s', remote')) :
    s'.tracking = s.tracking ∪ remote ∧ remote' = remote.insert k.identity.actor (s'.own.map some) ∧
      (s'.space.store.lastSequence = s.space.store.lastSequence →
        ∀ id t, Offers k (s'.log k) id t → s.space.store.existsId id = true) := by
  obtain ⟨l, m, -, hc, hfin⟩ := exchange_some h
  obtain ⟨ho, ht, -, hlog, -, -, hsame⟩ := finish_spec hfin
  simp only [contact] at hc
  split at hc
  · cases hc
    rw [ht, ho, hlog]
    exact ⟨rfl, rfl, hsame⟩
  · cases hc

end

end RatKingdom.Sync
