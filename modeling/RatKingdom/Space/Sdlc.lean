/-
The transitions of a subject, over the life of a store.

`accept_sdlc_signal` writes an event for every new delivery, but moves the current state of
its subject only when the occurrence advances it, and records a transition only when the
digest then changes.  `TransitionChain` is what the rows of one subject are to its current
state, and a store keeps it through every operation: a deployment that does not advance
and a transaction that is rolled back leave both as they were.
-/
import RatKingdom.Lib.Attempt
import RatKingdom.Space.Journal

namespace RatKingdom.Space

open Core List

def SdlcTransitionRecord.key (t : SdlcTransitionRecord) : String × String × String :=
  (t.source, t.scope, t.subject)

namespace Database

def transitionsOf (db : Database) (key : String × String × String) : List SdlcTransitionRecord :=
  db.transitions.filter fun t => t.key = key

def currentOf (db : Database) (key : String × String × String) : Option CurrentSdlcState :=
  (db.current.find? fun c => c.1 = key).map Prod.snd

/-- `sdlc_receipt_tx`. -/
def receiptOf (db : Database) (key : String × String) : Option SignalReceipt :=
  (db.receipts.find? fun r => r.1 = key).map Prod.snd

/-- Transitions that lead a subject from no state to its current digest, each to a digest
other than the one before. -/
structure TransitionChain (ts : List SdlcTransitionRecord) (current : Option String) : Prop where
  first : ∀ t ∈ ts.head?, t.previousDigest = none
  linked : ts.IsChain fun t u => u.previousDigest = some t.currentDigest
  changes : ∀ t ∈ ts, t.previousDigest ≠ some t.currentDigest
  last : ts.getLast?.map (·.currentDigest) = current

theorem TransitionChain.nil : TransitionChain [] none := ⟨by simp, .nil, by simp, rfl⟩

theorem TransitionChain.concat {ts : List SdlcTransitionRecord} {current : Option String}
    (h : TransitionChain ts current) {t : SdlcTransitionRecord} (hprev : t.previousDigest = current)
    (hne : current ≠ some t.currentDigest) : TransitionChain (ts ++ [t]) (some t.currentDigest) := by
  refine ⟨?_, ?_, ?_, by simp⟩
  · intro u hu
    cases ts with
    | nil =>
      have htu : t = u := by simpa using hu
      rw [← htu, hprev, ← h.last]
      rfl
    | cons v ts => exact h.first u hu
  · refine isChain_append.mpr ⟨h.linked, isChain_singleton _, ?_⟩
    intro v hv u hu
    have htu : t = u := by simpa using hu
    rw [← htu, hprev, ← h.last, hv]
    rfl
  · refine forall_mem_append.mpr ⟨h.changes, ?_⟩
    intro u hu
    rw [mem_singleton.mp hu, hprev]
    exact hne

def eventPrefix : String := "sdlc:event:"

def isSdlcEvent (c : Columns) : Bool :=
  c.category = "event" && eventPrefix.toList.isPrefixOf c.identity.toList

def sdlcEvents (db : Database) : Nat := db.events.countP fun e => isSdlcEvent e.columns

theorem isSdlcEvent_eventTuple (g : Store.SdlcSignal) :
    isSdlcEvent (columns g.eventTuple) = true := by
  have hid : (columns g.eventTuple).identity =
      eventPrefix ++ (g.source ++ ":" ++ g.deliveryId) := by
    show "sdlc:event:" ++ g.source ++ ":" ++ g.deliveryId = _
    simp only [eventPrefix, String.append_assoc]
  rw [isSdlcEvent, hid, String.toList_append, Bool.and_eq_true, isPrefixOf_iff_prefix]
  exact ⟨rfl, prefix_append _ _⟩

theorem isSdlcEvent_transition (p : Store.SdlcPlan) (g : Store.SdlcSignal) :
    isSdlcEvent (columns (p.transition g)) = false := by
  have hid : (columns (p.transition g)).identity =
      "sdlc:transition:" ++ (g.source ++ ":" ++ g.scope ++ ":" ++ g.subject) := by
    show "sdlc:transition:" ++ g.source ++ ":" ++ g.scope ++ ":" ++ g.subject = _
    simp only [String.append_assoc]
  rw [isSdlcEvent, hid, String.toList_append, Bool.and_eq_false_iff]
  exact .inr rfl

/-- The journal rows a statement, or several, append. -/
def Adds (db db' : Database) (cs : List Columns) : Prop :=
  ∀ n, Journal db n → (∃ n', Journal db' n') ∧
    db'.events.map (·.columns) = db.events.map (·.columns) ++ cs

theorem Adds.refl (db : Database) : Adds db db [] := fun n h => ⟨⟨n, h⟩, (append_nil _).symm⟩

variable {cs : List Columns}

theorem Adds.trans {a b c : Database} {cs' : List Columns} (h : Adds a b cs) (h' : Adds b c cs') :
    Adds a c (cs ++ cs') := by
  intro n hn
  obtain ⟨⟨m, hm⟩, hevents⟩ := h n hn
  obtain ⟨hj, hevents'⟩ := h' m hm
  exact ⟨hj, by rw [hevents', hevents, append_assoc]⟩

variable {db db' : Database} {t : Tuple}

theorem adds_insert (h : db.insert t = .ok db') : Adds db db' [columns t] := by
  intro n hn
  refine ⟨⟨n + 1, hn.insertTuple h⟩, ?_⟩
  rw [(hn.insertTuple_ok h).2.2]
  show (db.events ++ [_]).map _ = _
  rw [map_append]
  rfl

theorem adds_keeps (hrows : (db'.tuples.map rowKey).Sublist (db.tuples.map rowKey))
    (hsame : SameJournal db db') :
    Adds db db' [] := by
  intro n hn
  exact ⟨⟨n, hn.of_keeps hrows hsame⟩, by rw [hsame.2.1, append_nil]⟩

theorem Adds.aside {mid : Database} (h : Adds db mid cs) (htuples : db'.tuples = mid.tuples)
    (hsame : SameJournal mid db') : Adds db db' cs := by
  have hs : Adds mid db' [] := adds_keeps (by rw [htuples]) hsame
  have hall := h.trans hs
  rwa [append_nil] at hall

/-- The tables beside the tuples that signals write. -/
def SameSdlc (db db' : Database) : Prop :=
  db'.transitions = db.transitions ∧ db'.current = db.current ∧ db'.receipts = db.receipts

theorem SameSdlc.refl (db : Database) : SameSdlc db db := ⟨rfl, rfl, rfl⟩

theorem SameSdlc.trans {a b c : Database} (h : SameSdlc a b) (h' : SameSdlc b c) : SameSdlc a c :=
  ⟨h'.1.trans h.1, h'.2.1.trans h.2.1, h'.2.2.trans h.2.2⟩

theorem insert_sameSdlc (h : db.insert t = .ok db') : SameSdlc db db' := by
  rw [insert, insertTuple] at h
  split at h
  · cases h
  · rw [assignCommitSequence] at h
    split at h
    · cases h
    · split at h
      · dsimp only at h
        split at h
        · cases h
        · rename_i stamped hstamp
          rw [stampTuple] at hstamp
          split at hstamp
          · cases hstamp
          · cases hstamp
            cases h
            rw [appendEvent]
            split
            all_goals exact ⟨rfl, rfl, rfl⟩
      · cases h

theorem adds_updateWhere (db : Database) (p : Columns → Bool) {f : Columns → Columns}
    (hf : ∀ c, (f c).id = c.id ∧ (f c).scope = c.scope) : Adds db (db.updateWhere p f) [] := by
  refine adds_keeps ?_ ⟨rfl, rfl, rfl, rfl, rfl, rfl, rfl⟩
  rw [rowKeys_updateWhere db p hf]

theorem adds_deleteWhere (db : Database) (p : Columns → Bool) : Adds db (db.deleteWhere p) [] :=
  adds_keeps (List.Sublist.map _ filter_sublist) ⟨rfl, rfl, rfl, rfl, rfl, rfl, rfl⟩

variable {p : Store.SdlcPlan} {g : Store.SdlcSignal} {acceptedAt : DateTime}

theorem writeFact_spec (h : db.writeFact p g acceptedAt = .ok db') :
    SameSdlc db db' ∧ ∃ cs, Adds db db' cs ∧ cs.countP isSdlcEvent = 0 := by
  rw [writeFact] at h
  split at h
  · split at h
    · cases h
      exact ⟨⟨rfl, rfl, rfl⟩, [], adds_updateWhere db _ fun c => ⟨rfl, rfl⟩, rfl⟩
    · refine ⟨insert_sameSdlc h, _, adds_insert h, ?_⟩
      rfl
  · cases h
    exact ⟨.refl db, [], .refl db, rfl⟩

theorem writeCurrent_spec (h : db.writeCurrent p g acceptedAt = .ok db') :
    (db'.transitions = db.transitions ∧ db'.receipts = db.receipts ∧ Adds db db' []) ∧
      if p.advancesCurrent then
        ∃ c : CurrentSdlcState, c.digest = g.digest ∧
          db'.current = (g.key, c) :: db.current.filter fun c => c.1 ≠ g.key
      else db'.current = db.current := by
  rw [writeCurrent] at h
  split at h
  · rename_i hadvances
    rw [if_pos hadvances]
    split at h
    · cases h
    · cases h
      exact ⟨⟨rfl, rfl, (Adds.refl db).aside rfl ⟨rfl, rfl, rfl, rfl, rfl, rfl, rfl⟩⟩, _, rfl, rfl⟩
  · rename_i hadvances
    rw [if_neg hadvances]
    cases h
    exact ⟨⟨rfl, rfl, .refl db⟩, rfl⟩

theorem writeTransition_spec (h : db.writeTransition p g acceptedAt = .ok db') :
    (db'.current = db.current ∧ db'.receipts = db.receipts ∧
      ∃ cs, Adds db db' cs ∧ cs.countP isSdlcEvent = 0) ∧
      if p.transitionEmitted then
        ∃ t : SdlcTransitionRecord, db'.transitions = db.transitions ++ [t] ∧ t.key = g.key ∧
          t.previousDigest = p.current.map (·.digest) ∧ t.currentDigest = g.digest
      else db'.transitions = db.transitions := by
  rw [writeTransition] at h
  split at h
  · rename_i hemitted
    rw [if_pos hemitted]
    cases hi : db.insert (p.transition g) with
    | error e =>
      rw [hi] at h
      cases h
    | ok mid =>
      rw [hi] at h
      dsimp only at h
      split at h
      · cases h
      · cases h
        obtain ⟨htransitions, hcurrent, hreceipts⟩ := insert_sameSdlc hi
        refine ⟨⟨hcurrent, hreceipts, _,
          (adds_insert hi).aside rfl ⟨rfl, rfl, rfl, rfl, rfl, rfl, rfl⟩, ?_⟩, ?_⟩
        · rw [countP_singleton, isSdlcEvent_transition]
          rfl
        · rw [htransitions]
          exact ⟨_, rfl, rfl, rfl, rfl⟩
  · rename_i hemitted
    rw [if_neg hemitted]
    cases h
    exact ⟨⟨rfl, rfl, [], .refl db, rfl⟩, rfl⟩

variable {rollbackInjection : Bool} {out : Database × SignalReceipt}

/-- What an accepted signal leaves: a duplicate nothing, a new delivery its receipt, one
event, and what its plan says of the current state and the transitions. -/
theorem acceptSdlcSignal_spec (h : db.acceptSdlcSignal g acceptedAt rollbackInjection = .ok out) :
    g.rejection = none ∧ ((db.receiptOf (g.source, g.deliveryId) = some out.2 ∧ out.1 = db) ∨
        db.receiptOf (g.source, g.deliveryId) = none ∧
          out.1.receipts = db.receipts ++ [((g.source, g.deliveryId), out.2)] ∧
          (∃ cs, Adds db out.1 cs ∧ cs.countP isSdlcEvent = 1) ∧
          (if (db.sdlcPlan g acceptedAt).advancesCurrent then
            ∃ c : CurrentSdlcState, c.digest = g.digest ∧
              out.1.current = (g.key, c) :: db.current.filter fun c => c.1 ≠ g.key
          else out.1.current = db.current) ∧
          if (db.sdlcPlan g acceptedAt).transitionEmitted then
            ∃ t : SdlcTransitionRecord, out.1.transitions = db.transitions ++ [t] ∧
              t.key = g.key ∧ t.previousDigest = (db.currentOf g.key).map (·.digest) ∧
                t.currentDigest = g.digest
          else out.1.transitions = db.transitions) := by
  rw [acceptSdlcSignal] at h
  cases hr : g.rejection with
  | some e =>
    rw [hr] at h
    cases h
  | none =>
    refine ⟨rfl, ?_⟩
    rw [hr] at h
    cases hf : db.receipts.find? fun r => r.1 = (g.source, g.deliveryId) with
    | some receipt =>
      rw [hf] at h
      cases h
      exact .inl ⟨by rw [receiptOf, hf]; rfl, rfl⟩
    | none =>
      rw [hf] at h
      dsimp only at h
      refine .inr ⟨by rw [receiptOf, hf]; rfl, ?_⟩
      cases hw : db.sdlcWrite (db.sdlcPlan g acceptedAt) g acceptedAt with
      | error e =>
        rw [hw] at h
        cases h
      | ok db₄ =>
        rw [hw] at h
        dsimp only at h
        split at h
        · cases h
        · cases h
          obtain ⟨db₁, h₁, hw⟩ := Lib.bind_ok_iff.mp hw
          obtain ⟨db₂, h₂, hw⟩ := Lib.bind_ok_iff.mp hw
          obtain ⟨db₃, h₃, h₄⟩ := Lib.bind_ok_iff.mp hw
          obtain ⟨htransitions₁, hcurrent₁, hreceipts₁⟩ := insert_sameSdlc h₁
          obtain ⟨⟨htransitions₂, hcurrent₂, hreceipts₂⟩, cs₂, hadds₂, hcount₂⟩ :=
            writeFact_spec h₂
          obtain ⟨⟨htransitions₃, hreceipts₃, hadds₃⟩, hcurrent₃⟩ := writeCurrent_spec h₃
          obtain ⟨⟨hcurrent₄, hreceipts₄, cs₄, hadds₄, hcount₄⟩, htransitions₄⟩ :=
            writeTransition_spec h₄
          rw [hcurrent₂, hcurrent₁, ← hcurrent₄] at hcurrent₃
          rw [htransitions₃, htransitions₂, htransitions₁] at htransitions₄
          refine ⟨?_, ⟨_, ((((adds_insert h₁).trans hadds₂).trans hadds₃).trans hadds₄).aside rfl
            ⟨rfl, rfl, rfl, rfl, rfl, rfl, rfl⟩, ?_⟩, hcurrent₃, htransitions₄⟩
          · show db₄.receipts ++ _ = _
            rw [hreceipts₄, hreceipts₃, hreceipts₂, hreceipts₁]
          · rw [append_nil, countP_append, countP_append, hcount₂, hcount₄,
              countP_singleton, isSdlcEvent_eventTuple]
            rfl

variable {receipt : SignalReceipt}

/-- A delivery the store has a receipt of changes nothing, and is answered that receipt
unless it is itself refused. -/
theorem acceptSdlcSignal_again (h : db.receiptOf (g.source, g.deliveryId) = some receipt)
    (acceptedAt : DateTime) (rollbackInjection : Bool) :
    db.next (.acceptSdlcSignal g acceptedAt rollbackInjection) = db ∧
      (db.acceptSdlcSignal g acceptedAt rollbackInjection).map Prod.snd = match g.rejection with
        | some e => .error e
        | none => .ok receipt := by
  obtain ⟨row, hf, hrow⟩ := Option.map_eq_some_iff.mp h
  show db.committed ((db.acceptSdlcSignal g acceptedAt rollbackInjection).map Prod.fst) = db ∧ _
  rw [acceptSdlcSignal, hf]
  cases g.rejection with
  | some e => exact ⟨rfl, rfl⟩
  | none => exact ⟨rfl, congrArg Except.ok hrow⟩

def Action.insertsEvent : Action → Bool
  | .insert t => isSdlcEvent (columns t)
  | .insertCoordinator t => isSdlcEvent (columns t)
  | .replace _ t => isSdlcEvent (columns t)
  | _ => false

def acceptedKey (db : Database) : Action → Option (String × String)
  | .acceptSdlcSignal g acceptedAt rollbackInjection =>
    match db.acceptSdlcSignal g acceptedAt rollbackInjection with
    | .ok _ => some (g.source, g.deliveryId)
    | .error _ => none
  | _ => none

/-- An operation that is answered no receipt leaves what the tables say of every subject
and every delivery, and journals no event of its own. -/
structure Beside (db : Database) (a : Action) (db' : Database) : Prop where
  transitions : db'.transitions = db.transitions
  receipts : db'.receipts = db.receipts
  digests : ∀ key, (db'.currentOf key).map (·.digest) = (db.currentOf key).map (·.digest)
  journal : ∀ n, Journal db n → ∃ n', Journal db' n'
  events : ∀ n, Journal db n → a.insertsEvent = false → db'.sdlcEvents = db.sdlcEvents

variable {n : Nat}

theorem sdlcEvents_of_adds (h : Adds db db' cs) (hn : Journal db n) :
    db'.sdlcEvents = db.sdlcEvents + cs.countP isSdlcEvent := by
  have hcount : ∀ d : Database, d.sdlcEvents = (d.events.map (·.columns)).countP isSdlcEvent := by
    intro d
    rw [countP_map]
    rfl
  rw [hcount db', (h n hn).2, countP_append, ← hcount db]

variable {a : Action}

theorem beside_of_same (h : SameSdlc db db') (hadds : Adds db db' cs)
    (hcs : a.insertsEvent = false → cs.countP isSdlcEvent = 0) : Beside db a db' := by
  refine ⟨h.1, h.2.2, fun key => ?_, fun n hn => (hadds n hn).1, fun n hn ha => ?_⟩
  · rw [currentOf, h.2.1]
    rfl
  · rw [sdlcEvents_of_adds hadds hn, hcs ha, Nat.add_zero]

theorem beside_refl (db : Database) (a : Action) : Beside db a db :=
  beside_of_same (.refl db) (.refl db) fun _ => rfl

theorem beside_insert {mid : Database} (hadds : Adds db mid []) (hmid : SameSdlc db mid)
    (h : mid.insert t = .ok db') (ha : a.insertsEvent = isSdlcEvent (columns t)) :
    Beside db a db' := by
  refine beside_of_same (hmid.trans (insert_sameSdlc h)) (hadds.trans (adds_insert h)) fun hno => ?_
  rw [nil_append, countP_singleton, ← ha, hno]
  rfl

/-- A daemon that opens the file again fills in what a deployment is ordered by, and no
digest. -/
theorem beside_reopen (h : Journal db n) (reader : TextReader) :
    Beside db (.reopen reader) (db.openStore reader).1 := by
  rw [openStore_settled h.settled reader]
  have hadds : Adds db (db.backfillLegacyDeploymentOrdering reader) [] :=
    (Adds.refl db).aside rfl ⟨rfl, rfl, rfl, rfl, rfl, rfl, rfl⟩
  refine ⟨rfl, rfl, fun key => ?_, fun m hm => (hadds m hm).1, fun m hm _ =>
    sdlcEvents_of_adds hadds hm⟩
  show ((db.current.map _).find? _ |>.map Prod.snd).map _ = _
  rw [find?_map, Option.map_map, Option.map_map, currentOf, Option.map_map]
  refine congrArg (fun f => Option.map f (db.current.find? fun c => c.1 = key)) (funext fun c => ?_)
  show (db.orderedState reader c.1 c.2).digest = c.2.digest
  rw [orderedState]
  split
  · split
    · rfl
    · split
      · rfl
      · rfl
  · rfl

theorem beside_insertCoordinator {out : Database × Nat} (h : db.insertCoordinator t = .ok out) :
    Beside db (.insertCoordinator t) out.1 := by
  rw [insertCoordinator] at h
  cases hi : db.insert t with
  | error e =>
    rw [hi] at h
    cases h
  | ok mid =>
    rw [hi] at h
    dsimp only at h
    split at h
    · cases h
    · cases h
      have hsame : SameSdlc db mid := insert_sameSdlc hi
      have hadds := adds_insert hi
      refine beside_of_same hsame (hadds.aside rfl ⟨rfl, rfl, rfl, rfl, rfl, rfl, rfl⟩)
        fun hno => ?_
      rw [countP_singleton]
      exact if_neg (Bool.eq_false_iff.mp hno)

theorem beside_next (h : Journal db n) (ha : db.acceptedKey a = none) :
    Beside db a (db.next a) := by
  cases a with
  | insert t =>
    show Beside db _ (db.committed (db.insert t))
    cases hi : db.insert t with
    | error e => exact beside_refl db _
    | ok d => exact beside_insert (.refl db) (.refl db) hi rfl
  | insertCoordinator t =>
    show Beside db _ (db.committed ((db.insertCoordinator t).map Prod.fst))
    cases hi : db.insertCoordinator t with
    | error e => exact beside_refl db _
    | ok out => exact beside_insertCoordinator hi
  | replace expected t =>
    show Beside db _ (db.committed ((db.replace expected t).map Prod.fst))
    cases hr : db.replace expected t with
    | error e => exact beside_refl db _
    | ok out =>
      rcases replace_cases hr with ⟨-, hd⟩ | ⟨-, hd⟩
      · show Beside db _ out.1
        rw [hd]
        exact beside_refl db _
      · exact beside_insert (adds_deleteWhere db _) ⟨rfl, rfl, rfl⟩ hd rfl
  | reinforce id t =>
    exact beside_of_same ⟨rfl, rfl, rfl⟩ (adds_updateWhere db _ fun c => ⟨rfl, rfl⟩) fun _ => rfl
  | delete id | deleteExpired now =>
    exact beside_of_same ⟨rfl, rfl, rfl⟩ (adds_deleteWhere db _) fun _ => rfl
  | decayAndCollect step cut =>
    have hdecay : Adds db (db.decay step) [] := adds_updateWhere db _ fun c => ⟨rfl, rfl⟩
    cases cut with
    | true => exact beside_of_same ⟨rfl, rfl, rfl⟩ hdecay fun _ => rfl
    | false =>
      exact beside_of_same ⟨rfl, rfl, rfl⟩ (hdecay.trans (adds_deleteWhere _ _)) fun _ => rfl
  | acceptSdlcSignal g acceptedAt rollbackInjection =>
    show Beside db _ (db.committed
      ((db.acceptSdlcSignal g acceptedAt rollbackInjection).map Prod.fst))
    rw [acceptedKey] at ha
    cases hr : db.acceptSdlcSignal g acceptedAt rollbackInjection with
    | error e => exact beside_refl db _
    | ok out =>
      rw [hr] at ha
      cases ha
  | reopen reader => exact beside_reopen h reader
  | fails => exact beside_refl db _

theorem transitionsOf_concat {t : SdlcTransitionRecord}
    (h : db'.transitions = db.transitions ++ [t]) (key : String × String × String) :
    db'.transitionsOf key = db.transitionsOf key ++ if t.key = key then [t] else [] := by
  rw [transitionsOf, h, filter_append, transitionsOf]
  congr 1
  by_cases hkey : t.key = key
  · simp [hkey]
  · simp [hkey]

theorem currentOf_cons {k : String × String × String} {c : CurrentSdlcState}
    (h : db'.current = (k, c) :: db.current.filter fun c => c.1 ≠ k)
    (key : String × String × String) :
    db'.currentOf key = if k = key then some c else db.currentOf key := by
  rw [currentOf, h]
  by_cases hkey : k = key
  · rw [if_pos hkey, find?_cons_of_pos (by simpa using hkey)]
    rfl
  · rw [if_neg hkey, find?_cons_of_neg (by simpa using hkey), find?_filter, currentOf]
    congr 2
    funext d
    by_cases hd : d.1 = key
    · simp [hd, Ne.symm hkey]
    · simp [hd]

structure SdlcKept (db : Database) : Prop where
  journal : ∃ n, Journal db n
  chained : ∀ key, TransitionChain (db.transitionsOf key) ((db.currentOf key).map (·.digest))
  keys : (db.receipts.map Prod.fst).Nodup

theorem sdlcKept_fresh : SdlcKept fresh := ⟨⟨0, journal_fresh⟩, fun _ => .nil, nodup_nil⟩

variable {key : String × String}

theorem receiptOf_eq_none : db.receiptOf key = none ↔ key ∉ db.receipts.map Prod.fst := by
  rw [receiptOf, Option.map_eq_none_iff, find?_eq_none, mem_map]
  constructor
  · rintro h ⟨r, hr, rfl⟩
    exact h r hr (by simp)
  · intro h r hr heq
    exact h ⟨r, hr, of_decide_eq_true heq⟩

theorem transitionEmitted_iff (db : Database) (g : Store.SdlcSignal) (acceptedAt : DateTime) :
    (db.sdlcPlan g acceptedAt).transitionEmitted = true ↔
      (db.sdlcPlan g acceptedAt).advancesCurrent = true ∧
        (db.currentOf g.key).map (·.digest) ≠ some g.digest := by
  have hplan : (db.sdlcPlan g acceptedAt).transitionEmitted =
      ((db.sdlcPlan g acceptedAt).advancesCurrent &&
        ((db.currentOf g.key).map fun c => decide (c.digest ≠ g.digest)).getD true) := rfl
  rw [hplan, Bool.and_eq_true]
  cases db.currentOf g.key with
  | none | some c => simp

/-- What a new delivery writes carries the chain of its subject on. -/
theorem TransitionChain.accept {db db' : Database} {g : Store.SdlcSignal} {acceptedAt : DateTime}
    (hchain : ∀ key, TransitionChain (db.transitionsOf key) ((db.currentOf key).map (·.digest)))
    (hcurrent : if (db.sdlcPlan g acceptedAt).advancesCurrent then
      ∃ c : CurrentSdlcState, c.digest = g.digest ∧
        db'.current = (g.key, c) :: db.current.filter fun c => c.1 ≠ g.key
      else db'.current = db.current)
    (htransitions : if (db.sdlcPlan g acceptedAt).transitionEmitted then
      ∃ t : SdlcTransitionRecord, db'.transitions = db.transitions ++ [t] ∧ t.key = g.key ∧
        t.previousDigest = (db.currentOf g.key).map (·.digest) ∧ t.currentDigest = g.digest
      else db'.transitions = db.transitions) (key : String × String × String) :
    TransitionChain (db'.transitionsOf key) ((db'.currentOf key).map (·.digest)) := by
  have hiff := transitionEmitted_iff db g acceptedAt
  by_cases hadvances : (db.sdlcPlan g acceptedAt).advancesCurrent = true
  · rw [if_pos hadvances] at hcurrent
    obtain ⟨c, hdigest, hcurrent⟩ := hcurrent
    rw [currentOf_cons hcurrent]
    by_cases hemitted : (db.sdlcPlan g acceptedAt).transitionEmitted = true
    · rw [if_pos hemitted] at htransitions
      obtain ⟨t, ht, htkey, hprev, hcur⟩ := htransitions
      rw [transitionsOf_concat ht, htkey]
      by_cases hkey : g.key = key
      · rw [if_pos hkey, if_pos hkey, Option.map_some, hdigest, ← hcur]
        refine (hchain key).concat (by rw [hprev, hkey]) ?_
        rw [← hkey, hcur]
        exact (hiff.mp hemitted).2
      · rw [if_neg hkey, if_neg hkey, append_nil]
        exact hchain key
    · -- The state advances to the digest it already has.
      rw [if_neg hemitted] at htransitions
      have hsame : (db.currentOf g.key).map (·.digest) = some g.digest := by
        by_contra hne
        exact hemitted (hiff.mpr ⟨hadvances, hne⟩)
      rw [transitionsOf, htransitions]
      by_cases hkey : g.key = key
      · rw [if_pos hkey, Option.map_some, hdigest, ← hsame, hkey]
        exact hchain key
      · rw [if_neg hkey]
        exact hchain key
  · have hemitted : ¬ (db.sdlcPlan g acceptedAt).transitionEmitted = true :=
      fun h => hadvances (hiff.mp h).1
    rw [if_neg hadvances] at hcurrent
    rw [if_neg hemitted] at htransitions
    rw [transitionsOf, htransitions, currentOf, hcurrent]
    exact hchain key

theorem SdlcKept.accept (h : SdlcKept db)
    (hok : db.acceptSdlcSignal g acceptedAt rollbackInjection = .ok out) : SdlcKept out.1 := by
  obtain ⟨-, ⟨-, hout⟩ | ⟨hnew, hreceipts, ⟨cs, hadds, -⟩, hcurrent, htransitions⟩⟩ :=
    acceptSdlcSignal_spec hok
  · rw [hout]
    exact h
  · obtain ⟨n, hn⟩ := h.journal
    refine ⟨(hadds n hn).1, .accept h.chained hcurrent htransitions, ?_⟩
    rw [hreceipts, map_append]
    refine nodup_append.mpr ⟨h.keys, by simp, fun k hk k' hk' => ?_⟩
    have heq : k' = (g.source, g.deliveryId) := by simpa using hk'
    rw [heq]
    rintro rfl
    exact receiptOf_eq_none.mp hnew hk

theorem SdlcKept.beside (h : SdlcKept db) (hb : Beside db a db') : SdlcKept db' := by
  obtain ⟨n, hn⟩ := h.journal
  refine ⟨hb.journal n hn, fun key => ?_, ?_⟩
  · rw [hb.digests, transitionsOf, hb.transitions]
    exact h.chained key
  · rw [hb.receipts]
    exact h.keys

theorem acceptedKey_cases (db : Database) (a : Action) :
    db.acceptedKey a = none ∨ ∃ g acceptedAt rollbackInjection out,
        a = .acceptSdlcSignal g acceptedAt rollbackInjection ∧
          db.acceptSdlcSignal g acceptedAt rollbackInjection = .ok out ∧
            db.next a = out.1 ∧ db.acceptedKey a = some (g.source, g.deliveryId) := by
  cases a with
  | acceptSdlcSignal g acceptedAt rollbackInjection =>
    cases hr : db.acceptSdlcSignal g acceptedAt rollbackInjection with
    | error e => exact .inl (by rw [acceptedKey, hr])
    | ok out =>
      refine .inr ⟨g, acceptedAt, rollbackInjection, out, rfl, hr, ?_, by rw [acceptedKey, hr]⟩
      show db.committed ((db.acceptSdlcSignal g acceptedAt rollbackInjection).map Prod.fst) = out.1
      rw [hr]
      rfl
  | _ => exact .inl rfl

theorem SdlcKept.next (h : SdlcKept db) (a : Action) : SdlcKept (db.next a) := by
  rcases acceptedKey_cases db a with ha | ⟨g, acceptedAt, rollback, out, -, hok, hnext, -⟩
  · obtain ⟨n, hn⟩ := h.journal
    exact h.beside (beside_next hn ha)
  · rw [hnext]
    exact h.accept hok

theorem mem_receipts_next (h : SdlcKept db) (a : Action) (key : String × String) :
    key ∈ (db.next a).receipts.map Prod.fst ↔
      key ∈ db.receipts.map Prod.fst ∨ db.acceptedKey a = some key := by
  rcases acceptedKey_cases db a with ha | ⟨g, acceptedAt, rollback, out, -, hok, hnext, ha⟩
  · obtain ⟨n, hn⟩ := h.journal
    rw [(beside_next hn ha).receipts, ha]
    simp
  · rw [hnext, ha]
    obtain ⟨-, ⟨hold, hout⟩ | ⟨-, hreceipts, -⟩⟩ := acceptSdlcSignal_spec hok
    · have hm : (g.source, g.deliveryId) ∈ db.receipts.map Prod.fst := by
        by_contra hnone
        rw [receiptOf_eq_none.mpr hnone] at hold
        cases hold
      rw [hout]
      refine ⟨.inl, fun hor => hor.elim id fun heq => ?_⟩
      rw [← Option.some.inj heq]
      exact hm
    · rw [hreceipts, map_append, mem_append, Option.some.injEq, eq_comm (b := key)]
      simp

theorem receiptOf_next (h : SdlcKept db) (a : Action) (hkey : db.receiptOf key = some receipt) :
    (db.next a).receiptOf key = some receipt := by
  rcases acceptedKey_cases db a with ha | ⟨g, acceptedAt, rollback, out, -, hok, hnext, -⟩
  · obtain ⟨n, hn⟩ := h.journal
    rw [receiptOf, (beside_next hn ha).receipts]
    exact hkey
  · rw [hnext]
    obtain ⟨-, ⟨-, hout⟩ | ⟨-, hreceipts, -⟩⟩ := acceptSdlcSignal_spec hok
    · rw [hout]
      exact hkey
    · obtain ⟨row, hf, hrow⟩ := Option.map_eq_some_iff.mp hkey
      rw [receiptOf, hreceipts, find?_append, hf]
      exact congrArg some hrow

theorem receiptOf_accepted (hok : db.acceptSdlcSignal g acceptedAt rollbackInjection = .ok out) :
    out.1.receiptOf (g.source, g.deliveryId) = some out.2 := by
  obtain ⟨-, ⟨hold, hout⟩ | ⟨hnew, hreceipts, -⟩⟩ := acceptSdlcSignal_spec hok
  · rw [hout]
    exact hold
  · rw [receiptOf, hreceipts, find?_append, Option.map_eq_none_iff.mp hnew]
    simp

theorem sdlcEvents_next (h : SdlcKept db) (ha : a.insertsEvent = false)
    (hcount : db.sdlcEvents = db.receipts.length) :
    (db.next a).sdlcEvents = (db.next a).receipts.length := by
  obtain ⟨n, hn⟩ := h.journal
  rcases acceptedKey_cases db a with hno | ⟨g, acceptedAt, rollback, out, -, hok, hnext, -⟩
  · have hb := beside_next hn hno
    rw [hb.events n hn ha, hb.receipts, hcount]
  · rw [hnext]
    obtain ⟨-, ⟨-, hout⟩ | ⟨-, hreceipts, ⟨cs, hadds, hone⟩, -⟩⟩ := acceptSdlcSignal_spec hok
    · rw [hout, hcount]
    · rw [sdlcEvents_of_adds hadds hn, hone, hreceipts, length_append, hcount]
      rfl

def after (db : Database) (as : List Action) : Database := as.foldl next db

def accepted : Database → List Action → List (String × String)
  | _, [] => []
  | db, a :: as => (db.acceptedKey a).toList ++ accepted (db.next a) as

theorem SdlcKept.after (h : SdlcKept db) (as : List Action) : SdlcKept (db.after as) := by
  induction as generalizing db with
  | nil => exact h
  | cons a as ih => exact ih (h.next a)

theorem mem_receipts_after (h : SdlcKept db) (as : List Action) (key : String × String) :
    key ∈ (db.after as).receipts.map Prod.fst ↔
      key ∈ db.receipts.map Prod.fst ∨ key ∈ accepted db as := by
  induction as generalizing db with
  | nil => simp [Database.after, accepted]
  | cons a as ih =>
    show key ∈ ((db.next a).after as).receipts.map Prod.fst ↔ _
    rw [ih (h.next a), mem_receipts_next h, accepted, mem_append, or_assoc]
    simp

theorem receiptOf_after (h : SdlcKept db) (as : List Action)
    (hkey : db.receiptOf key = some receipt) :
    (db.after as).receiptOf key = some receipt := by
  induction as generalizing db with
  | nil => exact hkey
  | cons a as ih => exact ih (h.next a) (receiptOf_next h a hkey)

theorem sdlcEvents_after (h : SdlcKept db) {as : List Action}
    (has : ∀ a ∈ as, a.insertsEvent = false) (hcount : db.sdlcEvents = db.receipts.length) :
    (db.after as).sdlcEvents = (db.after as).receipts.length := by
  induction as generalizing db with
  | nil => exact hcount
  | cons a as ih =>
    refine ih (h.next a) (fun a' ha' => has a' (mem_cons_of_mem _ ha')) ?_
    exact sdlcEvents_next h (has a mem_cons_self) hcount

/-- Over every sequence of signals, among any other operations of the store: the
transitions of each subject lead from no state to its current digest, each from the digest
before it to another; the event tuples ever inserted are as many as the deliveries
accepted; and a delivery sent again changes nothing and is answered its first receipt,
unless it is itself refused. -/
theorem sdlc_transitions_chain (as : List Action) :
    (∀ key, TransitionChain ((fresh.after as).transitionsOf key)
      (((fresh.after as).currentOf key).map (·.digest))) ∧
    ((∀ a ∈ as, a.insertsEvent = false) →
      (fresh.after as).sdlcEvents = (accepted fresh as).toFinset.card) ∧
    ∀ earlier g acceptedAt rollback later db receipt,
      as = earlier ++ .acceptSdlcSignal g acceptedAt rollback :: later →
      (fresh.after earlier).acceptSdlcSignal g acceptedAt rollback = .ok (db, receipt) →
      ∀ (g' : Store.SdlcSignal) (acceptedAt' : DateTime) (rollback' : Bool),
        (g'.source, g'.deliveryId) = (g.source, g.deliveryId) →
        (fresh.after as).next (.acceptSdlcSignal g' acceptedAt' rollback') = fresh.after as ∧
          ((fresh.after as).acceptSdlcSignal g' acceptedAt' rollback').map Prod.snd =
            match g'.rejection with
            | some e => .error e
            | none => .ok receipt := by
  have hkept := sdlcKept_fresh.after as
  refine ⟨hkept.chained, fun has => ?_, ?_⟩
  · rw [sdlcEvents_after sdlcKept_fresh has rfl, ← length_map (f := Prod.fst),
      ← toFinset_card_of_nodup hkept.keys]
    congr 1
    ext key
    rw [mem_toFinset, mem_toFinset, mem_receipts_after sdlcKept_fresh]
    simp [fresh, blank]
  · intro earlier g acceptedAt rollback later db receipt has hok g' acceptedAt' rollback' hkey
    have hnext : (fresh.after earlier).next (.acceptSdlcSignal g acceptedAt rollback) = db := by
      show committed _ (((fresh.after earlier).acceptSdlcSignal g acceptedAt rollback).map
        Prod.fst) = db
      rw [hok]
      rfl
    have hafter : fresh.after as = db.after later := by
      rw [has, ← hnext]
      exact foldl_append
    have hdb : SdlcKept db := by
      rw [← hnext]
      exact (sdlcKept_fresh.after earlier).next _
    have hreceipt := receiptOf_after hdb later (receiptOf_accepted hok)
    rw [hafter]
    refine acceptSdlcSignal_again ?_ acceptedAt' rollback'
    rw [hkey]
    exact hreceipt

def redBuild : Store.SdlcSignal :=
  { rejection := none, source := "github", deliveryId := "d1", principal := "source:github"
    scope := "barn", subject := "pr/7", family := "ci", digest := "red", occurredAt := 0
    observedAt := 0, eventId := 1, stableFactId := 2, transitionId := 3, eventPayload := .null
    factPayload := fun _ _ _ _ => .null, transitionPayload := fun _ => .null }

/-- The delivery is sent again five nanoseconds later. -/
theorem sdlc_transitions_chain_redelivered :
    ∃ db receipt, fresh.acceptSdlcSignal redBuild 0 false = .ok (db, receipt) ∧
      db.sdlcEvents = (accepted fresh [.acceptSdlcSignal redBuild 0 false]).toFinset.card ∧
      db.next (.acceptSdlcSignal redBuild 5 false) = db ∧
      (db.acceptSdlcSignal redBuild 5 false).map Prod.snd = .ok receipt :=
  have h := sdlc_transitions_chain [.acceptSdlcSignal redBuild 0 false]
  have hagain := h.2.2 [] redBuild 0 false [] _ _ rfl rfl redBuild 5 false rfl
  ⟨_, _, rfl, h.2.1 (by decide), hagain.1, hagain.2⟩

end Database

end RatKingdom.Space
