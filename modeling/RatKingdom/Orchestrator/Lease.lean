/-
The orchestrator lease store of `orchestrator_lease.rs`: one lease per repository
scope, kept in memory and written to one file after every change.

A holder that comes back gets its generation and cursor again, a different holder
may take over only after expiry and then under the next generation, and the
fenced calls compare the presented holder and generation with the stored ones.
The machine at the end runs any sequence of calls and restarts and keeps, as a
ghost, the replies given so far.
-/
import RatKingdom.Core.Text
import RatKingdom.Lib.Run

namespace RatKingdom.Orchestrator

open List Function

open Core (DateTime)

structure Lease where
  scope : String
  holder : String
  generation : Nat
  acquiredAt : DateTime
  expiresAt : DateTime
  cursor : Option String
deriving DecidableEq

def Lease.isLive (l : Lease) (now : DateTime) : Bool := decide (now < l.expiresAt)

/-- What a call can answer instead of a lease. -/
inductive LeaseError where
  | heldBy (scope holder : String) (expiresAt : DateTime)
  | noLease (scope : String)
  | fencing (scope holder : String) (generation : Nat) (presented : String)
      (presentedGeneration : Nat)
  | expired (scope : String) (expiresAt : DateTime)
  | releaseFencing | persistFailed

/-- The text of an error, for a given rendering of instants and of the file
error. -/
def LeaseError.text (showTime : DateTime → String) (ioError : String) : LeaseError → String
  | .heldBy scope holder expiresAt =>
    s!"lease for {scope} is held by {holder} until {showTime expiresAt}"
  | .noLease scope => s!"no lease held for {scope}"
  | .fencing scope holder generation presented presentedGeneration =>
    s!"lease fencing failed for {scope}: held by {holder} generation {generation} (presented {presented} generation {presentedGeneration})"
  | .expired scope expiresAt => s!"lease for {scope} expired at {showTime expiresAt}"
  | .releaseFencing => "lease release fencing failed"
  | .persistFailed => ioError

abbrev Leases := String → Option Lease

def Leases.insert (data : Leases) (scope : String) (l : Lease) : Leases :=
  update data scope (some l)

structure LeaseStore where
  data : Leases
  file : Leases

open LeaseStore

/-- Put new leases in memory and write them out.  The write goes to a temporary
file that is renamed over the old one, so a failed write leaves the old file; the
change in memory stays either way. -/
def LeaseStore.persist {α : Type} (s : LeaseStore) (data : Leases) (writes : Bool) (out : α) :
    LeaseStore × Except LeaseError α :=
  if writes then ({ data := data, file := data }, .ok out)
  else ({ s with data := data }, .error .persistFailed)

def ttl (ttlSecs : Int) : Int := max 1 (min ttlSecs 3600) * DateTime.nanosPerSecond

def acquired (data : Leases) (scope holder : String) (ttlSecs : Int) (now : DateTime) :
    Except LeaseError Lease :=
  match data scope with
  | some existing =>
    if existing.holder = holder then
      .ok { existing with expiresAt := now + ttl ttlSecs }
    else if existing.isLive now then
      .error (.heldBy scope existing.holder existing.expiresAt)
    else
      -- the cursor belongs to the scope: a replacement resumes where its
      -- predecessor stopped
      .ok { scope := scope, holder := holder, generation := existing.generation + 1,
            acquiredAt := now, expiresAt := now + ttl ttlSecs, cursor := existing.cursor }
  | none =>
    .ok { scope := scope, holder := holder, generation := 1,
          acquiredAt := now, expiresAt := now + ttl ttlSecs, cursor := none }

def LeaseStore.acquire (s : LeaseStore) (scope holder : String) (ttlSecs : Int) (now : DateTime)
    (writes : Bool) : LeaseStore × Except LeaseError Lease :=
  match acquired s.data scope holder ttlSecs now with
  | .error e => (s, .error e)
  | .ok lease => s.persist (s.data.insert scope lease) writes lease

def checkFence (data : Leases) (scope holder : String) (generation : Nat) (now : DateTime) :
    Except LeaseError Lease :=
  match data scope with
  | none => .error (.noLease scope)
  | some lease =>
    if lease.holder ≠ holder ∨ lease.generation ≠ generation then
      .error (.fencing scope lease.holder lease.generation holder generation)
    else if lease.isLive now = false then
      .error (.expired scope lease.expiresAt)
    else .ok lease

def LeaseStore.renew (s : LeaseStore) (scope holder : String) (generation : Nat) (ttlSecs : Int)
    (now : DateTime) (writes : Bool) : LeaseStore × Except LeaseError Lease :=
  match checkFence s.data scope holder generation now with
  | .error e => (s, .error e)
  | .ok lease =>
    let out := { lease with expiresAt := now + ttl ttlSecs }
    s.persist (s.data.insert scope out) writes out

def LeaseStore.advanceCursor (s : LeaseStore) (scope holder : String) (generation : Nat)
    (cursor : String) (now : DateTime) (writes : Bool) : LeaseStore × Except LeaseError Lease :=
  match checkFence s.data scope holder generation now with
  | .error e => (s, .error e)
  | .ok lease =>
    let out := { lease with cursor := some cursor }
    s.persist (s.data.insert scope out) writes out

def LeaseStore.release (s : LeaseStore) (scope holder : String) (generation : Nat)
    (now : DateTime) (writes : Bool) : LeaseStore × Except LeaseError Unit :=
  match s.data scope with
  | none => (s, .error (.noLease scope))
  | some lease =>
    if lease.holder ≠ holder ∨ lease.generation ≠ generation then (s, .error .releaseFencing)
    else s.persist (s.data.insert scope { lease with expiresAt := now }) writes ()

def LeaseStore.load (s : LeaseStore) : LeaseStore := { s with data := s.file }

inductive Call where
  | acquire (scope holder : String) (ttlSecs : Int) (now : DateTime)
  | renew (scope holder : String) (generation : Nat) (ttlSecs : Int) (now : DateTime)
  | advanceCursor (scope holder : String) (generation : Nat) (cursor : String) (now : DateTime)
  | release (scope holder : String) (generation : Nat) (now : DateTime)
  | restart
deriving DecidableEq

inductive Reply where
  | leased (l : Lease)
  | released | loaded
  | refused (e : LeaseError)

open Reply

def Reply.ofLease : Except LeaseError Lease → Reply
  | .ok l => .leased l
  | .error e => .refused e

def Reply.ofUnit : Except LeaseError Unit → Reply
  | .ok () => .released
  | .error e => .refused e

def Reply.ok : Reply → Bool
  | .refused _ => false
  | _ => true

def LeaseStore.answer (s : LeaseStore) (c : Call) (writes : Bool) : LeaseStore × Reply :=
  match c with
  | .acquire scope holder ttlSecs now =>
    (s.acquire scope holder ttlSecs now writes).map id ofLease
  | .renew scope holder generation ttlSecs now =>
    (s.renew scope holder generation ttlSecs now writes).map id ofLease
  | .advanceCursor scope holder generation cursor now =>
    (s.advanceCursor scope holder generation cursor now writes).map id ofLease
  | .release scope holder generation now =>
    (s.release scope holder generation now writes).map id ofUnit
  | .restart => (s.load, .loaded)

/-- The store, with the calls answered so far. -/
structure LeaseLog where
  store : LeaseStore
  past : List (Call × Reply)

def LeaseLog.start : LeaseLog :=
  { store := { data := fun _ => none, file := fun _ => none }, past := [] }

def LeaseLog.step (d : LeaseLog) (e : Call × Bool) : Option LeaseLog :=
  let r := d.store.answer e.1 e.2
  some { store := r.1, past := d.past ++ [(e.1, r.2)] }

/-- What a call with a successful write can do to the leases.  Every case but
`refuse` is a successful one. -/
inductive Moves (data : Leases) : Call → Reply → Leases → Prop where
  | refuse (c : Call) (e : LeaseError) : Moves data c (.refused e) data
  | first {scope holder : String} {ttlSecs : Int} {now : DateTime} {l : Lease}
      (none : data scope = none) (holder_eq : l.holder = holder) (generation : l.generation = 1)
      (cursor : l.cursor = .none) :
      Moves data (.acquire scope holder ttlSecs now) (.leased l) (data.insert scope l)
  | again {scope holder : String} {ttlSecs : Int} {now : DateTime} {existing l : Lease}
      (some : data scope = some existing) (same : existing.holder = holder)
      (holder_eq : l.holder = holder) (generation : l.generation = existing.generation)
      (cursor : l.cursor = existing.cursor) :
      Moves data (.acquire scope holder ttlSecs now) (.leased l) (data.insert scope l)
  | replace {scope holder : String} {ttlSecs : Int} {now : DateTime} {existing l : Lease}
      (some : data scope = some existing) (dead : existing.isLive now = false)
      (holder_eq : l.holder = holder) (generation : l.generation = existing.generation + 1)
      (cursor : l.cursor = existing.cursor) :
      Moves data (.acquire scope holder ttlSecs now) (.leased l) (data.insert scope l)
  | renew {scope holder : String} {generation : Nat} {ttlSecs : Int} {now expiresAt : DateTime}
      {lease : Lease} (some : data scope = some lease) (holder_eq : lease.holder = holder)
      (generation_eq : lease.generation = generation) :
      Moves data (.renew scope holder generation ttlSecs now)
        (.leased { lease with expiresAt := expiresAt })
        (data.insert scope { lease with expiresAt := expiresAt })
  | advance {scope holder : String} {generation : Nat} {cursor : String} {now : DateTime}
      {lease : Lease} (some : data scope = some lease) (holder_eq : lease.holder = holder)
      (generation_eq : lease.generation = generation) :
      Moves data (.advanceCursor scope holder generation cursor now)
        (.leased { lease with cursor := .some cursor })
        (data.insert scope { lease with cursor := .some cursor })
  | release {scope holder : String} {generation : Nat} {now : DateTime} {lease : Lease}
      (some : data scope = some lease) (holder_eq : lease.holder = holder)
      (generation_eq : lease.generation = generation) :
      Moves data (.release scope holder generation now) .released
        (data.insert scope { lease with expiresAt := now })
  | restart : Moves data .restart .loaded data

variable {data : Leases} {holder scope : String} {now : DateTime} {l : Lease}

theorem acquired_moves {ttlSecs : Int} (h : acquired data scope holder ttlSecs now = .ok l) :
    Moves data (.acquire scope holder ttlSecs now) (.leased l) (data.insert scope l) := by
  unfold acquired at h
  cases hd : data scope with
  | none =>
    rw [hd] at h
    cases h
    exact .first hd rfl rfl rfl
  | some existing =>
    rw [hd] at h
    by_cases hs : existing.holder = holder
    · simp only [hs, if_true] at h
      cases h
      exact .again hd hs rfl rfl rfl
    · simp only [hs, if_false] at h
      by_cases hl : existing.isLive now = true
      · simp [hl] at h
      · simp only [hl, Bool.false_eq_true, if_false] at h
        cases h
        exact .replace hd (by simpa using hl) rfl rfl rfl

variable {generation : Nat}

theorem checkFence_ok (h : checkFence data scope holder generation now = .ok l) :
    data scope = some l ∧ l.holder = holder ∧ l.generation = generation := by
  unfold checkFence at h
  cases hd : data scope with
  | none => rw [hd] at h; cases h
  | some lease =>
    rw [hd] at h
    by_cases hf : lease.holder ≠ holder ∨ lease.generation ≠ generation
    · simp [hf] at h
    · simp only [hf, if_false] at h
      by_cases hl : lease.isLive now = false
      · simp [hl] at h
      · rw [if_neg hl] at h
        cases h
        push Not at hf
        exact ⟨rfl, hf.1, hf.2⟩

/-- Every call whose write goes through is one of the moves, and leaves the file
equal to the memory. -/
theorem answer_moves {s : LeaseStore} (hs : s.file = s.data) (c : Call) :
    Moves s.data c (s.answer c true).2 (s.answer c true).1.data ∧
      (s.answer c true).1.file = (s.answer c true).1.data := by
  cases c with
  | acquire scope holder ttlSecs now =>
    cases h : acquired s.data scope holder ttlSecs now with
    | error e =>
      simp only [answer, acquire, h, Prod.map, id, ofLease]
      exact ⟨.refuse _ e, hs⟩
    | ok l =>
      simp only [answer, acquire, h, persist, if_true, Prod.map,
        id, ofLease]
      exact ⟨acquired_moves h, trivial⟩
  | renew scope holder generation ttlSecs now =>
    cases h : checkFence s.data scope holder generation now with
    | error e =>
      simp only [answer, renew, h, Prod.map, id, ofLease]
      exact ⟨.refuse _ e, hs⟩
    | ok l =>
      obtain ⟨hd, hh, hg⟩ := checkFence_ok h
      simp only [answer, renew, h, persist, if_true, Prod.map,
        id, ofLease]
      exact ⟨.renew hd hh hg, trivial⟩
  | advanceCursor scope holder generation cursor now =>
    cases h : checkFence s.data scope holder generation now with
    | error e =>
      simp only [answer, advanceCursor, h, Prod.map, id, ofLease]
      exact ⟨.refuse _ e, hs⟩
    | ok l =>
      obtain ⟨hd, hh, hg⟩ := checkFence_ok h
      simp only [answer, advanceCursor, h, persist, if_true,
        Prod.map, id, ofLease]
      exact ⟨.advance hd hh hg, trivial⟩
  | release scope holder generation now =>
    cases hd : s.data scope with
    | none =>
      simp only [answer, release, hd, Prod.map, id, ofUnit]
      exact ⟨.refuse _ _, hs⟩
    | some lease =>
      by_cases hf : lease.holder ≠ holder ∨ lease.generation ≠ generation
      · simp only [answer, release, hd, hf, if_true, Prod.map, id,
          ofUnit]
        exact ⟨.refuse _ _, hs⟩
      · simp only [answer, release, hd, hf, if_false, persist,
          if_true, Prod.map, id, ofUnit]
        push Not at hf
        exact ⟨.release hd hf.1 hf.2, trivial⟩
  | restart =>
    simp only [answer, load, hs]
    exact ⟨.restart, trivial⟩

/-- The holder and generation of a successful `acquire` of the scope. -/
def acquires (scope : String) : Call × Reply → Option (String × Nat)
  | (.acquire sc holder _ _, .leased l) => if sc = scope then some (holder, l.generation) else none
  | _ => none

def advances (scope : String) : Call × Reply → Option String
  | (.advanceCursor sc _ _ cursor _, .leased _) => if sc = scope then some cursor else none
  | _ => none

def Call.presented : Call → Option (String × String × Nat)
  | .renew scope holder generation _ _ => some (scope, holder, generation)
  | .advanceCursor scope holder generation _ _ => some (scope, holder, generation)
  | .release scope holder generation _ => some (scope, holder, generation)
  | _ => none

/-- `holder` was given `generation` by an `acquire` of the scope, and no other
holder has acquired the scope since. -/
def Holds (past : List (Call × Reply)) (scope holder : String) (generation : Nat) : Prop :=
  ∃ before e after, past = before ++ e :: after ∧ acquires scope e = some (holder, generation) ∧
    ∀ x ∈ after, ∀ h g, acquires scope x = some (h, g) → h = holder

def lastAdvance (past : List (Call × Reply)) (scope : String) : Option String :=
  (past.filterMap (advances scope)).getLast?

def holderAt (data : Leases) (scope : String) : Option String := (data scope).map Lease.holder

def generationAt (data : Leases) (scope : String) : Nat :=
  ((data scope).map Lease.generation).getD 0

def cursorAt (data : Leases) (scope : String) : Option String := (data scope).bind Lease.cursor

theorem Holds.snoc {past : List (Call × Reply)} (h : Holds past scope holder generation)
    {e : Call × Reply} (he : ∀ h' g, acquires scope e = some (h', g) → h' = holder) :
    Holds (past ++ [e]) scope holder generation := by
  obtain ⟨before, a, after, rfl, ha, hafter⟩ := h
  refine ⟨before, a, after ++ [e], by simp, ha, ?_⟩
  exact Lib.forall_mem_concat.mpr ⟨hafter, he⟩

theorem Holds.last {past : List (Call × Reply)} {e : Call × Reply}
    (he : acquires scope e = some (holder, generation)) :
    Holds (past ++ [e]) scope holder generation :=
  ⟨past, e, [], rfl, he, fun _ hx => absurd hx not_mem_nil⟩

theorem lastAdvance_snoc (past : List (Call × Reply)) (scope : String) (e : Call × Reply) :
    lastAdvance (past ++ [e]) scope = (advances scope e).or (lastAdvance past scope) := by
  unfold lastAdvance
  cases h : advances scope e <;> simp [h]

variable {data' : Leases} {c : Call} {r : Reply}

theorem Moves.at_scope (h : Moves data c r data') (k : String) :
    (data' k = data k ∧ acquires k (c, r) = none ∧ advances k (c, r) = none) ∨
    (∃ l, data' k = some l ∧ acquires k (c, r) = some (l.holder, l.generation) ∧
      advances k (c, r) = none ∧ l.cursor = cursorAt data k ∧
      (holderAt data k = some l.holder ∧ generationAt data k = l.generation ∨
        generationAt data k < l.generation)) ∨
    (∃ l l', data k = some l ∧ data' k = some l' ∧ l'.holder = l.holder ∧
      l'.generation = l.generation ∧ acquires k (c, r) = none ∧
      l'.cursor = (advances k (c, r)).or l.cursor) := by
  -- only the scope the call names can change
  have other : ∀ {scope : String} (l : Lease), k ≠ scope → data.insert scope l k = data k :=
    fun _ hk => update_of_ne hk _ _
  cases h with
  | refuse c e => left; cases c <;> exact ⟨rfl, rfl, rfl⟩
  | restart => left; exact ⟨rfl, rfl, rfl⟩
  | @first scope holder ttlSecs now l hn hh hg hc
  | @replace scope holder ttlSecs now existing l hn hdead hh hg hc =>
    by_cases hk : k = scope
    · subst hk
      right; left
      refine ⟨l, update_self _ _ _, by simp [acquires, hh], rfl, ?_, ?_⟩
      · simp [cursorAt, hn, hc]
      · right; simp [generationAt, hn, hg]
    · left
      exact ⟨other l hk, by simp [acquires, Ne.symm hk], rfl⟩
  | @again scope holder ttlSecs now existing l hs hsame hh hg hc =>
    by_cases hk : k = scope
    · subst hk
      right; left
      refine ⟨l, update_self _ _ _, by simp [acquires, hh], rfl, ?_, ?_⟩
      · simp [cursorAt, hs, hc]
      · left; simp [holderAt, generationAt, hs, hsame, hh, hg]
    · left
      exact ⟨other l hk, by simp [acquires, Ne.symm hk], rfl⟩
  | @renew scope holder generation ttlSecs now expiresAt lease hs hh hg
  | @release scope holder generation now lease hs hh hg =>
    by_cases hk : k = scope
    · subst hk
      right; right
      exact ⟨lease, _, hs, update_self _ _ _, rfl, rfl, rfl, rfl⟩
    · left
      exact ⟨other _ hk, rfl, rfl⟩
  | @advance scope holder generation cursor now lease hs hh hg =>
    by_cases hk : k = scope
    · subst hk
      right; right
      exact ⟨lease, _, hs, update_self _ _ _, rfl, rfl, rfl, by simp [advances]⟩
    · left
      exact ⟨other _ hk, rfl, by simp [advances, Ne.symm hk]⟩

theorem Moves.presented (h : Moves data c r data') (hr : r.ok = true)
    (hc : c.presented = some (scope, holder, generation)) :
    ∃ l, data scope = some l ∧ l.holder = holder ∧ l.generation = generation := by
  cases h with
  | refuse c e => cases hr
  | renew hs hh hg | advance hs hh hg | release hs hh hg => cases hc; exact ⟨_, hs, hh, hg⟩
  | first _ _ _ _ | again _ _ _ _ _ | replace _ _ _ _ _ | restart => cases hc

theorem Moves.exclusive {ttlSecs : Int} (h : Moves data (.acquire scope holder ttlSecs now) r data')
    (hr : r.ok = true) (hl : data scope = some l) (hlive : l.isLive now = true) :
    l.holder = holder := by
  cases h with
  | refuse c e => cases hr
  | first hn _ _ _ => rw [hn] at hl; cases hl
  | again hs hsame _ _ _ =>
    rw [hs] at hl
    cases hl
    exact hsame
  | replace hs hdead _ _ _ =>
    rw [hs] at hl
    cases hl
    rw [hdead] at hlive
    cases hlive

/-- The memory is on file, every lease is held by the holder its generation was
given to, and the cursor is the one last advanced to. -/
structure LeaseLog.Sound (d : LeaseLog) : Prop where
  saved : d.store.file = d.store.data
  held : ∀ scope l, d.store.data scope = some l → Holds d.past scope l.holder l.generation
  cursor : ∀ scope, cursorAt d.store.data scope = lastAdvance d.past scope

theorem start_sound : LeaseLog.start.Sound where
  saved := rfl
  held := nofun
  cursor := fun _ => rfl

variable {d : LeaseLog}

theorem LeaseLog.Sound.step (hd : d.Sound) (c : Call) :
    LeaseLog.Sound { store := (d.store.answer c true).1
                     past := d.past ++ [(c, (d.store.answer c true).2)] } := by
  obtain ⟨hm, hsaved⟩ := answer_moves hd.saved c
  generalize d.store.answer c true = r at hm hsaved
  refine { saved := hsaved, held := ?_, cursor := ?_ }
  · intro scope l hl
    rcases hm.at_scope scope with ⟨hsame, ha, _⟩ | ⟨l', hl', ha, _⟩ | ⟨l₀, l', h₀, hl', hh, hg, ha, _⟩
    · have hold := hd.held scope l (by rw [← hsame]; exact hl)
      exact hold.snoc fun _ _ h => (by rw [ha] at h; cases h)
    · have : l' = l := Option.some.inj (hl'.symm.trans hl)
      subst this
      exact .last ha
    · have : l' = l := Option.some.inj (hl'.symm.trans hl)
      subst this
      rw [hh, hg]
      exact (hd.held scope l₀ h₀).snoc fun _ _ h => (by rw [ha] at h; cases h)
  · intro scope
    rw [lastAdvance_snoc, ← hd.cursor scope]
    rcases hm.at_scope scope with ⟨hsame, _, ha⟩ | ⟨l, hl, _, ha, hc, _⟩ | ⟨l₀, l, h₀, hl, _, _, _, hc⟩
    · simp [cursorAt, hsame, ha]
    · simp [cursorAt, hl, ha, hc]
    · simp [cursorAt, hl, h₀, hc]

/-- How the lease of a scope can differ between an earlier and a later state. -/
def Succeeds (data data' : Leases) : Prop :=
  ∀ scope, holderAt data' scope = holderAt data scope ∧
      generationAt data' scope = generationAt data scope ∨
    generationAt data scope < generationAt data' scope

theorem Succeeds.refl (data : Leases) : Succeeds data data := fun _ => .inl ⟨rfl, rfl⟩

theorem Succeeds.trans {a b c : Leases} (h : Succeeds a b) (h' : Succeeds b c) : Succeeds a c := by
  intro scope
  rcases h scope with ⟨hh, hg⟩ | hg <;> rcases h' scope with ⟨hh', hg'⟩ | hg'
  · exact .inl ⟨hh'.trans hh, hg'.trans hg⟩
  · right; omega
  · right; omega
  · right; omega

theorem Moves.succeeds (h : Moves data c r data') : Succeeds data data' := by
  intro scope
  rcases h.at_scope scope with ⟨hsame, _⟩ | ⟨l, hl, _, _, _, hg⟩ | ⟨l₀, l, h₀, hl, hh, hg, _⟩
  · left
    simp [holderAt, generationAt, hsame]
  · simpa [holderAt, generationAt, hl, eq_comm] using hg
  · left
    simp [holderAt, generationAt, hl, h₀, hh, hg]

/-- Along calls whose writes go through, the log stays sound and the leases only
succeed one another. -/
theorem run_sound {d' : LeaseLog} {es : List (Call × Bool)} (hw : ∀ e ∈ es, e.2 = true) (hd : d.Sound)
    (h : Lib.run LeaseLog.step d es = some d') :
    d'.Sound ∧ Succeeds d.store.data d'.store.data := by
  induction es generalizing d with
  | nil => cases h; exact ⟨hd, .refl _⟩
  | cons e es ih =>
    obtain ⟨m, hm, h⟩ := Lib.run_cons h
    obtain ⟨c, writes⟩ := e
    have hwrites : writes = true := hw (c, writes) mem_cons_self
    subst hwrites
    cases hm
    have hs := hd.step c
    have hmoves := (answer_moves hd.saved c).1
    obtain ⟨hd', hsucc⟩ := ih (fun e he => hw e (mem_cons_of_mem _ he)) hs h
    exact ⟨hd', hmoves.succeeds.trans hsucc⟩

structure LeaseLog.Fenced (d : LeaseLog) : Prop where
  /-- a fenced call succeeds only for the holder of the last acquired generation -/
  fence : ∀ c scope holder generation, c.presented = some (scope, holder, generation) →
    (d.store.answer c true).2.ok = true → Holds d.past scope holder generation
  /-- a live lease is acquired by its own holder only -/
  exclusive : ∀ scope holder ttlSecs now l,
    (d.store.answer (.acquire scope holder ttlSecs now) true).2.ok = true →
    d.store.data scope = some l → l.isLive now = true → l.holder = holder
  /-- the cursor is the one the last successful `advance_cursor` set -/
  cursor : ∀ scope, cursorAt d.store.data scope = lastAdvance d.past scope

theorem LeaseLog.Sound.fenced (hd : d.Sound) : d.Fenced where
  fence := by
    intro c scope holder generation hc hr
    obtain ⟨l, hl, hh, hg⟩ := (answer_moves hd.saved c).1.presented hr hc
    rw [← hh, ← hg]
    exact hd.held scope l hl
  exclusive := by
    intro scope holder ttlSecs now l hr hl hlive
    exact (answer_moves hd.saved _).1.exclusive hr hl hlive
  cursor := hd.cursor

/-- Lease fencing over whole histories: `es` leads from an empty store to a state
`d` and `fs` from there to a later one.  The next call in `d` is fenced, and
between the two states generations do not decrease and strictly increase wherever
the holder changed.  The clock readings are arbitrary: no order is needed. -/
theorem lease_fencing {es fs : List (Call × Bool)} (hes : ∀ e ∈ es, e.2 = true)
    (hfs : ∀ e ∈ fs, e.2 = true) {d d' : LeaseLog}
    (h : Lib.run LeaseLog.step LeaseLog.start es = some d)
    (h' : Lib.run LeaseLog.step d fs = some d') :
    d.Fenced ∧ ∀ scope, generationAt d.store.data scope ≤ generationAt d'.store.data scope ∧
      (holderAt d.store.data scope ≠ holderAt d'.store.data scope →
        generationAt d.store.data scope < generationAt d'.store.data scope) := by
  obtain ⟨hd, -⟩ := run_sound hes start_sound h
  obtain ⟨-, hsucc⟩ := run_sound hfs hd h'
  refine ⟨hd.fenced, fun scope => ?_⟩
  rcases hsucc scope with ⟨hh, hg⟩ | hg
  · exact ⟨by omega, fun hne => absurd hh.symm hne⟩
  · exact ⟨by omega, fun _ => hg⟩

/-- `orch-a` acquires and acknowledges an item; after its lease ran out `orch-b`
takes over and the daemon restarts. -/
def takeover : List (Call × Bool) × List (Call × Bool) :=
  ([(.acquire "repo" "orch-a" 300 0, true), (.advanceCursor "repo" "orch-a" 1 "v:1" 1, true)],
   [(.acquire "repo" "orch-b" 300 (400 * DateTime.nanosPerSecond), true), (.restart, true)])

theorem lease_fencing_takeover : ∃ d d', Lib.run LeaseLog.step LeaseLog.start takeover.1 = some d ∧
    Lib.run LeaseLog.step d takeover.2 = some d' ∧
    d.Fenced ∧ cursorAt d'.store.data "repo" = some "v:1" ∧
    generationAt d.store.data "repo" < generationAt d'.store.data "repo" := by
  have h := @lease_fencing takeover.1 takeover.2 (by decide) (by decide) _ _ rfl rfl
  exact ⟨_, _, rfl, rfl, h.1, by decide, (h.2 "repo").2 (by decide)⟩

end RatKingdom.Orchestrator
