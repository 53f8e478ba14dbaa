/-
Readers of the backlog beside its writers.

`ready` takes no lock: it may read the space while an operation has a ticket out of it.
A dependency that is out is missing from the listing, and a missing dependency does not
block.  A run is an interleaving of operations, each in its two steps, with calls of `ready`;
`history` has the backlog after every completed operation.
-/
import RatKingdom.Tickets.Graph

namespace RatKingdom.Tickets

open Core Lib Space List

/-- The values of `all_by_id`. -/
def listing (s : Store) : List Tuple :=
  ((s.scan taskPattern).map Tuple.identity).dedup.filterMap (byId s)

def ready (s : Store) (scope : Option String) : List Tuple :=
  let inScope := (listing s).filter fun t =>
    match scope with
    | none => true
    | some wanted => t.scope = wanted
  let opened := inScope.filter fun t => t.payload.getStr "status" = some "open"
  (opened.filter fun t => !isBlocked t (byId s)).insertionSort fun a b => a.createdAt ≤ b.createdAt

/-- An operation that has taken its ticket and still holds the lock.  `claims` is set for
`claim_authorized`: the name of its ticket and the backlog the call began with. -/
structure Held where
  edit : Edit
  claims : Option (String × Nat) := none

/-- A call of `ready` in flight, with the backlog it began with and what its scan found. -/
structure ReadyCall where
  start : Nat
  result : Option (List String) := none

/-- Tickets reported ready, or won, by a call that lasted from one backlog to another. -/
structure Answer where
  start : Nat
  stop : Nat
  tickets : List String

structure ReadyLog where
  store : Store
  held : Option Held := none
  calls : List ReadyCall := []
  history : List (List Tuple)
  answers : List Answer := []

def Held.list : Option Held → List Tuple
  | none => []
  | some h => [h.edit.existing]

def ReadyLog.backlog (d : ReadyLog) : List Tuple := tasks d.store ++ Held.list d.held

def ReadyLog.now (d : ReadyLog) : Nat := d.history.length - 1

def ReadyLog.record (d : ReadyLog) : ReadyLog := { d with history := d.history ++ [d.backlog] }

def ReadyLog.answer (d : ReadyLog) (start : Nat) (tickets : List String) : ReadyLog :=
  { d with answers := d.answers ++ [⟨start, d.now, tickets⟩] }

inductive ReadyMove where
  | create (castle : String) (t : NewTicket) (draws : List Nat) (env : Env)
  /-- The checks of an operation and its take, which may fail. -/
  | begin (m : Mutation) (takes : Bool)
  | finish (env : Env)
  | readyCall
  | readyScan (i : Nat) (scope : Option String)
  | readyReturn (i : Nat)

def claimedBy (m : Mutation) (start : Nat) : Option (String × Nat) :=
  match m with
  | .claimAuthorized ticket => some (ticket.identity, start)
  | _ => none

def ReadyLog.create (d : ReadyLog) (castle : String) (t : NewTicket) (draws : List Nat) (env : Env) :
    Option ReadyLog :=
  match t.exec castle draws env d.store with
  | (.error .gone, _) => none
  | (_, s) => some { d with store := s }.record

def ReadyLog.begin (d : ReadyLog) (m : Mutation) (takes : Bool) : ReadyLog :=
  match m.begin d.store, takes with
  | .ok (some e), true =>
    { d with store := d.store.erase e.existing.id, held := some ⟨e, claimedBy m d.now⟩ }
  | _, _ => d

/-- `claim_authorized` is won when its write is made and the ticket was open. -/
def ReadyLog.won (d : ReadyLog) (h : Held) (ended : Except (Stop Error) PUnit) : ReadyLog :=
  match h.claims, ended with
  | some (identity, start), .ok _ =>
    if h.edit.existing.payload.getStr "status" = some "open" then d.answer start [identity] else d
  | _, _ => d

def ReadyLog.finish (d : ReadyLog) (h : Held) (env : Env) : Option ReadyLog :=
  match h.edit.finish env d.store with
  | (.error .gone, _) => none
  | (ended, s) => some ({ d with store := s, held := none }.record.won h ended)

/-- A run is the life of one process: a change that ends the process is no step of it. -/
def ReadyLog.step (d : ReadyLog) : ReadyMove → Option ReadyLog
  | .create castle t draws env =>
    match d.held with
    | some _ => none
    | none => d.create castle t draws env
  | .begin m takes =>
    match d.held with
    | some _ => none
    | none => some (d.begin m takes)
  | .finish env =>
    match d.held with
    | none => none
    | some h => d.finish h env
  | .readyCall => some { d with calls := d.calls ++ [⟨d.now, none⟩] }
  | .readyScan i scope =>
    match d.calls[i]? with
    | some ⟨start, none⟩ =>
      let found := (ready d.store scope).map Tuple.identity
      some { d with calls := d.calls.set i ⟨start, some found⟩ }
    | _ => none
  | .readyReturn i =>
    match d.calls[i]? with
    | some ⟨start, some found⟩ => some ({ d with calls := d.calls.eraseIdx i }.answer start found)
    | _ => none

def ReadyLog.open (s : Store) : ReadyLog := { store := s, history := [tasks s] }

def Unmet (backlog : List Tuple) (dep : String) : Prop :=
  (∃ t ∈ backlog, isTicket t = true ∧ t.identity = dep) ∧
    ∀ t ∈ backlog, isTicket t = true → t.identity = dep → isDelivered t = false
deriving Decidable

def Needs (backlog : List Tuple) (identity dep : String) : Prop :=
  ∀ t ∈ backlog, isTicket t = true → t.identity = identity → dep ∈ depsOf t
deriving Decidable

/-- No ticket was reported or won that depended, from the backlog its call began with to the
one it ended with, on a ticket that was there and undelivered all the time. -/
def NeverBlocked (d : ReadyLog) : Prop :=
  ∀ a ∈ d.answers, ∀ identity ∈ a.tickets, ∀ dep,
    ¬ ∀ i backlog, a.start ≤ i → i ≤ a.stop → d.history[i]? = some backlog →
      Unmet backlog dep ∧ Needs backlog identity dep

/-- While a ticket is out, `ready` reads the space only if no open ticket waits for it: it is
delivered, or the space has another of its identity. -/
def scanGuard (d : ReadyLog) : ReadyMove → Prop
  | .readyScan _ _ => ∀ h, d.held = some h → ∀ t ∈ tasks d.store, isTicket t = true →
      t.payload.getStr "status" = some "open" → h.edit.existing.identity ∈ depsOf t →
        isDelivered h.edit.existing = true ∨
          ∃ u ∈ tasks d.store, isTicket u = true ∧ u.identity = h.edit.existing.identity
  | _ => True

instance decidableScanGuard (d : ReadyLog) : ∀ m, Decidable (scanGuard d m)
  | .readyScan _ _ =>
    match hheld : d.held with
    | none => isTrue fun _ h => (by rw [hheld] at h; cases h)
    | some h =>
      decidable_of_iff (∀ t ∈ tasks d.store, isTicket t = true →
          t.payload.getStr "status" = some "open" → h.edit.existing.identity ∈ depsOf t →
            isDelivered h.edit.existing = true ∨
              ∃ u ∈ tasks d.store, isTicket u = true ∧ u.identity = h.edit.existing.identity)
        ⟨fun hall x hx => (by rw [hheld] at hx; cases hx; exact hall), fun hall => hall h hheld⟩
  | .create _ _ _ _ | .begin _ _ | .finish _ | .readyCall | .readyReturn _ => isTrue trivial

section
variable {s : Store} {t : Tuple} {scope : Option String}

theorem byId_of_mem (ht : t ∈ tasks s) (htk : isTicket t = true) :
    ∃ u, byId s t.identity = some u := by
  have hlisted : t ∈ (s.scan taskPattern).filter isTicket :=
    mem_filter.mpr ⟨(scan_tasks s).mem_iff.mpr ht, htk⟩
  have hsome : (byId s t.identity).isSome = true :=
    find?_isSome.mpr ⟨t, mem_reverse.mpr hlisted, decide_eq_true rfl⟩
  exact Option.isSome_iff_exists.mp hsome

theorem ready_spec (h : t ∈ ready s scope) :
    t ∈ tasks s ∧ isTicket t = true ∧ t.payload.getStr "status" = some "open" ∧
      isBlocked t (byId s) = false := by
  unfold ready at h
  rw [mem_insertionSort, mem_filter, mem_filter, mem_filter] at h
  obtain ⟨⟨⟨hlist, -⟩, hopen⟩, hblocked⟩ := h
  obtain ⟨identity, -, hb⟩ := mem_filterMap.mp hlist
  obtain ⟨hm, htk, -⟩ := byId_some hb
  exact ⟨(scan_tasks s).mem_iff.mp hm, htk, of_decide_eq_true hopen, by simpa using hblocked⟩

theorem not_unmet {backlog : List Tuple} {dep : String} (hb : isBlocked t (byId s) = false)
    (hd : dep ∈ depsOf t) (hsub : ∀ u ∈ tasks s, u ∈ backlog)
    (hstored : ∃ u ∈ tasks s, isTicket u = true ∧ u.identity = dep) : ¬ Unmet backlog dep := by
  intro hu
  obtain ⟨u, humem, hutk, rfl⟩ := hstored
  obtain ⟨v, hv⟩ := byId_of_mem humem hutk
  obtain ⟨hvmem, hvtk, hvident⟩ := byId_some hv
  have hundelivered := hu.2 v (hsub v ((scan_tasks s).mem_iff.mp hvmem)) hvtk hvident
  have hno := any_eq_false.mp hb u.identity hd
  rw [hv] at hno
  simp [hundelivered] at hno

end

/-- In the backlog at `i`, none of the tickets had an unmet dependency. -/
def Sure (history : List (List Tuple)) (i : Nat) (tickets : List String) : Prop :=
  ∃ backlog, history[i]? = some backlog ∧
    ∀ identity ∈ tickets, ∀ dep, Needs backlog identity dep → ¬ Unmet backlog dep

/-- There is such a backlog from `start` on. -/
def SureSince (history : List (List Tuple)) (start : Nat) (tickets : List String) : Prop :=
  ∃ i, start ≤ i ∧ i < history.length ∧ Sure history i tickets

structure Honest (d : ReadyLog) : Prop where
  wf : d.store.Wf
  current : ∃ backlog, d.history.getLast? = some backlog ∧ ∀ t, t ∈ backlog ↔ t ∈ d.backlog
  calls : ∀ c ∈ d.calls, c.start < d.history.length ∧
    ∀ found, c.result = some found → SureSince d.history c.start found
  held : ∀ h, d.held = some h → ∀ identity start, h.claims = some (identity, start) →
    SureSince d.history start [identity]
  answers : ∀ a ∈ d.answers, ∃ i, a.start ≤ i ∧ i ≤ a.stop ∧ Sure d.history i a.tickets

section
variable {d d' : ReadyLog} {history : List (List Tuple)} {backlog : List Tuple} {start i : Nat}
  {tickets : List String} {s : Store}

theorem Sure.later (h : Sure history i tickets) : Sure (history ++ [backlog]) i tickets := by
  obtain ⟨b, hb, hs⟩ := h
  have hi : i < history.length := (List.getElem?_eq_some_iff.mp hb).1
  exact ⟨b, by rw [getElem?_append_left hi]; exact hb, hs⟩

theorem SureSince.later (h : SureSince history start tickets) :
    SureSince (history ++ [backlog]) start tickets := by
  obtain ⟨i, hs, hi, hsure⟩ := h
  refine ⟨i, hs, ?_, hsure.later⟩
  rw [length_append]
  omega

theorem Honest.history_pos (h : Honest d) : 0 < d.history.length := by
  obtain ⟨backlog, hl, -⟩ := h.current
  cases hh : d.history with
  | nil =>
    rw [hh] at hl
    cases hl
  | cons b bs => exact Nat.succ_pos _

theorem Honest.sure_now (h : Honest d)
    (hs : ∀ identity ∈ tickets, ∀ dep, Needs d.backlog identity dep → ¬ Unmet d.backlog dep) :
    SureSince d.history d.now tickets := by
  have hpos := h.history_pos
  obtain ⟨backlog, hl, hm⟩ := h.current
  refine ⟨d.now, Nat.le_refl _, ?_, backlog, ?_, ?_⟩
  · unfold ReadyLog.now
    omega
  · rw [getLast?_eq_getElem?] at hl
    exact hl
  · intro identity hi dep hneeds hunmet
    apply hs identity hi dep
    · intro t ht
      exact hneeds t ((hm t).mpr ht)
    · obtain ⟨⟨t, ht, hd⟩, hall⟩ := hunmet
      exact ⟨⟨t, (hm t).mp ht, hd⟩, fun u hu => hall u ((hm u).mpr hu)⟩

theorem SureSince.since (h : SureSince history i tickets) (hle : start ≤ i) :
    SureSince history start tickets := by
  obtain ⟨j, hj, hlt, hs⟩ := h
  exact ⟨j, by omega, hlt, hs⟩

theorem Honest.record (h : Honest d) (hwf : s.Wf) :
    Honest ({ d with store := s, held := none } : ReadyLog).record := by
  refine ⟨hwf, ⟨_, getLast?_concat, fun t => .rfl⟩, ?_, ?_, ?_⟩
  · intro c hc
    obtain ⟨hlt, hres⟩ := h.calls c hc
    refine ⟨?_, fun found hf => (hres found hf).later⟩
    show c.start < (d.history ++ [_]).length
    rw [length_append]
    omega
  · intro x hx
    cases hx
  · intro a ha
    obtain ⟨i, hs, ht, hsure⟩ := h.answers a ha
    exact ⟨i, hs, ht, hsure.later⟩

theorem Honest.answer (h : Honest d) (hs : SureSince d.history start tickets) :
    Honest (d.answer start tickets) := by
  refine ⟨h.wf, h.current, h.calls, h.held, ?_⟩
  refine forall_mem_concat.mpr ⟨h.answers, ?_⟩
  obtain ⟨i, hle, hlt, hsure⟩ := hs
  refine ⟨i, hle, ?_, hsure⟩
  show i ≤ d.history.length - 1
  omega

theorem Honest.withCalls (h : Honest d) {calls : List ReadyCall}
    (hc : ∀ c ∈ calls, c ∈ d.calls ∨ (c.start < d.history.length ∧
      ∀ found, c.result = some found → SureSince d.history c.start found)) :
    Honest { d with calls } := by
  refine ⟨h.wf, h.current, ?_, h.held, h.answers⟩
  intro c hm
  rcases hc c hm with hold | hnew
  · exact h.calls c hold
  · exact hnew

theorem finish_wf (hwf : s.Wf) (e : Edit) (env : Env) : (e.finish env s).2.Wf := by
  by_cases hback : e.GoesBack env s
  · have hquiet := finish_goesBack hback
    obtain ⟨payload, hp, -, hacc⟩ := hback
    obtain ⟨⟨payload', hp', hquiet⟩, -⟩ := hquiet
    have hpp : payload = payload' := by
      rw [hp] at hp'
      injection hp'
    have hx := (Store.insert_ok (insert_of_accepts hacc)).1
    exact hquiet.wf (hwf.push (by rw [← hpp]; exact hx))
  · rw [(finish_lost hback).1]
    exact hwf

theorem create_wf (hwf : s.Wf) (castle : String) (t : NewTicket) (draws : List Nat) (env : Env) :
    (t.exec castle draws env s).2.Wf := by
  rcases create_tasks castle t draws env hwf with hst | ⟨new, -, hj⟩
  · rw [hst]
    exact hwf
  · exact hj.wf

/-- Nothing is out, so the check of `claim_authorized` sees the whole backlog. -/
theorem dispatchable_sure (h : Honest d) (hheld : d.held = none) {ticket : Tuple}
    (hd : dispatchable d.store ticket = true) : SureSince d.history d.now [ticket.identity] := by
  have hback : d.backlog = tasks d.store := by
    unfold ReadyLog.backlog
    rw [hheld]
    exact append_nil _
  apply h.sure_now
  intro identity hi dep hneeds hunmet
  rw [mem_singleton.mp hi] at hneeds
  rw [hback] at hneeds hunmet
  unfold dispatchable at hd
  cases hb : byId d.store ticket.identity with
  | none =>
    rw [hb] at hd
    cases hd
  | some current =>
    rw [hb] at hd
    obtain ⟨hm, htk, hident⟩ := byId_some hb
    have hunblocked : isBlocked current (byId d.store) = false := by
      dsimp only at hd
      split at hd
      · cases hd
      · simp only [Bool.and_eq_true, Bool.not_eq_true'] at hd
        exact hd.2
    have hdep := hneeds current ((scan_tasks d.store).mem_iff.mp hm) htk hident
    exact not_unmet hunblocked hdep (fun u hu => hu) hunmet.1 hunmet

theorem honest_taken (h : Honest d) (hheld : d.held = none) {m : Mutation} {e : Edit}
    (hb : m.begin d.store = .ok (some e)) :
    Honest { d with store := d.store.erase e.existing.id, held := some ⟨e, claimedBy m d.now⟩ } := by
  obtain ⟨row, hrow, hre, hcat⟩ := (mutation_sound hb).stored
  refine ⟨(Store.evolves_erase Row.stamp _ _).wf h.wf, ?_, h.calls, ?_, h.answers⟩
  · obtain ⟨backlog, hl, hm⟩ := h.current
    refine ⟨backlog, hl, fun t => ?_⟩
    rw [hm t]
    unfold ReadyLog.backlog
    rw [hheld]
    have hperm := tasks_perm_erase h.wf hrow hcat
    rw [hre] at hperm
    show t ∈ tasks d.store ++ [] ↔ t ∈ tasks (d.store.erase e.existing.id) ++ [e.existing]
    rw [append_nil, hperm.mem_iff, mem_cons, mem_append, mem_singleton]
    exact or_comm
  · intro x hx identity start hclaims
    cases hx
    cases m with
    | claimAuthorized ticket =>
      cases hclaims
      apply dispatchable_sure h hheld
      simp only [Mutation.begin] at hb
      split at hb
      · assumption
      · cases hb
    | _ => cases hclaims

theorem honest_begin (h : Honest d) (hheld : d.held = none) (m : Mutation) (takes : Bool) :
    Honest (d.begin m takes) := by
  unfold ReadyLog.begin
  cases hb : m.begin d.store with
  | error err => exact h
  | ok found =>
    cases found with
    | none => exact h
    | some e =>
      cases takes with
      | false => exact h
      | true => exact honest_taken h hheld hb

theorem honest_won (h : Honest d) (x : Held) (ended : Except (Stop Error) PUnit)
    (hs : ∀ identity start, x.claims = some (identity, start) →
      SureSince d.history start [identity]) : Honest (d.won x ended) := by
  unfold ReadyLog.won
  cases hclaims : x.claims with
  | none => exact h
  | some claim =>
    cases ended with
    | error err => exact h
    | ok _ =>
      dsimp only
      split
      · exact h.answer (hs claim.1 claim.2 hclaims)
      · exact h

/-- A scan that finds no open ticket waiting for one that is out reports none with an unmet
dependency. -/
theorem ready_sure (h : Honest d) (scope : Option String) (hg : scanGuard d (.readyScan i scope)) :
    SureSince d.history d.now ((ready d.store scope).map Tuple.identity) := by
  apply h.sure_now
  intro identity hi dep hneeds hunmet
  obtain ⟨t, ht, rfl⟩ := mem_map.mp hi
  obtain ⟨hm, htk, hopen, hblocked⟩ := ready_spec ht
  have hsub : ∀ u ∈ tasks d.store, u ∈ d.backlog := fun u hu => mem_append_left _ hu
  have hdep := hneeds t (hsub t hm) htk rfl
  obtain ⟨⟨u, humem, hutk, huident⟩, hundelivered⟩ := hunmet
  -- The dependency is stored, or it is the ticket that is out.
  have hstored : ∃ v ∈ tasks d.store, isTicket v = true ∧ v.identity = dep := by
    rcases mem_append.mp humem with hu | hu
    · exact ⟨u, hu, hutk, huident⟩
    · cases hheld : d.held with
      | none =>
        rw [hheld] at hu
        cases hu
      | some x =>
        rw [hheld] at hu
        have hux : u = x.edit.existing := mem_singleton.mp hu
        rw [hux] at huident hutk humem
        rcases hg x hheld t hm htk hopen (by rw [huident]; exact hdep) with hdel | ⟨v, hv, hvtk, hvi⟩
        · have := hundelivered x.edit.existing humem hutk huident
          rw [hdel] at this
          cases this
        · exact ⟨v, hv, hvtk, hvi.trans huident⟩
  exact not_unmet hblocked hdep hsub hstored ⟨⟨u, humem, hutk, huident⟩, hundelivered⟩

theorem honest_step {m : ReadyMove} (h : Honest d) (hg : scanGuard d m) (hs : d.step m = some d') :
    Honest d' := by
  cases m with
  | create castle t draws env =>
    simp only [ReadyLog.step] at hs
    split at hs
    · cases hs
    · rename_i hheld
      unfold ReadyLog.create at hs
      have hwf := create_wf h.wf castle t draws env
      have hd : d = { d with held := none } := by rw [← hheld]
      split at hs
      · cases hs
      · rename_i s hexec
        cases hs
        rw [hexec] at hwf
        rw [hd]
        exact h.record hwf
  | begin m takes =>
    simp only [ReadyLog.step] at hs
    split at hs
    · cases hs
    · rename_i hheld
      cases hs
      exact honest_begin h hheld m takes
  | finish env =>
    simp only [ReadyLog.step] at hs
    split at hs
    · cases hs
    · rename_i x hheld
      unfold ReadyLog.finish at hs
      have hwf := finish_wf h.wf x.edit env
      split at hs
      · cases hs
      · rename_i ended s _ hfin
        cases hs
        rw [hfin] at hwf
        apply honest_won (h.record hwf)
        intro identity start hclaims
        exact (h.held x hheld identity start hclaims).later
  | readyCall =>
    cases hs
    apply h.withCalls
    refine forall_mem_concat.mpr ⟨fun _ hc => .inl hc, ?_⟩
    have hpos := h.history_pos
    exact .inr ⟨show d.history.length - 1 < d.history.length by omega, fun found hf => by cases hf⟩
  | readyScan i scope =>
    simp only [ReadyLog.step] at hs
    split at hs
    · rename_i start hcall
      cases hs
      have hc := h.calls _ (mem_of_getElem? hcall)
      have hsure := ready_sure h scope hg
      apply h.withCalls
      intro c hm
      rcases mem_or_eq_of_mem_set hm with hm | rfl
      · exact .inl hm
      · have hlt : start < d.history.length := hc.1
        refine .inr ⟨hlt, fun found hf => ?_⟩
        cases hf
        exact hsure.since (show start ≤ d.history.length - 1 by omega)
    · cases hs
  | readyReturn i =>
    simp only [ReadyLog.step] at hs
    split at hs
    · rename_i start found hcall
      cases hs
      have hc := h.calls _ (mem_of_getElem? hcall)
      have hrest : Honest { d with calls := d.calls.eraseIdx i } :=
        h.withCalls fun c hm => .inl (mem_of_mem_eraseIdx hm)
      exact hrest.answer (hc.2 found rfl)
    · cases hs

theorem Honest.neverBlocked (h : Honest d) : NeverBlocked d := by
  intro a ha identity hi dep hall
  obtain ⟨i, hs, ht, backlog, hb, hsure⟩ := h.answers a ha
  obtain ⟨hunmet, hneeds⟩ := hall i backlog hs ht hb
  exact hsure identity hi dep hneeds hunmet

theorem honest_open (hwf : s.Wf) : Honest (ReadyLog.open s) := by
  refine ⟨hwf, ⟨tasks s, rfl, fun t => ?_⟩, fun c hc => ?_, fun x hx => ?_, fun a ha => ?_⟩
  · show t ∈ tasks s ↔ t ∈ tasks s ++ []
    rw [append_nil]
  · cases hc
  · cases hx
  · cases ha

/-- Along every run in which `ready` reads the space only while no open ticket waits for one
that is out, no blocked ticket is reported ready or won. -/
theorem never_blocked (hwf : s.Wf) {moves : List ReadyMove}
    (hg : Meets ReadyLog.step scanGuard (ReadyLog.open s) moves) :
    Keeps ReadyLog.step NeverBlocked (ReadyLog.open s) moves := by
  have hkeeps := keeps_of_meets (fun d m d' h hs hg => honest_step h hg hs)
    (honest_open hwf) hg
  exact hkeeps.mono fun d h => h.neverBlocked

end

def dependent : Tuple :=
  Tuple.new 2 0 .task "barn" "TKT-babad-bisub-lodod" "castle"
    (.object [("depends_on", .array [.string "TKT-babad-bisub-lodob"]), ("status", .string "open")])

def chain : Store := (backlogOf (barnTicket (.object []))).push dependent

/-- The dependency is being retitled while `ready` reads the space. -/
def retitleRace : List ReadyMove :=
  [.readyCall, .begin retitle true, .readyScan 0 none, .finish { id := 3, now := 0 }, .readyReturn 0]

/-- The ticket that depends on it is reported ready, though its dependency was there and
undelivered before, during and after the call. -/
theorem retitle_race_reports_blocked :
    (chain.Wf) ∧ ¬ Keeps ReadyLog.step NeverBlocked (ReadyLog.open chain) retitleRace := by
  refine ⟨(Store.wf_empty.push rfl).push rfl, fun hk => ?_⟩
  have hend : ((run ReadyLog.step (.open chain) retitleRace).any fun d =>
      (d.answers.any fun a => a.tickets.contains "TKT-babad-bisub-lodod") &&
        decide (∀ backlog ∈ d.history, Unmet backlog "TKT-babad-bisub-lodob" ∧
          Needs backlog "TKT-babad-bisub-lodod" "TKT-babad-bisub-lodob")) = true := by
    decide +kernel
  obtain ⟨d, hrun, hd⟩ := run_of_any hend
  rw [Bool.and_eq_true] at hd
  obtain ⟨a, ha, hticket⟩ := any_eq_true.mp hd.1
  have hall := of_decide_eq_true hd.2
  exact hk.last hrun a ha _ (contains_iff_mem.mp hticket) "TKT-babad-bisub-lodob"
    fun i backlog _ _ hb => hall backlog (mem_of_getElem? hb)

def retitleThenReady : List ReadyMove :=
  [.begin retitle true, .finish { id := 3, now := 0 }, .readyCall, .readyScan 0 none, .readyReturn 0]

theorem never_blocked_in_turn : Keeps ReadyLog.step NeverBlocked (ReadyLog.open chain)
    retitleThenReady := by
  apply never_blocked ((Store.wf_empty.push rfl).push rfl)
  decide +kernel

end RatKingdom.Tickets
