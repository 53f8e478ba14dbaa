/-
Runs of the host admission from an installed policy.

In every lane the permits held and the permits free add up to the size of its pool, and
the lane's counter is the number of calls that wait on it.  The pools of an installed
policy add up to the limit, and a call only ever waits on a pool that has room for its
whole weight.
-/
import RatKingdom.Verification.HostAdmission

namespace RatKingdom.Verification

open List Semaphore

open Lib (Table total)

def Phase.drawn : Phase → Option Lane
  | .waiting lane true => some lane
  | .holding lane => some lane
  | _ => none

def Phase.blocked : Phase → Option Lane
  | .waiting lane _ => some lane
  | _ => none

def Call.heldOn (lane : Lane) (c : Call) : Nat :=
  if c.phase.drawn = some lane then c.weight.toNat else 0

def Call.blockedOn (lane : Lane) (c : Call) : Nat := if c.phase.blocked = some lane then 1 else 0

def Call.held (c : Call) : Nat := if c.phase.drawn.isSome then c.weight.toNat else 0

namespace Callers

def heldOn (d : Callers) (lane : Lane) : Nat := total (Call.heldOn lane) d.calls

def held (d : Callers) : Nat := total Call.held d.calls

def blockedOn (d : Callers) (lane : Lane) : Nat := total (Call.blockedOn lane) d.calls

end Callers

namespace HostVerificationAdmission

variable {lane : Lane}

theorem pool_setPool {h : HostVerificationAdmission} {sem₀ : Semaphore}
    (hp : h.pool lane = some sem₀) (sem : Semaphore) (lane' : Lane) :
    (h.setPool lane sem).pool lane' = if lane' = lane then some sem else h.pool lane' := by
  cases lane with
  | general =>
    cases lane' with
    | general | reserved cls => rfl
  | reserved cls =>
    cases lane' with
    | general => rfl
    | reserved cls' =>
      obtain ⟨rc, hrc, -⟩ := Option.map_eq_some_iff.mp hp
      simp only [setPool, pool, Table.get_modify, Lane.reserved.injEq]
      by_cases hc : cls' = cls
      · subst hc
        rw [if_pos rfl, if_pos rfl, hrc]
        rfl
      · rw [if_neg hc, if_neg hc]

theorem pool_count (h : HostVerificationAdmission) (lane : Lane) (f : Nat → Nat) (lane' : Lane) :
    (h.count lane f).pool lane' = h.pool lane' := by
  cases lane with
  | general => rfl
  | reserved cls =>
    cases lane' with
    | general => rfl
    | reserved cls' => exact Table.map_get_modify (by intro; rfl) _ _ _

theorem waitingOn_setPool (h : HostVerificationAdmission) (lane : Lane) (sem : Semaphore)
    (lane' : Lane) : (h.setPool lane sem).waitingOn lane' = h.waitingOn lane' := by
  cases lane with
  | general => rfl
  | reserved cls =>
    cases lane' with
    | general => rfl
    | reserved cls' =>
      simp only [setPool, waitingOn]
      rw [Table.map_get_modify]
      exact fun _ => rfl

theorem waitingOn_count {h : HostVerificationAdmission} {sem₀ : Semaphore}
    (hp : h.pool lane = some sem₀) (f : Nat → Nat) (lane' : Lane) :
    (h.count lane f).waitingOn lane' =
      if lane' = lane then f (h.waitingOn lane') else h.waitingOn lane' := by
  cases lane with
  | general =>
    cases lane' with
    | general | reserved cls => rfl
  | reserved cls =>
    cases lane' with
    | general => rfl
    | reserved cls' =>
      obtain ⟨rc, hrc, -⟩ := Option.map_eq_some_iff.mp hp
      simp only [count, waitingOn, Table.get_modify, Lane.reserved.injEq]
      by_cases hc : cls' = cls
      · subst hc
        rw [if_pos rfl, if_pos rfl, hrc]
        rfl
      · rw [if_neg hc, if_neg hc]

structure Same (h h' : HostVerificationAdmission) : Prop where
  limit : h'.limit = h.limit
  generalLimit : h'.generalLimit = h.generalLimit
  weights : h'.checkWeight = h.checkWeight
  checkClasses : h'.checkClass = h.checkClass
  limits : ∀ cls, (h'.classes.get cls).map ReservedClass.limit =
    (h.classes.get cls).map ReservedClass.limit
  sizes : ∀ lane, (h'.pool lane).map size = (h.pool lane).map size

namespace Same

theorem refl (h : HostVerificationAdmission) : Same h h :=
  ⟨rfl, rfl, rfl, rfl, fun _ => rfl, fun _ => rfl⟩

variable {h h' : HostVerificationAdmission}

theorem setPool (hs : Same h h') {sem₀ sem : Semaphore}
    (hp : h'.pool lane = some sem₀) (hsize : sem.size = sem₀.size) : Same h (h'.setPool lane sem) := by
  have hsizes : ∀ lane', ((h'.setPool lane sem).pool lane').map size = (h.pool lane').map size := by
    intro lane'
    rw [pool_setPool hp, ← hs.sizes lane']
    by_cases hl : lane' = lane
    · rw [if_pos hl, hl, hp, Option.map_some, Option.map_some, hsize]
    · rw [if_neg hl]
  cases lane with
  | general => exact ⟨hs.limit, hs.generalLimit, hs.weights, hs.checkClasses, hs.limits, hsizes⟩
  | reserved cls =>
    refine ⟨hs.limit, hs.generalLimit, hs.weights, hs.checkClasses, ?_, hsizes⟩
    intro cls'
    exact (Table.map_get_modify (by intro; rfl) _ _ _).trans (hs.limits cls')

theorem count (hs : Same h h') (lane : Lane) (f : Nat → Nat) : Same h (h'.count lane f) := by
  have hsizes : ∀ lane', ((h'.count lane f).pool lane').map size = (h.pool lane').map size := by
    intro lane'
    rw [pool_count, hs.sizes]
  cases lane with
  | general => exact ⟨hs.limit, hs.generalLimit, hs.weights, hs.checkClasses, hs.limits, hsizes⟩
  | reserved cls =>
    refine ⟨hs.limit, hs.generalLimit, hs.weights, hs.checkClasses, ?_, hsizes⟩
    intro cls'
    exact (Table.map_get_modify (by intro; rfl) _ _ _).trans (hs.limits cls')

theorem general_isSome (hs : Same h h') : h'.general.isSome = h.general.isSome := by
  have := hs.sizes .general
  show (h'.pool .general).isSome = (h.pool .general).isSome
  rw [← Option.isSome_map, this, Option.isSome_map]

theorem toGeneral (hs : Same h h') : h'.toGeneral = h.toGeneral := by
  have hg := hs.general_isSome
  rw [HostVerificationAdmission.toGeneral, HostVerificationAdmission.toGeneral]
  cases hh : h.general with
  | none =>
    cases hh' : h'.general with
    | none => rfl
    | some sem => rw [hh, hh'] at hg; cases hg
  | some sem =>
    cases hh' : h'.general with
    | none => rw [hh, hh'] at hg; cases hg
    | some sem' => rfl

theorem missed (hs : Same h h') (cls : String) (w : UInt32) : h'.missed cls w = h.missed cls w := by
  rw [HostVerificationAdmission.missed, HostVerificationAdmission.missed, hs.generalLimit,
    hs.toGeneral]

theorem enter (hs : Same h h') (name : String) : h'.enter name = h.enter name := by
  have hl := hs.limits
  rw [HostVerificationAdmission.enter, HostVerificationAdmission.enter, hs.limit, hs.toGeneral,
    classFor, classFor, weightFor, weightFor, hs.weights, hs.checkClasses]
  cases h.checkClass.get name with
  | none => rfl
  | some cls =>
    have hlc := hl cls
    cases hc : h.classes.get cls with
    | none =>
      rw [hc, Option.map_none, Option.map_eq_none_iff] at hlc
      simp only [hlc, hc]
    | some rc =>
      rw [hc, Option.map_some, Option.map_eq_some_iff] at hlc
      obtain ⟨rc', hrc', hlim⟩ := hlc
      simp only [hrc', hlim, hc]

end Same

end HostVerificationAdmission

open HostVerificationAdmission

def HostVerificationAdmission.Roomy (h : HostVerificationAdmission) (lane : Lane) (n : Nat) : Prop :=
  ∃ sem, h.pool lane = some sem ∧ n ≤ sem.size

/-- Where the configuration `h` lets a call of this weight stand. -/
def Placed (h : HostVerificationAdmission) (c : Call) : Prop :=
  match c.phase with
  | .trying cls => h.Roomy (.reserved cls) c.weight.toNat ∧
      ∃ sem, h.general = some sem ∧ sem.size = h.generalLimit.toNat
  | .queueing lane | .waiting lane _ | .holding lane => h.Roomy lane c.weight.toNat
  | .unbounded => True
  | .panicked => False

/-- The callers `d` is consistent with the configuration `h` it started from. -/
structure Sound (h : HostVerificationAdmission) (d : Callers) : Prop where
  same : h.Same d.host
  balance : ∀ lane sem, d.host.pool lane = some sem → d.heldOn lane + sem.permits = sem.size
  counts : ∀ lane, d.host.waitingOn lane = d.blockedOn lane
  placed : ∀ c ∈ d.calls, Placed h c

section
variable {h : HostVerificationAdmission} {d d' : Callers}

theorem Sound.start (hi : Installed h) : Sound h { host := h, calls := [] } where
  same := .refl h
  balance := by
    intro lane sem hp
    show 0 + sem.permits = sem.size
    rw [hi.free lane sem hp, Nat.zero_add]
  counts := hi.idle
  placed := by
    intro c hc
    cases hc

variable {c : Call} {host : HostVerificationAdmission}

/-- One call is replaced by `cs`, with the pools and the counters adjusted to it. -/
theorem Sound.replace (hs : Sound h d) {l₁ l₂ cs : List Call} {c : Call}
    (hcalls : d.calls = l₁ ++ c :: l₂) {host : HostVerificationAdmission} (hsame : h.Same host)
    (hpool : ∀ lane sem', host.pool lane = some sem' → ∃ sem, d.host.pool lane = some sem ∧
      sem'.size = sem.size ∧
      total (Call.heldOn lane) cs + sem'.permits = c.heldOn lane + sem.permits)
    (hcount : ∀ lane, host.waitingOn lane + c.blockedOn lane =
      d.host.waitingOn lane + total (Call.blockedOn lane) cs)
    (hplaced : ∀ c' ∈ cs, Placed h c') : Sound h { host := host, calls := l₁ ++ cs ++ l₂ } where
  same := hsame
  balance := by
    intro lane sem' hp
    obtain ⟨sem, hsem, hsize, heq⟩ := hpool lane sem' hp
    have hold := hs.balance lane sem hsem
    rw [Callers.heldOn, hcalls] at hold
    show total (Call.heldOn lane) (l₁ ++ cs ++ l₂) + sem'.permits = sem'.size
    simp only [Lib.total_append, Lib.total_cons] at hold ⊢
    omega
  counts := by
    intro lane
    have hold := hs.counts lane
    have hnew := hcount lane
    rw [Callers.blockedOn, hcalls] at hold
    show host.waitingOn lane = total (Call.blockedOn lane) (l₁ ++ cs ++ l₂)
    simp only [Lib.total_append, Lib.total_cons] at hold ⊢
    omega
  placed := by
    intro c' hc'
    have hrest : ∀ c' ∈ l₁ ++ l₂, c' ∈ d.calls := by
      intro c' hc'
      rw [hcalls]
      rcases mem_append.mp hc' with hl | hl
      · exact mem_append_left _ hl
      · exact mem_append_right _ (mem_cons_of_mem _ hl)
    rcases mem_append.mp hc' with hl | hr
    · rcases mem_append.mp hl with hl | hm
      · exact hs.placed c' (hrest c' (mem_append_left _ hl))
      · exact hplaced c' hm
    · exact hs.placed c' (hrest c' (mem_append_right _ hr))

variable {lane : Lane}

theorem Sound.pool_of_roomy (hs : Sound h d) {n : Nat} (hr : h.Roomy lane n) :
    ∃ sem, d.host.pool lane = some sem ∧ n ≤ sem.size := by
  obtain ⟨sem, hsem, hn⟩ := hr
  have hsize := hs.same.sizes lane
  rw [hsem, Option.map_some, Option.map_eq_some_iff] at hsize
  obtain ⟨sem', hsem', he⟩ := hsize
  exact ⟨sem', hsem', he ▸ hn⟩

variable {sem : Semaphore}

theorem placed_toGeneral (hg : h.general = some sem) (hw : c.weight.toNat ≤ sem.size)
    (hph : c.phase = h.toGeneral) : Placed h c := by
  rw [Placed, hph, toGeneral, hg]
  exact ⟨sem, hg, hw⟩

theorem placed_enter (hi : Installed h) (name : String) :
    Placed h { checkName := name, weight := h.weightFor name, phase := h.enter name } := by
  by_cases hl : h.limit = 0
  · rw [Placed, enter, if_pos hl]
    trivial
  obtain ⟨sem, hsem, hsize⟩ := hi.general hl
  have hroom := hi.room hl name
  -- the general pool takes every weight its own lane does not
  have hgeneral : ∀ p, p = h.toGeneral → h.weightFor name ≤ h.generalLimit →
      Placed h { checkName := name, weight := h.weightFor name, phase := p } := by
    intro p hp hw
    exact placed_toGeneral hsem (hsize ▸ UInt32.le_iff_toNat_le.mp hw) hp
  rw [enter, if_neg hl]
  cases hc : h.classFor name with
  | none =>
    refine hgeneral _ rfl (hroom.resolve_right ?_)
    intro hroomy
    obtain ⟨cls, rc, hcls, -⟩ := hroomy
    rw [hc] at hcls
    cases hcls
  | some cls =>
    cases hrc : h.classes.get cls with
    | none =>
      simp only [hrc]
      refine hgeneral _ rfl (hroom.resolve_right ?_)
      intro hroomy
      obtain ⟨cls', rc', hcls, hrc', -⟩ := hroomy
      rw [hc] at hcls
      cases hcls
      rw [hrc] at hrc'
      cases hrc'
    | some rc =>
      by_cases hw : h.weightFor name ≤ rc.limit
      · simp only [hrc, if_pos hw]
        have hsz : rc.semaphore.size = rc.limit.toNat := hi.sizes cls rc hrc
        refine ⟨⟨rc.semaphore, ?_, hsz ▸ UInt32.le_iff_toNat_le.mp hw⟩, sem, hsem, hsize⟩
        rw [pool, hrc, Option.map_some]
      · simp only [hrc, if_neg hw]
        refine hgeneral _ rfl (hroom.resolve_right ?_)
        intro hroomy
        obtain ⟨cls', rc', hcls, hrc', hw'⟩ := hroomy
        rw [hc] at hcls
        cases hcls
        rw [hrc] at hrc'
        cases hrc'
        exact hw hw'

theorem placed_missed {c' : Call} {cls : String} (hp : Placed h c) (hph : c.phase = .trying cls)
    (hw : c'.weight = c.weight) (hphase' : c'.phase = h.missed cls c.weight) : Placed h c' := by
  rw [Placed, hph] at hp
  obtain ⟨hroom, sem, hsem, hsize⟩ := hp
  by_cases hgt : c.weight > h.generalLimit
  · rw [missed, if_pos hgt] at hphase'
    rw [Placed, hphase', hw]
    exact hroom
  · rw [missed, if_neg hgt] at hphase'
    apply placed_toGeneral hsem _ hphase'
    rw [hsize, hw]
    exact UInt32.le_iff_toNat_le.mp (UInt32.not_lt.mp hgt)

theorem draw_eq_some {host' : HostVerificationAdmission} {n : Nat}
    (hd : host.draw lane n = some host') :
    ∃ sem, host.pool lane = some sem ∧ n ≤ sem.permits ∧
      host' = host.setPool lane { sem with permits := sem.permits - n } := by
  rw [draw, Option.bind_eq_some_iff] at hd
  obtain ⟨sem, hsem, hd⟩ := hd
  obtain ⟨sem', htake, rfl⟩ := Option.map_eq_some_iff.mp hd
  obtain ⟨hn, heq⟩ := Option.ite_none_right_eq_some.mp htake
  cases heq
  exact ⟨sem, hsem, hn, rfl⟩

theorem heldOn_of_drawn (hc : c.phase.drawn = some lane) (lane' : Lane) :
    c.heldOn lane' = if lane' = lane then c.weight.toNat else 0 := by
  simp only [Call.heldOn, hc, Option.some.injEq, eq_comm]

theorem heldOn_of_not_drawn (hc : c.phase.drawn = none) (lane : Lane) : c.heldOn lane = 0 := by
  simp only [Call.heldOn, hc]
  exact if_neg nofun

theorem blockedOn_of_blocked (hc : c.phase.blocked = some lane) (lane' : Lane) :
    c.blockedOn lane' = if lane' = lane then 1 else 0 := by
  simp only [Call.blockedOn, hc, Option.some.injEq, eq_comm]

theorem blockedOn_of_not_blocked (hc : c.phase.blocked = none) (lane : Lane) :
    c.blockedOn lane = 0 := by
  simp only [Call.blockedOn, hc]
  exact if_neg nofun

variable {i : Nat} {p : Phase}

theorem Sound.drawn (hs : Sound h d) {i : Nat} {c : Call} (hc : d.calls[i]? = some c)
    {p : Phase} (hbefore : c.phase.drawn = none) (hafter : p.drawn = some lane)
    (hblocked : p.blocked = c.phase.blocked) {host : HostVerificationAdmission}
    (hdraw : d.host.draw lane c.weight.toNat = some host)
    (hplaced : Placed h { c with phase := p }) :
    Sound h { host := host, calls := d.setPhase i c p } := by
  obtain ⟨sem, hsem, hn, rfl⟩ := draw_eq_some hdraw
  obtain ⟨l₁, l₂, hcalls, hset, -⟩ := Lib.split_of_getElem? hc
  have hnew : d.setPhase i c p = l₁ ++ [{ c with phase := p }] ++ l₂ := by
    rw [Callers.setPhase, hset]
    simp
  rw [hnew]
  refine hs.replace hcalls (hs.same.setPool hsem ?_) ?_ ?_ ?_
  · rfl
  · intro lane' sem' hp
    rw [pool_setPool hsem] at hp
    rw [heldOn_of_not_drawn hbefore]
    simp only [Lib.total_cons, Lib.total_nil, heldOn_of_drawn (c := { c with phase := p }) hafter]
    by_cases hl : lane' = lane
    · rw [if_pos hl] at hp ⊢
      cases hp
      refine ⟨sem, hl ▸ hsem, rfl, ?_⟩
      show c.weight.toNat + 0 + (sem.permits - c.weight.toNat) = 0 + sem.permits
      omega
    · rw [if_neg hl] at hp ⊢
      exact ⟨sem', hp, rfl, by omega⟩
  · intro lane'
    rw [waitingOn_setPool]
    simp [Call.blockedOn, hblocked]
  · intro c' hc'
    rw [mem_singleton.mp hc']
    exact hplaced

theorem Sound.passed (hs : Sound h d) (hc : d.calls[i]? = some c) (hdrawn : c.phase.drawn = none)
    (hblocked : c.phase.blocked = none) (hdrawn' : p.drawn = none) (hblocked' : p.blocked = none)
    (hplaced : Placed h { c with phase := p }) :
    Sound h { d with calls := d.setPhase i c p } := by
  obtain ⟨l₁, l₂, hcalls, hset, -⟩ := Lib.split_of_getElem? hc
  have hnew : d.setPhase i c p = l₁ ++ [{ c with phase := p }] ++ l₂ := by
    rw [Callers.setPhase, hset]
    simp
  rw [hnew]
  apply hs.replace hcalls hs.same
  · intro lane sem hp
    refine ⟨sem, hp, rfl, ?_⟩
    simp only [Lib.total_cons, Lib.total_nil]
    rw [heldOn_of_not_drawn (c := { c with phase := p }) hdrawn', heldOn_of_not_drawn hdrawn]
  · intro lane
    simp only [Lib.total_cons, Lib.total_nil]
    rw [blockedOn_of_not_blocked (c := { c with phase := p }) hblocked',
      blockedOn_of_not_blocked hblocked]
  · intro c' hc'
    rw [mem_singleton.mp hc']
    exact hplaced

theorem missed_free (host : HostVerificationAdmission) (cls : String) (w : UInt32) :
    (host.missed cls w).drawn = none ∧ (host.missed cls w).blocked = none := by
  rw [missed, toGeneral]
  by_cases hgt : w > host.generalLimit
  · rw [if_pos hgt]
    exact ⟨rfl, rfl⟩
  · rw [if_neg hgt]
    cases host.general with
    | none | some sem => exact ⟨rfl, rfl⟩

theorem Sound.counted (hs : Sound h d) {i : Nat} {c : Call} (hc : d.calls[i]? = some c)
    {p : Phase} {f : Nat → Nat} (hroom : h.Roomy lane c.weight.toNat)
    (hdrawn : p.drawn = c.phase.drawn)
    (hcount : ∀ lane', (if lane' = lane then f (d.host.waitingOn lane') else d.host.waitingOn lane') +
      c.blockedOn lane' = d.host.waitingOn lane' + Call.blockedOn lane' { c with phase := p })
    (hplaced : Placed h { c with phase := p }) :
    Sound h { host := d.host.count lane f, calls := d.setPhase i c p } := by
  obtain ⟨sem, hsem, -⟩ := hs.pool_of_roomy hroom
  obtain ⟨l₁, l₂, hcalls, hset, -⟩ := Lib.split_of_getElem? hc
  have hnew : d.setPhase i c p = l₁ ++ [{ c with phase := p }] ++ l₂ := by
    rw [Callers.setPhase, hset]
    simp
  rw [hnew]
  apply hs.replace hcalls (hs.same.count lane f)
  · intro lane' sem' hp
    rw [pool_count] at hp
    refine ⟨sem', hp, rfl, ?_⟩
    simp [Call.heldOn, hdrawn]
  · intro lane'
    rw [waitingOn_count hsem]
    simpa using hcount lane'
  · intro c' hc'
    rw [mem_singleton.mp hc']
    exact hplaced

theorem refund_eq (hp : host.pool lane = some sem) (n : Nat) :
    host.refund lane n = host.setPool lane (sem.give n) := by
  simp only [refund, hp]

/-- A call goes: its permits, when it has some, return to their lane, and the counter
of the lane it waits on, when it waits, goes down. -/
theorem Sound.removed (hs : Sound h d) (hc : d.calls[i]? = some c) (hsame : h.Same host)
    (hpool : ∀ lane, (host.pool lane) = (d.host.pool lane).map (give (c.heldOn lane)))
    (hcount : ∀ lane, host.waitingOn lane = d.host.waitingOn lane - c.blockedOn lane) :
    Sound h { host := host, calls := d.calls.eraseIdx i } := by
  obtain ⟨l₁, l₂, hcalls, -, herase⟩ := Lib.split_of_getElem? hc
  have hnew : d.calls.eraseIdx i = l₁ ++ [] ++ l₂ := by
    rw [herase]
    simp
  rw [hnew]
  apply hs.replace hcalls hsame
  · intro lane sem' hp
    rw [hpool] at hp
    obtain ⟨sem, hsem, rfl⟩ := Option.map_eq_some_iff.mp hp
    refine ⟨sem, hsem, rfl, ?_⟩
    show 0 + (sem.permits + c.heldOn lane) = c.heldOn lane + sem.permits
    omega
  · intro lane
    have hle : c.blockedOn lane ≤ d.host.waitingOn lane := by
      rw [hs.counts lane]
      apply Lib.le_total
      exact mem_of_getElem? hc
    rw [hcount, Lib.total_nil]
    omega
  · nofun

theorem give_zero : give 0 = id := rfl

theorem pool_refund (hroom : ∃ sem, host.pool lane = some sem) (hc : c.phase.drawn = some lane)
    (lane' : Lane) :
    (host.refund lane c.weight.toNat).pool lane' =
      (host.pool lane').map (give (c.heldOn lane')) := by
  obtain ⟨sem, hsem⟩ := hroom
  rw [refund_eq hsem, pool_setPool hsem, heldOn_of_drawn hc]
  by_cases hl : lane' = lane
  · rw [if_pos hl, if_pos hl, hl, hsem, Option.map_some]
  · rw [if_neg hl, if_neg hl, give_zero, Option.map_id]
    rfl

theorem pool_of_not_drawn (hc : c.phase.drawn = none) (lane : Lane) :
    host.pool lane = (host.pool lane).map (give (c.heldOn lane)) := by
  rw [heldOn_of_not_drawn hc, give_zero, Option.map_id]
  rfl

theorem waitingOn_sub (hp : host.pool lane = some sem) (hc : c.phase.blocked = some lane)
    (lane' : Lane) :
    (host.count lane (· - 1)).waitingOn lane' = host.waitingOn lane' - c.blockedOn lane' := by
  rw [waitingOn_count hp, blockedOn_of_blocked hc]
  by_cases hl : lane' = lane
  · rw [if_pos hl, if_pos hl]
  · rw [if_neg hl, if_neg hl, Nat.sub_zero]

/-- Every step of a call keeps the callers sound. -/
theorem Sound.act (hs : Sound h d) (hc : d.calls[i]? = some c) {m : Move}
    (hstep : d.act i c m = some d') : Sound h d' := by
  have hplaced : Placed h c := hs.placed c (mem_of_getElem? hc)
  cases m with
  | acquire name => cases hstep
  | attempt j granted =>
    cases hph : c.phase with
    | trying cls =>
      cases granted with
      | true =>
        simp only [Callers.act, hph] at hstep
        obtain ⟨host, hdraw, rfl⟩ := Option.map_eq_some_iff.mp hstep
        rw [Placed, hph] at hplaced
        exact hs.drawn hc (by rw [hph]; rfl) rfl (by rw [hph]; rfl) hdraw hplaced.1
      | false =>
        simp only [Callers.act, hph] at hstep
        cases hstep
        refine hs.passed hc ?_ ?_ ?_ ?_ ?_
        · rw [hph]; rfl
        · rw [hph]; rfl
        · exact (missed_free d.host cls c.weight).1
        · exact (missed_free d.host cls c.weight).2
        · exact placed_missed hplaced hph rfl (hs.same.missed cls c.weight)
    | _ => simp [Callers.act, hph] at hstep
  | block j =>
    cases hph : c.phase with
    | queueing lane =>
      simp only [Callers.act, hph] at hstep
      cases hstep
      rw [Placed, hph] at hplaced
      refine hs.counted (p := .waiting lane false) hc hplaced (by rw [hph]; rfl) ?_ hplaced
      intro lane'
      rw [blockedOn_of_not_blocked (by rw [hph]; rfl),
        blockedOn_of_blocked (c := { c with phase := .waiting lane false }) rfl]
      by_cases hl : lane' = lane
      · simp [hl]
      · simp [hl]
    | _ => simp [Callers.act, hph] at hstep
  | assign j =>
    cases hph : c.phase with
    | waiting lane assigned =>
      cases assigned with
      | true => simp [Callers.act, hph] at hstep
      | false =>
        simp only [Callers.act, hph] at hstep
        obtain ⟨host, hdraw, rfl⟩ := Option.map_eq_some_iff.mp hstep
        rw [Placed, hph] at hplaced
        exact hs.drawn hc (by rw [hph]; rfl) rfl (by rw [hph]; rfl) hdraw hplaced
    | _ => simp [Callers.act, hph] at hstep
  | wake j =>
    cases hph : c.phase with
    | waiting lane assigned =>
      cases assigned with
      | false => simp [Callers.act, hph] at hstep
      | true =>
        simp only [Callers.act, hph] at hstep
        cases hstep
        rw [Placed, hph] at hplaced
        refine hs.counted (p := .holding lane) hc hplaced (by rw [hph]; rfl) ?_ hplaced
        intro lane'
        have hle : c.blockedOn lane' ≤ d.host.waitingOn lane' := by
          rw [hs.counts lane']
          exact Lib.le_total (mem_of_getElem? hc)
        rw [blockedOn_of_blocked (by rw [hph]; rfl)] at hle ⊢
        rw [blockedOn_of_not_blocked (c := { c with phase := .holding lane }) rfl]
        by_cases hl : lane' = lane
        · rw [if_pos hl] at hle
          rw [if_pos hl, if_pos hl]
          omega
        · rw [if_neg hl, if_neg hl]
    | _ => simp [Callers.act, hph] at hstep
  | release j =>
    cases hph : c.phase with
    | holding lane =>
      simp only [Callers.act, hph] at hstep
      cases hstep
      rw [Placed, hph] at hplaced
      obtain ⟨sem, hsem, -⟩ := hs.pool_of_roomy hplaced
      apply hs.removed hc
      · rw [refund_eq hsem]
        exact hs.same.setPool hsem rfl
      · exact pool_refund ⟨sem, hsem⟩ (by rw [hph]; rfl)
      · intro lane'
        rw [refund_eq hsem, waitingOn_setPool,
          blockedOn_of_not_blocked (by rw [hph]; rfl), Nat.sub_zero]
    | unbounded =>
      simp only [Callers.act, hph] at hstep
      cases hstep
      apply hs.removed hc hs.same
      · exact pool_of_not_drawn (by rw [hph]; rfl)
      · intro lane
        rw [blockedOn_of_not_blocked (by rw [hph]; rfl), Nat.sub_zero]
    | _ => simp [Callers.act, hph] at hstep
  | cancel j =>
    cases hph : c.phase with
    | waiting lane assigned =>
      rw [Placed, hph] at hplaced
      obtain ⟨sem, hsem, -⟩ := hs.pool_of_roomy hplaced
      have hblocked : c.phase.blocked = some lane := by rw [hph]; rfl
      have hsem' : (d.host.count lane (· - 1)).pool lane = some sem := by
        rw [pool_count, hsem]
      cases assigned with
      | false =>
        simp only [Callers.act, hph] at hstep
        cases hstep
        apply hs.removed hc (hs.same.count lane _)
        · intro lane'
          rw [pool_count]
          exact pool_of_not_drawn (by rw [hph]; rfl) lane'
        · exact waitingOn_sub hsem hblocked
      | true =>
        simp only [Callers.act, hph] at hstep
        cases hstep
        apply hs.removed hc
        · rw [refund_eq hsem']
          exact (hs.same.count lane _).setPool hsem' rfl
        · intro lane'
          rw [pool_refund ⟨sem, hsem'⟩ (by rw [hph]; rfl), pool_count]
        · intro lane'
          rw [refund_eq hsem', waitingOn_setPool]
          exact waitingOn_sub hsem hblocked lane'
    | _ => simp [Callers.act, hph] at hstep

theorem enter_free (host : HostVerificationAdmission) (name : String) :
    (host.enter name).drawn = none ∧ (host.enter name).blocked = none := by
  have hgeneral : host.toGeneral.drawn = none ∧ host.toGeneral.blocked = none := by
    rw [toGeneral]
    cases host.general with
    | none | some sem => exact ⟨rfl, rfl⟩
  rw [enter]
  by_cases hl : host.limit = 0
  · rw [if_pos hl]
    exact ⟨rfl, rfl⟩
  rw [if_neg hl]
  cases host.classFor name with
  | none => exact hgeneral
  | some cls =>
    cases hc : host.classes.get cls with
    | none => simpa only [hc] using hgeneral
    | some rc =>
      simp only [hc]
      by_cases hw : host.weightFor name ≤ rc.limit
      · rw [if_pos hw]
        exact ⟨rfl, rfl⟩
      · rw [if_neg hw]
        exact hgeneral

theorem Sound.acquired (hi : Installed h) (hs : Sound h d) (name : String) :
    Sound h { d with calls := d.calls ++ [{ checkName := name, weight := d.host.weightFor name,
                                            phase := d.host.enter name }] } := by
  obtain ⟨hdrawn, hblocked⟩ := enter_free d.host name
  refine ⟨hs.same, ?_, ?_, ?_⟩
  · intro lane sem hp
    have hold := hs.balance lane sem hp
    rw [Callers.heldOn] at hold ⊢
    rw [Lib.total_append, Lib.total_cons, Lib.total_nil, heldOn_of_not_drawn hdrawn]
    exact hold
  · intro lane
    have hold := hs.counts lane
    rw [Callers.blockedOn] at hold ⊢
    rw [Lib.total_append, Lib.total_cons, Lib.total_nil, blockedOn_of_not_blocked hblocked]
    exact hold
  · refine forall_mem_append.mpr ⟨hs.placed, ?_⟩
    intro c hc
    rw [mem_singleton.mp hc, hs.same.enter, weightFor, hs.same.weights]
    exact placed_enter hi name

theorem Sound.step (hi : Installed h) (hs : Sound h d) {m : Move} (hstep : d.step m = some d') :
    Sound h d' := by
  cases m with
  | acquire name =>
    cases hstep
    exact hs.acquired hi name
  | _ =>
    obtain ⟨c, hc, hact⟩ := Option.bind_eq_some_iff.mp hstep
    exact hs.act hc hact

theorem Sound.run (hi : Installed h) {ms : List Move}
    (hr : Lib.run Callers.step { host := h, calls := [] } ms = some d) : Sound h d :=
  Lib.run_invariant (fun _ _ _ hs hstep => hs.step hi hstep) (.start hi) hr

theorem Placed.pool_of_drawn (hp : Placed h c) (hd : c.phase.drawn = some lane) :
    h.Roomy lane c.weight.toNat := by
  rw [Placed] at hp
  cases hph : c.phase with
  | waiting l assigned =>
    rw [hph] at hp hd
    cases assigned with
    | false => cases hd
    | true => cases hd; exact hp
  | holding l =>
    rw [hph] at hp hd
    cases hd
    exact hp
  | _ => rw [hph] at hd; cases hd

theorem Sound.heldOn_le (hs : Sound h d) (hp : h.pool lane = some sem) :
    d.heldOn lane ≤ sem.size := by
  obtain ⟨sem', hsem', -⟩ := hs.pool_of_roomy ⟨sem, hp, Nat.zero_le _⟩
  have hsize := hs.same.sizes lane
  rw [hp, hsem'] at hsize
  have hbal := hs.balance lane sem' hsem'
  have : sem'.size = sem.size := Option.some.inj hsize
  omega

theorem Sound.heldOn_eq_zero (hs : Sound h d) (hp : h.pool lane = none) : d.heldOn lane = 0 := by
  apply Lib.total_eq_zero
  intro c hc
  apply if_neg
  intro hd
  obtain ⟨sem, hsem, -⟩ := (hs.placed c hc).pool_of_drawn hd
  rw [hp] at hsem
  cases hsem

def HostVerificationAdmission.lanes (h : HostVerificationAdmission) : List Lane :=
  .general :: h.classes.keys.map .reserved

theorem lanes_nodup (h : HostVerificationAdmission) : h.lanes.Nodup := by
  constructor
  · simp
  · exact h.classes.nodup.map fun _ _ he => Lane.reserved.inj he

theorem mem_lanes (hp : h.pool lane = some sem) : lane ∈ h.lanes := by
  cases lane with
  | general => exact mem_cons_self
  | reserved cls =>
    obtain ⟨rc, hrc, -⟩ := Option.map_eq_some_iff.mp hp
    have hm := Table.get_eq_some_iff.mp hrc
    apply mem_cons_of_mem
    exact mem_map_of_mem (mem_map_of_mem hm)

theorem Sound.held_eq (hs : Sound h d) : d.held = total d.heldOn h.lanes := by
  have hlots : ∀ c ∈ d.calls, (∃ lane ∈ h.lanes, c.phase.drawn = some lane) ∨ c.held = 0 := by
    intro c hc
    cases hd : c.phase.drawn with
    | none => exact .inr (by simp [Call.held, hd])
    | some lane =>
      obtain ⟨sem, hsem, -⟩ := (hs.placed c hc).pool_of_drawn hd
      exact .inl ⟨lane, mem_lanes hsem, rfl⟩
  rw [Callers.held, Lib.total_by_lot (lanes_nodup h) hlots]
  congr 1
  funext lane
  congr 1
  funext c
  rw [Call.heldOn, Call.held]
  by_cases hd : c.phase.drawn = some lane
  · simp [hd]
  · simp [hd]

theorem Sound.held_le (hi : Installed h) (hs : Sound h d) : d.held ≤ h.limit.toNat := by
  rw [hs.held_eq]
  by_cases hl : h.limit = 0
  · rw [Lib.total_eq_zero fun lane _ => hs.heldOn_eq_zero (hi.disabled hl lane)]
    exact Nat.zero_le _
  · obtain ⟨sem, hsem, hsize⟩ := hi.general hl
    have hgeneral : d.heldOn .general ≤ h.generalLimit.toNat := hsize ▸ hs.heldOn_le hsem
    have hclasses : total d.heldOn (h.classes.keys.map .reserved) ≤
        total (fun r => r.2.limit.toNat) h.classes.rows := by
      rw [Table.keys, map_map, total, map_map]
      apply Lib.total_le_total
      intro r hr
      have hrc : h.classes.get r.1 = some r.2 := Table.get_eq_some_iff.mpr hr
      have hp : h.pool (.reserved r.1) = some r.2.semaphore := by
        rw [pool, hrc, Option.map_some]
      rw [← hi.sizes r.1 r.2 hrc]
      exact hs.heldOn_le hp
    have hshares := hi.shares hl
    rw [lanes, Lib.total_cons]
    omega

end

/-- The calls of a callers are admitted safely under `limit` and `classReserve`. -/
structure Safe (limit : UInt32) (classReserve : Table String UInt32) (d : Callers) : Prop where
  total : d.held ≤ limit.toNat
  lanes : ∀ cls, d.heldOn (.reserved cls) ≤ ((classReserve.get cls).map UInt32.toNat).getD 0
  expects : ∀ c ∈ d.calls, c.phase ≠ .panicked
  blocks : ∀ c ∈ d.calls, ∀ lane, c.phase.blocked = some lane →
    ∃ sem, d.host.pool lane = some sem ∧ c.weight.toNat ≤ sem.size
  counts : ∀ lane, d.host.waitingOn lane = d.blockedOn lane

/-- The calls that configure a host admission before it serves. -/
inductive Setup where
  | setLimit (limit : UInt32)
  | setClassPolicy (checkWeight : Table String UInt32) (checkClass : Table String String)
      (classReserve : Table String UInt32)

def Setup.apply (h : HostVerificationAdmission) : Setup → HostVerificationAdmission
  | .setLimit limit => h.setLimit limit
  | .setClassPolicy w c r => (h.setClassPolicy w c r).2

def configure (ss : List Setup) : HostVerificationAdmission := ss.foldl Setup.apply .default

theorem configure_waiting (ss : List Setup) : (configure ss).waiting = 0 := by
  induction ss using List.reverseRecOn with
  | nil => rfl
  | append_singleton ss s ih =>
    rw [configure, foldl_append]
    cases s with
    | setLimit limit => exact ih
    | setClassPolicy w c r =>
      show ((ss.foldl Setup.apply .default).setClassPolicy w c r).2.waiting = 0
      rw [setClassPolicy]
      cases validateHostAdmissionPolicy (ss.foldl Setup.apply .default).limit w c r with
      | error e | ok u => exact ih

theorem Sound.safe {h : HostVerificationAdmission} {w : Table String UInt32} {c : Table String String}
    {r : Table String UInt32} {d : Callers} (hidle : h.waiting = 0)
    (hok : (h.setClassPolicy w c r).1 = .ok ()) (hs : Sound (h.setClassPolicy w c r).2 d) :
    Safe h.limit r d := by
  have hi := installed hidle hok
  obtain ⟨-, heq⟩ := setClassPolicy_ok hok
  constructor
  case total =>
    have hle := hs.held_le hi
    rw [heq] at hle
    exact hle
  case lanes =>
    intro cls
    cases hp : (h.setClassPolicy w c r).2.pool (.reserved cls) with
    | none =>
      rw [hs.heldOn_eq_zero hp]
      exact Nat.zero_le _
    | some sem =>
      have hle := hs.heldOn_le hp
      rw [heq] at hp
      obtain ⟨rc, hrc, rfl⟩ := Option.map_eq_some_iff.mp hp
      obtain ⟨v, hv, -, -, hsem, -⟩ := get_lane hrc
      rw [hsem] at hle
      rw [hv]
      exact hle
  case expects =>
    intro call hcall hph
    have hp := hs.placed call hcall
    rw [Placed, hph] at hp
    exact hp
  case blocks =>
    intro call hcall lane hb
    have hp := hs.placed call hcall
    apply hs.pool_of_roomy
    rw [Placed] at hp
    cases hph : call.phase with
    | waiting l assigned =>
      rw [hph] at hp hb
      cases hb
      exact hp
    | _ => rw [hph] at hb; cases hb
  case counts => exact hs.counts

/-- Host admission under an accepted policy: the installation arithmetic is exact and
every state that calls, releases and cancellations lead to is safe; a rejected policy
changes nothing. -/
theorem host_admission_safe (before : List Setup) (limit : UInt32)
    (checkWeight : Table String UInt32) (checkClass : Table String String)
    (classReserve : Table String UInt32) :
    (∀ (h : HostVerificationAdmission) (e : PolicyError),
      (h.setClassPolicy checkWeight checkClass classReserve).1 = .error e →
      (h.setClassPolicy checkWeight checkClass classReserve).2 = h) ∧
    ((((configure before).setLimit limit).setClassPolicy checkWeight checkClass classReserve).1 =
        .ok () →
      ((reservedTotal32 classReserve).toNat = reservedTotal classReserve ∧
        reservedTotal classReserve ≤ limit.toNat ∧
        (limit - reservedTotal32 classReserve).toNat = limit.toNat - reservedTotal classReserve) ∧
      ∀ ms d, Lib.run Callers.step
        { host :=
            (((configure before).setLimit limit).setClassPolicy checkWeight checkClass classReserve).2,
          calls := [] } ms = some d → Safe limit classReserve d) := by
  refine ⟨fun h e herr => setClassPolicy_error herr, fun hok => ?_⟩
  have hidle : ((configure before).setLimit limit).waiting = 0 := configure_waiting before
  constructor
  · obtain ⟨hle, hsum, hsub⟩ := installed_exactly (setClassPolicy_ok hok).1
    exact ⟨hsum, hle, hsub⟩
  · intro ms d hr
    have hs := Sound.run (installed hidle hok) hr
    exact hs.safe hidle hok

def heavyWeight : Table String UInt32 := ⟨[("heavy", 2)], by decide⟩

def heavyClass : Table String String := ⟨[("heavy", "guard")], by decide⟩

def guardReserve : Table String UInt32 := ⟨[("guard", 2)], by decide⟩

/-- The second heavy call waits on the lane of its class while every permit is held. -/
theorem host_admission_safe_heavy :
    ∃ d, Lib.run Callers.step
        { host := (((configure []).setLimit 3).setClassPolicy heavyWeight heavyClass guardReserve).2,
          calls := [] }
        [.acquire "heavy", .attempt 0 true, .acquire "heavy", .attempt 1 false, .block 1,
          .acquire "lint", .block 2, .assign 2, .wake 2] = some d ∧
      Safe 3 guardReserve d ∧ d.held = 3 ∧ d.host.waitingOn (.reserved "guard") = 1 := by
  have hany : (Lib.run Callers.step
      { host := (((configure []).setLimit 3).setClassPolicy heavyWeight heavyClass guardReserve).2,
        calls := [] }
      [.acquire "heavy", .attempt 0 true, .acquire "heavy", .attempt 1 false, .block 1,
        .acquire "lint", .block 2, .assign 2, .wake 2]).any (fun d =>
        d.held == 3 && d.host.waitingOn (.reserved "guard") == 1) = true := by decide +kernel
  obtain ⟨d, hd, hp⟩ := Lib.run_of_any hany
  rw [Bool.and_eq_true, beq_iff_eq, beq_iff_eq] at hp
  have hok : (((configure []).setLimit 3).setClassPolicy heavyWeight heavyClass guardReserve).1 =
      .ok () := rfl
  exact ⟨d, hd, ((host_admission_safe [] 3 heavyWeight heavyClass guardReserve).2 hok).2 _ d hd,
    hp.1, hp.2⟩

/-- The call has a step of its own to take. -/
def Callers.CanGo (d : Callers) (i : Nat) : Prop :=
  ∃ m, m.call? = some i ∧ m ≠ .cancel i ∧ (d.step m).isSome

/-- Nothing hangs: a call that is not queued at a semaphore can go on, a lane in which no
permit is held has all of them free for the calls queued there, and so some call can go on
while there are any. -/
structure Flows (d : Callers) : Prop where
  own : ∀ i c, d.calls[i]? = some c → (∀ lane, c.phase ≠ .waiting lane false) → d.CanGo i
  queued : ∀ i c lane, d.calls[i]? = some c → c.phase = .waiting lane false →
    d.heldOn lane = 0 → (d.step (.assign i)).isSome
  live : d.calls ≠ [] → ∃ i, d.CanGo i
  idle : ∀ lane sem, d.host.pool lane = some sem → d.heldOn lane = 0 → sem.permits = sem.size

section
variable {h : HostVerificationAdmission} {d : Callers} {c : Call} {i : Nat}

theorem step_of_act {m : Move} (hm : m.call? = some i) (hc : d.calls[i]? = some c) :
    d.step m = d.act i c m := by
  cases m with
  | acquire name => cases hm
  | _ =>
    cases hm
    show (d.calls[i]?).bind _ = _
    rw [hc]
    rfl

theorem Sound.canGo (hs : Sound h d) (hc : d.calls[i]? = some c)
    (hgo : ∀ lane, c.phase ≠ .waiting lane false) : d.CanGo i := by
  have hplaced := hs.placed c (mem_of_getElem? hc)
  have hmove : ∀ m : Move, m.call? = some i → m ≠ .cancel i → (d.act i c m).isSome → d.CanGo i :=
    fun m hm hne hact => ⟨m, hm, hne, (step_of_act hm hc).symm ▸ hact⟩
  rw [Placed] at hplaced
  cases hp : c.phase with
  | trying cls => exact hmove (.attempt i false) rfl nofun (by simp [Callers.act, hp])
  | queueing lane => exact hmove (.block i) rfl nofun (by simp [Callers.act, hp])
  | waiting lane assigned =>
    cases assigned with
    | false => exact absurd hp (hgo lane)
    | true => exact hmove (.wake i) rfl nofun (by simp [Callers.act, hp])
  | holding lane | unbounded => exact hmove (.release i) rfl nofun (by simp [Callers.act, hp])
  | panicked =>
    rw [hp] at hplaced
    exact hplaced.elim

theorem Sound.assigns (hs : Sound h d) (hc : d.calls[i]? = some c)
    (hp : c.phase = .waiting lane false) (hn : d.heldOn lane = 0) :
    (d.step (.assign i)).isSome := by
  have hplaced := hs.placed c (mem_of_getElem? hc)
  rw [Placed, hp] at hplaced
  obtain ⟨sem, hsem, hroom⟩ := hs.pool_of_roomy hplaced
  have hbalance := hs.balance lane sem hsem
  have hfree : c.weight.toNat ≤ sem.permits := by omega
  rw [step_of_act rfl hc]
  simp [Callers.act, hp, draw, hsem, Semaphore.take, hfree]

theorem Sound.flows (hs : Sound h d) : Flows d where
  own _ _ := hs.canGo
  queued _ _ _ := hs.assigns
  live := by
    intro hne
    by_cases hall : ∀ c ∈ d.calls, ∃ lane, c.phase = .waiting lane false
    · -- All calls are queued, so that none of them holds anything.
      obtain ⟨c, hm⟩ := exists_mem_of_ne_nil d.calls hne
      obtain ⟨i, hc⟩ := getElem?_of_mem hm
      obtain ⟨lane, hp⟩ := hall c hm
      refine ⟨i, .assign i, rfl, nofun, hs.assigns hc hp (Lib.total_eq_zero fun c' hc' => ?_)⟩
      obtain ⟨lane', hp'⟩ := hall c' hc'
      rw [Call.heldOn, hp']
      rfl
    · push Not at hall
      obtain ⟨c, hm, hgo⟩ := hall
      obtain ⟨i, hc⟩ := getElem?_of_mem hm
      exact ⟨i, hs.canGo hc hgo⟩
  idle := by
    intro lane sem hp hn
    have hbalance := hs.balance lane sem hp
    omega

end

/-- Host admission under an accepted policy never deadlocks and leaks no permit, in whatever
order its calls take their steps, are released or are cancelled. -/
theorem host_admission_flows (before : List Setup) (limit : UInt32)
    (checkWeight : Table String UInt32) (checkClass : Table String String)
    (classReserve : Table String UInt32) {h : HostVerificationAdmission}
    (hok : ((configure before).setLimit limit).setClassPolicy checkWeight checkClass classReserve =
      (.ok (), h)) (ms : List Move) {d : Callers}
    (hrun : Lib.run Callers.step { host := h, calls := [] } ms = some d) : Flows d := by
  have hidle : ((configure before).setLimit limit).waiting = 0 := configure_waiting before
  have hi := installed hidle (congrArg Prod.fst hok)
  rw [hok] at hi
  exact (Sound.run hi hrun).flows

/-- The call queued behind the held lane, after the holder has released. -/
theorem host_admission_flows_heavy : ∃ h d,
    ((configure []).setLimit 3).setClassPolicy heavyWeight heavyClass guardReserve = (.ok (), h) ∧
      Lib.run Callers.step { host := h, calls := [] }
        [.acquire "heavy", .attempt 0 true, .acquire "heavy", .attempt 1 false, .block 1,
          .release 0] = some d ∧ Flows d := by
  have hok : ((configure []).setLimit 3).setClassPolicy heavyWeight heavyClass guardReserve =
      (.ok (), _) := rfl
  have hrun : Lib.run Callers.step
      { host := (((configure []).setLimit 3).setClassPolicy heavyWeight heavyClass guardReserve).2,
        calls := [] }
      [.acquire "heavy", .attempt 0 true, .acquire "heavy", .attempt 1 false, .block 1,
        .release 0] = some _ := rfl
  exact ⟨_, _, hok, hrun, host_admission_flows [] 3 heavyWeight heavyClass guardReserve hok _ hrun⟩

end RatKingdom.Verification
