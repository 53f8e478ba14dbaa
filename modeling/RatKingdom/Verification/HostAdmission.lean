/-
Host-wide verification admission: the weighted permit pools of
`managed_verification.rs`.

`set_limit` installs one general pool, `set_class_policy` carves a reserved lane for
every class with a positive reserve out of it, and `acquire` routes a call by its
weight, its class and what its lane has free.  The maps are validated with 64-bit sums
and installed with 32-bit ones, which wrap; the 64-bit total is an exact natural number
here, since more than 2^32 classes would be needed to overflow it.

The permit pools are tokio semaphores.  Which waiting call a semaphore serves next is
left to the run: a label says that a call was served, and is enabled only while the
pool has its whole weight free.
-/
import Mathlib.Data.UInt
import RatKingdom.Lib.Run
import RatKingdom.Lib.Shares
import RatKingdom.Lib.Table

namespace RatKingdom.Verification

open Option

open Lib (Table total)

/-- A semaphore made with `size` permits, `permits` of them free. -/
structure Semaphore where
  size : Nat
  permits : Nat

def Semaphore.new (n : Nat) : Semaphore := { size := n, permits := n }

def Semaphore.take (n : Nat) (s : Semaphore) : Option Semaphore :=
  if n ≤ s.permits then some { s with permits := s.permits - n } else none

def Semaphore.give (n : Nat) (s : Semaphore) : Semaphore := { s with permits := s.permits + n }

structure ReservedClass where
  semaphore : Semaphore
  limit : UInt32
  waiting : Nat

structure HostVerificationAdmission where
  general : Option Semaphore
  generalLimit : UInt32
  limit : UInt32
  waiting : Nat
  checkWeight : Table String UInt32
  checkClass : Table String String
  classes : Table String ReservedClass

/-- What `Default` gives: the aggregate cap is disabled. -/
def HostVerificationAdmission.default : HostVerificationAdmission where
  general := none
  generalLimit := 0
  limit := 0
  waiting := 0
  checkWeight := .empty
  checkClass := .empty
  classes := .empty

inductive PolicyError where
  | zeroWeight (name : String)
  | reserveTotal (reservedTotal : Nat) (limit : UInt32)
  | neverAdmitted (name : String) (weight generalLimit classReserveLimit : Nat)

/-- The refusal as the operator reads it; `debug` quotes a name. -/
def PolicyError.message (debug : String → String) : PolicyError → String
  | .zeroWeight name =>
    "verification_admission_check_weight[" ++ debug name ++ "] must be at least 1, got 0"
  | .reserveTotal reservedTotal limit =>
    "verification_admission_class_reserve totals " ++ toString reservedTotal ++
      ", which must be strictly less than the aggregate limit " ++ toString limit ++
      " — every unclassified or fallback check needs at least 1 unit of general-pool " ++
      "capacity left over"
  | .neverAdmitted name weight generalLimit classReserveLimit =>
    "verification_admission_check_weight[" ++ debug name ++ "] = " ++ toString weight ++
      " exceeds every pool it could draw from (general pool " ++ toString generalLimit ++
      ", its own class reserve " ++ toString classReserveLimit ++
      "); this check could never be admitted"

def reservedTotal (classReserve : Table String UInt32) : Nat :=
  total (fun r => r.2.toNat) classReserve.rows

def reservedTotal32 (classReserve : Table String UInt32) : UInt32 :=
  (classReserve.rows.map Prod.snd).sum

def classReserveLimit (checkClass : Table String String) (classReserve : Table String UInt32)
    (name : String) : Nat :=
  (((checkClass.get name).bind classReserve.get).map UInt32.toNat).getD 0

def validateHostAdmissionPolicy (limit : UInt32) (checkWeight : Table String UInt32)
    (checkClass : Table String String) (classReserve : Table String UInt32) :
    Except PolicyError Unit := do
  checkWeight.rows.forM fun r =>
    if r.2 = 0 then throw (.zeroWeight r.1) else pure ()
  if reservedTotal classReserve > 0 ∧ reservedTotal classReserve ≥ limit.toNat then
    throw (.reserveTotal (reservedTotal classReserve) limit)
  if limit > 0 then
    let generalLimit := limit.toNat - reservedTotal classReserve
    checkWeight.rows.forM fun r =>
      if r.2.toNat > generalLimit ∧ r.2.toNat > classReserveLimit checkClass classReserve r.1 then
        throw (.neverAdmitted r.1 r.2.toNat generalLimit
          (classReserveLimit checkClass classReserve r.1))
      else pure ()
  pure ()

namespace HostVerificationAdmission

def setLimit (h : HostVerificationAdmission) (limit : UInt32) : HostVerificationAdmission :=
  { h with
    limit := limit
    generalLimit := limit
    general := if limit > 0 then some (.new limit.toNat) else none
    classes := .empty
    checkWeight := .empty
    checkClass := .empty }

def reservedClass (reserve : UInt32) : Option ReservedClass :=
  if reserve > 0 then some { semaphore := .new reserve.toNat, limit := reserve, waiting := 0 }
  else none

def setClassPolicy (h : HostVerificationAdmission) (checkWeight : Table String UInt32)
    (checkClass : Table String String) (classReserve : Table String UInt32) :
    Except PolicyError Unit × HostVerificationAdmission :=
  match validateHostAdmissionPolicy h.limit checkWeight checkClass classReserve with
  | .error e => (.error e, h)
  | .ok () =>
    let generalLimit := h.limit - reservedTotal32 classReserve
    (.ok (), { h with
        generalLimit := generalLimit
        general := if generalLimit > 0 then some (.new generalLimit.toNat) else none
        classes := classReserve.filterMap reservedClass
        checkWeight := checkWeight
        checkClass := checkClass })

def weightFor (h : HostVerificationAdmission) (checkName : String) : UInt32 :=
  (h.checkWeight.get checkName).getD 1

def classFor (h : HostVerificationAdmission) (checkName : String) : Option String :=
  h.checkClass.get checkName

end HostVerificationAdmission

inductive Lane where
  | general
  | reserved (cls : String)
deriving DecidableEq

/-- Where a call of `acquire` stands.  A waiting call may already have its permits
assigned by the semaphore while its future has not been polled again. -/
inductive Phase where
  | trying (cls : String)
  | queueing (lane : Lane)
  | waiting (lane : Lane) (assigned : Bool)
  | holding (lane : Lane)
  | unbounded | panicked

structure Call where
  checkName : String
  weight : UInt32
  phase : Phase

namespace HostVerificationAdmission

/-- The general pool, behind the `expect` that it is there. -/
def toGeneral (h : HostVerificationAdmission) : Phase :=
  match h.general with
  | some _ => .queueing .general
  | none => .panicked

/-- The first part of `acquire`, up to the first attempt on a pool. -/
def enter (h : HostVerificationAdmission) (checkName : String) : Phase :=
  if h.limit = 0 then .unbounded
  else
    match h.classFor checkName with
    | none => h.toGeneral
    | some cls =>
      match h.classes.get cls with
      | none => h.toGeneral
      | some reserved =>
        if h.weightFor checkName ≤ reserved.limit then .trying cls else h.toGeneral

def missed (h : HostVerificationAdmission) (cls : String) (weight : UInt32) : Phase :=
  if weight > h.generalLimit then .queueing (.reserved cls) else h.toGeneral

def pool (h : HostVerificationAdmission) : Lane → Option Semaphore
  | .general => h.general
  | .reserved cls => (h.classes.get cls).map ReservedClass.semaphore

def waitingOn (h : HostVerificationAdmission) : Lane → Nat
  | .general => h.waiting
  | .reserved cls => ((h.classes.get cls).map ReservedClass.waiting).getD 0

def setPool (h : HostVerificationAdmission) (lane : Lane) (sem : Semaphore) :
    HostVerificationAdmission :=
  match lane with
  | .general => { h with general := some sem }
  | .reserved cls => { h with classes := h.classes.modify cls ({ · with semaphore := sem }) }

/-- `fetch_add` and `fetch_sub` on the counter of a lane. -/
def count (h : HostVerificationAdmission) (lane : Lane) (f : Nat → Nat) :
    HostVerificationAdmission :=
  match lane with
  | .general => { h with waiting := f h.waiting }
  | .reserved cls => { h with classes := h.classes.modify cls fun c =>
    { c with waiting := f c.waiting } }

/-- `n` permits of a lane taken, when it has them free. -/
def draw (h : HostVerificationAdmission) (lane : Lane) (n : Nat) :
    Option HostVerificationAdmission :=
  (h.pool lane).bind fun sem => (sem.take n).map fun sem' => h.setPool lane sem'

/-- `n` permits given back to a lane. -/
def refund (h : HostVerificationAdmission) (lane : Lane) (n : Nat) : HostVerificationAdmission :=
  match h.pool lane with
  | some sem => h.setPool lane (sem.give n)
  | none => h

end HostVerificationAdmission

/-- The host admission and the calls of `acquire` that have not ended, those that hold
a permit included. -/
structure Callers where
  host : HostVerificationAdmission
  calls : List Call

inductive Move where
  | acquire (checkName : String)
  | attempt (i : Nat) (granted : Bool)
  | block (i : Nat)
  | assign (i : Nat)
  | wake (i : Nat)
  | release (i : Nat)
  | cancel (i : Nat)

namespace Callers

def setPhase (d : Callers) (i : Nat) (c : Call) (p : Phase) : List Call :=
  d.calls.set i { c with phase := p }

def act (d : Callers) (i : Nat) (c : Call) : Move → Option Callers
  | .acquire _ => none
  -- `try_acquire_many_owned` on the class's lane
  | .attempt _ granted =>
    match c.phase, granted with
    | .trying cls, true =>
      (d.host.draw (.reserved cls) c.weight.toNat).map fun h =>
        { host := h, calls := d.setPhase i c (.holding (.reserved cls)) }
    | .trying cls, false => some { d with calls := d.setPhase i c (d.host.missed cls c.weight) }
    | _, _ => none
  -- the counter goes up just before the call awaits the semaphore
  | .block _ =>
    match c.phase with
    | .queueing lane =>
      some { host := d.host.count lane (· + 1), calls := d.setPhase i c (.waiting lane false) }
    | _ => none
  -- the semaphore hands the whole weight to a queued call
  | .assign _ =>
    match c.phase with
    | .waiting lane false =>
      (d.host.draw lane c.weight.toNat).map fun h =>
        { host := h, calls := d.setPhase i c (.waiting lane true) }
    | _ => none
  -- the call returns its permit and the wait guard drops
  | .wake _ =>
    match c.phase with
    | .waiting lane true =>
      some { host := d.host.count lane (· - 1), calls := d.setPhase i c (.holding lane) }
    | _ => none
  -- the caller drops its permit, or ends without one
  | .release _ =>
    match c.phase with
    | .holding lane =>
      some { host := d.host.refund lane c.weight.toNat, calls := d.calls.eraseIdx i }
    | .unbounded => some { d with calls := d.calls.eraseIdx i }
    | _ => none
  -- the future is dropped mid-wait, with the permits it may have been assigned
  | .cancel _ =>
    match c.phase with
    | .waiting lane false =>
      some { host := d.host.count lane (· - 1), calls := d.calls.eraseIdx i }
    | .waiting lane true =>
      some { host := (d.host.count lane (· - 1)).refund lane c.weight.toNat,
             calls := d.calls.eraseIdx i }
    | _ => none

end Callers

def Move.call? : Move → Option Nat
  | .acquire _ => none
  | .attempt i _ | .block i | .assign i | .wake i | .release i | .cancel i => some i

def Callers.step (d : Callers) (m : Move) : Option Callers :=
  match m with
  | .acquire checkName =>
    some { d with calls := d.calls ++
      [{ checkName := checkName, weight := d.host.weightFor checkName,
         phase := d.host.enter checkName }] }
  | m => do
    let i ← m.call?
    let c ← d.calls[i]?
    d.act i c m

section
variable {limit : UInt32} {checkWeight : Table String UInt32} {checkClass : Table String String}
  {classReserve : Table String UInt32}

theorem forM_ok {α : Type} {p : α → Prop} [DecidablePred p] {e : α → PolicyError} {l : List α}
    (h : (l.forM fun a => if p a then throw (e a) else pure () : Except PolicyError Unit) = .ok ()) :
    ∀ a ∈ l, ¬ p a := by
  induction l with
  | nil => simp
  | cons a l ih =>
    have h : ((if p a then throw (e a) else pure ()) >>= fun _ =>
        l.forM fun a => if p a then throw (e a) else pure () : Except PolicyError Unit) = .ok () := h
    by_cases ha : p a
    · rw [if_pos ha] at h
      cases h
    · rw [if_neg ha] at h
      exact List.forall_mem_cons.mpr ⟨ha, ih h⟩

theorem validate_ok
    (h : validateHostAdmissionPolicy limit checkWeight checkClass classReserve = .ok ()) :
    (∀ r ∈ checkWeight.rows, r.2 ≠ 0) ∧
    (0 < reservedTotal classReserve → reservedTotal classReserve < limit.toNat) ∧
    (limit ≠ 0 → ∀ r ∈ checkWeight.rows, r.2.toNat ≤ limit.toNat - reservedTotal classReserve ∨
      r.2.toNat ≤ classReserveLimit checkClass classReserve r.1) := by
  simp only [validateHostAdmissionPolicy, bind, Except.bind] at h
  split at h
  · cases h
  · rename_i hw
    have hzero := forM_ok hw
    by_cases ht : reservedTotal classReserve > 0 ∧ reservedTotal classReserve ≥ limit.toNat
    · rw [if_pos ht] at h
      cases h
    · rw [if_neg ht] at h
      refine ⟨hzero, fun hp => by omega, fun hl => ?_⟩
      have hpos : limit > 0 := UInt32.pos_iff_ne_zero.mpr hl
      rw [if_pos hpos] at h
      split at h
      · cases h
      · rename_i hf
        intro r hr
        have := forM_ok hf r hr
        omega

theorem sum_toNat {rows : List (String × UInt32)} (h : total (fun r => r.2.toNat) rows < 2 ^ 32) :
    (rows.map Prod.snd).sum.toNat = total (fun r => r.2.toNat) rows := by
  induction rows with
  | nil => rfl
  | cons r rows ih =>
    rw [Lib.total_cons] at h ⊢
    rw [List.map_cons, List.sum_cons, UInt32.toNat_add, ih (by omega)]
    exact Nat.mod_eq_of_lt h

/-- The reserves of an accepted policy fit under the limit, and neither the 32-bit sum
nor the subtraction wraps. -/
theorem installed_exactly
    (h : validateHostAdmissionPolicy limit checkWeight checkClass classReserve = .ok ()) :
    reservedTotal classReserve ≤ limit.toNat ∧
    (reservedTotal32 classReserve).toNat = reservedTotal classReserve ∧
    (limit - reservedTotal32 classReserve).toNat = limit.toNat - reservedTotal classReserve := by
  obtain ⟨-, htotal, -⟩ := validate_ok h
  have hlt : limit.toNat < 2 ^ 32 := limit.toNat_lt
  have hle : reservedTotal classReserve ≤ limit.toNat := by omega
  have hsum : (reservedTotal32 classReserve).toNat = reservedTotal classReserve := by
    apply sum_toNat
    show reservedTotal classReserve < 2 ^ 32
    omega
  refine ⟨hle, hsum, ?_⟩
  have hs : reservedTotal32 classReserve ≤ limit := by
    rw [UInt32.le_iff_toNat_le, hsum]
    exact hle
  rw [UInt32.toNat_sub_of_le _ _ hs, hsum]

end

/-- What every configured host admission satisfies before its first call. -/
structure Installed (h : HostVerificationAdmission) : Prop where
  disabled : h.limit = 0 → ∀ lane, h.pool lane = none
  general : h.limit ≠ 0 → ∃ sem, h.general = some sem ∧ sem.size = h.generalLimit.toNat
  sizes : ∀ cls rc, h.classes.get cls = some rc → rc.semaphore.size = rc.limit.toNat
  room : h.limit ≠ 0 → ∀ name, h.weightFor name ≤ h.generalLimit ∨
    ∃ cls rc, h.classFor name = some cls ∧ h.classes.get cls = some rc ∧ h.weightFor name ≤ rc.limit
  shares : h.limit ≠ 0 →
    h.generalLimit.toNat + total (fun r => r.2.limit.toNat) h.classes.rows = h.limit.toNat
  free : ∀ lane sem, h.pool lane = some sem → sem.permits = sem.size
  idle : ∀ lane, h.waitingOn lane = 0

open HostVerificationAdmission in
theorem reservedClass_eq_some {v : UInt32} {rc : ReservedClass} (h : reservedClass v = some rc) :
    0 < v ∧ rc.limit = v ∧ rc.semaphore = .new v.toNat ∧ rc.waiting = 0 := by
  rw [reservedClass] at h
  by_cases hv : v > 0
  · rw [if_pos hv] at h
    cases h
    exact ⟨hv, rfl, rfl, rfl⟩
  · rw [if_neg hv] at h
    cases h

theorem total_lanes (rows : List (String × UInt32)) :
    total (fun r => r.2.limit.toNat) (rows.filterMap fun r =>
      (HostVerificationAdmission.reservedClass r.2).map (r.1, ·)) =
      total (fun r => r.2.toNat) rows := by
  induction rows with
  | nil => rfl
  | cons r rows ih =>
    rw [Lib.total_cons, ← ih, List.filterMap_cons]
    cases hc : HostVerificationAdmission.reservedClass r.2 with
    | none =>
      have hz : r.2 = 0 := by
        by_contra hne
        have hp : r.2 > 0 := UInt32.pos_iff_ne_zero.mpr hne
        simp [HostVerificationAdmission.reservedClass, hp] at hc
      simp [hz]
    | some rc => simp [(reservedClass_eq_some hc).2.1]

section
variable {h : HostVerificationAdmission} {checkWeight : Table String UInt32}
  {checkClass : Table String String} {classReserve : Table String UInt32}

theorem setClassPolicy_ok (hok : (h.setClassPolicy checkWeight checkClass classReserve).1 = .ok ()) :
    validateHostAdmissionPolicy h.limit checkWeight checkClass classReserve = .ok () ∧
    (h.setClassPolicy checkWeight checkClass classReserve).2 = { h with
        generalLimit := h.limit - reservedTotal32 classReserve
        general := if h.limit - reservedTotal32 classReserve > 0 then
          some (.new (h.limit - reservedTotal32 classReserve).toNat) else none
        classes := classReserve.filterMap HostVerificationAdmission.reservedClass
        checkWeight := checkWeight
        checkClass := checkClass } := by
  rw [HostVerificationAdmission.setClassPolicy] at hok ⊢
  split at hok
  · cases hok
  · rename_i hv
    exact ⟨hv, rfl⟩

theorem setClassPolicy_error {e : PolicyError}
    (herr : (h.setClassPolicy checkWeight checkClass classReserve).1 = .error e) :
    (h.setClassPolicy checkWeight checkClass classReserve).2 = h := by
  rw [HostVerificationAdmission.setClassPolicy] at herr ⊢
  split at herr
  · rfl
  · cases herr

open HostVerificationAdmission in
theorem get_lane {cls : String} {rc : ReservedClass}
    (hg : (classReserve.filterMap reservedClass).get cls = some rc) :
    ∃ v, classReserve.get cls = some v ∧ 0 < v ∧ rc.limit = v ∧
      rc.semaphore = .new v.toNat ∧ rc.waiting = 0 := by
  rw [Table.get_filterMap, bind_eq_some_iff] at hg
  obtain ⟨v, hv, hrc⟩ := hg
  exact ⟨v, hv, reservedClass_eq_some hrc⟩

/-- Some pool of an accepted policy has room for every check name, configured or not. -/
theorem room_of_valid {limit : UInt32} (hl : limit ≠ 0)
    (hv : validateHostAdmissionPolicy limit checkWeight checkClass classReserve = .ok ())
    (name : String) :
    (checkWeight.get name).getD 1 ≤ limit - reservedTotal32 classReserve ∨
    ∃ cls v, checkClass.get name = some cls ∧ classReserve.get cls = some v ∧ 0 < v ∧
      (checkWeight.get name).getD 1 ≤ v := by
  obtain ⟨hzero, htotal, hroom⟩ := validate_ok hv
  obtain ⟨hle, -, hsub⟩ := installed_exactly hv
  have hlpos : 0 < limit.toNat := UInt32.lt_iff_toNat_lt.mp (UInt32.pos_iff_ne_zero.mpr hl)
  cases hw : checkWeight.get name with
  | none =>
    refine .inl ?_
    rw [getD_none, UInt32.le_iff_toNat_le, hsub]
    show 1 ≤ _
    omega
  | some w =>
    have hm := Table.get_eq_some_iff.mp hw
    have hpos : 0 < w.toNat :=
      UInt32.lt_iff_toNat_lt.mp (UInt32.pos_iff_ne_zero.mpr (hzero _ hm))
    rcases hroom hl _ hm with hfit | hfit
    · refine .inl ?_
      rw [UInt32.le_iff_toNat_le, hsub]
      exact hfit
    · -- the weight is positive, so the class it fits has a positive reserve
      refine .inr ?_
      replace hfit : w.toNat ≤ classReserveLimit checkClass classReserve name := hfit
      rw [classReserveLimit] at hfit
      cases hb : (checkClass.get name).bind classReserve.get with
      | none =>
        rw [hb] at hfit
        replace hfit : w.toNat ≤ 0 := hfit
        omega
      | some v =>
        rw [hb] at hfit
        replace hfit : w.toNat ≤ v.toNat := hfit
        obtain ⟨cls, hcls, hv⟩ := bind_eq_some_iff.mp hb
        have hvpos : 0 < v := by
          show 0 < v.toNat
          omega
        exact ⟨cls, v, hcls, hv, hvpos, UInt32.le_iff_toNat_le.mpr hfit⟩

/-- An accepted policy on an idle host admission installs pools that add up to the
limit, one of which has room for every check. -/
theorem installed (hidle : h.waiting = 0)
    (hok : (h.setClassPolicy checkWeight checkClass classReserve).1 = .ok ()) :
    Installed (h.setClassPolicy checkWeight checkClass classReserve).2 := by
  obtain ⟨hv, heq⟩ := setClassPolicy_ok hok
  obtain ⟨-, htotal, -⟩ := validate_ok hv
  obtain ⟨hle, -, hsub⟩ := installed_exactly hv
  have hpos : h.limit ≠ 0 → h.limit - reservedTotal32 classReserve > 0 := by
    intro hl
    have hlpos : 0 < h.limit.toNat := UInt32.lt_iff_toNat_lt.mp (UInt32.pos_iff_ne_zero.mpr hl)
    rw [gt_iff_lt, UInt32.lt_iff_toNat_lt, hsub]
    show 0 < _
    omega
  rw [heq]
  constructor
  case disabled =>
    intro (hl : h.limit = 0) lane
    have hl' : h.limit.toNat = 0 := by rw [hl]; rfl
    cases lane with
    | general =>
      have hg : ¬ h.limit - reservedTotal32 classReserve > 0 := by
        rw [gt_iff_lt, UInt32.lt_iff_toNat_lt, hsub, hl']
        simp
      exact if_neg hg
    | reserved cls =>
      apply map_eq_none_iff.mpr
      by_contra hsome
      obtain ⟨rc, hrc⟩ := ne_none_iff_exists'.mp hsome
      obtain ⟨v, hgv, hvpos, -⟩ := get_lane hrc
      have hm : (cls, v) ∈ classReserve.rows := Table.get_eq_some_iff.mp hgv
      have hle' : v.toNat ≤ reservedTotal classReserve :=
        @Lib.le_total _ (fun r => r.2.toNat) _ _ hm
      have : 0 < v.toNat := UInt32.lt_iff_toNat_lt.mp hvpos
      omega
  case general =>
    intro hl
    exact ⟨_, if_pos (hpos hl), rfl⟩
  case sizes =>
    intro cls rc hg
    obtain ⟨v, -, -, hlim, hsem, -⟩ := get_lane hg
    rw [hsem, hlim]
    rfl
  case room =>
    intro hl name
    rcases room_of_valid hl hv name with hfit | ⟨cls, v, hcls, hgv, hvpos, hfit⟩
    · exact .inl hfit
    · refine .inr ⟨cls, { semaphore := .new v.toNat, limit := v, waiting := 0 }, hcls, ?_, hfit⟩
      show (classReserve.filterMap HostVerificationAdmission.reservedClass).get cls = _
      rw [Table.get_filterMap, hgv]
      exact if_pos hvpos
  case shares =>
    intro _
    show (h.limit - reservedTotal32 classReserve).toNat + total _ (List.filterMap _ _) = h.limit.toNat
    rw [total_lanes, hsub]
    show h.limit.toNat - reservedTotal classReserve + reservedTotal classReserve = h.limit.toNat
    omega
  case free =>
    intro lane sem hp
    cases lane with
    | general =>
      obtain ⟨-, hsem⟩ := ite_none_right_eq_some.mp hp
      cases hsem
      rfl
    | reserved cls =>
      obtain ⟨rc, hg, rfl⟩ := map_eq_some_iff.mp hp
      obtain ⟨v, -, -, -, hsem, -⟩ := get_lane hg
      rw [hsem]
      rfl
  case idle =>
    intro lane
    cases lane with
    | general => exact hidle
    | reserved cls =>
      show (Option.map ReservedClass.waiting
        ((classReserve.filterMap HostVerificationAdmission.reservedClass).get cls)).getD 0 = 0
      cases hc : (classReserve.filterMap HostVerificationAdmission.reservedClass).get cls with
      | none => rfl
      | some rc =>
        obtain ⟨v, -, -, -, -, hwait⟩ := get_lane hc
        exact hwait

end

end RatKingdom.Verification
