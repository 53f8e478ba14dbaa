/-
The admission window of a landing candidate over any sequence of charges and readings.

The window counts on two clocks.  The boot clock bounds what is left by the budget; the wall
clock may be set back, and a reading that sees it behind the last observation ends the
window.  `charge` sees the same step and goes on, and a window whose deadline no instant can
hold panics where it is made (`admission_kept_iff`).
-/
import RatKingdom.Landing.Pipeline
import RatKingdom.Lib.Run

namespace RatKingdom.Landing

open Lib Core Option

def maxUtc : DateTime := 8210266876799 * DateTime.nanosPerSecond + 999999999

def minUtc : DateTime := -8334601315200 * DateTime.nanosPerSecond

/-- `chrono::Duration::MAX`: as many milliseconds as an `i64` holds. -/
def maxDuration : Nat := (2 ^ 63 - 1) * 1000000

/-- `now + chrono::Duration::from_std(d).unwrap_or(chrono::Duration::MAX)`, which panics where
no instant holds the sum. -/
def plusStd (now : DateTime) (d : Nat) : Option DateTime :=
  if minUtc ≤ now + min d maxDuration ∧ now + min d maxDuration ≤ maxUtc then
    some (now + min d maxDuration)
  else none

namespace AdmissionWindow

/-- `Duration::from_secs` of what `parse_duration` reads. -/
def budgetNanos (secs : UInt64) : Nat := secs.toNat * 1000000000

/-- `AdmissionWindow::new`: nothing where the deadline overflows. -/
def construct (secs : UInt64) (at_ : Reading) : Option AdmissionWindow :=
  (plusStd at_.now (budgetNanos secs)).map fun deadline =>
    { AdmissionWindow.new (budgetNanos secs) at_ with deadline }

/-- `charge`: nothing where the new deadline overflows. -/
def charged (w : AdmissionWindow) (elapsed : Nat) (now : DateTime) : Option AdmissionWindow :=
  (plusStd now ((w.deadline - w.observedAt).toNat - elapsed)).map fun deadline =>
    { w with deadline := min w.deadline deadline, observedAt := max w.observedAt now }

/-- The window as it is stored: two fields may be missing from an older record. -/
structure Stored where
  clock : Option (Option BootClock)
  deadlineNanos : Option Nat
  startedAt : DateTime
  deadline : DateTime
  observedAt : DateTime

def serialize (w : AdmissionWindow) : Stored :=
  { clock := some w.clock, deadlineNanos := some w.deadlineNanos, startedAt := w.startedAt
    deadline := w.deadline, observedAt := w.observedAt }

def deserialize (s : Stored) : AdmissionWindow :=
  { clock := s.clock.getD none, deadlineNanos := s.deadlineNanos.getD 0, startedAt := s.startedAt
    deadline := s.deadline, observedAt := s.observedAt }

def Accepts (w : AdmissionWindow) (clock : Option BootClock) : Prop :=
  ∃ anchor current, w.clock = some anchor ∧ clock = some current ∧ anchor.boot = current.boot ∧
    anchor.nanos ≤ current.nanos

def Spent (w : AdmissionWindow) : Prop :=
  w.deadline ≤ w.observedAt ∨ ∀ anchor, w.clock = some anchor → w.deadlineNanos ≤ anchor.nanos

theorem deserialize_serialize (w : AdmissionWindow) : deserialize (serialize w) = w := rfl

variable {w : AdmissionWindow} {r : Reading}

theorem remainingAt_of_not_accepts (h : ¬ w.Accepts r.clock) : w.remainingAt r = (0, w) := by
  unfold remainingAt
  cases hw : w.clock with
  | none => rfl
  | some anchor =>
    cases hr : r.clock with
    | none => rfl
    | some current =>
      dsimp only
      rw [if_pos]
      by_contra hno
      push Not at hno
      exact h ⟨anchor, current, hw, hr, hno.1, hno.2⟩

theorem remainingAt_of_accepts {anchor current : BootClock} (hw : w.clock = some anchor)
    (hr : r.clock = some current) (hboot : anchor.boot = current.boot)
    (hle : anchor.nanos ≤ current.nanos) :
    w.remainingAt r =
      if r.now < w.observedAt then (0, { w with deadline := min w.deadline w.observedAt })
      else (min (w.deadlineNanos - current.nanos) (w.deadline - r.now).toNat,
        { w with observedAt := r.now }) := by
  have hno : ¬ (anchor.boot ≠ current.boot ∨ current.nanos < anchor.nanos) := by
    intro h
    rcases h with h | h
    · exact h hboot
    · omega
  simp only [remainingAt, hw, hr, if_neg hno]

theorem remainingAt_foreign (h : ¬ w.Accepts r.clock) : (w.remainingAt r).1 = 0 := by
  rw [remainingAt_of_not_accepts h]

theorem remainingAt_le (w : AdmissionWindow) (r : Reading) {current : BootClock}
    (hr : r.clock = some current) : (w.remainingAt r).1 ≤ w.deadlineNanos - current.nanos := by
  by_cases h : w.Accepts r.clock
  · obtain ⟨anchor, current', hw, hr', hboot, hle⟩ := h
    rw [hr] at hr'
    cases hr'
    rw [remainingAt_of_accepts hw hr hboot hle]
    split
    · exact Nat.zero_le _
    · exact Nat.min_le_left _ _
  · rw [remainingAt_foreign h]
    exact Nat.zero_le _

theorem spent_iff (w : AdmissionWindow) : w.Spent ↔ ∀ r, (w.remainingAt r).1 = 0 := by
  constructor
  · intro hspent r
    by_cases h : w.Accepts r.clock
    · obtain ⟨anchor, current, hw, hr, hboot, hle⟩ := h
      rw [remainingAt_of_accepts hw hr hboot hle]
      split
      · rfl
      · rename_i hnow
        show min (w.deadlineNanos - current.nanos) (w.deadline - r.now).toNat = 0
        rcases hspent with hdead | hclock
        · have hover : (w.deadline - r.now).toNat = 0 := by
            have hnow' : w.observedAt ≤ r.now := Int.not_lt.mp hnow
            exact Int.toNat_eq_zero.mpr (Int.sub_nonpos_of_le (Int.le_trans hdead hnow'))
          rw [hover, Nat.min_zero]
        · have hnanos := hclock anchor hw
          omega
    · exact remainingAt_foreign h
  · intro hzero
    by_contra hno
    rw [Spent, not_or] at hno
    push Not at hno
    obtain ⟨hl, anchor, hw, hnanos⟩ := hno
    have hread := hzero ⟨w.observedAt, some anchor⟩
    rw [remainingAt_of_accepts hw rfl rfl (Nat.le_refl _), if_neg (Int.lt_irrefl _)] at hread
    have hleft : 0 < (w.deadline - w.observedAt).toNat :=
      Int.pos_iff_toNat_pos.mp (Int.sub_pos_of_lt hl)
    have hpos : 0 < w.deadlineNanos - anchor.nanos := Nat.sub_pos_of_lt hnanos
    have hread' : min (w.deadlineNanos - anchor.nanos) (w.deadline - w.observedAt).toNat = 0 := hread
    omega

def leftAfter (w : AdmissionWindow) (elapsed : Nat) : Nat :=
  min ((w.deadline - w.observedAt).toNat - elapsed) maxDuration

variable {w' : AdmissionWindow} {elapsed : Nat} {now : DateTime}

theorem charged_some (h : w.charged elapsed now = some w') :
    w' = { w with
      deadline := min w.deadline (now + w.leftAfter elapsed)
      observedAt := max w.observedAt now } := by
  obtain ⟨deadline, hd, hw⟩ := map_eq_some_iff.mp h
  unfold plusStd at hd
  split at hd
  · cases hd
    exact hw.symm
  · cases hd

/-- No call moves the deadline on or the last observation back, or touches the boot clock. -/
structure Later (w w' : AdmissionWindow) : Prop where
  clock : w'.clock = w.clock
  nanos : w'.deadlineNanos = w.deadlineNanos
  deadline : w'.deadline ≤ w.deadline
  observed : w.observedAt ≤ w'.observedAt

theorem later_charged (h : w.charged elapsed now = some w') : Later w w' := by
  rw [charged_some h]
  exact ⟨rfl, rfl, Int.min_le_left _ _, Int.le_max_left _ _⟩

theorem later_remainingAt (w : AdmissionWindow) (r : Reading) : Later w (w.remainingAt r).2 := by
  by_cases h : w.Accepts r.clock
  · obtain ⟨anchor, current, hw, hr, hboot, hle⟩ := h
    rw [remainingAt_of_accepts hw hr hboot hle]
    split
    · exact ⟨rfl, rfl, Int.min_le_left _ _, Int.le_refl _⟩
    · rename_i hnow
      exact ⟨rfl, rfl, Int.le_refl _, Int.not_lt.mp hnow⟩
  · rw [remainingAt_of_not_accepts h]
    exact ⟨rfl, rfl, Int.le_refl _, Int.le_refl _⟩

theorem Spent.later (h : w.Spent) (hl : Later w w') : w'.Spent := by
  rcases h with h | h
  · exact .inl (Int.le_trans hl.deadline (Int.le_trans h hl.observed))
  · refine .inr fun anchor ha => ?_
    rw [hl.nanos]
    exact h anchor (hl.clock ▸ ha)

theorem charged_spent_iff (h : w.charged elapsed now = some w') (hback : now < w.observedAt) :
    w'.Spent ↔ w.Spent ∨ now + w.leftAfter elapsed ≤ w.observedAt := by
  constructor
  · intro hspent
    rw [charged_some h, Spent] at hspent
    dsimp only at hspent
    rcases hspent with hdead | hclock
    · rw [Int.max_eq_left (Int.le_of_lt hback)] at hdead
      rcases Int.le_total w.deadline (now + w.leftAfter elapsed) with hle | hle
      · rw [Int.min_eq_left hle] at hdead
        exact .inl (.inl hdead)
      · rw [Int.min_eq_right hle] at hdead
        exact .inr hdead
    · exact .inl (.inr hclock)
  · intro hcase
    rcases hcase with hspent | hleft
    · exact hspent.later (later_charged h)
    · rw [charged_some h]
      exact .inl (Int.le_trans (Int.min_le_right _ _) (Int.le_trans hleft (Int.le_max_left _ _)))

theorem remainingAt_spent_iff (hback : r.now < w.observedAt) :
    (w.remainingAt r).2.Spent ↔ w.Spent ∨ w.Accepts r.clock := by
  by_cases h : w.Accepts r.clock
  · refine iff_of_true ?_ (.inr h)
    obtain ⟨anchor, current, hw, hr, hboot, hle⟩ := h
    rw [remainingAt_of_accepts hw hr hboot hle, if_pos hback]
    exact .inl (Int.min_le_right _ _)
  · rw [remainingAt_of_not_accepts h]
    exact (or_iff_left h).symm

end AdmissionWindow

open AdmissionWindow

structure AdmissionRun where
  window : AdmissionWindow
  /-- The deadlines so far, the latest first. -/
  deadlines : List DateTime
  back : Bool

open AdmissionRun

inductive AdmissionCall where
  | charge (elapsed : Nat) (now : DateTime)
  | remainingAt (r : Reading)
  | reload

namespace AdmissionRun

def start (w : AdmissionWindow) : AdmissionRun :=
  { window := w, deadlines := [w.deadline], back := false }

def next (s : AdmissionRun) (w : AdmissionWindow) (back : Bool) : AdmissionRun :=
  { window := w, deadlines := w.deadline :: s.deadlines, back := s.back || back }

def step (s : AdmissionRun) : AdmissionCall → Option AdmissionRun
  | .charge elapsed now =>
    (s.window.charged elapsed now).map fun w => s.next w (now < s.window.observedAt)
  | .remainingAt r => some (s.next (s.window.remainingAt r).2 (r.now < s.window.observedAt))
  | .reload =>
    some (s.next (deserialize (serialize s.window)) false)

end AdmissionRun

/-- What a window made of a budget gives away in a state of a run. -/
structure Budgeted (secs : UInt64) (at_ : Reading) (s : AdmissionRun) : Prop where
  deadline : s.deadlines.Pairwise (· ≤ ·)
  bounded : ∀ anchor r current, at_.clock = some anchor → r.clock = some current →
    current.boot = anchor.boot → (s.window.remainingAt r).1 ≤
      anchor.nanos + budgetNanos secs - current.nanos
  foreign : ∀ r, (∀ anchor current, at_.clock = some anchor → r.clock = some current →
    current.boot ≠ anchor.boot ∨ current.nanos < anchor.nanos) → (s.window.remainingAt r).1 = 0
  ended : s.back = true → ∀ r, (s.window.remainingAt r).1 = 0

/-- The window is made, and gives away no more than its budget along the calls. -/
def AdmissionKept (secs : UInt64) (at_ : Reading) (calls : List AdmissionCall) : Prop :=
  ∃ w, construct secs at_ = some w ∧
    Keeps step (Budgeted secs at_) (start w) calls

/-- A call that sees the wall clock set back is a reading of the boot of the window, or
nothing is left of the window after it. -/
def Noticed (s : AdmissionRun) : AdmissionCall → Prop
  | .charge elapsed now => now < s.window.observedAt →
    s.window.Spent ∨ now + s.window.leftAfter elapsed ≤ s.window.observedAt
  | .remainingAt r => r.now < s.window.observedAt → s.window.Spent ∨ s.window.Accepts r.clock
  | .reload => True

structure AdmissionInv (secs : UInt64) (at_ : Reading) (s : AdmissionRun) : Prop where
  clock : s.window.clock = at_.clock
  nanos : ∀ anchor, at_.clock = some anchor →
    s.window.deadlineNanos ≤ anchor.nanos + budgetNanos secs
  deadline : s.deadlines.Pairwise (· ≤ ·)
  latest : ∀ d ∈ s.deadlines, s.window.deadline ≤ d
  ended : s.back = true → s.window.Spent

section
variable {secs : UInt64} {at_ : Reading} {s s' : AdmissionRun}

theorem admissionInv_start {w : AdmissionWindow}
    (hw : construct secs at_ = some w) :
    AdmissionInv secs at_ (start w) := by
  obtain ⟨deadline, -, hw⟩ := map_eq_some_iff.mp hw
  subst hw
  refine ⟨rfl, fun anchor ha => ?_, List.pairwise_singleton _ _, fun d hd => ?_, fun h => ?_⟩
  · simp only [start, new, ha]
    show min (anchor.nanos + min (budgetNanos secs) (u64 - 1)) (u64 - 1) ≤ _
    omega
  · rw [List.mem_singleton.mp hd]
    exact Int.le_refl _
  · cases h

theorem AdmissionInv.budgeted (h : AdmissionInv secs at_ s) : Budgeted secs at_ s := by
  refine ⟨h.deadline, fun anchor r current ha hr _ => ?_, fun r hforeign => ?_, fun hb => ?_⟩
  · have hle := remainingAt_le s.window r hr
    have hnanos := h.nanos anchor ha
    omega
  · refine remainingAt_foreign fun ⟨anchor, current, ha, hr, hboot, hle⟩ => ?_
    rw [h.clock] at ha
    rcases hforeign anchor current ha hr with hne | hlt
    · exact hne hboot.symm
    · omega
  · exact (spent_iff s.window).mp (h.ended hb)

theorem AdmissionInv.next (h : AdmissionInv secs at_ s) {w : AdmissionWindow} {back : Bool}
    (hl : AdmissionWindow.Later s.window w) (hback : back = true → w.Spent) :
    AdmissionInv secs at_ (s.next w back) := by
  have hall : ∀ d ∈ s.deadlines, w.deadline ≤ d :=
    fun d hd => Int.le_trans hl.deadline (h.latest d hd)
  refine ⟨hl.clock.trans h.clock, fun anchor ha => ?_, List.pairwise_cons.mpr ⟨hall, h.deadline⟩,
    List.forall_mem_cons.mpr ⟨Int.le_refl _, hall⟩, fun hb => ?_⟩
  · show w.deadlineNanos ≤ _
    rw [hl.nanos]
    exact h.nanos anchor ha
  · have hb' : (s.back || back) = true := hb
    rcases Bool.or_eq_true_iff.mp hb' with hold | hnew
    · exact (h.ended hold).later hl
    · exact hback hnew

theorem admissionInv_step {call : AdmissionCall} (h : AdmissionInv secs at_ s)
    (hs : s.step call = some s') (hn : Noticed s call) : AdmissionInv secs at_ s' := by
  cases call with
  | charge elapsed now =>
    obtain ⟨w, hw, rfl⟩ := map_eq_some_iff.mp hs
    refine h.next (later_charged hw) fun hback => ?_
    have hlt := of_decide_eq_true hback
    exact (charged_spent_iff hw hlt).mpr (hn hlt)
  | remainingAt r =>
    cases hs
    refine h.next (later_remainingAt s.window r) fun hback => ?_
    have hlt := of_decide_eq_true hback
    exact (remainingAt_spent_iff hlt).mpr (hn hlt)
  | reload =>
    cases hs
    rw [deserialize_serialize]
    exact h.next ⟨rfl, rfl, Int.le_refl _, Int.le_refl _⟩ nofun

theorem noticed_of_budgeted {call : AdmissionCall} (hs : s.step call = some s')
    (hp : Budgeted secs at_ s') : Noticed s call := by
  cases call with
  | charge elapsed now =>
    intro hlt
    obtain ⟨w, hw, rfl⟩ := map_eq_some_iff.mp hs
    have hback : (s.next w (now < s.window.observedAt)).back = true := by
      show (s.back || decide (now < s.window.observedAt)) = true
      rw [decide_eq_true hlt, Bool.or_true]
    exact (charged_spent_iff hw hlt).mp
      ((spent_iff w).mpr (hp.ended hback))
  | remainingAt r =>
    intro hlt
    cases hs
    have hback : (s.next (s.window.remainingAt r).2 (r.now < s.window.observedAt)).back = true := by
      show (s.back || decide (r.now < s.window.observedAt)) = true
      rw [decide_eq_true hlt, Bool.or_true]
    exact (remainingAt_spent_iff hlt).mp
      ((spent_iff (s.window.remainingAt r).2).mpr (hp.ended hback))
  | reload => trivial

end

/-- A window is kept to its budget along every sequence of calls exactly where an instant
holds its deadline and no call lets a wall clock pass that was set back. -/
theorem admission_kept_iff (secs : UInt64) (at_ : Reading) (calls : List AdmissionCall) :
    AdmissionKept secs at_ calls ↔
      ∃ deadline, plusStd at_.now (budgetNanos secs) = some deadline ∧
        Meets step Noticed (start
            { new (budgetNanos secs) at_ with deadline }) calls := by
  have hrun : ∀ w, construct secs at_ = some w →
      (Keeps step (Budgeted secs at_) (.start w) calls ↔
        Meets step Noticed (.start w) calls) := by
    intro w hw
    exact keeps_iff_meets_of_guarded (fun _ _ _ hi hs hn => admissionInv_step hi hs hn)
      (fun _ hi => hi.budgeted) (fun _ _ _ _ hs hp => noticed_of_budgeted hs hp)
      (admissionInv_start hw)
  constructor
  · intro h
    obtain ⟨w, hw, hkeeps⟩ := h
    have hmeets := (hrun w hw).mp hkeeps
    obtain ⟨deadline, hd, hw⟩ := map_eq_some_iff.mp hw
    subst hw
    exact ⟨deadline, hd, hmeets⟩
  · intro h
    obtain ⟨deadline, hd, hmeets⟩ := h
    have hw : construct secs at_ = some { new
        (budgetNanos secs) at_ with deadline } :=
      map_eq_some_iff.mpr ⟨deadline, hd, rfl⟩
    exact ⟨_, hw, (hrun _ hw).mpr hmeets⟩

/-- The largest budget that is read has no deadline. -/
theorem not_admissionKept :
    ¬ AdmissionKept 18446744073709551615 ⟨1788000000000000000, none⟩ [] := by
  intro h
  obtain ⟨w, hw, -⟩ := h
  have hn : construct 18446744073709551615 ⟨1788000000000000000, none⟩ =
      none := by
    decide +kernel
  rw [hn] at hw
  cases hw

end RatKingdom.Landing
