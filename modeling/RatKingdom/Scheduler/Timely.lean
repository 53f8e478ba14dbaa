/-
The texts of the schedules, and what is dispatched.

Over every run, whatever fails in it, a dispatch is for a minute that the text of its schedule
names, after the first cursor and within the look-back of its cycle.
-/
import RatKingdom.Scheduler.Meaning
import RatKingdom.Scheduler.Minutes

namespace RatKingdom.Schedules

open Core Lib List

structure Timely (schedules : List (Loaded × String)) (s : Scheduler) (cursor : Option Int)
    (x : Dispatch) : Prop where
  named : ∃ e, s.parsed[x.index]? = some e ∧ ∃ text expr, (e.1, text) ∈ schedules ∧
    Cron.Reads text expr ∧ expr.pointed.Holds (x.minute * 60 * DateTime.nanosPerSecond)
  unpassed : ∀ c, cursor = some c → c < x.minute
  recent : x.cycle - s.catchup ≤ x.minute ∧ x.minute ≤ x.cycle

/-- The cursor has not gone back behind a minute.  One that was lost was lost by a cycle past
it. -/
def Diary.Forward (d : Diary) (c₀ : Int) : Prop :=
  (∃ c, d.st.cursor = some c ∧ c₀ ≤ c) ∨
    d.st.cursor = none ∧ ∃ t, d.lastNow = some t ∧ c₀ < minuteOf t

structure OnTime (schedules : List (Loaded × String)) (s : Scheduler) (cursor : Option Int)
    (d : Diary) : Prop where
  forward : ∀ c₀, cursor = some c₀ → d.Forward c₀
  log : ∀ x ∈ d.log, Timely schedules s cursor x

section
variable {schedules : List (Loaded × String)} {s : Scheduler} {cursor : Option Int}
  {d d' : Diary} {cy : Cycle} {start : Int}

theorem start_spec {nowMin m : Int} (hs : s.start cursor nowMin = some start)
    (hm : m ∈ minutes start nowMin) :
    (nowMin - s.catchup ≤ m ∧ m ≤ nowMin) ∧ ∀ c, cursor = some c → c < m := by
  obtain ⟨hlow, hhigh⟩ := mem_minutes.mp hm
  cases cursor with
  | none =>
    cases hs
    exact ⟨⟨by omega, hhigh⟩, nofun⟩
  | some c =>
    simp only [Scheduler.start] at hs
    split at hs
    · cases hs
    · cases hs
      refine ⟨⟨by omega, hhigh⟩, fun c' hc => ?_⟩
      cases hc
      omega

theorem forward_past {c₀ : Int} (h : d.Forward c₀) (ht : d.lastNow.all (fun t => t ≤ cy.now) = true)
    {m : Int} (hs : s.start d.st.cursor (minuteOf cy.now) = some start)
    (hm : m ∈ minutes start (minuteOf cy.now)) : c₀ < m := by
  rcases h with ⟨c, hc, hle⟩ | ⟨hc, t, hl, hlt⟩
  · exact Int.lt_of_le_of_lt hle ((start_spec hs hm).2 c hc)
  · rw [hl] at ht
    rw [hc] at hs
    cases hs
    have hmono := minuteOf_le (of_decide_eq_true ht)
    have hlow := (mem_minutes.mp hm).1
    omega

theorem Diary.Forward.later {c₀ : Int} (h : d.Forward c₀)
    (ht : d.lastNow.all (fun t => t ≤ cy.now) = true) :
    Diary.Forward { d with lastNow := some cy.now } c₀ := by
  rcases h with h | ⟨hc, t, hl, hlt⟩
  · exact .inl h
  · rw [hl] at ht
    exact .inr ⟨hc, cy.now, rfl, Int.lt_of_lt_of_le hlt (minuteOf_le (of_decide_eq_true ht))⟩

theorem forward_cycle {repos : Repos} {lp : Loop} {c₀ : Int} (panicked : Bool)
    {log latest : List Dispatch} {cycles : List Int} (hsound : Sound s d.st repos cy start lp)
    (h : d.Forward c₀) (ht : d.lastNow.all (fun t => t ≤ cy.now) = true)
    (hs : s.start d.st.cursor (minuteOf cy.now) = some start) :
    Diary.Forward ⟨if panicked then lp.st else (lp.finish d.st.cursor cy).2, some cy.now, log,
      latest, cycles⟩ c₀ := by
  have hpast : ∀ m ∈ minutes start (minuteOf cy.now), c₀ < m := fun m => forward_past h ht hs
  have hnow : c₀ < minuteOf cy.now := by
    apply hpast
    apply mem_minutes.mpr
    cases hc : d.st.cursor with
    | none =>
      rw [hc] at hs
      cases hs
      exact ⟨Int.le_refl _, Int.le_refl _⟩
    | some c =>
      rw [hc, Scheduler.start] at hs
      obtain ⟨hlt, hs⟩ := Option.ite_none_left_eq_some.mp hs
      cases hs
      omega
  have hadvance : c₀ ≤ lp.advanceTo (minuteOf cy.now) := by
    unfold Loop.advanceTo
    cases hm : lp.failedMinute with
    | none => exact Int.le_of_lt hnow
    | some m => exact Int.le_sub_one_of_lt (hpast m (hsound.failed m hm))
  have hkeep : ∀ st : State, st.cursor = d.st.cursor →
      Diary.Forward ⟨st, some cy.now, log, latest, cycles⟩ c₀ := by
    intro st hst
    rcases h.later ht with ⟨c, hc, hle⟩ | ⟨hc, hl⟩
    · exact .inl ⟨c, hst.trans hc, hle⟩
    · exact .inr ⟨hst.trans hc, hl⟩
  cases panicked with
  | true => exact hkeep _ hsound.cursor
  | false =>
    rcases finish_cursor cy hsound.cursor with hold | hn | hnew
    · exact hkeep _ hold
    · exact .inr ⟨hn, cy.now, rfl, hnow⟩
    · exact .inl ⟨_, hnew, hadvance⟩

theorem onTime_cycle (hload : Cron.loadCrons schedules = .ok s.parsed)
    (ht : d.lastNow.all (fun t => t ≤ cy.now) = true) (h : OnTime schedules s cursor d) :
    OnTime schedules s cursor (s.cycle d cy) := by
  have hidle : OnTime schedules s cursor { d with lastNow := some cy.now } :=
    ⟨fun c₀ hc₀ => (h.forward c₀ hc₀).later ht, h.log⟩
  cases hs : s.start d.st.cursor (minuteOf cy.now) with
  | none =>
    simp only [Scheduler.cycle, hs]
    exact hidle
  | some start =>
    cases hr : cy.registry with
    | none =>
      simp only [Scheduler.cycle, hs, hr]
      exact hidle
    | some repos =>
      have hsound := sound_evaluate s d.st repos cy start
      rw [cycle_eq hs hr]
      constructor
      · intro c₀ hc₀
        exact forward_cycle _ hsound (h.forward c₀ hc₀) ht hs
      · intro x hx
        rcases mem_append.mp hx with hx | hx
        · exact h.log x hx
        obtain ⟨hcycle, hmin, e, he, hcron, -⟩ := hsound.entry x hx
        have hrecent := (start_spec hs hmin).1
        obtain ⟨text, expr, hm, hreads, hholds⟩ :=
          Cron.mem_loadCrons hload (l := e.1) (mem_of_getElem? he)
        refine ⟨⟨e, he, text, expr, hm, hreads, (hholds _).mp hcron⟩, ?_, hcycle ▸ hrecent⟩
        exact fun c₀ hc₀ => forward_past (h.forward c₀ hc₀) ht hs hmin

theorem onTime_step (hload : Cron.loadCrons schedules = .ok s.parsed) {m : Move}
    (h : OnTime schedules s cursor d) (hs : s.step d m = some d') :
    OnTime schedules s cursor d' := by
  cases m with
  | cycle cy =>
    obtain ⟨ht, hs⟩ := Option.ite_none_right_eq_some.mp hs
    cases hs
    exact onTime_cycle hload ht h
  | settle id status | archive id | restart =>
    cases hs
    exact ⟨h.forward, h.log⟩
  | other i =>
    cases hs
    refine ⟨fun c hc => ?_, h.log⟩
    rw [Diary.Forward, storeIfAbsent_cursor]
    exact h.forward c hc

end

def hourlyTexts : List (Loaded × String) := [(⟨⟨"drain", "drain", some "rat", []⟩, none⟩, "0 * * * *")]

end RatKingdom.Schedules
