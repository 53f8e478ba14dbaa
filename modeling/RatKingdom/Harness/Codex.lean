/-
The token counts of a Codex session.

A Codex event carries the totals of its session.  `post_process` turns the totals of one
launch into differences and knows nothing of an earlier launch, so a launch that resumes a
session counts again what the earlier ones have reported: `counts_once_iff`.
-/
import RatKingdom.Harness.Runner
import RatKingdom.Telemetry.Span

namespace RatKingdom.Harness

open Core List
open Supervisor (TokenUsage)

namespace Codex

def count (value : Value) (key : String) : Nat := ((value.get key).bind Telemetry.asU64).getD 0

def usageFrom (value : Value) : TokenUsage :=
  { input := count value "input_tokens"
    output := count value "output_tokens" + count value "reasoning_output_tokens"
    cacheRead := count value "cached_input_tokens" }

/-- What `post_process` keeps over a launch. -/
structure PostProcess where
  prevCumulative : Option TokenUsage := none
  total : TokenUsage := {}
  lastText : Option String := none
  sessionId : Option String := none
  completed : Bool := false

def delta (prevCumulative : Option TokenUsage) (cumulative : TokenUsage) : TokenUsage :=
  match prevCumulative with
  | none => cumulative
  | some prev =>
    if prev.input ≤ cumulative.input then
      { input := cumulative.input - prev.input
        output := cumulative.output - prev.output
        cacheRead := cumulative.cacheRead - prev.cacheRead }
    else cumulative

namespace PostProcess

/-- One turn of the loop: the state after it, and the events sent on. -/
def turn (s : PostProcess) : HarnessEvent → PostProcess × List HarnessEvent
  | .started sid => ({ s with sessionId := sid }, [.started sid])
  | .assistantText text => ({ s with lastText := some text }, [.assistantText text])
  | .usage cumulative =>
    let d := delta s.prevCumulative cumulative
    ({ s with prevCumulative := some cumulative, total := s.total.add d }, [.usage d])
  | .exited code =>
    let done := .completed (s.lastText.getD "") false s.total none s.sessionId
    (s, if !s.completed && code = some 0 then [done, .exited code] else [.exited code])
  | .completed result isError usage costUsd sessionId =>
    ({ s with completed := true }, [.completed result isError usage costUsd sessionId])
  | other => (s, [other])

def process (s : PostProcess) : List HarnessEvent → List HarnessEvent
  | [] => []
  | event :: events => (s.turn event).2 ++ (s.turn event).1.process events

end PostProcess

/-- What the parser and the runner hand to `post_process` before the exit. -/
def Parsed : HarnessEvent → Prop
  | .usage u => ∃ value, u = usageFrom value
  | .completed .. => False
  | .exited _ => False
  | _ => True

structure Launch where
  events : List HarnessEvent
  code : Option Int
  parsed : ∀ e ∈ events, Parsed e

def Launch.stream (l : Launch) : List HarnessEvent :=
  PostProcess.process {} (l.events ++ [.exited l.code])

def usage? : HarnessEvent → Option TokenUsage
  | .usage u => some u
  | _ => none

def completed? : HarnessEvent → Option TokenUsage
  | .completed _ _ u _ _ => some u
  | _ => none

def usages (events : List HarnessEvent) : List TokenUsage := events.filterMap usage?

def sum (us : List TokenUsage) : TokenUsage := us.foldl TokenUsage.add {}

/-- The deltas of all launches add up to the last total of the session, and those of each
launch to what its completion carries. -/
structure CountsOnce (launches : List Launch) : Prop where
  emitted : sum (launches.flatMap fun l => usages l.stream) =
    (launches.flatMap fun l => usages l.events).getLastD {}
  completed : ∀ l ∈ launches, ∀ e ∈ l.stream, ∀ u, completed? e = some u → u = sum (usages l.stream)

/-- No field decreases. -/
structure Le (a b : TokenUsage) : Prop where
  input : a.input ≤ b.input
  output : a.output ≤ b.output
  cacheRead : a.cacheRead ≤ b.cacheRead

/-- The fields Codex does not report. -/
structure Bare (u : TokenUsage) : Prop where
  cacheCreation : u.cacheCreation = 0
  cacheCreation5m : u.cacheCreation5m = 0
  cacheCreation1h : u.cacheCreation1h = 0

theorem bare_usageFrom (value : Value) : Bare (usageFrom value) := ⟨rfl, rfl, rfl⟩

variable {a b : TokenUsage}

theorem ext_bare (ha : Bare a) (hb : Bare b) (h : Le a b) (h' : Le b a) : a = b := by
  cases a
  cases b
  obtain ⟨h₁, h₂, h₃⟩ := h
  obtain ⟨h₁', h₂', h₃'⟩ := h'
  obtain ⟨h₄, h₅, h₆⟩ := ha
  obtain ⟨h₄', h₅', h₆'⟩ := hb
  simp only [TokenUsage.mk.injEq] at *
  omega

def deltas : Option TokenUsage → List TokenUsage → List TokenUsage
  | _, [] => []
  | prev, u :: us => delta prev u :: deltas (some u) us

theorem process_spec {events : List HarnessEvent} (hp : ∀ e ∈ events, Parsed e) (code : Option Int)
    (s : PostProcess) :
    usages (s.process (events ++ [Supervisor.HarnessEvent.exited code])) =
      deltas s.prevCumulative (usages events) ∧
      ∀ e ∈ s.process (events ++ [Supervisor.HarnessEvent.exited code]), ∀ u, completed? e = some u →
        u = (deltas s.prevCumulative (usages events)).foldl TokenUsage.add s.total := by
  induction events generalizing s with
  | nil =>
    show usages ((s.turn (.exited code)).2 ++ []) = [] ∧ ∀ e ∈ (s.turn (.exited code)).2 ++ [], _
    rw [append_nil, PostProcess.turn]
    dsimp only
    split
    · refine ⟨rfl, fun e he u hu => ?_⟩
      rcases mem_cons.mp he with rfl | he
      · exact (Option.some.inj hu).symm
      · rw [mem_singleton.mp he] at hu
        cases hu
    · refine ⟨rfl, fun e he u hu => ?_⟩
      rw [mem_singleton.mp he] at hu
      cases hu
  | cons event events ih =>
    have hrest := ih fun e he => hp e (mem_cons_of_mem _ he)
    have hfirst := hp event mem_cons_self
    have hone : ∀ {t : PostProcess} {d : HarnessEvent}, s.turn event = (t, [d]) →
        s.process (event :: events ++ [.exited code]) =
          d :: t.process (events ++ [Supervisor.HarnessEvent.exited code]) := by
      intro t d h
      show (s.turn event).2 ++ (s.turn event).1.process _ = _
      rw [h]
      rfl
    cases event with
    | completed result isError usage costUsd sessionId => exact hfirst.elim
    | exited code => exact hfirst.elim
    | usage u =>
      rw [hone rfl]
      exact ⟨congrArg _ (hrest _).1, fun e he => (mem_cons.mp he).elim
        (fun h u hu => by rw [h] at hu; cases hu) ((hrest _).2 e)⟩
    | started x | assistantText x | toolUse x | stderr x | retry x y | controlDelivered x
    | transportFailure x =>
      rw [hone rfl]
      exact ⟨(hrest _).1, fun e he => (mem_cons.mp he).elim
        (fun h u hu => by rw [h] at hu; cases hu) ((hrest _).2 e)⟩

theorem foldl_add (us : List TokenUsage) (a : TokenUsage) :
    us.foldl TokenUsage.add a = a.add (sum us) := by
  induction us generalizing a with
  | nil => rfl
  | cons u us ih =>
    have hsum : sum (u :: us) = (TokenUsage.add {} u).add (sum us) := ih _
    rw [foldl_cons, ih, hsum]
    simp [TokenUsage.add, Nat.add_assoc]

theorem zero_add' (a : TokenUsage) : TokenUsage.add {} a = a := by
  simp [TokenUsage.add]

theorem add_delta (ha : Bare a) (hb : Bare b) (h : Le a b) : a.add (delta (some a) b) = b := by
  rw [delta, if_pos h.input]
  refine ext_bare ⟨ha.cacheCreation, ha.cacheCreation5m, ha.cacheCreation1h⟩ hb ?_ ?_
  · exact ⟨(Nat.add_sub_cancel' h.input).le, (Nat.add_sub_cancel' h.output).le,
      (Nat.add_sub_cancel' h.cacheRead).le⟩
  · exact ⟨(Nat.add_sub_cancel' h.input).ge, (Nat.add_sub_cancel' h.output).ge,
      (Nat.add_sub_cancel' h.cacheRead).ge⟩

variable {us : List TokenUsage}

theorem foldl_deltas (hb : ∀ u ∈ a :: us, Bare u) (hm : (a :: us).Pairwise Le) :
    (deltas (some a) us).foldl TokenUsage.add a = us.getLastD a := by
  induction us generalizing a with
  | nil => rfl
  | cons u us ih =>
    obtain ⟨hle, hrest⟩ := pairwise_cons.mp hm
    rw [deltas, foldl_cons, add_delta (hb a mem_cons_self) (hb u (by simp)) (hle u mem_cons_self),
      ih (fun x hx => hb x (mem_cons_of_mem _ hx)) hrest]
    exact getLastD_cons.symm

theorem sum_deltas (hb : ∀ u ∈ us, Bare u) (hm : us.Pairwise Le) :
    sum (deltas none us) = us.getLastD {} := by
  cases us with
  | nil => rfl
  | cons u us =>
    show (deltas (some u) us).foldl TokenUsage.add (TokenUsage.add {} u) = _
    rw [zero_add', foldl_deltas hb hm]
    exact getLastD_cons.symm

/-- The last total of every launch, added up. -/
def sumLasts (reports : List (List TokenUsage)) : TokenUsage :=
  sum (reports.map fun us => us.getLastD {})

theorem sumLasts_cons (us : List TokenUsage) (reports : List (List TokenUsage)) :
    sumLasts (us :: reports) = (us.getLastD {}).add (sumLasts reports) := by
  rw [sumLasts, map_cons, sum, foldl_cons, zero_add', foldl_add]
  rfl

theorem bare_last (hb : ∀ u ∈ us, Bare u) : Bare (us.getLastD {}) := by
  rcases eq_nil_or_concat' us with rfl | ⟨init, u, rfl⟩
  · exact ⟨rfl, rfl, rfl⟩
  · rw [getLastD_concat]
    exact hb u (by simp)

theorem le_last (hm : us.Pairwise Le) {u : TokenUsage} (hu : u ∈ us) : Le u (us.getLastD {}) := by
  rcases eq_nil_or_concat' us with rfl | ⟨init, x, rfl⟩
  · cases hu
  · rw [getLastD_concat]
    rcases mem_append.mp hu with hu | hu
    · exact (pairwise_append.mp hm).2.2 u hu x mem_cons_self
    · rw [mem_singleton.mp hu]
      exact ⟨le_rfl, le_rfl, le_rfl⟩

theorem eq_zero (hb : Bare a) (h : Le a {}) : a = {} :=
  ext_bare hb ⟨rfl, rfl, rfl⟩ h ⟨Nat.zero_le _, Nat.zero_le _, Nat.zero_le _⟩

variable {reports : List (List TokenUsage)}

theorem session_iff (hb : ∀ us ∈ reports, ∀ u ∈ us, Bare u) (hm : reports.flatten.Pairwise Le) :
    Le (reports.flatten.getLastD {}) (sumLasts reports) ∧
      (sumLasts reports = reports.flatten.getLastD {} ↔
        reports.Pairwise fun us later => later ≠ [] → ∀ u ∈ us, u = {}) := by
  induction reports with
  | nil => exact ⟨⟨le_rfl, le_rfl, le_rfl⟩, by simp [sumLasts, sum]⟩
  | cons us reports ih =>
    rw [flatten_cons] at hm ⊢
    obtain ⟨hus, hreports, -⟩ := pairwise_append.mp hm
    obtain ⟨hle, hiff⟩ := ih (fun x hx => hb x (mem_cons_of_mem _ hx)) hreports
    have hlast := bare_last (hb us mem_cons_self)
    rw [sumLasts_cons, pairwise_cons]
    rcases eq_nil_or_concat' reports.flatten with hnil | ⟨front, x, hx⟩
    · -- No later launch reports, so the last total is this launch's.
      have hsilent : ∀ later ∈ reports, later = [] := flatten_eq_nil_iff.mp hnil
      have hpair : reports.Pairwise fun us later => later ≠ [] → ∀ u ∈ us, u = {} :=
        pairwise_of_forall_mem_list fun _ _ later hl hne => absurd (hsilent later hl) hne
      have hzero : sumLasts reports = {} := by
        rw [hiff.mpr hpair, hnil]
        rfl
      have hadd : (us.getLastD {}).add {} = us.getLastD {} := rfl
      rw [hnil, append_nil, hzero, hadd]
      exact ⟨⟨le_rfl, le_rfl, le_rfl⟩, fun _ =>
        ⟨fun later hl hne => absurd (hsilent later hl) hne, hpair⟩, fun _ => rfl⟩
    · have hend : (us ++ reports.flatten).getLastD {} = reports.flatten.getLastD {} := by
        rw [hx, ← append_assoc, getLastD_concat, getLastD_concat]
      rw [hend]
      refine ⟨⟨Nat.le_add_left_of_le hle.input, Nat.le_add_left_of_le hle.output,
        Nat.le_add_left_of_le hle.cacheRead⟩, ?_⟩
      constructor
      · intro h
        have hfirst : us.getLastD {} = {} := by
          have hi := congrArg TokenUsage.input h
          have ho := congrArg TokenUsage.output h
          have hc := congrArg TokenUsage.cacheRead h
          obtain ⟨hi', ho', hc'⟩ := hle
          simp only [TokenUsage.add] at hi ho hc
          exact eq_zero hlast ⟨by omega, by omega, by omega⟩
        refine ⟨fun later _ _ u hu => eq_zero (hb us mem_cons_self u hu) ?_, hiff.mp ?_⟩
        · rw [← hfirst]
          exact le_last hus hu
        · rw [← h, hfirst, zero_add']
      · intro ⟨hfirst, hpair⟩
        obtain ⟨later, hl, hmem⟩ := mem_flatten.mp (hx ▸ mem_concat_self)
        have hzero : us.getLastD {} = {} := by
          rcases eq_nil_or_concat' us with rfl | ⟨init, x, rfl⟩
          · rfl
          · rw [getLastD_concat]
            exact hfirst later hl (ne_nil_of_mem hmem) x (by simp)
        rw [hzero, hiff.mpr hpair, zero_add']

theorem Launch.bare (l : Launch) : ∀ u ∈ usages l.events, Bare u := by
  intro u hu
  obtain ⟨event, he, hu⟩ := mem_filterMap.mp hu
  have hp := l.parsed event he
  cases event with
  | usage x =>
    cases hu
    obtain ⟨value, rfl⟩ := hp
    exact bare_usageFrom value
  | _ => cases hu

theorem Launch.usages_stream (l : Launch) : usages l.stream = deltas none (usages l.events) :=
  (process_spec l.parsed l.code {}).1

theorem sum_streams {launches : List Launch} (hm : ∀ l ∈ launches, (usages l.events).Pairwise Le) :
    sum (launches.flatMap fun l => usages l.stream) =
      sumLasts (launches.map fun l => usages l.events) := by
  induction launches with
  | nil => rfl
  | cons l launches ih =>
    rw [map_cons, sumLasts_cons, flatMap_cons, sum, foldl_append, foldl_add,
      ih fun l hl => hm l (mem_cons_of_mem _ hl), l.usages_stream,
      ← sum_deltas l.bare (hm l mem_cons_self)]
    rfl

/-- For totals that never decrease, the tokens are counted once exactly where no launch
reports any before another one that reports. -/
theorem counts_once_iff (launches : List Launch)
    (hm : (launches.flatMap fun l => usages l.events).Pairwise Le) :
    CountsOnce launches ↔ launches.Pairwise fun l later =>
      usages later.events ≠ [] → ∀ u ∈ usages l.events, u = {} := by
  have hcompleted : ∀ l ∈ launches, ∀ e ∈ l.stream, ∀ u, completed? e = some u →
      u = sum (usages l.stream) := by
    intro l _ e he u hu
    rw [l.usages_stream]
    exact (process_spec l.parsed l.code {}).2 e he u hu
  have hbare : ∀ us ∈ launches.map fun l => usages l.events, ∀ u ∈ us, Bare u := by
    intro us hus
    obtain ⟨l, -, rfl⟩ := mem_map.mp hus
    exact l.bare
  have hsession := (session_iff hbare (by rwa [← flatMap_def])).2
  rw [pairwise_map, ← flatMap_def, ← sum_streams (pairwise_flatMap.mp hm).1] at hsession
  rw [← hsession]
  exact ⟨CountsOnce.emitted, fun h => ⟨h, hcompleted⟩⟩

def reporting (input : Int) : Launch where
  events := [.usage (usageFrom (.object [("input_tokens", .number (.int input))]))]
  code := some 0
  parsed := fun e he => mem_singleton.mp he ▸ ⟨_, rfl⟩

/-- A session of 150 tokens in two launches is counted as 250. -/
theorem resumed_counts_twice : ¬ CountsOnce [reporting 100, reporting 150] :=
  fun h => absurd h.emitted (by decide)

theorem counts_once_iff_resumed : CountsOnce [reporting 0, reporting 150] ↔
    [reporting 0, reporting 150].Pairwise fun l later =>
      usages later.events ≠ [] → ∀ u ∈ usages l.events, u = {} :=
  counts_once_iff _ (pairwise_pair.mpr ⟨by decide, by decide, by decide⟩)

end Codex
end RatKingdom.Harness
