/-
Finite runs of a machine given by a partial step function.

A label carries every choice the environment makes, so a machine is a function
`σ → α → Option σ` and a run is a list of labels.  `Keeps P` says that `P` holds
in every state a run passes through, `Meets guard` that every step of the run was
taken in a state its label's guard accepts.  The rules below carry a property
along a run from what one step does.

`watched step note` runs `step` and keeps a book beside its state, from the states before
and after a step; the book never decides which steps are enabled.  `Warranted ok log` says of
each entry of a log that `ok` holds of it and of what the log had when it was written.
-/
import Mathlib.Data.List.Basic

namespace RatKingdom.Lib

universe u v w

/-- What holds of a log, and of the entry it grows by. -/
theorem forall_mem_concat {α : Type u} {p : α → Prop} {l : List α} {a : α} :
    (∀ x ∈ l ++ [a], p x) ↔ (∀ x ∈ l, p x) ∧ p a := by
  rw [List.forall_mem_append, List.forall_mem_singleton]

section
variable {σ : Type u} {α : Type v} (step : σ → α → Option σ)

def run : σ → List α → Option σ
  | s, [] => some s
  | s, a :: as => (step s a).bind fun s' => run s' as

/-- `P` holds in the first state and in every state after it. -/
def Keeps (P : σ → Prop) : σ → List α → Prop
  | s, [] => P s
  | s, a :: as => P s ∧ ∀ s', step s a = some s' → Keeps P s' as

/-- Every step taken is accepted by `guard` in the state it starts from. -/
def Meets (guard : σ → α → Prop) : σ → List α → Prop
  | _, [] => True
  | s, a :: as => ∀ s', step s a = some s' → guard s a ∧ Meets guard s' as

end

section
variable {σ : Type u} {α : Type v} {step : σ → α → Option σ} {s s' : σ} {as : List α}

theorem run_cons {a : α} (h : run step s (a :: as) = some s') :
    ∃ m, step s a = some m ∧ run step m as = some s' := by
  simpa [run, Option.bind_eq_some_iff] using h

variable {I : σ → Prop}

theorem run_invariant (hstep : ∀ s a s', I s → step s a = some s' → I s') (hs : I s)
    (h : run step s as = some s') : I s' := by
  induction as generalizing s with
  | nil => cases h; exact hs
  | cons a as ih =>
    obtain ⟨m, hm, h⟩ := run_cons h
    exact ih (hstep s a m hs hm) h

variable {P : σ → Prop}

theorem Keeps.head (h : Keeps step P s as) : P s := by
  cases as with
  | nil => exact h
  | cons a as => exact h.1

theorem Keeps.last (h : Keeps step P s as) (hr : run step s as = some s') : P s' := by
  induction as generalizing s with
  | nil => cases hr; exact h
  | cons a as ih =>
    obtain ⟨m, hm, hr⟩ := run_cons hr
    exact ih (h.2 m hm) hr

/-- A run can be checked against a decidable guard by running it. -/
instance decidableMeets {guard : σ → α → Prop} [∀ s a, Decidable (guard s a)] :
    ∀ (s : σ) (as : List α), Decidable (Meets step guard s as)
  | _, [] => isTrue trivial
  | s, a :: as =>
    match h : step s a with
    | none => isTrue fun _ h' => (by rw [h] at h'; cases h')
    | some m =>
      have : Decidable (Meets step guard m as) := decidableMeets m as
      decidable_of_iff (guard s a ∧ Meets step guard m as)
        ⟨fun hm s' h' => (by rw [h] at h'; cases h'; exact hm), fun hm => hm m h⟩

/-- So can a property of the states of a run. -/
instance decidableKeeps {P : σ → Prop} [DecidablePred P] :
    ∀ (s : σ) (as : List α), Decidable (Keeps step P s as)
  | s, [] => inferInstanceAs (Decidable (P s))
  | s, a :: as =>
    match h : step s a with
    | none => decidable_of_iff (P s)
        ⟨fun hp => ⟨hp, fun s' h' => (by rw [h] at h'; cases h')⟩, fun hk => hk.1⟩
    | some m =>
      have : Decidable (Keeps step P m as) := decidableKeeps m as
      decidable_of_iff (P s ∧ Keeps step P m as)
        ⟨fun hk => ⟨hk.1, fun s' h' => (by rw [h] at h'; cases h'; exact hk.2)⟩,
          fun hk => ⟨hk.1, hk.2 m h⟩⟩

variable {guard : σ → α → Prop}

theorem meets_cons {guard : σ → α → Prop} {s s' : σ} {a : α} {as : List α}
    (hs : step s a = some s') (hg : guard s a) (hm : Meets step guard s' as) :
    Meets step guard s (a :: as) := by
  intro m hm'
  rw [hs] at hm'
  cases hm'
  exact ⟨hg, hm⟩

theorem meets_of_forall {p : α → Prop} (h : ∀ a ∈ as, p a) (s : σ) :
    Meets step (fun _ a => p a) s as := by
  induction as generalizing s with
  | nil => trivial
  | cons a as ih =>
    intro s' _
    exact ⟨h a List.mem_cons_self, ih (fun b hb => h b (List.mem_cons_of_mem _ hb)) s'⟩

theorem Meets.and {guard' : σ → α → Prop} (h : Meets step guard s as)
    (h' : Meets step guard' s as) : Meets step (fun s a => guard s a ∧ guard' s a) s as := by
  induction as generalizing s with
  | nil => trivial
  | cons a as ih =>
    intro m hm
    obtain ⟨hg, hrest⟩ := h m hm
    obtain ⟨hg', hrest'⟩ := h' m hm
    exact ⟨⟨hg, hg'⟩, ih hrest hrest'⟩

/-- The guarded invariant rule: a property that every accepted step keeps is kept
along a run whose steps are all accepted. -/
theorem keeps_of_meets (hstep : ∀ s a s', P s → step s a = some s' → guard s a → P s') (hs : P s)
    (h : Meets step guard s as) : Keeps step P s as := by
  induction as generalizing s with
  | nil => exact hs
  | cons a as ih =>
    refine ⟨hs, fun m hm => ?_⟩
    obtain ⟨hg, hm'⟩ := h m hm
    exact ih (hstep s a m hs hm hg) hm'

/-- Two guards that agree under an invariant of the steps they accept are met by
the same runs. -/
theorem meets_congr {guard' : σ → α → Prop}
    (hI : ∀ s a s', I s → step s a = some s' → guard s a → I s')
    (hg : ∀ s a s', I s → step s a = some s' → (guard s a ↔ guard' s a)) (hs : I s) :
    Meets step guard s as ↔ Meets step guard' s as := by
  induction as generalizing s with
  | nil => exact .rfl
  | cons a as ih =>
    constructor
    · intro h m hm
      obtain ⟨hga, hrest⟩ := h m hm
      exact ⟨(hg s a m hs hm).mp hga, (ih (hI s a m hs hm hga)).mp hrest⟩
    · intro h m hm
      obtain ⟨hga, hrest⟩ := h m hm
      have hga' : guard s a := (hg s a m hs hm).mpr hga
      exact ⟨hga', (ih (hI s a m hs hm hga')).mpr hrest⟩

theorem run_of_any {p : σ → Bool} (h : (run step s as).any p = true) :
    ∃ m, run step s as = some m ∧ p m = true := by
  cases hr : run step s as with
  | none => rw [hr] at h; cases h
  | some m => rw [hr] at h; exact ⟨m, rfl, h⟩

theorem not_keeps_of_run [DecidablePred P]
    (h : (run step s as).any (fun m => !decide (P m)) = true) : ¬ Keeps step P s as := by
  intro hk
  obtain ⟨m, hr, hm⟩ := run_of_any h
  have hP : P m := hk.last hr
  simp [hP] at hm

theorem Keeps.mono {Q : σ → Prop} (hPQ : ∀ s, P s → Q s) (h : Keeps step P s as) :
    Keeps step Q s as := by
  induction as generalizing s with
  | nil => exact hPQ s h
  | cons a as ih => exact ⟨hPQ s h.1, fun m hm => ih (h.2 m hm)⟩

theorem Keeps.under {Q : σ → Prop} (hI : ∀ s a s', I s → step s a = some s' → I s')
    (hPQ : ∀ s, I s → P s → Q s) (hs : I s) (h : Keeps step P s as) :
    Keeps step Q s as := by
  induction as generalizing s with
  | nil => exact hPQ s hs h
  | cons a as ih => exact ⟨hPQ s hs h.1, fun m hm => ih (hI s a m hs hm) (h.2 m hm)⟩

/-- When, under an invariant `I` of every step, a step keeps `P` exactly when its
guard accepts it, a run keeps `P` exactly when it meets the guard. -/
theorem keeps_iff_meets (hI : ∀ s a s', I s → step s a = some s' → I s')
    (hP : ∀ s a s', I s → P s → step s a = some s' → (P s' ↔ guard s a)) (hs : I s) (hPs : P s) :
    Keeps step P s as ↔ Meets step guard s as := by
  induction as generalizing s with
  | nil => exact ⟨fun _ => trivial, fun _ => hPs⟩
  | cons a as ih =>
    constructor
    · intro h m hm
      have hPm : P m := (h.2 m hm).head
      exact ⟨(hP s a m hs hPs hm).mp hPm, (ih (hI s a m hs hm) hPm).mp (h.2 m hm)⟩
    · intro h
      refine ⟨hPs, fun m hm => ?_⟩
      obtain ⟨hg, hmeet⟩ := h m hm
      have hPm : P m := (hP s a m hs hPs hm).mpr hg
      exact (ih (hI s a m hs hm) hPm).mpr hmeet

/-- When a guard keeps an invariant that gives `P`, and a step into `P` was accepted
by the guard, a run keeps `P` exactly when it meets the guard. -/
theorem keeps_iff_meets_of_guarded (hI : ∀ s a s', I s → step s a = some s' → guard s a → I s')
    (hP : ∀ s, I s → P s) (hg : ∀ s a s', I s → step s a = some s' → P s' → guard s a) (hs : I s) :
    Keeps step P s as ↔ Meets step guard s as := by
  constructor
  · intro h
    induction as generalizing s with
    | nil => trivial
    | cons a as ih =>
      intro m hm
      have hga := hg s a m hs hm (h.2 m hm).head
      exact ⟨hga, ih (hI s a m hs hm hga) (h.2 m hm)⟩
  · intro h
    have hk : Keeps step I s as := keeps_of_meets (fun s a s' => hI s a s') hs h
    exact hk.mono hP

end

section
variable {σ : Type u} {α : Type v} {β : Type w}

def watched (step : σ → α → Option σ) (note : σ → α → σ → β → β) (s : σ × β) (a : α) :
    Option (σ × β) :=
  (step s.1 a).map fun m => (m, note s.1 a m s.2)

variable {step : σ → α → Option σ} {note : σ → α → σ → β → β}

theorem watched_eq_some {s : σ × β} {a : α} {m : σ} {b : β}
    (h : watched step note s a = some (m, b)) : step s.1 a = some m ∧ b = note s.1 a m s.2 := by
  obtain ⟨_, hm, he⟩ := Option.map_eq_some_iff.mp h
  cases he
  exact ⟨hm, rfl⟩

end

section
open List

variable {α : Type u} {ok : List α → α → Prop}

def Warranted (ok : List α → α → Prop) (log : List α) : Prop :=
  ∀ before x after, log = before ++ x :: after → ok before x

theorem warranted_nil : Warranted ok [] := by
  intro before x after h
  cases before <;> cases h

theorem warranted_concat {log : List α} {x : α} :
    Warranted ok (log ++ [x]) ↔ Warranted ok log ∧ ok log x := by
  constructor
  · intro h
    refine ⟨fun before y after hlog => ?_, h log x [] rfl⟩
    refine h before y (after ++ [x]) ?_
    rw [hlog, append_assoc, cons_append]
  · intro h before y after hlog
    rcases eq_nil_or_concat after with rfl | ⟨after', z, rfl⟩
    · obtain ⟨rfl, heq⟩ := append_inj' hlog rfl
      cases heq
      exact h.2
    · have hsplit : log ++ [x] = (before ++ y :: after') ++ [z] := by
        rw [hlog, concat_eq_append, append_assoc, cons_append]
      exact h.1 before y after' (append_inj' hsplit rfl).1

theorem Warranted.append {log xs : List α} (h : Warranted ok log)
    (hxs : ∀ x ∈ xs, ∀ before, ok before x) : Warranted ok (log ++ xs) := by
  induction xs generalizing log with
  | nil =>
    rw [append_nil]
    exact h
  | cons x xs ih =>
    have hcons : log ++ x :: xs = (log ++ [x]) ++ xs := by
      rw [append_assoc, singleton_append]
    rw [hcons]
    exact ih (warranted_concat.mpr ⟨h, hxs x mem_cons_self log⟩)
      fun y hy => hxs y (mem_cons_of_mem _ hy)

end

end RatKingdom.Lib
