/-
Programs that change a durable state one write at a time and can be stopped between
any two writes.

A program answers with the states its writes passed through, oldest first, and with
the value or the error it ended with.  A crash after `k` writes leaves the `k`-th of
these states, so a condition that has to survive every crash is a condition on all of
them.  `Triple C P m Q` is the judgment with such a crash condition `C` beside the
precondition `P` and the postcondition `Q`.
-/
import Mathlib.Data.List.Basic

namespace RatKingdom.Lib

open List

universe u v w

/-- A program over the durable state `σ` with errors `ε`. -/
def Prog (σ : Type v) (ε : Type w) (α : Type u) := σ → List σ × Except ε α

/-- The state a program started in `s` is in after the writes `ps`. -/
def stop {σ : Type v} (s : σ) (ps : List σ) : σ := ps.getLastD s

section
variable {σ : Type v} {ε : Type w} {α β : Type u}

namespace Prog

def pure (a : α) : Prog σ ε α := fun _ => ([], .ok a)

def bind (m : Prog σ ε α) (f : α → Prog σ ε β) : Prog σ ε β := fun s =>
  match m s with
  | (ps, .error e) => (ps, .error e)
  | (ps, .ok a) =>
    let r := f a (stop s ps)
    (ps ++ r.1, r.2)

instance : Monad (Prog σ ε) where
  pure := Prog.pure
  bind := Prog.bind

def read : Prog σ ε σ := fun s => ([], .ok s)

def write (f : σ → σ) : Prog σ ε PUnit := fun s => ([f s], .ok ⟨⟩)

def fail (e : ε) : Prog σ ε α := fun _ => ([], .error e)

/-- The result of `m`, with an error handed to the caller. -/
def attempt {α ε : Type} (m : Prog σ ε α) : Prog σ ε (Except ε α) := fun s => ((m s).1, .ok (m s).2)

def final (m : Prog σ ε α) (s : σ) : σ := stop s (m s).1

/-- The state a crash after `k` writes leaves, when the program makes that many. -/
def crash (m : Prog σ ε α) (s : σ) (k : Nat) : Option σ := (s :: (m s).1)[k]?

end Prog

theorem Prog.bind_ok {m : Prog σ ε α} {f : α → Prog σ ε β} {s : σ} {ps : List σ} {a : α}
    (h : m s = (ps, .ok a)) :
    (m >>= f) s = (ps ++ (f a (stop s ps)).1, (f a (stop s ps)).2) := by
  show Prog.bind m f s = _
  rw [Prog.bind, h]

theorem Prog.bind_error {m : Prog σ ε α} {f : α → Prog σ ε β} {s : σ} {ps : List σ} {e : ε}
    (h : m s = (ps, .error e)) : (m >>= f) s = (ps, .error e) := by
  show Prog.bind m f s = _
  rw [Prog.bind, h]

theorem Prog.final_read {σ : Type v} {ε : Type w} {β : Type v} (f : σ → Prog σ ε β) (s : σ) :
    (Prog.read >>= f).final s = (f s).final s := rfl

@[simp] theorem stop_nil (s : σ) : stop s [] = s := rfl

@[simp] theorem stop_singleton (s t : σ) : stop s [t] = t := rfl

theorem stop_append (s : σ) (ps qs : List σ) : stop s (ps ++ qs) = stop (stop s ps) qs := by
  cases qs with
  | nil => simp
  | cons q qs => simp [stop, getLastD_eq_getLast?, getLast?_append]

theorem stop_mem (s : σ) (ps : List σ) : stop s ps = s ∨ stop s ps ∈ ps := by
  cases hl : ps.getLast? with
  | none =>
    left
    simp [stop, getLastD_eq_getLast?, hl]
  | some t =>
    right
    have ht : stop s ps = t := by simp [stop, getLastD_eq_getLast?, hl]
    rw [ht]
    exact mem_of_getLast? hl

/-- From every state in `P` each write of `m` leaves a state in `C`, and when `m`
returns it does so with a value and a state in `Q`. -/
def Triple (C P : σ → Prop) (m : Prog σ ε α) (Q : α → σ → Prop) : Prop :=
  ∀ s, P s → (∀ t ∈ (m s).1, C t) ∧ ∀ a, (m s).2 = .ok a → Q a (m.final s)

namespace Triple

variable {C P P' : σ → Prop} {m : Prog σ ε α} {f : α → Prog σ ε β}
  {Q Q' : α → σ → Prop} {R : β → σ → Prop}

theorem pure {a : α} (h : ∀ s, P s → Q a s) : Triple C P (Pure.pure a : Prog σ ε α) Q := by
  intro s hs
  refine ⟨fun t ht => (not_mem_nil ht).elim, fun b hb => ?_⟩
  cases hb
  exact h s hs

theorem bind (hm : Triple C P m Q) (hf : ∀ a, Triple C (Q a) (f a) R) : Triple C P (m >>= f) R := by
  intro s hs
  obtain ⟨hC, hQ⟩ := hm s hs
  cases hr : m s with
  | mk ps out =>
    rw [hr] at hC hQ
    have hfin : m.final s = stop s ps := by rw [Prog.final, hr]
    cases out with
    | error e =>
      have hb : (m >>= f) s = (ps, .error e) := Prog.bind_error hr
      refine ⟨?_, ?_⟩
      · rw [hb]
        exact hC
      · intro b h
        rw [hb] at h
        cases h
    | ok a =>
      have hb : (m >>= f) s = (ps ++ (f a (stop s ps)).1, (f a (stop s ps)).2) :=
        Prog.bind_ok hr
      have hQa : Q a (stop s ps) := hfin ▸ hQ a rfl
      obtain ⟨hC', hR⟩ := hf a (stop s ps) hQa
      refine ⟨?_, ?_⟩
      · intro t ht
        rw [hb] at ht
        rcases mem_append.mp ht with ht | ht
        · exact hC t ht
        · exact hC' t ht
      · intro b h
        rw [hb] at h
        have hfinal : (m >>= f).final s = (f a).final (stop s ps) := by
          rw [Prog.final, hb, Prog.final]
          exact stop_append s ps _
        rw [hfinal]
        exact hR b h

theorem read {Q : σ → σ → Prop} (h : ∀ s, P s → Q s s) : Triple C P (Prog.read : Prog σ ε σ) Q := by
  intro s hs
  refine ⟨fun t ht => (not_mem_nil ht).elim, fun b hb => ?_⟩
  cases hb
  exact h s hs

theorem write {g : σ → σ} {Q : PUnit → σ → Prop} (hC : ∀ s, P s → C (g s))
    (hQ : ∀ s, P s → Q ⟨⟩ (g s)) : Triple C P (Prog.write g : Prog σ ε PUnit) Q := by
  intro s hs
  refine ⟨fun t ht => ?_, fun b hb => ?_⟩
  · rw [mem_singleton.mp ht]
    exact hC s hs
  · cases hb
    exact hQ s hs

theorem fail {e : ε} : Triple C P (Prog.fail e : Prog σ ε α) Q :=
  fun _ _ => ⟨fun _ ht => (not_mem_nil ht).elim, nofun⟩

theorem mono (h : Triple C P m Q) (hP : ∀ s, P' s → P s) (hQ : ∀ a s, Q a s → Q' a s) :
    Triple C P' m Q' :=
  fun s hs => ⟨(h s (hP s hs)).1, fun a ha => hQ a _ ((h s (hP s hs)).2 a ha)⟩

theorem crash_mono {C' : σ → Prop} (h : Triple C P m Q) (hC : ∀ s, C s → C' s) : Triple C' P m Q :=
  fun s hs => ⟨fun t ht => hC t ((h s hs).1 t ht), (h s hs).2⟩

theorem of_start (h : ∀ s, P s → Triple C (fun t => t = s) m Q) : Triple C P m Q :=
  fun s hs => h s hs s rfl

theorem read_from {σ : Type v} {ε : Type w} {C : σ → Prop} {γ : Type v} {s₀ : σ}
    {f : σ → Prog σ ε γ} {R : γ → σ → Prop}
    (h : ∀ t, t = s₀ → Triple C (fun s => s = t) (f t) R) :
    Triple C (fun s => s = s₀) (Prog.read >>= f) R :=
  bind (Q := fun t s => t = s₀ ∧ s = t) (read fun _ hs => ⟨hs, rfl⟩) fun t _ hs =>
    h t hs.1 _ hs.2

theorem crash (h : Triple C P m Q) (hP : ∀ s, P s → C s) {s t : σ} {k : Nat} (hs : P s)
    (hc : m.crash s k = some t) : C t := by
  rcases mem_cons.mp (mem_of_getElem? hc) with rfl | ht
  · exact hP t hs
  · exact (h s hs).1 t ht

theorem final (h : Triple C P m Q) (hP : ∀ s, P s → C s) {s : σ} (hs : P s) : C (m.final s) := by
  rcases stop_mem s (m s).1 with he | ht
  · rw [Prog.final, he]
    exact hP s hs
  · exact (h s hs).1 _ ht

theorem attempt {α ε : Type} {m : Prog σ ε α} {Q : α → σ → Prop} (h : Triple C P m Q)
    (hP : ∀ s, P s → C s) :
    Triple C P m.attempt (fun r s => match r with
      | .ok a => Q a s
      | .error _ => C s) := by
  intro s hs
  refine ⟨(h s hs).1, fun r hr => ?_⟩
  have hr : (m s).2 = r := by simpa [Prog.attempt] using hr
  cases r with
  | ok a => exact (h s hs).2 a hr
  | error e => exact h.final hP hs

end Triple

/-- Every write of `m` leaves `view` of the state as it was. -/
def Frame {γ : Type*} (view : σ → γ) (m : Prog σ ε α) : Prop := ∀ s, ∀ t ∈ (m s).1, view t = view s

namespace Frame

variable {γ : Type*} {view : σ → γ} {m : Prog σ ε α} {f : α → Prog σ ε β}

theorem stop {s : σ} {ps : List σ} (h : ∀ t ∈ ps, view t = view s) :
    view (Lib.stop s ps) = view s := by
  rcases stop_mem s ps with he | ht
  · rw [he]
  · exact h _ ht

theorem final (h : Frame view m) (s : σ) : view (m.final s) = view s := Frame.stop (h s)

theorem pure (a : α) : Frame view (Pure.pure a : Prog σ ε α) := fun _ _ ht => (not_mem_nil ht).elim

theorem read : Frame view (Prog.read : Prog σ ε σ) := fun _ _ ht => (not_mem_nil ht).elim

theorem fail (e : ε) : Frame view (Prog.fail e : Prog σ ε α) := fun _ _ ht => (not_mem_nil ht).elim

theorem write {g : σ → σ} (h : ∀ s, view (g s) = view s) :
    Frame view (Prog.write g : Prog σ ε PUnit) := by
  intro s t ht
  rw [mem_singleton.mp ht]
  exact h s

theorem bind (hm : Frame view m) (hf : ∀ a, Frame view (f a)) : Frame view (m >>= f) := by
  intro s t ht
  cases hr : m s with
  | mk ps out =>
    have hps : ∀ u ∈ ps, view u = view s := by
      have := hm s
      rw [hr] at this
      exact this
    cases out with
    | error e =>
      rw [Prog.bind_error hr] at ht
      exact hps t ht
    | ok a =>
      rw [Prog.bind_ok hr] at ht
      rcases mem_append.mp ht with ht | ht
      · exact hps t ht
      · exact (hf a _ t ht).trans (Frame.stop hps)

end Frame

end

end RatKingdom.Lib
