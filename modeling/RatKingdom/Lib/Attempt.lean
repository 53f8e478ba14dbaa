/-
Programs whose operations may be refused, or cut off for good.

A program takes a state to the way it ended and the state it stopped in.  It ends
with a value, with an error its caller may handle, or because the process is gone;
the last cannot be handled.  `Spec P m Q E` is the judgment: from `P`, the program
returns a value in `Q` or ends otherwise in `E`.  `Moves R m` says that `m` takes a
state to a related one however it ends.  Before them stands how a computation in `Except`
is taken apart.
-/
import Mathlib.Data.List.Basic

namespace RatKingdom.Lib

open List

universe u v w

section
variable {ε : Type u} {α β : Type v} {f : α → Except ε β}

theorem bind_ok_iff {x : Except ε α} {b : β} :
    (x >>= f) = .ok b ↔ ∃ a, x = .ok a ∧ f a = .ok b := by
  cases x with
  | error e =>
    show Except.error e = _ ↔ _
    simp
  | ok a =>
    show f a = _ ↔ _
    simp

theorem bind_error_iff {x : Except ε α} {e : ε} :
    (x >>= f) = .error e ↔ x = .error e ∨ ∃ a, x = .ok a ∧ f a = .error e := by
  cases x with
  | error e' =>
    show Except.error e' = _ ↔ _
    simp
  | ok a =>
    show f a = _ ↔ _
    simp

theorem mapM_ok {l : List α} {r : List β} (h : l.mapM f = .ok r) :
    ∀ a ∈ l, ∃ b ∈ r, f a = .ok b := by
  induction l generalizing r with
  | nil => exact fun a ha => absurd ha not_mem_nil
  | cons a l ih =>
    rw [mapM_cons] at h
    obtain ⟨b, hb, h⟩ := bind_ok_iff.mp h
    obtain ⟨bs, hbs, h⟩ := bind_ok_iff.mp h
    cases h
    intro a' ha'
    rcases mem_cons.mp ha' with rfl | ha'
    · exact ⟨b, mem_cons_self, hb⟩
    · obtain ⟨b', hb', hf⟩ := ih hbs a' ha'
      exact ⟨b', mem_cons_of_mem _ hb', hf⟩

end

/-- How a program ends without a value. -/
inductive Stop (ε : Type w) where
  | gone
  | error (e : ε)

/-- A program over the state `σ` with errors `ε`. -/
def Act (σ : Type v) (ε : Type w) (α : Type u) := σ → Except (Stop ε) α × σ

section
variable {σ : Type v} {ε : Type w} {α β : Type u}

namespace Act

def pure (a : α) : Act σ ε α := fun s => (.ok a, s)

def bind (m : Act σ ε α) (f : α → Act σ ε β) : Act σ ε β := fun s =>
  match m s with
  | (.ok a, s') => f a s'
  | (.error x, s') => (.error x, s')

instance : Monad (Act σ ε) where
  pure := Act.pure
  bind := Act.bind

def get : Act σ ε σ := fun s => (.ok s, s)

def modify (f : σ → σ) : Act σ ε PUnit := fun s => (.ok ⟨⟩, f s)

def raise (e : ε) : Act σ ε α := fun s => (.error (.error e), s)

def die : Act σ ε α := fun s => (.error .gone, s)

/-- The result of `m`, with an error handed to the caller. -/
def attempt {α : Type} {ε : Type} (m : Act σ ε α) : Act σ ε (Except ε α) := fun s =>
  match m s with
  | (.ok a, s') => (.ok (.ok a), s')
  | (.error (.error e), s') => (.ok (.error e), s')
  | (.error .gone, s') => (.error .gone, s')

end Act

/-- From `P`, the program returns a value in `Q` or ends otherwise in `E`. -/
def Spec (P : σ → Prop) (m : Act σ ε α) (Q : α → σ → Prop) (E : Stop ε → σ → Prop) : Prop :=
  ∀ s, P s → match m s with
    | (.ok a, s') => Q a s'
    | (.error x, s') => E x s'

namespace Spec

variable {P P' : σ → Prop} {m : Act σ ε α} {f : α → Act σ ε β} {Q Q' : α → σ → Prop}
  {R : β → σ → Prop} {E E' : Stop ε → σ → Prop}

theorem pure {a : α} (h : ∀ s, P s → Q a s) : Spec P (Pure.pure a : Act σ ε α) Q E := h

theorem bind (hm : Spec P m Q E) (hf : ∀ a, Spec (Q a) (f a) R E) : Spec P (m >>= f) R E := by
  intro s hs
  have h := hm s hs
  show match Act.bind m f s with
    | (.ok a, s') => R a s'
    | (.error x, s') => E x s'
  unfold Act.bind
  revert h
  cases m s with
  | mk out s' =>
    cases out with
    | ok a => exact hf a s'
    | error x => exact id

theorem get {Q : σ → σ → Prop} (h : ∀ s, P s → Q s s) :
    Spec P (Act.get : Act σ ε σ) Q E := h

theorem modify {g : σ → σ} {Q : PUnit → σ → Prop} (h : ∀ s, P s → Q ⟨⟩ (g s)) :
    Spec P (Act.modify g : Act σ ε PUnit) Q E := h

theorem raise {e : ε} (h : ∀ s, P s → E (.error e) s) : Spec P (Act.raise e : Act σ ε α) Q E := h

theorem die (h : ∀ s, P s → E .gone s) : Spec P (Act.die : Act σ ε α) Q E := h

theorem mono (h : Spec P m Q E) (hP : ∀ s, P' s → P s) (hQ : ∀ a s, Q a s → Q' a s)
    (hE : ∀ x s, E x s → E' x s) : Spec P' m Q' E' := by
  intro s hs
  have h' := h s (hP s hs)
  revert h'
  cases m s with
  | mk out s' =>
    cases out with
    | ok a => exact hQ a s'
    | error x => exact hE x s'

theorem pre (h : Spec P m Q E) (hP : ∀ s, P' s → P s) : Spec P' m Q E :=
  h.mono hP (fun _ _ hq => hq) fun _ _ he => he

theorem attempt {α ε : Type} {m : Act σ ε α} {Q : α → σ → Prop} {E E' : Stop ε → σ → Prop}
    (h : Spec P m Q E) (hE : ∀ s, E .gone s → E' .gone s) :
    Spec P m.attempt (fun r s => match r with
        | .ok a => Q a s
        | .error e => E (.error e) s) E' := by
  intro s hs
  have h' := h s hs
  unfold Act.attempt
  revert h'
  cases m s with
  | mk out s' =>
    cases out with
    | ok a => exact id
    | error x =>
      cases x with
      | gone => exact hE s'
      | error e => exact id

theorem foldlM {γ : Type u} {δ : Type*} {b : γ → δ → Act σ ε γ} {I : List δ → γ → σ → Prop}
    (ds : List δ) (hbody : ∀ done d g, d ∈ ds → Spec (I done g) (b g d) (I (done ++ [d])) E)
    (g : γ) : Spec (I [] g) (ds.foldlM b g) (I ds) E := by
  have hloop : ∀ (todo done : List δ) (g : γ), (∀ d ∈ todo, d ∈ ds) →
      Spec (I done g) (todo.foldlM b g) (I (done ++ todo)) E := by
    intro todo
    induction todo with
    | nil =>
      intro done g _
      rw [append_nil]
      exact .pure fun _ h => h
    | cons d todo ih =>
      intro done g hsub
      rw [foldlM_cons]
      refine .bind (hbody done d g (hsub d mem_cons_self)) fun g' => ?_
      have h := ih (done ++ [d]) g' fun e he => hsub e (mem_cons_of_mem _ he)
      rw [append_assoc] at h
      exact h
  exact hloop ds [] g fun _ h => h

theorem of_final {I : σ → Prop} (h : ∀ s, P s → I (m s).2) : Spec P m (fun _ => I) fun _ => I := by
  intro s hs
  have h' := h s hs
  revert h'
  cases m s with
  | mk out s' =>
    cases out with
    | ok a | error x => exact id

theorem final {I : σ → Prop} (h : Spec P m (fun _ => I) fun _ => I) {s : σ} (hs : P s) :
    I (m s).2 := by
  have h' := h s hs
  revert h'
  cases m s with
  | mk out s' =>
    cases out with
    | ok a | error x => exact id

end Spec

/-- However it ends, the program leads to a state `R` relates to the first. -/
def Moves (R : σ → σ → Prop) (m : Act σ ε α) : Prop := ∀ s, R s (m s).2

namespace Moves

variable {R : σ → σ → Prop} {m : Act σ ε α} {f : α → Act σ ε β}

theorem pure (hr : ∀ s, R s s) (a : α) : Moves R (Pure.pure a : Act σ ε α) := hr

theorem get (hr : ∀ s, R s s) : Moves R (Act.get : Act σ ε σ) := hr

theorem raise (hr : ∀ s, R s s) (e : ε) : Moves R (Act.raise e : Act σ ε α) := hr

theorem modify {g : σ → σ} (h : ∀ s, R s (g s)) :
    Moves R (Act.modify g : Act σ ε PUnit) := h

theorem bind (ht : ∀ a b c, R a b → R b c → R a c) (hm : Moves R m) (hf : ∀ a, Moves R (f a)) :
    Moves R (m >>= f) := by
  intro s
  have h := hm s
  show R s (Act.bind m f s).2
  unfold Act.bind
  revert h
  cases m s with
  | mk out s' =>
    cases out with
    | ok a => exact fun h => ht s s' _ h (hf a s')
    | error x => exact id

theorem attempt {α ε : Type} {m : Act σ ε α} (hm : Moves R m) : Moves R m.attempt := by
  intro s
  have h := hm s
  show R s (Act.attempt m s).2
  unfold Act.attempt
  revert h
  cases m s with
  | mk out s' =>
    cases out with
    | ok a => exact id
    | error x => cases x <;> exact id

theorem foldlM (hr : ∀ s, R s s) (ht : ∀ a b c, R a b → R b c → R a c) {γ : Type u} {δ : Type v}
    {body : γ → δ → Act σ ε γ} {ds : List δ} (hbody : ∀ g d, d ∈ ds → Moves R (body g d)) (g : γ) :
    Moves R (ds.foldlM body g) := by
  induction ds generalizing g with
  | nil => exact .pure hr g
  | cons d ds ih =>
    rw [foldlM_cons]
    apply Moves.bind ht (hbody g d mem_cons_self)
    exact ih fun g e he => hbody g e (mem_cons_of_mem _ he)

end Moves

theorem Spec.carry {P : σ → Prop} {m : Act σ ε α} {Q : α → σ → Prop} {E : Stop ε → σ → Prop}
    {R : σ → σ → Prop} {F : σ → Prop} (h : Spec P m Q E) (hm : Moves R m)
    (hF : ∀ s s', R s s' → F s → F s') :
    Spec (fun s => P s ∧ F s) m (fun a s => Q a s ∧ F s) (fun x s => E x s ∧ F s) := by
  intro s hs
  have h' := h s hs.1
  have hmv := hF s _ (hm s) hs.2
  revert h' hmv
  cases m s with
  | mk out s' =>
    cases out with
    | ok a => exact fun hq hf => ⟨hq, hf⟩
    | error x => exact fun he hf => ⟨he, hf⟩

end

end RatKingdom.Lib
