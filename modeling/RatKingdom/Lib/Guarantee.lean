/-
Programs whose every write is one a guarantee allows.

`Crash` speaks of the single states a crash can leave.  What a program may do to what it
finds, such as leave a finished record alone, is a condition on two neighbouring states:
`Steps G P m Q E` says that from a state in `P` each write of `m` goes from its state to one
`G` allows, that `m` returns in `Q`, and that it fails in `E`.

A write that meets a `Fault` fails, and may be on the disk all the same.
-/
import RatKingdom.Lib.Crash

namespace RatKingdom.Lib

open List

universe u v w

/-- How an operation on the disk fails.  `reached` says how far it got: `none` when it left
no trace, `some n` when it is there, the first `n` bytes of it where it is a file's content. -/
structure Fault (ε : Type w) where
  reached : Option Nat
  error : ε

section
variable {σ : Type v} {ε : Type w} {α β : Type u}

namespace Prog

def ofExcept : Except ε α → Prog σ ε α
  | .ok a => Prog.pure a
  | .error e => Prog.fail e

def perform (fault : Option (Fault ε)) (f : σ → σ) : Prog σ ε PUnit :=
  match fault with
  | none => Prog.write f
  | some φ =>
    match φ.reached with
    | none => Prog.fail φ.error
    | some _ => Prog.write f >>= fun _ => Prog.fail φ.error

/-- The content of a file, of which a failure may leave the first bytes only. -/
def writeOut {β : Type*} (fault : Option (Fault ε)) (bytes : List β) (f : List β → σ → σ) :
    Prog σ ε PUnit :=
  match fault with
  | none => Prog.write (f bytes)
  | some φ =>
    match φ.reached with
    | none => Prog.fail φ.error
    | some n => Prog.write (f (bytes.take n)) >>= fun _ => Prog.fail φ.error

def check (fault : Option (Fault ε)) : Prog σ ε PUnit :=
  match fault with
  | none => Prog.pure ⟨⟩
  | some φ => Prog.fail φ.error

section
variable {f : α → Prog σ ε β} {s : σ} {b : β}

theorem bind_answer {m : Prog σ ε α} (h : ((m >>= f) s).2 = .ok b) :
    ∃ a, (m s).2 = .ok a ∧ (f a (m.final s)).2 = .ok b := by
  cases hr : m s with
  | mk ps out =>
    cases out with
    | error e =>
      rw [Prog.bind_error hr] at h
      cases h
    | ok a =>
      rw [Prog.bind_ok hr] at h
      refine ⟨a, rfl, ?_⟩
      rw [Prog.final, hr]
      exact h

theorem bind_final {m : Prog σ ε α} {a : α} (h : (m s).2 = .ok a) :
    (m >>= f).final s = (f a).final (m.final s) := by
  cases hr : m s with
  | mk ps out =>
    rw [hr] at h
    cases h
    rw [Prog.final, Prog.bind_ok hr, Prog.final, Prog.final, hr]
    exact stop_append s ps _

variable {fault : Option (Fault ε)}

theorem check_final {u : PUnit} (h : (Prog.check fault s).2 = .ok u) :
    (Prog.check fault).final s = s := by
  cases fault with
  | none => rfl
  | some φ => cases h

theorem ofExcept_final (r : Except ε α) (s : σ) : (Prog.ofExcept r).final s = s := by
  cases r with
  | ok a | error e => rfl

theorem ofExcept_answer {r : Except ε α} (h : ((Prog.ofExcept r >>= f) s).2 = .ok b) :
    ∃ a, r = .ok a ∧ (f a s).2 = .ok b := by
  obtain ⟨a, ha, h⟩ := bind_answer h
  cases r with
  | error e => cases ha
  | ok a' =>
    cases ha
    exact ⟨a, rfl, h⟩

theorem read_answer {β : Type v} {f : σ → Prog σ ε β} {b : β}
    (h : ((Prog.read >>= f) s).2 = .ok b) : (f s s).2 = .ok b := by
  obtain ⟨a, ha, h⟩ := bind_answer h
  cases ha
  exact h

theorem check_answer {f : PUnit → Prog σ ε β} (h : ((Prog.check fault >>= f) s).2 = .ok b) :
    (f ⟨⟩ s).2 = .ok b := by
  obtain ⟨a, ha, h⟩ := bind_answer h
  cases fault with
  | some φ => cases ha
  | none => exact h

variable {g : σ → σ}

theorem perform_final {u : PUnit} (h : (Prog.perform fault g s).2 = .ok u) :
    (Prog.perform fault g).final s = g s := by
  cases fault with
  | none => rfl
  | some φ =>
    cases hr : φ.reached with
    | none | some n =>
      simp only [perform, hr] at h
      cases h

theorem perform_answer {f : PUnit → Prog σ ε β} (h : ((Prog.perform fault g >>= f) s).2 = .ok b) :
    (f ⟨⟩ (g s)).2 = .ok b := by
  obtain ⟨⟨⟩, ha, h⟩ := bind_answer h
  rw [perform_final ha] at h
  exact h

end

end Prog

/-- The states `ps` follow one another from `s` by steps of `G`. -/
def Path (G : σ → σ → Prop) : σ → List σ → Prop
  | _, [] => True
  | s, t :: ps => G s t ∧ Path G t ps

variable {G : σ → σ → Prop} {s : σ} {ps : List σ}

theorem Path.append {qs : List σ} (h : Path G s ps) (h' : Path G (stop s ps) qs) :
    Path G s (ps ++ qs) := by
  induction ps generalizing s with
  | nil => exact h'
  | cons t ps ih =>
    refine ⟨h.1, ih h.2 ?_⟩
    cases ps with
    | nil | cons u ps => exact h'

theorem Path.take (h : Path G s ps) (k : Nat) : Path G s (ps.take k) := by
  induction ps generalizing s k with
  | nil =>
    rw [take_nil]
    trivial
  | cons t ps ih =>
    cases k with
    | zero => trivial
    | succ k => exact ⟨h.1, ih h.2 k⟩

theorem Path.mono {G' : σ → σ → Prop} (hG : ∀ s t, G s t → G' s t) (h : Path G s ps) :
    Path G' s ps := by
  induction ps generalizing s with
  | nil => trivial
  | cons t ps ih => exact ⟨hG s t h.1, ih h.2⟩

theorem Path.forall {I : σ → Prop} (hG : ∀ s t, I s → G s t → I t) (h : Path G s ps) (hs : I s) :
    ∀ t ∈ ps, I t := by
  induction ps generalizing s with
  | nil =>
    intro t ht
    cases ht
  | cons u ps ih =>
    have hu : I u := hG s u hs h.1
    exact forall_mem_cons.mpr ⟨hu, ih h.2 hu⟩

theorem Path.pairwise {R : σ → σ → Prop} (hG : ∀ s t, G s t → R s t)
    (htrans : ∀ s t u, R s t → R t u → R s u) (h : Path G s ps) :
    (s :: ps).Pairwise R := by
  induction ps generalizing s with
  | nil => exact pairwise_singleton R s
  | cons t ps ih =>
    have hrest : (t :: ps).Pairwise R := ih h.2
    refine pairwise_cons.mpr ⟨fun u hu => ?_, hrest⟩
    rcases mem_cons.mp hu with rfl | hu
    · exact hG s u h.1
    · exact htrans s t u (hG s t h.1) ((pairwise_cons.mp hrest).1 u hu)

theorem Path.origin {I F : σ → Prop} (hG : ∀ s t, G s t → I t → I s ∨ F t) (h : Path G s ps) {t : σ}
    (ht : t ∈ s :: ps) (hI : I t) :
    I s ∨ ∃ u ∈ ps, I u ∧ F u := by
  induction ps generalizing s with
  | nil =>
    rw [mem_singleton] at ht
    exact .inl (ht ▸ hI)
  | cons v ps ih =>
    rcases mem_cons.mp ht with rfl | ht
    · exact .inl hI
    · rcases ih h.2 ht with hv | ⟨u, hu, hIu⟩
      · rcases hG s v h.1 hv with hs | hF
        · exact .inl hs
        · exact .inr ⟨v, mem_cons_self, hv, hF⟩
      · exact .inr ⟨u, mem_cons_of_mem v hu, hIu⟩

/-- From every state in `P` each write of `m` is a step of `G`; `m` returns in `Q` and
fails in `E`. -/
def Steps (G : σ → σ → Prop) (P : σ → Prop) (m : Prog σ ε α) (Q : α → σ → Prop) (E : σ → Prop) : Prop :=
  ∀ s, P s → Path G s (m s).1 ∧
    (∀ a, (m s).2 = .ok a → Q a (m.final s)) ∧ ∀ e, (m s).2 = .error e → E (m.final s)

namespace Steps

variable {G : σ → σ → Prop} {P P' E E' : σ → Prop} {m : Prog σ ε α} {f : α → Prog σ ε β}
  {Q Q' : α → σ → Prop} {R : β → σ → Prop}

theorem pure {a : α} (h : ∀ s, P s → Q a s) : Steps G P (Pure.pure a : Prog σ ε α) Q E := by
  intro s hs
  refine ⟨trivial, fun b hb => ?_, fun e he => ?_⟩
  · cases hb
    exact h s hs
  · cases he

theorem fail {e : ε} (h : ∀ s, P s → E s) : Steps G P (Prog.fail e : Prog σ ε α) Q E := by
  intro s hs
  refine ⟨trivial, fun b hb => ?_, fun e he => ?_⟩
  · cases hb
  · exact h s hs

theorem read {Q : σ → σ → Prop} (h : ∀ s, P s → Q s s) :
    Steps G P (Prog.read : Prog σ ε σ) Q E := by
  intro s hs
  refine ⟨trivial, fun b hb => ?_, fun e he => ?_⟩
  · cases hb
    exact h s hs
  · cases he

theorem write {Q : PUnit → σ → Prop} (hG : ∀ s, P s → G s (g s)) (hQ : ∀ s, P s → Q ⟨⟩ (g s)) :
    Steps G P (Prog.write g : Prog σ ε PUnit) Q E := by
  intro s hs
  refine ⟨⟨hG s hs, trivial⟩, fun b hb => ?_, fun e he => ?_⟩
  · exact hQ s hs
  · cases he

theorem bind (hm : Steps G P m Q E) (hf : ∀ a, Steps G (Q a) (f a) R E) :
    Steps G P (m >>= f) R E := by
  intro s hs
  obtain ⟨hpath, hok, herr⟩ := hm s hs
  cases hr : m s with
  | mk ps out =>
    have hfin : m.final s = stop s ps := by rw [Prog.final, hr]
    rw [hr] at hpath hok herr
    cases out with
    | error e =>
      have hb : (m >>= f) s = (ps, .error e) := Prog.bind_error hr
      have hstop : (m >>= f).final s = m.final s := by rw [Prog.final, hb, hfin]
      rw [hb]
      refine ⟨hpath, fun b h => ?_, fun e' _ => ?_⟩
      · cases h
      · rw [hstop]
        exact herr e rfl
    | ok a =>
      have hb : (m >>= f) s = (ps ++ (f a (stop s ps)).1, (f a (stop s ps)).2) :=
        Prog.bind_ok hr
      have hstop : (m >>= f).final s = (f a).final (stop s ps) := by
        rw [Prog.final, hb]
        exact stop_append s ps _
      obtain ⟨hpath', hok', herr'⟩ := hf a (stop s ps) (hfin ▸ hok a rfl)
      rw [hb, hstop]
      exact ⟨hpath.append hpath', hok', herr'⟩

theorem mono (h : Steps G P m Q E) (hP : ∀ s, P' s → P s) (hQ : ∀ a s, Q a s → Q' a s)
    (hE : ∀ s, E s → E' s) : Steps G P' m Q' E' := by
  intro s hs
  obtain ⟨hpath, hok, herr⟩ := h s (hP s hs)
  exact ⟨hpath, fun a ha => hQ a _ (hok a ha), fun e he => hE _ (herr e he)⟩

theorem of_start (h : ∀ s, P s → Steps G (fun t => t = s) m Q E) : Steps G P m Q E :=
  fun s hs => h s hs s rfl

theorem with_result {s₀ : σ} (h : Steps G (fun s => s = s₀) m Q E) :
    Steps G (fun s => s = s₀) m (fun a s => (m s₀).2 = .ok a ∧ Q a s) E := by
  intro s hs
  obtain ⟨hpath, hok, herr⟩ := h s hs
  refine ⟨hpath, fun a ha => ⟨?_, hok a ha⟩, herr⟩
  rw [← hs]
  exact ha

theorem attempt {α ε : Type} {m : Prog σ ε α} {Q : α → σ → Prop} {E' : σ → Prop}
    (h : Steps G P m Q E) :
    Steps G P m.attempt (fun r s => match r with
      | .ok a => Q a s
      | .error _ => E s) E' := by
  intro s hs
  obtain ⟨hpath, hok, herr⟩ := h s hs
  refine ⟨hpath, fun r hr => ?_, fun e he => ?_⟩
  · have hr : (m s).2 = r := by simpa [Prog.attempt] using hr
    cases r with
    | ok a => exact hok a hr
    | error e => exact herr e hr
  · cases he

theorem ofExcept {r : Except ε α} (h : ∀ a s, r = .ok a → P s → Q a s) (hE : ∀ s, P s → E s) :
    Steps G P (Prog.ofExcept r) Q E := by
  cases r with
  | ok a => exact .pure fun s hs => h a s rfl hs
  | error e => exact .fail hE

variable {fault : Option (Fault ε)}

theorem check {Q : PUnit → σ → Prop} (h : ∀ s, P s → Q ⟨⟩ s) (hE : ∀ s, P s → E s) :
    Steps G P (Prog.check fault) Q E := by
  cases fault with
  | none => exact .pure h
  | some φ => exact .fail hE

theorem perform {Q : PUnit → σ → Prop} (hG : ∀ s, P s → G s (g s))
    (hQ : ∀ s, P s → Q ⟨⟩ (g s)) (hE : ∀ s, P s → E s) (hE' : ∀ s, P s → E (g s)) :
    Steps G P (Prog.perform fault g) Q E := by
  cases fault with
  | none => exact .write hG hQ
  | some φ =>
    cases hr : φ.reached with
    | none =>
      simp only [Prog.perform, hr]
      exact .fail hE
    | some n =>
      simp only [Prog.perform, hr]
      exact .bind (.write (Q := fun _ => E) hG hE') fun _ => .fail fun s hs => hs

theorem writeOut {β : Type*} {bytes : List β} {g : List β → σ → σ} {Q : PUnit → σ → Prop}
    (hG : ∀ bs s, P s → G s (g bs s)) (hQ : ∀ s, P s → Q ⟨⟩ (g bytes s)) (hE : ∀ s, P s → E s)
    (hE' : ∀ bs s, P s → E (g bs s)) :
    Steps G P (Prog.writeOut fault bytes g) Q E := by
  cases fault with
  | none => exact .write (hG bytes) hQ
  | some φ =>
    cases hr : φ.reached with
    | none =>
      simp only [Prog.writeOut, hr]
      exact .fail hE
    | some n =>
      simp only [Prog.writeOut, hr]
      exact .bind (.write (Q := fun _ => E) (hG _) (hE' _)) fun _ => .fail fun s hs => hs

end Steps

end

end RatKingdom.Lib
