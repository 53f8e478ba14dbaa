/-
The answers of `advance_target_to`.

An `update-ref` with an old value does what the answer says.  A fast-forward in a checkout has
no old value: by the time it runs the worktree may be on something else and the target
elsewhere.  The theorem of this file says exactly when the answers are right.
-/
import Mathlib.Data.List.Infix
import RatKingdom.Git.Land

namespace RatKingdom.Git

open Lib List

section
variable {C : Type}

def Pointed (expected commit : C) (seen : List (Option C)) : Prop :=
  ∃ since, since <:+ seen ∧ since.head? = some (some expected) ∧ some commit ∈ since

/-- An answer of a call that was to take the target from `expected` to `commit` is what
happened. -/
def Outcome.Right (commit expected : C) (c : Call C) : Outcome C → Prop
  | .advanced landed => landed = commit ∧ Pointed expected commit c.seen
  | .stale wanted actual =>
    wanted = expected ∧ c.moved = [] ∧ actual ≠ expected ∧ some actual ∈ c.seen
  | .blocked wanted _ => wanted = expected ∧ c.moved = [] ∧ c.latest = some expected
  | _ => True

def Call.Exact (target : String) (c : Call C) : Prop :=
  match c.job with
  | .land => True
  | .swap commit expected =>
    (∀ m ∈ c.moved, m.1 = target) ∧ ∀ o, c.stage = .ended o → o.Right commit expected c

def GitCalls.Exact (target : String) (y : GitCalls C) : Prop := ∀ c ∈ y.calls, c.Exact target

variable [PartialOrder C] [DecidableEq C] [DecidableLE C]

/-- What the fast-forward in a checkout has to find: if git refuses it, the target where it
was; otherwise the target in that checkout, or nothing to move and the target advanced by
somebody else. -/
def Call.Met (target : String) (r : Repo C) (x : Choice C) (c : Call C) : Prop :=
  match c.job, c.stage with
  | .swap commit expected, .inCheckout _ new path =>
    match r.ffOnly path new x.hindered with
    | .refused => r.branches target = some expected
    | .upToDate => Pointed expected commit c.seen
    | .forwards (.branch name) => name = target
    | .forwards (.detached _) => Pointed expected commit c.seen
  | _, _ => True

def Met (target : String) (y : GitCalls C) : Move C → Prop
  | .run i x => ∀ c ∈ y.calls[i]?, c.Met target y.repo x
  | _ => True

end

section
variable {C : Type} {expected commit : C} {seen : List (Option C)}

theorem Pointed.append (h : Pointed expected commit seen) (o : Option C) :
    Pointed expected commit (seen ++ [o]) := by
  obtain ⟨since, hs, hhead, hm⟩ := h
  refine ⟨since ++ [o], ?_, ?_, mem_append_left _ hm⟩
  · obtain ⟨front, rfl⟩ := hs
    exact ⟨front, (append_assoc _ _ _).symm⟩
  · rw [head?_append, hhead]
    rfl

theorem pointed_arrives (commit : C) (h : some expected ∈ seen) :
    Pointed expected commit (seen ++ [some commit]) := by
  obtain ⟨front, rest, rfl⟩ := append_of_mem h
  refine ⟨some expected :: rest ++ [some commit], ⟨front, by simp⟩, rfl, by simp⟩

theorem pointed_again {o : Option C} (hl : seen.getLast? = some o) :
    Pointed expected commit (seen ++ [o]) ↔ Pointed expected commit seen := by
  refine ⟨?_, fun h => h.append o⟩
  rintro ⟨since, ⟨front, hs⟩, hhead, hm⟩
  obtain ⟨init, rfl⟩ := getLast?_eq_some_iff.mp hl
  rcases eq_nil_or_concat since with rfl | ⟨since, z, rfl⟩
  · cases hhead
  rw [concat_eq_append, ← append_assoc] at hs
  obtain ⟨hinit, hz⟩ := append_inj' hs rfl
  cases hz
  cases since with
  | nil =>
    cases hhead
    exact ⟨[some expected], ⟨init, rfl⟩, rfl, by simpa using hm⟩
  | cons a since =>
    refine ⟨a :: since, ⟨front, hinit⟩, by simpa using hhead, ?_⟩
    have hlast' : (a :: since).getLast? = some o := by
      have hwhole : (front ++ a :: since).getLast? = some o := by
        rw [hinit]
        exact hl
      rwa [getLast?_append_of_ne_nil _ (by simp)] at hwhole
    rw [concat_eq_append, mem_append, mem_singleton] at hm
    rcases hm with hm | hm
    · exact hm
    · exact hm ▸ mem_of_getLast? hlast'

end

section
variable {C : Type}

/-- The stages of `advance_target_to`, with the values it was called with. -/
def Stage.Fits (commit expected : C) : Stage C → Prop
  | .start => True
  | .advancing _ e made => e = expected ∧ made.new = commit
  | .inCheckout e new _ => e = expected ∧ new = commit
  | .bare _ e made => e = expected ∧ made.new = commit
  | .lost e => e = expected
  | .ended _ => True
  | _ => False

def Stage.Over : Stage C → Prop
  | .ended _ => True
  | _ => False

/-- What holds of an `advance_target_to` whatever happens around it: until it ends it has moved
nothing, and past its first read it has seen the target where it was to be. -/
structure Call.Carries (commit expected : C) (c : Call C) : Prop where
  stage : c.stage.Fits commit expected
  moved : ¬ c.stage.Over → c.moved = []
  saw : ¬ c.stage.Over → c.stage ≠ .start → some expected ∈ c.seen

def Call.Current (target : String) (r : Repo C) (c : Call C) : Prop :=
  c.seen.getLast? = some (r.branches target)

structure GitCalls.Fits (target : String) (y : GitCalls C) : Prop where
  current : ∀ c ∈ y.calls, c.Current target y.repo
  carries : ∀ c ∈ y.calls, ∀ commit expected, c.job = .swap commit expected →
    c.Carries commit expected

variable {c : Call C}

theorem Call.Carries.see {commit expected : C} (h : c.Carries commit expected) (o : Option C) :
    (c.see o).Carries commit expected :=
  ⟨h.stage, h.moved, fun hover hstart => mem_append_left _ (h.saw hover hstart)⟩

theorem Call.current_see (target : String) (r : Repo C) (c : Call C) :
    (c.see (r.branches target)).Current target r := by
  simp [Call.Current, Call.see]

theorem exact_land {target : String} (h : c.job = .land) : c.Exact target := by
  unfold Call.Exact
  rw [h]
  trivial

theorem Call.Exact.moved {target : String} {commit expected : C}
    (h : c.Exact target) (hjob : c.job = .swap commit expected) : ∀ m ∈ c.moved, m.1 = target := by
  unfold Call.Exact at h
  rw [hjob] at h
  exact h.1

theorem Call.Exact.see {target : String} (h : c.Exact target) (o : Option C) :
    (c.see o).Exact target := by
  obtain ⟨job, stage, seen, moved, latest⟩ := c
  cases job with
  | land => trivial
  | swap commit expected =>
    obtain ⟨hmoved, hright⟩ := h
    refine ⟨hmoved, fun out ho => ?_⟩
    have hout := hright out ho
    cases out with
    | advanced landed => exact ⟨hout.1, hout.2.append o⟩
    | stale wanted actual =>
      exact ⟨hout.1, hout.2.1, hout.2.2.1, mem_append_left _ hout.2.2.2⟩
    | _ => exact hout

variable [PartialOrder C] [DecidableEq C] [DecidableLE C]
  {target : String} {r : Repo C} {x : Choice C} {t : Turn C} {commit expected : C} {c : Call C}

omit [DecidableEq C] in
theorem met_land (h : c.job = .land) : c.Met target r x := by
  unfold Call.Met
  rw [h]
  trivial

/-- The first command of an `advance_target_to` either ends it rightly or finds the target
where it was to be. -/
theorem begin_swap (r : Repo C) (target : String) (commit expected : C) :
    r.begin target (.swap commit expected) = .ended .error ∨
      (∃ tip, r.branches target = some tip ∧ tip ≠ expected ∧
        r.begin target (.swap commit expected) = .ended (.stale expected tip)) ∨
      (r.branches target = some expected ∧ commit = expected ∧
        r.begin target (.swap commit expected) = .ended (.advanced commit)) ∨
      (r.branches target = some expected ∧ r.begin target (.swap commit expected) =
          .advancing expected expected { new := commit, source := none }) := by
  unfold Repo.begin
  dsimp only
  by_cases hfit : commit ≠ expected ∧ ¬ expected ≤ commit
  · rw [if_pos hfit]
    exact .inl rfl
  rw [if_neg hfit]
  cases r.branches target with
  | none => exact .inl rfl
  | some tip =>
    dsimp only
    by_cases htip : tip ≠ expected
    · rw [if_pos htip]
      exact .inr (.inl ⟨tip, rfl, htip, rfl⟩)
    rw [if_neg htip]
    have htip := not_not.mp htip
    by_cases hsame : commit = expected
    · rw [if_pos hsame]
      exact .inr (.inr (.inl ⟨congrArg some htip, hsame, rfl⟩))
    · rw [if_neg hsame]
      exact .inr (.inr (.inr ⟨congrArg some htip, rfl⟩))

def Stage.Away (stage : Stage C) : Prop := ∀ e new path, stage ≠ .inCheckout e new path

inductive SwapTurn (target : String) (r : Repo C) (hindered : Bool) (commit expected : C) :
    Stage C → Turn C → Prop where
  | fails {stage : Stage C} (away : stage.Away) :
    SwapTurn target r hindered commit expected stage { repo := r, stage := .ended .error }
  | finds {stage : Stage C} (away : stage.Away) {actual : C}
      (now : r.branches target = some actual) (ne : actual ≠ expected) :
    SwapTurn target r hindered commit expected stage
      { repo := r, stage := .ended (.stale expected actual) }
  | there (now : r.branches target = some expected) (same : commit = expected) :
    SwapTurn target r hindered commit expected .start
      { repo := r, stage := .ended (.advanced commit) }
  | goesOn {stage next : Stage C} (away : stage.Away) (fits : next.Fits commit expected)
      (live : ¬ next.Over) (saw : stage = .start → r.branches target = some expected) :
    SwapTurn target r hindered commit expected stage { repo := r, stage := next }
  | updates {base : C} {made : Made C} (now : r.branches target = some expected) :
    SwapTurn target r hindered commit expected (.bare base expected made)
      { repo := r.setBranch target commit, stage := .ended (.advanced commit)
        moved := some (target, some expected, commit) }
  | forwards (path : String) :
    SwapTurn target r hindered commit expected (.inCheckout expected commit path)
      (r.fastForward (.swap commit expected) expected commit path hindered)

theorem swapTurn_of_turn {stage : Stage C} (hs : stage.Fits commit expected)
    (h : r.turn target (.swap commit expected) x stage = some t) :
    SwapTurn target r x.hindered commit expected stage t := by
  cases stage with
  | start =>
    have haway : (.start : Stage C).Away := by rintro _ _ _ ⟨⟩
    cases h
    rcases begin_swap r target commit expected with he | ⟨tip, hnow, hne, he⟩ | ⟨hnow, hsame, he⟩ |
      ⟨hnow, he⟩
    · rw [he]
      exact .fails haway
    · rw [he]
      exact .finds haway hnow hne
    · rw [he]
      exact .there hnow hsame
    · rw [he]
      exact .goesOn haway ⟨rfl, rfl⟩ id fun _ => hnow
  | treed base | guarded base before | built base before made => exact hs.elim
  | advancing base e made =>
    have haway : (Stage.advancing base e made).Away := by rintro _ _ _ ⟨⟩
    obtain ⟨rfl, rfl⟩ := hs
    simp only [Repo.turn] at h
    split at h
    all_goals
      cases h
      exact .goesOn haway ⟨rfl, rfl⟩ id (by rintro ⟨⟩)
  | inCheckout e new path =>
    obtain ⟨rfl, rfl⟩ := hs
    cases h
    exact .forwards path
  | bare base e made =>
    have haway : (Stage.bare base e made).Away := by rintro _ _ _ ⟨⟩
    obtain ⟨rfl, rfl⟩ := hs
    cases h
    unfold Repo.bareUpdate
    cases hu : (if x.hindered then none else r.updateRef target made.new e) with
    | none => exact .goesOn haway rfl id (by rintro ⟨⟩)
    | some r' =>
      cases hx : x.hindered with
      | true =>
        rw [hx] at hu
        cases hu
      | false =>
        rw [hx] at hu
        obtain ⟨hnow, rfl⟩ := r.updateRef_eq_some hu
        exact .updates hnow
  | lost e =>
    have haway : (Stage.lost e).Away := by rintro _ _ _ ⟨⟩
    cases hs
    simp only [Repo.turn] at h
    split at h
    · cases h
      exact .fails haway
    · rename_i now hnow
      split at h
      · cases h
        exact .fails haway
      · rename_i hne
        cases h
        exact .finds haway hnow hne
  | ended outcome => cases h

theorem carries_turn (hjob : c.job = .swap commit expected) (hc : c.Carries commit expected)
    (h : r.turn target c.job x c.stage = some t) :
    ((c.after (r.branches target) t).see (t.repo.branches target)).Carries commit expected := by
  obtain ⟨job, stage, seen, moved, latest⟩ := c
  cases hjob
  have hover : ∀ {repo : Repo C} {o : Outcome C} {mv : Option (String × Option C × C)},
      t = { repo, stage := .ended o, moved := mv } →
        (((⟨.swap commit expected, stage, seen, moved, latest⟩ : Call C).after
          (r.branches target) t).see (t.repo.branches target)).Carries commit expected := by
    rintro repo o mv rfl
    exact ⟨trivial, fun hn => absurd trivial hn, fun hn => absurd trivial hn⟩
  cases swapTurn_of_turn hc.stage h with
  | fails | finds | there | updates => exact hover rfl
  | forwards path =>
    unfold Repo.fastForward at hover ⊢
    cases hff : r.ffOnly path commit x.hindered with
    | refused | upToDate | forwards head =>
      exact ⟨trivial, fun hn => absurd trivial hn, fun hn => absurd trivial hn⟩
  | goesOn away fits live saw =>
    have hl : ¬ stage.Over := by
      cases stage with
      | ended o => cases h
      | _ => exact id
    refine ⟨fits, fun _ => ?_, fun _ _ => ?_⟩
    · have hm := hc.moved hl
      simpa [Call.see, Call.after] using hm
    · show some expected ∈ seen ++ [r.branches target]
      by_cases hstart : stage = .start
      · rw [saw hstart]
        exact mem_append_right _ mem_cons_self
      · exact mem_append_left _ (hc.saw hl hstart)

omit [DecidableEq C] in
/-- A fast-forward leaves the call exact precisely if it finds what it has to. -/
theorem exact_fastForward_iff {seen : List (Option C)} {latest : Option C}
    (hsaw : some expected ∈ seen) (hnow : seen.getLast? = some (r.branches target)) (path : String) :
    (((⟨.swap commit expected, .inCheckout expected commit path, seen, [], latest⟩ : Call C).after
      (r.branches target)
      (r.fastForward (.swap commit expected) expected commit path x.hindered)).see
        ((r.fastForward (.swap commit expected) expected commit path x.hindered).repo.branches
          target)).Exact target ↔
      (⟨.swap commit expected, .inCheckout expected commit path, seen, [], latest⟩ :
        Call C).Met target r x := by
  have hagain : Pointed expected commit (seen ++ [r.branches target]) ↔
      Pointed expected commit seen := pointed_again hnow
  unfold Repo.fastForward Call.Met
  dsimp only
  cases r.ffOnly path commit x.hindered with
  | refused =>
    constructor
    · intro h
      exact (h.2 _ rfl).2.2
    · intro h
      refine ⟨nofun, fun o ho => ?_⟩
      cases ho
      exact ⟨rfl, rfl, h⟩
  | upToDate =>
    constructor
    · intro h
      exact hagain.mp (h.2 _ rfl).2
    · intro h
      refine ⟨nofun, fun o ho => ?_⟩
      cases ho
      exact ⟨rfl, hagain.mpr h⟩
  | forwards head =>
    cases head with
    | detached tip =>
      constructor
      · intro h
        exact hagain.mp (h.2 _ rfl).2
      · intro h
        refine ⟨nofun, fun o ho => ?_⟩
        cases ho
        exact ⟨rfl, hagain.mpr h⟩
    | branch name =>
      constructor
      · intro h
        exact h.1 (name, r.branches name, commit) (by simp [Call.see, Call.after])
      · intro h
        cases h
        refine ⟨fun m hm => ?_, fun o ho => ?_⟩
        · rw [mem_singleton.mp hm]
        · cases ho
          have harrive : Pointed expected commit (seen ++ [some commit]) := pointed_arrives commit hsaw
          refine ⟨rfl, ?_⟩
          simpa [Call.see, Call.after] using harrive

theorem exact_turn_iff (hjob : c.job = .swap commit expected) (hc : c.Carries commit expected)
    (hnow : c.Current target r) (h : r.turn target c.job x c.stage = some t) :
    ((c.after (r.branches target) t).see (t.repo.branches target)).Exact target ↔
      c.Met target r x := by
  obtain ⟨job, stage, seen, moved, latest⟩ := c
  cases hjob
  have hmet : stage.Away →
      (⟨.swap commit expected, stage, seen, moved, latest⟩ : Call C).Met target r x := by
    intro haway
    cases stage with
    | inCheckout e new path => exact absurd rfl (haway e new path)
    | _ => trivial
  have hl : ¬ stage.Over := by
    cases stage with
    | ended o => cases h
    | _ => exact id
  have hn : moved = [] := hc.moved hl
  subst hn
  cases swapTurn_of_turn hc.stage h with
  | fails away =>
    refine iff_of_true ⟨nofun, fun o ho => ?_⟩ (hmet away)
    cases ho
    trivial
  | finds away now ne =>
    refine iff_of_true ⟨nofun, fun o ho => ?_⟩ (hmet away)
    cases ho
    refine ⟨rfl, rfl, ne, ?_⟩
    show _ ∈ seen ++ [r.branches target]
    rw [now]
    exact mem_append_right _ mem_cons_self
  | there now same =>
    refine iff_of_true ⟨nofun, fun o ho => ?_⟩ trivial
    cases ho
    refine ⟨rfl, ?_⟩
    show Pointed expected commit (seen ++ [r.branches target])
    rw [now, same]
    exact ⟨[some expected], suffix_append _ _, rfl, mem_cons_self⟩
  | @goesOn _ next away fits live saw =>
    refine iff_of_true ⟨nofun, fun o ho => ?_⟩ (hmet away)
    have hended : next = .ended o := ho
    rw [hended] at live
    exact absurd trivial live
  | updates now =>
    refine iff_of_true ⟨fun m hm => ?_, fun o ho => ?_⟩ trivial
    · rw [mem_singleton.mp hm]
    · cases ho
      refine ⟨rfl, ?_⟩
      have harrive := pointed_arrives commit (hc.saw hl (by rintro ⟨⟩))
      simpa [Call.see, Call.after] using harrive
  | forwards path =>
    exact exact_fastForward_iff (hc.saw hl (by rintro ⟨⟩)) hnow path

variable {y y' : GitCalls C}

omit [PartialOrder C] [DecidableEq C] [DecidableLE C] in
theorem observe_calls {y : GitCalls C} {c' : Call C} (h : c' ∈ (y.observe target).calls) :
    ∃ c ∈ y.calls, c' = c.see (y.repo.branches target) := by
  obtain ⟨c, hm, rfl⟩ := mem_map.mp h
  exact ⟨c, hm, rfl⟩

theorem step_observes {m : Move C} (h : y.step target m = some y') :
    ∃ z : GitCalls C, y' = z.observe target := by
  cases m with
  | run i x =>
    simp only [GitCalls.step] at h
    split at h
    · cases h
    · split at h
      · cases h
      · cases h
        exact ⟨_, rfl⟩
  | forward branch c =>
    simp only [GitCalls.step] at h
    split at h
    · cases h
      exact ⟨_, rfl⟩
    · cases h
  | _ =>
    cases h
    exact ⟨_, rfl⟩

theorem fits_step {m : Move C} (hy : y.Fits target) (h : y.step target m = some y') :
    y'.Fits target := by
  constructor
  · obtain ⟨z, rfl⟩ := step_observes h
    intro c' hc
    obtain ⟨c, -, rfl⟩ := observe_calls hc
    exact Call.current_see target z.repo c
  · intro c' hc commit expected hjob
    rcases step_call h hc with ⟨c, hm, rfl⟩ | ⟨job, -, -, rfl⟩ | ⟨i, x, c, t, -, hi, ht, hr, rfl⟩
    · exact (hy.carries c hm commit expected hjob).see _
    · exact ⟨trivial, fun _ => rfl, fun _ hne => absurd rfl hne⟩
    · rw [hr]
      exact carries_turn hjob (hy.carries c (mem_of_getElem? hi) commit expected hjob) ht

theorem step_ran {i : Nat} {x : Choice C} (h : y.step target (.run i x) = some y') :
    ∃ c t, y.calls[i]? = some c ∧ y.repo.turn target c.job x c.stage = some t ∧
      (c.after (y.repo.branches target) t).see (t.repo.branches target) ∈ y'.calls := by
  simp only [GitCalls.step] at h
  split at h
  · cases h
  · rename_i c hi
    split at h
    · cases h
    · rename_i t ht
      cases h
      refine ⟨c, t, hi, ht, mem_map.mpr ⟨_, ?_, rfl⟩⟩
      obtain ⟨hlt, -⟩ := List.getElem?_eq_some_iff.mp hi
      exact mem_set hlt _

theorem exact_step_iff {m : Move C} (hy : y.Fits target) (hexact : y.Exact target)
    (h : y.step target m = some y') : y'.Exact target ↔ Met target y m := by
  constructor
  · intro h'
    cases m with
    | run i x =>
      intro c hc
      obtain ⟨c', t, hi, ht, hm⟩ := step_ran h
      cases Option.some.inj (hi.symm.trans hc)
      cases hjob : c.job with
      | land => exact met_land hjob
      | swap commit expected =>
        have hci : c ∈ y.calls := mem_of_getElem? hi
        exact (exact_turn_iff hjob (hy.carries c hci commit expected hjob) (hy.current c hci) ht).mp
          (h' _ hm)
    | _ => trivial
  · intro hmet c' hc
    rcases step_call h hc with ⟨c, hm, rfl⟩ | ⟨job, -, -, rfl⟩ | ⟨i, x, c, t, rfl, hi, ht, hr, rfl⟩
    · exact (hexact c hm).see _
    · cases job with
      | land => trivial
      | swap commit expected => exact ⟨nofun, nofun⟩
    · have hci : c ∈ y.calls := mem_of_getElem? hi
      cases hjob : c.job with
      | land => exact exact_land hjob
      | swap commit expected =>
        rw [hr]
        exact (exact_turn_iff hjob (hy.carries c hci commit expected hjob)
          (hy.current c hci) ht).mpr (hmet c hi)

/-- Every answer of `advance_target_to` says what happened, and it moves no other branch,
precisely in the runs whose fast-forwards in a checkout find what they have to. -/
theorem answers_exact_iff (target : String) (r : Repo C) (moves : List (Move C)) :
    Keeps (GitCalls.step target) (GitCalls.Exact target) { repo := r, calls := [] } moves ↔
      Meets (GitCalls.step target) (Met target) { repo := r, calls := [] } moves := by
  refine keeps_iff_meets (I := GitCalls.Fits target) (fun _ _ _ hy h => fits_step hy h)
    (fun _ _ _ hy hexact h => exact_step_iff hy hexact h) ?_ ?_
  · exact ⟨fun c hc => (not_mem_nil hc).elim, fun c hc => (not_mem_nil hc).elim⟩
  · exact fun c hc => (not_mem_nil hc).elim

end

/-- `main` is checked out in one worktree; another branch is at the same commit. -/
def pen : Repo Work where
  branches := fun b => if b = "main" ∨ b = "topic" then some ⟨0, 0⟩ else none
  tags := fun _ => none
  worktrees := [("/pen", .branch "main")]

def switchedAway : List (Move Work) :=
  [.call (.swap ⟨1, 0⟩ ⟨0, 0⟩), .run 0 {}, .run 0 {}, .switch "/pen" (.branch "topic"), .run 0 {}]

theorem advance_moves_other_branch :
    ¬ ∀ (r : Repo Work) (moves : List (Move Work)),
      Keeps (GitCalls.step "main") (GitCalls.Exact "main") { repo := r, calls := [] } moves := by
  intro h
  have hrun : (run (GitCalls.step "main") { repo := pen, calls := [] } switchedAway).any (fun y =>
      y.calls.any fun c =>
        decide (c.job = .swap ⟨1, 0⟩ ⟨0, 0⟩) && c.moved.any fun m => m.1 ≠ "main") = true := by
    decide
  obtain ⟨y, hy, hmoved⟩ := run_of_any hrun
  obtain ⟨c, hc, hbad⟩ := any_eq_true.mp hmoved
  rw [Bool.and_eq_true] at hbad
  obtain ⟨m, hm, hne⟩ := any_eq_true.mp hbad.2
  have hexact := ((h pen switchedAway).last hy) c hc
  exact of_decide_eq_true hne (hexact.moved (of_decide_eq_true hbad.1) m hm)

end RatKingdom.Git
