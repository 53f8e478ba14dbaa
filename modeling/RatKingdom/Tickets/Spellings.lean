/-
The spellings of a ticket.

A ticket is named by its identity and, where that is no proquint, by an alias computed from
it.  A minted identity named no ticket before it was stored, by its identity or by its
alias.  So on a backlog of legacy tickets with distinct identities, and after any creates,
a spelling of one ticket never names another: `spellings_unambiguous`.
-/
import RatKingdom.Tickets.Graph

namespace RatKingdom.Tickets

open Core Lib Space List

def aliasOf (ticket : Tuple) : Option String :=
  if isProquintIdentity ticket.identity then none else some (legacyAlias ticket.identity)

def pushSpelling (spellings : List String) (spelling : String) : List String :=
  if spellings.contains spelling then spellings else spellings ++ [spelling]

def idSpellings (s : Store) (id : String) : Except Error (List String) :=
  (resolve s id).map fun found =>
    match found with
    | none => [id]
    | some ticket => (ticket.identity :: (aliasOf ticket).toList).foldl pushSpelling [id]

def ambiguous (id : String) : Error :=
  .other ("ambiguous ticket alias '" ++ id ++ "': matches more than one legacy ticket")

/-- Every spelling of a ticket names it or is refused, and a new identity is none of them. -/
structure Unambiguous (s : Store) : Prop where
  exact : ∀ t ∈ tasks s, resolve s t.identity = .ok (some t)
  spelled : ∀ t ∈ tasks s, ∃ names, idSpellings s t.identity = .ok names ∧ ∀ name ∈ names,
    resolve s name = .ok (some t) ∨ resolve s name = .error (ambiguous name)
  shared : ∀ t ∈ tasks s, ∀ u ∈ tasks s, t ≠ u → ∀ name, aliasOf t = some name →
    aliasOf u = some name → resolve s name = .error (ambiguous name)
  fresh : ∀ draws id, nextId s draws = .ok id → ∀ t ∈ tasks s, t.identity ≠ id ∧ aliasOf t ≠ some id

def isLegacy (identity : String) : Bool :=
  (stripPrefix idPrefix identity).isSome && !isProquintIdentity identity

theorem isLegacy_of_no_dash (ulid : String) (h : '-' ∉ ulid.toList) :
    isLegacy (idPrefix ++ ulid) = true := by
  unfold isLegacy isProquintIdentity
  rw [stripPrefix_append_eq]
  simp [Proquint.looksLike, splitOn_eq_singleton h, proquintWords]

/-- An identity or alias in proquint form. -/
def coin (value : Nat) : String := idPrefix ++ Proquint.encode value proquintWords

theorem legacyAlias_coin (identity : String) : ∃ v, legacyAlias identity = coin v := ⟨_, rfl⟩

theorem consonant_lowercase : ∀ n < 16, Char.toLower
    (Proquint.consonants.getD n 'b') = Proquint.consonants.getD n 'b' := by
  decide

theorem vowel_lowercase : ∀ n < 4, Char.toLower
    (Proquint.vowels.getD n 'a') = Proquint.vowels.getD n 'a' := by
  decide

theorem normalize_encodeU16 (v : Nat) :
    Proquint.normalize (Proquint.encodeU16 v) = Proquint.encodeU16 v := by
  unfold Proquint.encodeU16 Proquint.normalize
  simp only [map_cons, map_nil, cons.injEq, and_true]
  exact ⟨consonant_lowercase _ (Nat.mod_lt _ (by decide)),
    vowel_lowercase _ (Nat.mod_lt _ (by decide)),
    consonant_lowercase _ (Nat.mod_lt _ (by decide)),
    vowel_lowercase _ (Nat.mod_lt _ (by decide)),
    consonant_lowercase _ (Nat.mod_lt _ (by decide))⟩

theorem normalize_encode (v : Nat) : Proquint.normalize (Proquint.encode v proquintWords).toList =
    (Proquint.encode v proquintWords).toList := by
  have hword := normalize_encodeU16
  unfold Proquint.normalize at hword
  unfold Proquint.encode Proquint.normalize
  rw [String.toList_ofList]
  simp [proquintWords, range_succ, intercalate, hword]

theorem hasAlias_of_eq {identity : String} {v : Nat} (hl : isLegacy identity = true)
    (h : legacyAlias identity = coin v) :
    hasAlias (Proquint.encode v proquintWords).toList identity = true := by
  unfold hasAlias
  rw [h, coin, stripPrefix_append_eq, decide_eq_true rfl, Bool.and_true]
  exact hl

variable {is : List String} {id : String} {v : Nat}

theorem canonicalOf_coin (h : coin v ∉ is) : canonicalOf is (coin v) =
    onlyOne (coin v) (is.filter (hasAlias (Proquint.encode v proquintWords).toList)) := by
  unfold canonicalOf
  rw [if_neg h, coin, stripPrefix_append_eq]
  dsimp only
  rw [looksLike_encode v (by decide), normalize_encode]
  rfl

variable {a : String}

theorem onlyOne_mem (id : String) (h : a ∈ is) :
    onlyOne id is = .ok (some a) ∨ onlyOne id is = .error (ambiguous id) := by
  match is, h with
  | [i], h => exact .inl (by rw [mem_singleton.mp h]; rfl)
  | _ :: _ :: _, _ => exact .inr rfl

theorem onlyOne_two {b : String} (ha : a ∈ is) (hb : b ∈ is) (hne : a ≠ b) :
    onlyOne id is = .error (ambiguous id) := by
  match is, ha, hb with
  | [i], ha, hb => exact absurd ((mem_singleton.mp ha).trans (mem_singleton.mp hb).symm) hne
  | _ :: _ :: _, _, _ => rfl

variable {s : Store} {t : Tuple}

theorem resolve_stored (h : resolve s id = .ok (some t)) : t ∈ tasks s := by
  unfold resolve at h
  split at h
  · rename_i u rest hscan
    cases h
    exact (mem_scan_ticket.mp (hscan ▸ mem_cons_self)).1
  · exact (scan_tasks s).mem_iff.mp (resolveAlias_mem h)

theorem resolve_canonical (hs : (identities s).Nodup) (ht : t ∈ tasks s)
    (h : canonicalOf (identities s) id = .ok (some t.identity)) : resolve s id = .ok (some t) := by
  rw [← canonicalId_eq] at h
  unfold canonicalId at h
  cases hr : resolve s id with
  | error e =>
    rw [hr] at h
    cases h
  | ok found =>
    rw [hr] at h
    cases found with
    | none => cases h
    | some u =>
      have hident : u.identity = t.identity := by
        injection h with h
        exact Option.some.inj h
      rw [inj_on_of_nodup_map hs (resolve_stored hr) ht hident]

theorem resolve_error {e : Error} (h : canonicalOf (identities s) id = .error e) :
    resolve s id = .error e := by
  cases hr : resolve s id with
  | error e' =>
    rw [← canonicalId_eq, canonicalId, hr] at h
    injection h with h
    rw [h]
  | ok found =>
    rw [canonicalId_of_resolve hr] at h
    cases h

structure Apart (s : Store) : Prop where
  wf : s.Wf
  single : (identities s).Nodup
  named : ∀ identity ∈ identities s, (stripPrefix idPrefix identity).isSome = true
  apart : ∀ identity ∈ identities s, isProquintIdentity identity = false →
    legacyAlias identity ∉ identities s

section
variable (hs : Apart s) (ht : t ∈ tasks s) {name : String} (h : aliasOf t = some name)
include hs ht h

theorem Apart.legacy :
    isLegacy t.identity = true ∧ legacyAlias t.identity = name ∧ name ∉ identities s := by
  have hm : t.identity ∈ identities s := mem_map_of_mem ht
  unfold aliasOf at h
  split at h
  · cases h
  · rename_i hp
    cases h
    have hp := Bool.eq_false_iff.mpr hp
    exact ⟨by rw [isLegacy, hs.named _ hm, hp]; rfl, rfl, hs.apart _ hm hp⟩

theorem Apart.canonical : ∃ found, canonicalOf (identities s) name = onlyOne name found ∧
      ∀ u ∈ tasks s, aliasOf u = some name → u.identity ∈ found := by
  obtain ⟨-, hcoin, hfree⟩ := hs.legacy ht h
  obtain ⟨v, hv⟩ := legacyAlias_coin t.identity
  rw [hcoin] at hv
  rw [hv] at hfree ⊢
  refine ⟨_, canonicalOf_coin hfree, fun u hu ha => ?_⟩
  obtain ⟨hl, hu', -⟩ := hs.legacy hu ha
  exact mem_filter.mpr ⟨mem_map_of_mem hu, hasAlias_of_eq hl hu'⟩

theorem Apart.aliased :
    resolve s name = .ok (some t) ∨ resolve s name = .error (ambiguous name) := by
  obtain ⟨found, hc, hall⟩ := hs.canonical ht h
  rcases onlyOne_mem name (hall t ht h) with h | h
  · exact .inl (resolve_canonical hs.single ht (hc.trans h))
  · exact .inr (resolve_error (hc.trans h))

end

theorem Apart.exact (hs : Apart s) (ht : t ∈ tasks s) : resolve s t.identity = .ok (some t) :=
  resolve_canonical hs.single ht (canonicalOf_stored (mem_map_of_mem ht))

theorem Apart.shared (hs : Apart s) {u : Tuple} (ht : t ∈ tasks s) (hu : u ∈ tasks s)
    (hne : t ≠ u) {name : String} (h : aliasOf t = some name) (h' : aliasOf u = some name) :
    resolve s name = .error (ambiguous name) := by
  obtain ⟨found, hc, hall⟩ := hs.canonical ht h
  have hident : t.identity ≠ u.identity := fun he => hne (inj_on_of_nodup_map hs.single ht hu he)
  exact resolve_error (hc.trans (onlyOne_two (hall t ht h) (hall u hu h') hident))

theorem Apart.fresh (hs : Apart s) {draws : List Nat} (h : nextId s draws = .ok id)
    (ht : t ∈ tasks s) : t.identity ≠ id ∧ aliasOf t ≠ some id := by
  have hn := (nextId_spec h).2
  constructor
  · intro he
    rw [← he, hs.exact ht] at hn
    cases hn
  · intro he
    rcases hs.aliased ht he with hr | hr
    · rw [hr] at hn
      cases hn
    · rw [hr] at hn
      cases hn

theorem mem_pushSpellings {added names : List String} {name : String} :
    name ∈ added.foldl pushSpelling names ↔ name ∈ names ∨ name ∈ added := by
  induction added generalizing names with
  | nil => simp
  | cons x added ih =>
    have hpush : name ∈ pushSpelling names x ↔ name ∈ names ∨ name = x := by
      unfold pushSpelling
      by_cases hx : names.contains x = true
      · rw [if_pos hx]
        exact ⟨.inl, fun h => h.elim id fun he => he ▸ contains_iff_mem.mp hx⟩
      · rw [if_neg hx, mem_append, mem_singleton]
    rw [foldl_cons, ih, hpush, mem_cons, or_assoc]

theorem Apart.unambiguous (hs : Apart s) : Unambiguous s := by
  refine ⟨fun t => hs.exact, fun t ht => ?_, fun t ht u => hs.shared ht, fun draws id h t =>
    hs.fresh h⟩
  have hnames : idSpellings s t.identity =
      .ok ((t.identity :: (aliasOf t).toList).foldl pushSpelling [t.identity]) := by
    rw [idSpellings, hs.exact ht]
    rfl
  refine ⟨_, hnames, fun name hn => ?_⟩
  rw [mem_pushSpellings, mem_singleton, mem_cons, Option.mem_toList] at hn
  rcases hn with rfl | rfl | hn
  · exact .inl (hs.exact ht)
  · exact .inl (hs.exact ht)
  · exact hs.aliased ht hn

structure Creation where
  ticket : NewTicket
  draws : List Nat
  env : Env

def createStep (castle : String) (s : Store) (c : Creation) : Option Store :=
  some (c.ticket.exec castle c.draws c.env s).2

theorem apart_step {castle : String} {s' : Store} {c : Creation} (hs : Apart s)
    (h : createStep castle s c = some s') : Apart s' := by
  cases h
  rcases create_tasks castle c.ticket c.draws c.env hs.wf with hst | ⟨t, hc, hj⟩
  · rw [hst]
    exact hs
  · obtain ⟨_, _, _, identity, -, hid, rfl⟩ := createIdempotent_new hc
    rcases hj.tasks with ht | ht
    · have hsame : identities (c.ticket.exec castle c.draws c.env s).2 = identities s := by
        rw [identities, ht, identities]
      exact ⟨hj.wf, hsame ▸ hs.single, hsame ▸ hs.named, hsame ▸ hs.apart⟩
    · have hadded : identities (c.ticket.exec castle c.draws c.env s).2 =
          identities s ++ [identity] := by
        rw [identities, ht, map_append]
        rfl
      have hnew : identity ∉ identities s := by
        intro hm
        obtain ⟨u, hu, he⟩ := mem_map.mp hm
        exact (hs.fresh hid hu).1 he
      obtain ⟨⟨draw, -, rfl⟩, -⟩ := nextId_spec hid
      refine ⟨hj.wf, ?_, fun a ha => ?_, fun a ha hp => ?_⟩
      · rw [hadded]
        exact nodup_append.mpr ⟨hs.single, nodup_singleton _, fun a ha b hb he =>
          hnew (mem_singleton.mp hb ▸ he ▸ ha)⟩
      · rw [hadded, mem_append, mem_singleton] at ha
        rcases ha with ha | rfl
        · exact hs.named a ha
        · exact stripPrefix_append _ _
      · rw [hadded, mem_append, mem_singleton] at ha ⊢
        rcases ha with ha | rfl
        · obtain ⟨u, hu, rfl⟩ := mem_map.mp ha
          have halias : aliasOf u = some (legacyAlias u.identity) := by
            rw [aliasOf, hp]
            rfl
          rintro (hm | he)
          · exact hs.apart _ ha hp hm
          · exact (hs.fresh hid hu).2 (he ▸ halias)
        · rw [isProquintIdentity_minted] at hp
          cases hp

structure LegacyBacklog (s : Store) : Prop where
  wf : s.Wf
  single : (identities s).Nodup
  legacy : ∀ identity ∈ identities s, isLegacy identity = true

theorem LegacyBacklog.apart (hs : LegacyBacklog s) : Apart s := by
  have hboth : ∀ identity ∈ identities s, (stripPrefix idPrefix identity).isSome = true ∧
      isProquintIdentity identity = false := by
    intro identity hm
    have hl := hs.legacy identity hm
    rw [isLegacy, Bool.and_eq_true, Bool.not_eq_true'] at hl
    exact hl
  refine ⟨hs.wf, hs.single, fun a ha => (hboth a ha).1, fun a _ _ hm => ?_⟩
  obtain ⟨v, hv⟩ := legacyAlias_coin a
  have hp := (hboth _ hm).2
  rw [hv, coin, isProquintIdentity_minted] at hp
  cases hp

theorem spellings_unambiguous (castle : String) (creations : List Creation) (hs : LegacyBacklog s) :
    Keeps (createStep castle) Unambiguous s creations :=
  .mono (fun _ => Apart.unambiguous) <|
    keeps_of_meets (fun _ _ _ ha h _ => apart_step ha h) hs.apart
      (meets_of_forall (p := fun _ => True) (fun _ _ => trivial) s)

def ulidTicket : Tuple :=
  Tuple.new 1 0 .task "barn" "TKT-01ARZ3NDEKTSV4RRFFQ69G5FAV" "castle" (.object [])

theorem spellings_unambiguous_ulid : Keeps (createStep "castle") Unambiguous
    (Store.empty.push ulidTicket) [⟨{ title := "roof" }, [7], { id := 2, now := 0 }⟩] :=
  spellings_unambiguous "castle" _ ⟨Store.wf_empty.push rfl, nodup_singleton _, fun _ h =>
    mem_singleton.mp h ▸ isLegacy_of_no_dash "01ARZ3NDEKTSV4RRFFQ69G5FAV" (by decide)⟩

end RatKingdom.Tickets
