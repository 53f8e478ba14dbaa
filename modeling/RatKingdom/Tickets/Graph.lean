/-
The dependency graph of a backlog.

`add_dep` searches the stored graph before it writes an edge, and every cross-reference is
written under the identity its name resolves to.  So the graph stays without a cycle and
its entries stay canonical, as long as no ticket is lost on the way and no new ticket
takes an identity that is depended on already: `graph_stays_acyclic`.
-/
import RatKingdom.Lib.Reach
import RatKingdom.Tickets.Mutations

namespace RatKingdom.Tickets

open Core Lib Space Relation List Tuple Store

def depsIn (v : Value) : List String :=
  match v.get "depends_on" with
  | some (.array items) => items.filterMap Value.asStr
  | _ => []

theorem get_cons (f : String × Value) (fields : Fields) (key : String) :
    (Value.object (f :: fields)).get key =
      if f.1 = key then some f.2 else (Value.object fields).get key := by
  by_cases hk : f.1 = key
  · rw [if_pos hk]
    simp [Value.get, hk]
  · rw [if_neg hk]
    simp [Value.get, hk]

theorem get_insertField (k key : String) (v : Value) (fields : Fields) :
    (Value.object (insertField k v fields)).get key =
      if k = key then some v else (Value.object fields).get key := by
  induction fields with
  | nil => exact get_cons (k, v) [] key
  | cons f fields ih =>
    unfold insertField
    by_cases hf : f.1 = k
    · rw [if_pos hf, get_cons, get_cons]
      by_cases hk : k = key
      · rw [if_pos hk, if_pos hk]
      · rw [if_neg hk, if_neg hk, if_neg (by rw [hf]; exact hk)]
    · rw [if_neg hf]
      by_cases hlt : k < f.1
      · rw [if_pos hlt, get_cons]
      · rw [if_neg hlt, get_cons, ih, get_cons]
        by_cases hk : k = key
        · rw [if_pos hk, if_pos hk, if_neg (by rw [← hk]; exact hf)]
        · rw [if_neg hk, if_neg hk]

variable {k : String}

theorem depsIn_insertField (hk : k ≠ "depends_on") (v : Value) (fields : Fields) :
    depsIn (.object (insertField k v fields)) = depsIn (.object fields) := by
  unfold depsIn
  rw [get_insertField, if_neg hk]

theorem depsIn_insert_array (items : List Value) (fields : Fields) :
    depsIn (.object (insertField "depends_on" (.array items) fields)) =
      items.filterMap Value.asStr := by
  unfold depsIn
  rw [get_insertField, if_pos rfl]

theorem depsIn_setStr (hk : k ≠ "depends_on") (v : Option String) (fields : Fields) :
    depsIn (.object (setStr k v fields)) = depsIn (.object fields) := by
  cases v with
  | none => rfl
  | some s => exact depsIn_insertField hk _ _

theorem depsIn_orInsert (hk : k ≠ "depends_on") (v : Value) (fields : Fields) :
    depsIn (.object (orInsert k v fields)) = depsIn (.object fields) := by
  unfold orInsert
  split
  · exact depsIn_insertField hk _ _
  · rfl

theorem depsIn_removeField (hk : k ≠ "depends_on") (fields : Fields) :
    depsIn (.object (removeField k fields)) = depsIn (.object fields) := by
  have hget : (Value.object (removeField k fields)).get "depends_on" =
      (Value.object fields).get "depends_on" := by
    induction fields with
    | nil => rfl
    | cons f fields ih =>
      unfold removeField at ih ⊢
      by_cases hf : f.1 = k
      · rw [filter_cons_of_neg (by simpa using hf), ih, get_cons, if_neg (by rw [hf]; exact hk)]
      · rw [filter_cons_of_pos (by simpa using hf), get_cons, ih, get_cons]
  unfold depsIn
  rw [hget]

theorem depsIn_editLabels (add remove : List String) (fields : Fields) :
    depsIn (.object (editLabels add remove fields)) = depsIn (.object fields) := by
  have hk : "labels" ≠ "depends_on" := by decide
  unfold editLabels
  split
  · rfl
  · dsimp only
    split
    · rw [depsIn_insertField hk, depsIn_orInsert hk]
    · exact depsIn_orInsert hk _ _

theorem depsIn_changes (ch : TicketChanges) (parent : Option String) (fields : Fields) :
    depsIn (.object (ch.apply parent fields)) = depsIn (.object fields) := by
  unfold TicketChanges.apply
  rw [depsIn_editLabels, depsIn_setStr (by decide), depsIn_setStr (by decide),
    depsIn_setStr (by decide), depsIn_setStr (by decide), depsIn_setStr (by decide),
    depsIn_setStr (by decide)]

theorem depsIn_orInsert_array (fields : Fields) :
    depsIn (.object (orInsert "depends_on" (.array []) fields)) = depsIn (.object fields) := by
  unfold orInsert
  split
  · rename_i hg
    rw [depsIn_insert_array]
    unfold depsIn
    rw [hg]
    rfl
  · rfl

variable {d dep : String} {fields : Fields}

theorem depsIn_addDependency (h : d ∈ depsIn (.object (addDependency dep fields))) :
    d ∈ depsIn (.object fields) ∨ d = dep := by
  unfold addDependency at h
  rw [← depsIn_orInsert_array]
  dsimp only at h
  split at h
  · rename_i items hg
    split at h
    · exact .inl h
    · rw [depsIn_insert_array, filterMap_append] at h
      rcases mem_append.mp h with h | h
      · left
        unfold depsIn
        rw [hg]
        exact h
      · simp only [filterMap_cons, Value.asStr, filterMap_nil, mem_singleton] at h
        exact .inr h
  · exact .inl h

theorem depsIn_removeDependency (h : d ∈ depsIn (.object (removeDependency dep fields))) :
    d ∈ depsIn (.object fields) := by
  unfold removeDependency at h
  split at h
  · rename_i items hg
    rw [depsIn_insert_array] at h
    obtain ⟨v, hv, hs⟩ := mem_filterMap.mp h
    unfold depsIn
    rw [hg]
    exact mem_filterMap.mpr ⟨v, mem_of_mem_filter hv, hs⟩
  · exact h

theorem depsIn_newPayload (castle : String) (t : NewTicket) (parent : Option String)
    (deps : List String) (now : DateTime) : depsIn (newPayload castle t parent deps now) = deps := by
  unfold newPayload
  rw [depsIn_setStr (by decide)]
  show (deps.map .string).filterMap Value.asStr = deps
  rw [filterMap_map]
  exact filterMap_some

def tasks (s : Store) : List Tuple := s.tuples.filter fun t => t.category = .task

def identities (s : Store) : List String := (tasks s).map identity

def hasAlias (alias_ : List Char) (identity : String) : Bool :=
  (stripPrefix idPrefix identity).isSome && !isProquintIdentity identity &&
    stripPrefix idPrefix (legacyAlias identity) = some alias_

def onlyOne (id : String) : List String → Except Error (Option String)
  | [] => .ok none
  | [identity] => .ok (some identity)
  | _ :: _ :: _ => .error (.other ("ambiguous ticket alias '" ++ id ++
      "': matches more than one legacy ticket"))

/-- What a name resolves to among these identities. -/
def canonicalOf (identities : List String) (id : String) : Except Error (Option String) :=
  if id ∈ identities then .ok (some id)
  else
    match stripPrefix idPrefix id with
    | none => .ok none
    | some rest =>
      if !Proquint.looksLike rest proquintWords then .ok none
      else onlyOne id (identities.filter (hasAlias (Proquint.normalize rest)))

variable {is : List String}

theorem onlyOne_perm {js : List String} (h : is.Perm js) (id : String) :
    onlyOne id is = onlyOne id js := by
  match is, h with
  | [], h => rw [nil_perm.mp h]
  | [i], h => rw [singleton_perm.mp h]
  | _ :: _ :: _, h =>
    match js, h.length_eq with
    | _ :: _ :: _, _ => rfl

theorem canonicalOf_perm {js : List String} (h : is.Perm js) (id : String) :
    canonicalOf is id = canonicalOf js id := by
  unfold canonicalOf
  by_cases hm : id ∈ is
  · rw [if_pos hm, if_pos (h.mem_iff.mp hm)]
  · rw [if_neg hm, if_neg (fun hj => hm (h.mem_iff.mpr hj))]
    cases stripPrefix idPrefix id with
    | none => rfl
    | some rest =>
      dsimp only
      split
      · rfl
      · exact onlyOne_perm (h.filter _) id

theorem scan_tasks (s : Store) : (s.scan taskPattern).Perm (tasks s) := by
  have hp : taskPattern.matches = fun t : Tuple => decide (t.category = .task) := by
    funext t
    simp [taskPattern, Pattern.matches, admits, admitsText, eq_comm]
  have h := scan_perm s taskPattern
  rw [hp] at h
  exact h

variable {s : Store} {id : String} {t : Tuple}

theorem mem_scan_ticket : t ∈ s.scan (ticketPattern id) ↔ t ∈ tasks s ∧ t.identity = id := by
  rw [mem_scan]
  unfold tasks
  rw [mem_filter]
  constructor
  · intro ⟨hm, hp⟩
    obtain ⟨hcat, hident⟩ := ticketPattern_matches hp
    exact ⟨⟨hm, decide_eq_true hcat⟩, hident⟩
  · intro ⟨⟨hm, hcat⟩, hident⟩
    have hp : (ticketPattern id).matches t = true := by
      simp only [Pattern.matches, ticketPattern, admits, admitsText, Bool.and_eq_true,
        decide_eq_true_eq]
      exact ⟨of_decide_eq_true hcat, trivial, hident, trivial, trivial, trivial, trivial⟩
    exact ⟨hm, hp⟩

theorem resolve_unique (id : String) (found : List Tuple) :
    Except.map (fun t : Option Tuple => t.map identity) (match found with
      | [] => .ok none
      | [t] => .ok (some t)
      | _ :: _ :: _ => .error (.other ("ambiguous ticket alias '" ++ id ++
          "': matches more than one legacy ticket"))) = onlyOne id (found.map identity) := by
  match found with
  | [] | [_] | _ :: _ :: _ => rfl

theorem canonicalId_eq (s : Store) (id : String) :
    canonicalId s id = canonicalOf (identities s) id := by
  unfold canonicalId resolve resolveAlias canonicalOf
  cases hscan : s.scan (ticketPattern id) with
  | cons t rest =>
    have ht : t ∈ tasks s ∧ t.identity = id := mem_scan_ticket.mp (hscan ▸ mem_cons_self)
    have hid : id ∈ identities s := mem_map.mpr ⟨t, ht⟩
    rw [if_pos hid]
    show Except.ok (some t.identity) = _
    rw [ht.2]
  | nil =>
    have hn : id ∉ identities s := by
      intro hm
      have ht := mem_scan_ticket.mpr (mem_map.mp hm).choose_spec
      rw [hscan] at ht
      exact not_mem_nil ht
    rw [if_neg hn]
    cases stripPrefix idPrefix id with
    | none => rfl
    | some rest =>
      dsimp only
      split
      · rfl
      · have hperm : (((s.scan taskPattern).filter fun t =>
            hasAlias (Proquint.normalize rest) t.identity).map identity).Perm
            ((identities s).filter (hasAlias (Proquint.normalize rest))) := by
          unfold identities
          rw [filter_map]
          exact ((scan_tasks s).filter _).map _
        exact (resolve_unique id _).trans (onlyOne_perm hperm id)

theorem canonicalOf_mem {a : String} (h : canonicalOf is id = .ok (some a)) : a ∈ is := by
  unfold canonicalOf at h
  by_cases hm : id ∈ is
  · rw [if_pos hm] at h
    cases h
    exact hm
  · rw [if_neg hm] at h
    cases hp : stripPrefix idPrefix id with
    | none =>
      rw [hp] at h
      cases h
    | some rest =>
      rw [hp] at h
      dsimp only at h
      split at h
      · cases h
      · unfold onlyOne at h
        split at h
        · cases h
        · rename_i i hf
          cases h
          exact mem_of_mem_filter (hf ▸ mem_singleton.mpr rfl)
        · cases h

theorem canonicalOf_stored (h : id ∈ is) : canonicalOf is id = .ok (some id) := by
  unfold canonicalOf
  rw [if_pos h]

theorem takeTicket_identity {a : String} (hid : canonicalId s id = .ok (some a))
    (h : takeTicket s a = .ok (some t)) :
    t.identity = a := by
  rw [canonicalId_eq] at hid
  unfold takeTicket at h
  rw [canonicalId_eq, canonicalOf_stored (canonicalOf_mem hid)] at h
  have h' : ((s.query (ticketPattern a) true (some 1)).head?).map Row.tuple = some t := by
    injection h
  obtain ⟨row, hrow, ht⟩ := Option.map_eq_some_iff.mp h'
  rw [← ht]
  exact (ticketPattern_matches (query_spec (mem_of_mem_head? hrow)).2).2

/-- The edit adds no dependency but those of `extra`. -/
def Edit.DepsWithin (e : Edit) (extra : List String) : Prop :=
  ∀ now v, e.rewrite now = .ok v → ∀ d ∈ depsIn v, d ∈ depsOf e.existing ∨ d ∈ extra

def FieldsWithin (f : Fields → Fields) (extra : List String) : Prop :=
  ∀ fields, ∀ d ∈ depsIn (.object (f fields)), d ∈ depsIn (.object fields) ∨ d ∈ extra

variable {f : Fields → Fields} {extra : List String}

theorem fieldsWithin_of_eq (h : ∀ fields, depsIn (.object (f fields)) = depsIn (.object fields)) :
    FieldsWithin f extra := by
  intro fields d hd
  rw [h] at hd
  exact .inl hd

variable {extra : List String}

theorem updated_within {f : Fields → Fields} (hf : FieldsWithin f extra)
    (now : DateTime) {fields : Fields} {d : String}
    (hd : d ∈ depsIn (.object
      (insertField "updated_at" (.string (DateTime.toRfc3339 now)) (f fields)))) :
    d ∈ depsIn (.object fields) ∨ d ∈ extra := by
  rw [depsIn_insertField (by decide)] at hd
  exact hf fields d hd

variable {payload : Value}

theorem editPayload_within (hf : FieldsWithin f extra) {v : Value} {now : DateTime}
    (h : editPayload f payload now = .ok v) (hd : d ∈ depsIn v) :
    d ∈ depsIn payload ∨ d ∈ extra := by
  cases payload with
  | object fields =>
    cases h
    exact updated_within hf now hd
  | _ => cases h

theorem swapPayload_within (hf : FieldsWithin f []) {check : Bool} {now : DateTime}
    (hd : d ∈ depsIn (swapPayload check f payload now)) : d ∈ depsIn payload := by
  unfold swapPayload at hd
  split at hd
  · cases payload with
    | object fields => exact (updated_within hf now hd).resolve_right not_mem_nil
    | _ => exact hd
  · exact hd

variable {e : Edit}

theorem edit_some (h : edit s id f = .ok (some e)) :
    takeTicket s id = .ok (some e.existing) ∧ e.rewrite = editPayload f e.existing.payload := by
  unfold edit at h
  split at h
  · cases h
  · cases h
  · rename_i existing ht
    cases h
    exact ⟨ht, rfl⟩

theorem edit_within (hf : FieldsWithin f extra) (h : edit s id f = .ok (some e)) :
    e.DepsWithin extra := by
  intro now v hv d hd
  rw [(edit_some h).2] at hv
  exact editPayload_within hf hv hd

theorem takeAndSwap_within {check : Tuple → Bool} (hf : FieldsWithin f [])
    (h : takeAndSwap s id check f = .ok (some e)) :
    e.DepsWithin [] := by
  obtain ⟨existing, -, rfl⟩ := ok_some_of_map h
  intro now v hv d hd
  cases hv
  exact .inl (swapPayload_within hf hd)

theorem status_within (v : Value) : FieldsWithin (insertField "status" v) [] :=
  fieldsWithin_of_eq fun fields => depsIn_insertField (by decide) v fields

theorem claim_swaps (s : Store) (id : String) :
    beginEdit s (.claim id) = takeAndSwap s id (fun t => t.payload.getStr "status" = some "open")
      (insertField "status" (.string "in_progress")) := by
  have hpay : ∀ (payload : Value) (now : DateTime), claimPayload payload now =
      swapPayload (payload.getStr "status" = some "open")
        (insertField "status" (.string "in_progress")) payload now := by
    intro payload now
    by_cases hs : payload.getStr "status" = some "open"
    · refine (if_pos hs).trans (.trans ?_ (if_pos (decide_eq_true hs)).symm)
      cases payload <;> rfl
    · exact (if_neg hs).trans (if_neg (by simpa using hs)).symm
  unfold beginEdit takeAndSwap
  simp only [hpay]

theorem setClosed_within (record : DeliveryRecord) : FieldsWithin (setClosed record) [] := by
  apply fieldsWithin_of_eq
  intro fields
  unfold setClosed
  rw [depsIn_insertField (by decide), depsIn_insertField (by decide)]

theorem update_within {ch : TicketChanges} (h : update s id ch = .ok (some e)) :
    e.DepsWithin [] := by
  obtain ⟨-, -, h⟩ := bind_ok h
  obtain ⟨-, -, h⟩ := bind_ok h
  obtain ⟨-, -, h⟩ := bind_ok h
  obtain ⟨parent, -, h⟩ := bind_ok h
  exact edit_within (fieldsWithin_of_eq (depsIn_changes ch parent)) h

/-- What the checks of `add_dep` leave: both names resolve, to different tickets, and the
search found no way back. -/
structure Edit.Links (s : Store) (id dep : String) (e : Edit) (d : String) : Prop where
  taken : takeTicket s e.existing.identity = .ok (some e.existing)
  ticket : canonicalId s id = .ok (some e.existing.identity)
  dependency : canonicalId s dep = .ok (some d)
  distinct : e.existing.identity ≠ d
  unreached : reaches s d e.existing.identity = false
  within : e.DepsWithin [d]

theorem addDep_links (h : addDep s id dep = .ok (some e)) : ∃ d, e.Links s id dep d := by
  unfold addDep at h
  cases hid : canonicalId s id with
  | error err =>
    rw [hid] at h
    cases h
  | ok found =>
    rw [hid] at h
    cases found with
    | none => cases h
    | some a =>
      cases hdep : canonicalId s dep with
      | error err =>
        rw [hdep] at h
        cases h
      | ok found =>
        rw [hdep] at h
        cases found with
        | none => cases h
        | some d =>
          dsimp only at h
          by_cases had : a = d
          · rw [if_pos had] at h
            cases h
          · rw [if_neg had] at h
            by_cases hr : reaches s d a = true
            · rw [if_pos hr] at h
              cases h
            · rw [if_neg hr] at h
              have htake := (edit_some h).1
              have hident : e.existing.identity = a := takeTicket_identity hid htake
              exact ⟨d, by rw [hident]; exact htake, by rw [hident]; exact hid, hdep,
                by rw [hident]; exact had,
                by rw [hident]; simpa using hr,
                edit_within (fun fields x hx => (depsIn_addDependency hx).imp_right
                  mem_singleton.mpr) h⟩

/-- Every operation but `add_dep` leaves a ticket no dependency it did not have. -/
theorem mutation_deps {m : Mutation} (h : m.begin s = .ok (some e)) :
    e.DepsWithin [] ∨ ∃ id dep d, m = .edit (.addDep id dep) ∧ e.Links s id dep d := by
  cases m with
  | edit op =>
    cases op with
    | update id ch => exact .inl (update_within h)
    | claim id =>
      rw [Mutation.begin, claim_swaps] at h
      exact .inl (takeAndSwap_within (status_within _) h)
    | recordDelivery id record => exact .inl (edit_within (setClosed_within record) h)
    | addDep id dep =>
      obtain ⟨d, hd⟩ := addDep_links h
      exact .inr ⟨id, dep, d, rfl, hd⟩
    | reopen id status =>
      simp only [Mutation.begin, beginEdit] at h
      split at h
      · exact .inl (edit_within (status_within _) h)
      · cases h
  | recordDeliveryOnce id record =>
    simp only [Mutation.begin, recordDeliveryOnce] at h
    split at h
    · cases h
    · cases h
    · split at h
      · exact .inl (edit_within (setClosed_within record) h)
      · split at h <;> cases h
  | clearDelivery id status =>
    simp only [Mutation.begin, clearDelivery] at h
    split at h
    · cases h
    · cases h
    · split at h
      · cases h
      · refine .inl (edit_within (fieldsWithin_of_eq fun fields => ?_) h)
        rw [depsIn_insertField (by decide), depsIn_removeField (by decide)]
  | claimAuthorized ticket =>
    simp only [Mutation.begin] at h
    split at h
    · rw [claim_swaps] at h
      exact .inl (takeAndSwap_within (status_within _) h)
    · cases h
  | reopenIfInProgress id | repairCloseDelivered id commit =>
    exact .inl (takeAndSwap_within (status_within _) h)
  | removeDep id dep =>
    simp only [Mutation.begin, removeDep] at h
    split at h
    · cases h
    · cases h
    · split at h
      · cases h
      · exact .inl (edit_within (fun fields d hd => .inl (depsIn_removeDependency hd)) h)
  | repairClearStaleOwnership id status assignee =>
    refine .inl (takeAndSwap_within (fieldsWithin_of_eq fun fields => ?_) h)
    rw [depsIn_insertField (by decide), depsIn_insertField (by decide)]

def isTicket (t : Tuple) : Bool := (stripPrefix idPrefix t.identity).isSome

def DependsOn (ts : List Tuple) (a b : String) : Prop :=
  ∃ t ∈ ts, isTicket t = true ∧ t.identity = a ∧ b ∈ depsOf t

def depsAt (s : Store) (identity : String) : List String :=
  match byId s identity with
  | none => []
  | some t => depsOf t

def searchFuel (s : Store) : Nat := 2 + ((s.scan taskPattern).map fun t => (depsOf t).length).sum

theorem reachesFrom_eq (s : Store) (target : String) (fuel : Nat) (stack seen : List String) :
    reachesFrom s target fuel stack seen = (search (depsAt s) target fuel stack seen).getD false := by
  induction fuel generalizing stack seen with
  | zero => rfl
  | succ fuel ih =>
    cases stack with
    | nil => rfl
    | cons node stack =>
      unfold reachesFrom search
      by_cases ht : node = target
      · rw [if_pos ht, if_pos ht]
        rfl
      · rw [if_neg ht, if_neg ht]
        by_cases hs : seen.contains node = true
        · rw [if_pos hs, if_pos hs]
          exact ih stack seen
        · rw [if_neg hs, if_neg hs, ← ih]
          unfold depsAt
          cases byId s node with
          | none | some t => rfl

theorem byId_some {identity : String} (h : byId s identity = some t) :
    t ∈ s.scan taskPattern ∧ isTicket t = true ∧ t.identity = identity := by
  have hident := find?_some h
  have hm := mem_filter.mp (mem_reverse.mp (mem_of_find?_eq_some h))
  exact ⟨hm.1, hm.2, of_decide_eq_true hident⟩

theorem tabled (s : Store) : Tabled identity depsOf (s.scan taskPattern) (depsAt s) := by
  intro a
  unfold depsAt
  cases hb : byId s a with
  | none => exact .inl rfl
  | some t =>
    obtain ⟨hm, -, hident⟩ := byId_some hb
    exact .inr ⟨t, hm, hident, rfl⟩

/-- The search of `reaches` ends on every backlog, and says whether the target can be
reached along the entries of the listing. -/
theorem search_ends (s : Store) (start target : String) :
    ∃ found, search (depsAt s) target (searchFuel s) [start] [] = some found ∧
      reaches s start target = found ∧
      (found = true ↔ ReflTransGen (Arc (depsAt s)) start target) := by
  have hsum : pending identity depsOf (s.scan taskPattern) [] =
      ((s.scan taskPattern).map fun t => (depsOf t).length).sum := rfl
  have hlt : [start].length + pending identity depsOf (s.scan taskPattern) [] < searchFuel s := by
    rw [hsum, length_singleton]
    unfold searchFuel
    omega
  have hsome : (search (depsAt s) target (searchFuel s) [start] []).isSome = true :=
    search_some (tabled s) (searchFuel s) [start] [] hlt
  obtain ⟨found, hf⟩ := Option.isSome_iff_exists.mp hsome
  have hr : reaches s start target = found := by
    show reachesFrom s target (searchFuel s) [start] [] = found
    rw [reachesFrom_eq, hf]
    rfl
  exact ⟨found, hf, hr, search_spec hf⟩

def Single (ts : List Tuple) : Prop := ((ts.filter isTicket).map identity).Nodup

/-- A dependency is spelled as the identity its name resolves to, or names nothing. -/
def Canonical (ts : List Tuple) (d : String) : Prop :=
  canonicalOf (ts.map identity) d = .ok none ∨ canonicalOf (ts.map identity) d = .ok (some d)

structure SoundBacklog (ts : List Tuple) : Prop where
  single : Single ts
  acyclic : Acyclic (DependsOn ts)
  canonical : ∀ t ∈ ts, isTicket t = true → ∀ d ∈ depsOf t, Canonical ts d

section
variable {ts us rest : List Tuple} {t u : Tuple} {d : String}

theorem canonical_perm (h : (ts.map identity).Perm (us.map identity)) :
    Canonical ts d ↔ Canonical us d := by
  unfold Canonical
  rw [canonicalOf_perm h]

theorem dependsOn_perm (h : ts.Perm us) : DependsOn ts = DependsOn us := by
  funext a b
  apply propext
  constructor
  · intro ⟨t, ht, hd⟩
    exact ⟨t, h.mem_iff.mp ht, hd⟩
  · intro ⟨t, ht, hd⟩
    exact ⟨t, h.mem_iff.mpr ht, hd⟩

theorem SoundBacklog.perm (hs : SoundBacklog ts) (h : ts.Perm us) : SoundBacklog us := by
  refine ⟨((h.filter isTicket).map identity).nodup_iff.mp hs.single, ?_, ?_⟩
  · rw [← dependsOn_perm h]
    exact hs.acyclic
  · intro t ht htk d hd
    exact (canonical_perm (h.map identity)).mp (hs.canonical t (h.mem_iff.mpr ht) htk d hd)

theorem isTicket_congr (h : u.identity = t.identity) : isTicket u = isTicket t := by
  unfold isTicket
  rw [h]

theorem identities_swap (h : u.identity = t.identity) :
    (t :: rest).map identity = (u :: rest).map identity := by
  rw [map_cons, map_cons, h]

theorem single_swap (hs : Single (t :: rest)) (h : u.identity = t.identity) : Single (u :: rest) := by
  unfold Single at hs ⊢
  by_cases ht : isTicket t = true
  · rw [filter_cons_of_pos ht] at hs
    rw [filter_cons_of_pos (by rw [isTicket_congr h]; exact ht), map_cons, h]
    exact hs
  · rw [filter_cons_of_neg ht] at hs
    rw [filter_cons_of_neg (by rw [isTicket_congr h]; exact ht)]
    exact hs

theorem dependsOn_swap (h : u.identity = t.identity)
    (hdeps : ∀ d ∈ depsOf u, d ∈ depsOf t ∨ d ∈ extra) {a b : String}
    (hab : DependsOn (u :: rest) a b) :
    DependsOn (t :: rest) a b ∨ (a = t.identity ∧ b ∈ extra) := by
  obtain ⟨v, hv, htk, hident, hb⟩ := hab
  rcases mem_cons.mp hv with rfl | hv
  · rcases hdeps b hb with hb | hb
    · exact .inl ⟨t, mem_cons_self, by rw [← isTicket_congr h]; exact htk,
        by rw [← h]; exact hident, hb⟩
    · exact .inr ⟨by rw [← hident, h], hb⟩
  · exact .inl ⟨v, mem_cons_of_mem _ hv, htk, hident, hb⟩

section
variable (hs : SoundBacklog (t :: rest)) (h : u.identity = t.identity)
include hs h

theorem canonical_swap (hdeps : ∀ d ∈ depsOf u, d ∈ depsOf t ∨ d ∈ extra)
    (hextra : ∀ d ∈ extra, Canonical (t :: rest) d) :
    ∀ v ∈ u :: rest, isTicket v = true → ∀ d ∈ depsOf v, Canonical (u :: rest) d := by
  intro v hv htk d hd
  rw [← canonical_perm (List.Perm.of_eq (identities_swap h))]
  rcases mem_cons.mp hv with rfl | hv
  · rcases hdeps d hd with hd | hd
    · exact hs.canonical t mem_cons_self (by rw [← isTicket_congr h]; exact htk) d hd
    · exact hextra d hd
  · exact hs.canonical v (mem_cons_of_mem _ hv) htk d hd

theorem SoundBacklog.swap (hdeps : ∀ d ∈ depsOf u, d ∈ depsOf t ∨ d ∈ ([] : List String)) :
    SoundBacklog (u :: rest) := by
  refine ⟨single_swap hs.single h, ?_, canonical_swap hs h hdeps (nofun)⟩
  apply hs.acyclic.mono
  intro a b hab
  exact (dependsOn_swap h hdeps hab).resolve_right fun hx => not_mem_nil hx.2

theorem SoundBacklog.link (hdeps : ∀ x ∈ depsOf u, x ∈ depsOf t ∨ x ∈ [d])
    (hd : d ∈ (t :: rest).map identity)
    (hreach : ¬ ReflTransGen (DependsOn (t :: rest)) d t.identity) : SoundBacklog (u :: rest) := by
  refine ⟨single_swap hs.single h, ?_, canonical_swap hs h hdeps ?_⟩
  · apply hs.acyclic.arc hreach
    intro a b hab
    exact (dependsOn_swap h hdeps hab).imp_right fun hx => ⟨hx.1, mem_singleton.mp hx.2⟩
  · intro x hx
    rw [mem_singleton.mp hx]
    exact .inr (canonicalOf_stored hd)

end

theorem canonicalOf_minted {is : List String} {new : String} (hp : isProquintIdentity new = true)
    (hd : d ≠ new) : canonicalOf (new :: is) d = canonicalOf is d := by
  have hm : d ∈ new :: is ↔ d ∈ is := by
    rw [mem_cons]
    exact or_iff_right hd
  unfold canonicalOf
  rw [if_congr hm rfl rfl]
  have hfilter : ∀ alias_, (new :: is).filter (hasAlias alias_) = is.filter (hasAlias alias_) := by
    intro alias_
    apply filter_cons_of_neg
    unfold hasAlias
    rw [hp]
    simp
  simp only [hfilter]

theorem SoundBacklog.mint (hs : SoundBacklog ts) (hp : isProquintIdentity u.identity = true)
    (hnew : u.identity ∉ ts.map identity) (hdeps : ∀ d ∈ depsOf u, d ∈ ts.map identity)
    (hfree : ∀ a, ¬ DependsOn ts a u.identity) : SoundBacklog (u :: ts) := by
  have harc : ∀ {a b}, DependsOn (u :: ts) a b →
      DependsOn ts a b ∨ (a = u.identity ∧ b ∈ depsOf u) := by
    intro a b ⟨v, hv, htk, hident, hb⟩
    rcases mem_cons.mp hv with rfl | hv
    · exact .inr ⟨hident.symm, hb⟩
    · exact .inl ⟨v, hv, htk, hident, hb⟩
  refine ⟨?_, ?_, ?_⟩
  · unfold Single
    by_cases ht : isTicket u = true
    · rw [filter_cons_of_pos ht, map_cons, nodup_cons]
      refine ⟨fun hm => hnew ?_, hs.single⟩
      obtain ⟨v, hv, hident⟩ := mem_map.mp hm
      exact mem_map.mpr ⟨v, mem_of_mem_filter hv, hident⟩
    · rw [filter_cons_of_neg ht]
      exact hs.single
  · apply hs.acyclic.source (x := u.identity)
    · intro a ha
      rcases harc ha with ha | ⟨-, ha⟩
      · exact hfree a ha
      · exact hnew (hdeps _ ha)
    · intro a b hab
      exact (harc hab).imp_right And.left
  · intro v hv htk d hd
    rcases mem_cons.mp hv with rfl | hv
    · exact .inr (canonicalOf_stored (mem_cons_of_mem _ (hdeps d hd)))
    · have hne : d ≠ u.identity := by
        intro he
        exact hfree v.identity ⟨v, hv, htk, rfl, he ▸ hd⟩
      unfold Canonical
      rw [map_cons, canonicalOf_minted hp hne]
      exact hs.canonical v hv htk d hd

end

theorem arc_eq (h : Single (tasks s)) : Arc (depsAt s) = DependsOn (tasks s) := by
  funext a b
  apply propext
  constructor
  · intro hab
    unfold Arc depsAt at hab
    cases hb : byId s a with
    | none =>
      rw [hb] at hab
      cases hab
    | some t =>
      rw [hb] at hab
      obtain ⟨hm, htk, hident⟩ := byId_some hb
      exact ⟨t, (scan_tasks s).mem_iff.mp hm, htk, hident, hab⟩
  · intro ⟨t, ht, htk, hident, hb⟩
    have hlisted : t ∈ (s.scan taskPattern).filter isTicket :=
      mem_filter.mpr ⟨(scan_tasks s).mem_iff.mpr ht, htk⟩
    have hsome : (byId s a).isSome = true :=
      find?_isSome.mpr ⟨t, mem_reverse.mpr hlisted, decide_eq_true hident⟩
    obtain ⟨u, hu⟩ := Option.isSome_iff_exists.mp hsome
    obtain ⟨humem, hutk, huident⟩ := byId_some hu
    have hut : u = t :=
      inj_on_of_nodup_map h (mem_filter.mpr ⟨(scan_tasks s).mem_iff.mp humem, hutk⟩)
        (mem_filter.mpr ⟨ht, htk⟩) (huident.trans hident.symm)
    show b ∈ depsAt s a
    unfold depsAt
    rw [hu, hut]
    exact hb

theorem reaches_iff (h : Single (tasks s)) (start target : String) :
    reaches s start target = true ↔ ReflTransGen (DependsOn (tasks s)) start target := by
  obtain ⟨found, -, hr, hspec⟩ := search_ends s start target
  rw [hr, hspec, arc_eq h]

section
variable {s s' : Store} {t : Tuple} {e : Edit} {m : Mutation} {env : Env}

theorem tasks_push (s : Store) (t : Tuple) :
    tasks (s.push t) = tasks s ++ if t.category = .task then [t] else [] := by
  unfold tasks
  rw [tuples_push, filter_append]
  by_cases ht : t.category = .task
  · rw [if_pos ht, filter_cons_of_pos (by simpa using ht), filter_nil]
  · rw [if_neg ht, filter_cons_of_neg (by simpa using ht), filter_nil]

theorem Quiet.tasks_eq (h : Quiet s s') : tasks s' = tasks s := by
  obtain ⟨extra, hr, hne⟩ := h.rows
  unfold tasks tuples
  rw [hr, map_append, filter_append]
  have hnil : (extra.map Row.tuple).filter (fun t => t.category = .task) = [] := by
    apply filter_eq_nil_iff.mpr
    intro t ht
    obtain ⟨row, hrow, rfl⟩ := mem_map.mp ht
    simpa using hne row hrow
  rw [hnil, append_nil]

theorem mem_tasks : t ∈ tasks s ↔ ∃ row ∈ s.rows, row.tuple = t ∧ t.category = .task := by
  unfold tasks tuples
  rw [mem_filter, mem_map]
  constructor
  · intro ⟨⟨row, hrow, hr⟩, hcat⟩
    exact ⟨row, hrow, hr, of_decide_eq_true hcat⟩
  · intro ⟨row, hrow, hr, hcat⟩
    exact ⟨⟨row, hrow, hr⟩, decide_eq_true hcat⟩

theorem rows_perm_erase (hwf : s.Wf) {row : Row} (hrow : row ∈ s.rows) :
    s.rows.Perm (row :: (s.erase row.tuple.id).rows) := by
  obtain ⟨before, after, hsplit⟩ := append_of_mem hrow
  have hids := hwf.ids
  rw [hsplit, map_append, map_cons, nodup_middle, nodup_cons] at hids
  have hkeep : ∀ r ∈ before ++ after, r.tuple.id ≠ row.tuple.id := by
    intro r hr he
    apply hids.1
    rw [← map_append]
    exact mem_map.mpr ⟨r, hr, he⟩
  have herase : (s.erase row.tuple.id).rows = before ++ after := by
    show s.rows.filter _ = _
    rw [hsplit, filter_append, filter_cons_of_neg (by simp), ← filter_append]
    apply filter_eq_self.mpr
    intro r hr
    simpa using hkeep r hr
  rw [herase, hsplit]
  exact perm_middle

theorem tasks_perm_erase (hwf : s.Wf) {row : Row} (hrow : row ∈ s.rows)
    (hcat : row.tuple.category = .task) :
    (tasks s).Perm (row.tuple :: tasks (s.erase row.tuple.id)) := by
  have h := ((rows_perm_erase hwf hrow).map Row.tuple).filter fun t => decide (t.category = .task)
  rw [map_cons, filter_cons_of_pos (by simpa using hcat)] at h
  exact h

/-- The tuple an operation takes is written back. -/
def Backs (s : Store) (m : Mutation) (env : Env) : Prop :=
  ∀ e, m.begin s = .ok (some e) → env.take.goes = true →
    env.take = .done ∧ e.GoesBack env (s.erase e.existing.id)

/-- What an operation makes of the tasks: nothing, or one of them is written anew. -/
structure Rewritten (s : Store) (e : Edit) (env : Env) (s' : Store) (payload : Value) : Prop where
  rewrite : e.rewrite env.now = .ok payload
  before : (tasks s).Perm (e.existing :: tasks (s.erase e.existing.id))
  after : (tasks s').Perm (withPayload e.existing env.id payload :: tasks (s.erase e.existing.id))

theorem exec_tasks (hwf : s.Wf) (hb : Backs s m env) :
    (m.exec env s).2 = s ∨ ((m.exec env s).2.Wf ∧ ∃ e payload, m.begin s = .ok (some e) ∧
        Rewritten s e env (m.exec env s).2 payload) := by
  by_cases hbegin : ∃ e, m.begin s = .ok (some e)
  · obtain ⟨e, hbegin⟩ := hbegin
    by_cases htake : env.take.goes = true
    · obtain ⟨hdone, hback⟩ := hb e hbegin htake
      have hback' := hback
      obtain ⟨p, hp, -, hacc⟩ := hback'
      obtain ⟨⟨payload, hpay, hquiet⟩, -⟩ := finish_goesBack hback
      have hpp : p = payload := by
        rw [hp] at hpay
        injection hpay
      obtain ⟨row, hrow, hre, hcat⟩ := (mutation_sound hbegin).stored
      have hx := (insert_ok (insert_of_accepts hacc)).1
      have hwf' : (s.erase e.existing.id).Wf :=
        (evolves_erase Row.stamp s e.existing.id).wf hwf
      rw [exec_done hbegin hdone]
      refine .inr ⟨hquiet.wf (hwf'.push (by rw [← hpp]; exact hx)), e, payload, hbegin, hpay,
        ?_, ?_⟩
      · rw [← hre]
        exact tasks_perm_erase hwf hrow hcat
      · have hnew : (withPayload e.existing env.id payload).category = .task := by
          show e.existing.category = .task
          rw [← hre]
          exact hcat
        rw [hquiet.tasks_eq, tasks_push, if_pos hnew]
        exact perm_append_singleton _ _
    · exact .inl (exec_untaken hbegin (by simpa using htake))
  · exact .inl (exec_idle fun e he => hbegin ⟨e, he⟩)

def NewTicket.exec (castle : String) (t : NewTicket) (draws : List Nat) (env : Env) :
    Act Store Error PUnit := do
  let s ← Act.get
  match createIdempotent castle s t draws env.id env.now with
  | .error e => Act.raise e
  | .ok (_, false) => pure ⟨⟩
  | .ok (new, true) => do
    change env.write fun s => s.insert new
    announce env.notices

theorem stripPrefix_append_eq (start rest : String) :
    stripPrefix start (start ++ rest) = some rest.toList := by
  unfold stripPrefix
  rw [String.toList_append, if_pos (List.isPrefixOf_iff_prefix.mpr (prefix_append _ _)),
    ← String.length_toList, drop_left]

theorem consonant_isAlphabetic : ∀ n < 16,
    Char.isAlpha (Proquint.consonants.getD n 'b') = true := by
  decide

theorem vowel_isAlphabetic : ∀ n < 4, Char.isAlpha (Proquint.vowels.getD n 'a') = true := by
  decide

theorem encodeU16_word (v : Nat) :
    (Proquint.encodeU16 v).length = 5 ∧ (Proquint.encodeU16 v).all Char.isAlpha = true := by
  refine ⟨rfl, ?_⟩
  unfold Proquint.encodeU16
  simp only [all_cons, all_nil, Bool.and_true, Bool.and_eq_true]
  exact ⟨consonant_isAlphabetic _ (Nat.mod_lt _ (by decide)),
    vowel_isAlphabetic _ (Nat.mod_lt _ (by decide)),
    consonant_isAlphabetic _ (Nat.mod_lt _ (by decide)),
    vowel_isAlphabetic _ (Nat.mod_lt _ (by decide)),
    consonant_isAlphabetic _ (Nat.mod_lt _ (by decide))⟩

theorem Proquint.splitOn_encode (value : Nat) {words : Nat} (hw : words ≠ 0) :
    (encode value words).toList.splitOn '-' = (List.range words).map fun i =>
      encodeU16 (value / 2 ^ (16 * (words - 1 - i)) % 2 ^ 16) := by
  unfold encode
  rw [String.toList_ofList]
  apply splitOn_intercalate
  · intro l hl hdash
    obtain ⟨i, -, rfl⟩ := mem_map.mp hl
    have hall := all_eq_true.mp (encodeU16_word _).2 '-' hdash
    exact absurd hall (by decide)
  · simp [hw]

theorem looksLike_encode (value : Nat) {words : Nat} (hw : words ≠ 0) :
    Proquint.looksLike (Proquint.encode value words).toList words = true := by
  unfold Proquint.looksLike
  rw [Proquint.splitOn_encode value hw]
  simp only [length_map, length_range, decide_true, Bool.true_and]
  apply all_eq_true.mpr
  intro p hp
  obtain ⟨i, -, rfl⟩ := mem_map.mp hp
  rw [(encodeU16_word _).1, (encodeU16_word _).2]
  rfl

theorem isProquintIdentity_minted (draw : Nat) :
    isProquintIdentity (idPrefix ++ Proquint.encode draw proquintWords) = true := by
  unfold isProquintIdentity
  rw [stripPrefix_append_eq]
  exact looksLike_encode draw (by decide)

theorem canonicalId_of_resolve {id : String} {found : Option Tuple} (h : resolve s id = .ok found) :
    canonicalOf (identities s) id = .ok (found.map identity) := by
  rw [← canonicalId_eq]
  unfold canonicalId
  rw [h]
  rfl

theorem canonicalDeps_stored {names deps : List String} (h : canonicalDeps s names = .ok deps) :
    ∀ d ∈ deps, d ∈ identities s := by
  induction names generalizing deps with
  | nil =>
    cases h
    exact fun d hd => absurd hd not_mem_nil
  | cons name names ih =>
    simp only [canonicalDeps] at h
    split at h
    · cases h
    · cases h
    · rename_i existing hr
      cases hrest : canonicalDeps s names with
      | error err =>
        rw [hrest] at h
        cases h
      | ok rest =>
        rw [hrest] at h
        cases h
        exact forall_mem_cons.mpr ⟨canonicalOf_mem (canonicalId_of_resolve hr), ih hrest⟩

/-- A ticket `create` writes: its identity is one of the draws and not in use, and its
dependencies are stored. -/
structure Minted (s : Store) (draws : List Nat) (t : Tuple) : Prop where
  category : t.category = .task
  drawn : ∃ draw ∈ draws, t.identity = idPrefix ++ Proquint.encode draw proquintWords
  fresh : t.identity ∉ identities s
  deps : ∀ d ∈ depsOf t, d ∈ identities s

theorem createIdempotent_minted {castle : String} {new : NewTicket} {draws : List Nat}
    {id : RecordId} {now : DateTime} (h : createIdempotent castle s new draws id now = .ok (t, true)) :
    Minted s draws t := by
  obtain ⟨scope, parent, deps, identity, hdeps, hid, rfl⟩ := createIdempotent_new h
  obtain ⟨hdrawn, hr⟩ := nextId_spec hid
  refine ⟨rfl, hdrawn, fun hm : identity ∈ identities s => ?_,
    fun d hd => canonicalDeps_stored hdeps d ?_⟩
  · have hn := canonicalId_of_resolve hr
    rw [canonicalOf_stored hm] at hn
    cases hn
  · rw [← depsIn_newPayload castle new parent deps now]
    exact hd

theorem change_final (fate : Fate) (f : Store → Except Error Store) (s : Store) :
    (change fate f s).2 = s ∨ f s = .ok (change fate f s).2 := by
  cases fate with
  | fails err | before => exact .inl rfl
  | done =>
    show (attemptChange f s).2 = s ∨ f s = .ok (attemptChange f s).2
    unfold attemptChange
    cases f s with
    | error err => exact .inl rfl
    | ok s' => exact .inr rfl
  | after =>
    show (Act.bind (attemptChange f) _ s).2 = s ∨ f s = .ok (Act.bind (attemptChange f) _ s).2
    unfold Act.bind attemptChange
    cases f s with
    | error err => exact .inl rfl
    | ok s' => exact .inr rfl

structure Joined (s s' : Store) (t : Tuple) : Prop where
  tasks : Tickets.tasks s' = Tickets.tasks s ∨ Tickets.tasks s' = Tickets.tasks s ++ [t]
  wf : s'.Wf

theorem create_tasks (castle : String) (new : NewTicket) (draws : List Nat) (env : Env)
    (hwf : s.Wf) :
    ((new.exec castle draws env) s).2 = s ∨
      ∃ t, createIdempotent castle s new draws env.id env.now = .ok (t, true) ∧
        Joined s ((new.exec castle draws env) s).2 t := by
  have hstart : (new.exec castle draws env) s =
      (match createIdempotent castle s new draws env.id env.now with
        | .error e => .raise e
        | .ok (_, false) => pure ⟨⟩
        | .ok (t, true) => do
          change env.write fun s => s.insert t
          announce env.notices : Act Store Error PUnit) s := rfl
  rw [hstart]
  cases hc : createIdempotent castle s new draws env.id env.now with
  | error err => exact .inl rfl
  | ok answer =>
    cases answer with
    | mk t written =>
      cases written with
      | false => exact .inl rfl
      | true =>
        have hm := createIdempotent_minted hc
        right
        refine ⟨t, rfl, ?_⟩
        have hchange : Spec (· = s) (change env.write fun s => s.insert t)
            (fun _ a => Joined s a t) fun _ a => Joined s a t := by
          apply Spec.of_final
          intro a ha
          rw [ha]
          rcases change_final env.write (fun s => s.insert t) s with hst | hins
          · rw [hst]
            exact ⟨.inl rfl, hwf⟩
          · obtain ⟨hx, hpush⟩ := insert_ok hins
            rw [hpush]
            refine ⟨.inr ?_, hwf.push hx⟩
            rw [tasks_push, if_pos hm.category]
        have hspec : Spec (· = s) (do
            change env.write fun s => s.insert t
            announce env.notices) (fun _ a => Joined s a t) fun _ a => Joined s a t := by
          apply Spec.bind hchange
          intro _
          apply Spec.of_final
          intro a ha
          have hq := (announce_spec env.notices a).1
          exact ⟨by rw [hq.tasks_eq]; exact ha.tasks, hq.wf ha.wf⟩
        exact hspec.final rfl

end

inductive Call where
  | create (t : NewTicket) (draws : List Nat)
  | mutate (m : Mutation)

/-- A call, with what the environment decides during it. -/
structure Turn where
  call : Call
  env : Env

def Turn.exec (castle : String) (turn : Turn) : Act Store Error PUnit :=
  match turn.call with
  | .create t draws => t.exec castle draws turn.env
  | .mutate m => m.exec turn.env

def turnStep (castle : String) (s : Store) (turn : Turn) : Option Store :=
  some (turn.exec castle s).2

/-- No minted identity is depended on already, and a ticket that is taken is written back. -/
def turnGuard (s : Store) (turn : Turn) : Prop :=
  match turn.call with
  | .create _ draws => ∀ draw ∈ draws, ∀ a,
      ¬ DependsOn (tasks s) a (idPrefix ++ Proquint.encode draw proquintWords)
  | .mutate m => Backs s m turn.env

structure SoundStore (s : Store) : Prop where
  wf : s.Wf
  backlog : SoundBacklog (tasks s)

theorem soundStore_step {castle : String} {s' : Store} {turn : Turn} (hs : SoundStore s)
    (hg : turnGuard s turn) (h : turnStep castle s turn = some s') : SoundStore s' := by
  cases h
  unfold Turn.exec
  unfold turnGuard at hg
  cases hcall : turn.call with
  | create new draws =>
    rw [hcall] at hg
    rcases create_tasks castle new draws turn.env hs.wf with hst | ⟨t, hc, hj⟩
    · rw [hst]
      exact hs
    · have hm := createIdempotent_minted hc
      refine ⟨hj.wf, ?_⟩
      rcases hj.tasks with ht | ht
      · rw [ht]
        exact hs.backlog
      · rw [ht]
        obtain ⟨draw, hdraw, hident⟩ := hm.drawn
        refine .perm ?_ (perm_append_singleton _ _).symm
        apply hs.backlog.mint
        · rw [hident]
          exact isProquintIdentity_minted draw
        · exact hm.fresh
        · exact hm.deps
        · rw [hident]
          exact hg draw hdraw
  | mutate m =>
    rw [hcall] at hg
    rcases exec_tasks hs.wf hg with hst | ⟨hwf, e, payload, hb, hr⟩
    · rw [hst]
      exact hs
    · refine ⟨hwf, .perm ?_ hr.after.symm⟩
      have hbefore := hs.backlog.perm hr.before
      rcases mutation_deps hb with hwithin | ⟨id, dep, d, -, hl⟩
      · exact hbefore.swap rfl (hwithin turn.env.now payload hr.rewrite)
      · apply hbefore.link (u := withPayload e.existing turn.env.id payload) rfl
          (hl.within turn.env.now payload hr.rewrite)
        · have hd : d ∈ identities s := canonicalOf_mem ((canonicalId_eq s dep) ▸ hl.dependency)
          exact (hr.before.map identity).mem_iff.mp hd
        · rw [← dependsOn_perm hr.before, ← reaches_iff hs.backlog.single, hl.unreached]
          exact Bool.false_ne_true

/-- The edge may be added: both names resolve, to different tickets, and the dependency
does not reach the ticket. -/
def Addable (s : Store) (id dep : String) : Prop :=
  ∃ a d, canonicalId s id = .ok (some a) ∧ canonicalId s dep = .ok (some d) ∧ a ≠ d ∧
    ¬ ReflTransGen (DependsOn (tasks s)) d a

/-- A ticket that can be taken and rewritten. -/
def Editable (s : Store) (identity : String) : Prop :=
  ∀ t ∈ tasks s, t.identity = identity → t.lifecycle ≠ .furniture ∧ isObject t.payload = true

/-- The changes of the space are made. -/
structure Fine (s : Store) (env : Env) : Prop where
  take : env.take = .done
  write : env.write.goes = true
  fresh : s.existsId env.id = false
  room : s.lastSequence < maxSequence

def Failed (ended : Except (Stop Error) PUnit × Store) : Prop :=
  ∃ err, ended.1 = .error (.error err)

/-- `add_dep` of a ticket fails exactly when the edge may not be added, and then changes
nothing. -/
def AddDepExact (s : Store) (id dep : String) (env : Env) : Prop :=
  (Failed ((Mutation.edit (.addDep id dep)).exec env s) ↔ ¬ Addable s id dep) ∧
    (Failed ((Mutation.edit (.addDep id dep)).exec env s) →
      ((Mutation.edit (.addDep id dep)).exec env s).2 = s)

section
variable {s : Store} {id dep : String} {env : Env} {a : String}

theorem canonicalId_fun {b : String} (h : canonicalId s id = .ok (some a))
    (h' : canonicalId s id = .ok (some b)) : a = b := by
  rw [h] at h'
  cases h'
  rfl

theorem Addable.elim {d : String} (h : Addable s id dep) (hid : canonicalId s id = .ok (some a))
    (hdep : canonicalId s dep = .ok (some d)) :
    a ≠ d ∧ ¬ ReflTransGen (DependsOn (tasks s)) d a := by
  obtain ⟨a', d', ha, hd, h⟩ := h
  rw [canonicalId_fun hid ha, canonicalId_fun hdep hd]
  exact h

theorem Addable.names (h : Addable s id dep) :
    (∃ a, canonicalId s id = .ok (some a)) ∧ ∃ d, canonicalId s dep = .ok (some d) := by
  obtain ⟨a, d, ha, hd, -⟩ := h
  exact ⟨⟨a, ha⟩, ⟨d, hd⟩⟩

/-- The checks of `add_dep` end it exactly when the edge may not be added. -/
theorem addDep_cases (hs : SoundStore s) (id dep : String) :
    (¬ Addable s id dep ∧ ∃ err, addDep s id dep = .error err) ∨
      (Addable s id dep ∧ ∃ a d, canonicalId s id = .ok (some a) ∧
        addDep s id dep = edit s a (addDependency d)) := by
  unfold addDep
  cases hid : canonicalId s id with
  | error err =>
    refine .inl ⟨fun h => ?_, err, rfl⟩
    obtain ⟨a, ha⟩ := h.names.1
    rw [hid] at ha
    cases ha
  | ok found =>
    cases found with
    | none =>
      refine .inl ⟨fun h => ?_, _, rfl⟩
      obtain ⟨a, ha⟩ := h.names.1
      rw [hid] at ha
      cases ha
    | some a =>
      cases hdep : canonicalId s dep with
      | error err =>
        refine .inl ⟨fun h => ?_, err, rfl⟩
        obtain ⟨d, hd⟩ := h.names.2
        rw [hdep] at hd
        cases hd
      | ok found =>
        cases found with
        | none =>
          refine .inl ⟨fun h => ?_, _, rfl⟩
          obtain ⟨d, hd⟩ := h.names.2
          rw [hdep] at hd
          cases hd
        | some d =>
          dsimp only
          by_cases had : a = d
          · rw [if_pos had]
            exact .inl ⟨fun h => (h.elim hid hdep).1 had, _, rfl⟩
          · rw [if_neg had]
            by_cases hr : reaches s d a = true
            · rw [if_pos hr]
              have hpath := (reaches_iff hs.backlog.single d a).mp hr
              exact .inl ⟨fun h => (h.elim hid hdep).2 hpath, _, rfl⟩
            · rw [if_neg hr]
              refine .inr ⟨⟨a, d, hid, hdep, had, fun hpath => ?_⟩, a, d, rfl, rfl⟩
              exact hr ((reaches_iff hs.backlog.single d a).mpr hpath)

theorem takeTicket_stored (ha : a ∈ identities s) (hed : Editable s a) :
    ∃ t, takeTicket s a = .ok (some t) ∧ isObject t.payload = true := by
  obtain ⟨t, ht, hident⟩ := mem_map.mp ha
  obtain ⟨row, hrow, hre, hcat⟩ := mem_tasks.mp ht
  have hfound : s.query (ticketPattern a) true (some 1) ≠ [] := by
    intro hnil
    have hno := query_one_eq_nil hnil hrow
    rw [hre, patternFilters_eq] at hno
    have hmatch : (ticketPattern a).matches t = true := by
      simp only [Pattern.matches, ticketPattern, admits, admitsText, Bool.and_eq_true,
        decide_eq_true_eq]
      exact ⟨hcat, trivial, hident, trivial, trivial, trivial, trivial⟩
    simp [hmatch, (hed t ht hident).1] at hno
  obtain ⟨r, rest, hq⟩ := exists_cons_of_ne_nil hfound
  obtain ⟨hm, hmatch⟩ := query_spec (hq ▸ mem_cons_self)
  obtain ⟨hrcat, hrident⟩ := ticketPattern_matches hmatch
  refine ⟨r.tuple, ?_, (hed r.tuple (mem_tasks.mpr ⟨r, hm, rfl, hrcat⟩) hrident).2⟩
  unfold takeTicket
  rw [canonicalId_eq, canonicalOf_stored ha]
  show Except.ok (((s.query (ticketPattern a) true (some 1)).head?).map Row.tuple) = _
  rw [hq]
  rfl

theorem exec_refused {m : Mutation} {err : Error} (h : m.begin s = .error err) :
    m.exec env s = (.error (.error err), s) := by
  show proceed env (m.begin s) s = _
  rw [h]
  rfl

theorem goesBack_of_fine (hf : Fine s env) {e : Edit} {payload : Value}
    (hp : e.rewrite env.now = .ok payload) : e.GoesBack env (s.erase e.existing.id) := by
  refine ⟨payload, hp, hf.write, ?_⟩
  have hfresh : (s.erase e.existing.id).existsId env.id = false := by
    apply existsId_eq_false.mpr
    intro r hr
    exact existsId_eq_false.mp hf.fresh r (mem_erase_rows.mp hr).1
  show (!(s.erase e.existing.id).existsId env.id && decide (s.lastSequence < maxSequence)) = true
  rw [hfresh, decide_eq_true hf.room]
  rfl

theorem addDep_exact (hs : SoundStore s) (hf : Fine s env)
    (hed : ∀ a, canonicalId s id = .ok (some a) → Editable s a) : AddDepExact s id dep env := by
  rcases addDep_cases hs id dep with ⟨hno, err, herr⟩ | ⟨hyes, a, d, hid, hedit⟩
  · have hexec : (Mutation.edit (.addDep id dep)).exec env s = (.error (.error err), s) :=
      exec_refused herr
    unfold AddDepExact
    rw [hexec]
    exact ⟨⟨fun _ => hno, fun _ => ⟨err, rfl⟩⟩, fun _ => rfl⟩
  · have ha : a ∈ identities s := canonicalOf_mem ((canonicalId_eq s id) ▸ hid)
    obtain ⟨t, ht, hobj⟩ := takeTicket_stored ha (hed a hid)
    have hbegin : (Mutation.edit (.addDep id dep)).begin s =
        .ok (some ⟨t, editPayload (addDependency d) t.payload⟩) := by
      show addDep s id dep = _
      rw [hedit]
      unfold edit
      rw [ht]
    obtain ⟨payload, hp, -⟩ := editPayload_object (f := addDependency d) hobj env.now
    have hback := goesBack_of_fine (e := ⟨t, editPayload (addDependency d) t.payload⟩) hf hp
    have hgood : ¬ Failed ((Mutation.edit (.addDep id dep)).exec env s) := by
      rw [exec_done hbegin hf.take]
      intro ⟨err, he⟩
      exact (finish_goesBack hback).2 err he
    exact ⟨⟨fun h => absurd h hgood, fun h => absurd hyes h⟩, fun h => absurd h hgood⟩

/-- Along every run of calls that mint no identity in use as a dependency and write back the
tickets they take, the graph stays acyclic and canonical, and `add_dep` of a ticket that can
be rewritten is exact; the search ends on every store. -/
theorem graph_stays_acyclic (castle : String) (turns : List Turn) (hs : SoundStore s)
    (hg : Meets (turnStep castle) turnGuard s turns) :
    Keeps (turnStep castle) (fun s => SoundStore s ∧ ∀ id dep env, Fine s env →
        (∀ a, canonicalId s id = .ok (some a) → Editable s a) → AddDepExact s id dep env) s turns ∧
      ∀ (any : Store) (start target : String),
        ∃ found, search (depsAt any) target (searchFuel any) [start] [] = some found ∧
          reaches any start target = found ∧
          (found = true ↔ ReflTransGen (Arc (depsAt any)) start target) := by
  refine ⟨?_, search_ends⟩
  apply Keeps.mono _ (keeps_of_meets (fun s turn s' hs h hg => soundStore_step hs hg h) hs hg)
  intro s hs
  exact ⟨hs, fun id dep env hf hed => addDep_exact hs hf hed⟩

end

def barnLodob (payload : Value) : Tuple :=
  new 1 0 .task "barn" "TKT-babad-bisub-lodob" "castle" payload

def barnLodod : Tuple := new 2 0 .task "barn" "TKT-babad-bisub-lodod" "castle" (.object [])

def pair (payload : Value) : Store := (empty.push (barnLodob payload)).push barnLodod

theorem tasks_pair (payload : Value) : tasks (pair payload) = [barnLodob payload, barnLodod] := rfl

theorem soundStore_pair (h : depsIn payload = []) : SoundStore (pair payload) := by
  have hdeps : ∀ t ∈ tasks (pair payload), depsOf t = [] := by
    intro t ht
    rcases mem_cons.mp ht with rfl | ht
    · exact h
    · rw [mem_singleton.mp ht]
      rfl
  have hn : ∀ a b, ¬ DependsOn (tasks (pair payload)) a b := by
    intro a b ⟨t, ht, _, _, hb⟩
    rw [hdeps t ht] at hb
    cases hb
  refine ⟨(wf_empty.push rfl).push rfl, ?_, ?_, ?_⟩
  · have hall : ((tasks (pair payload)).map identity).Nodup := by
      show ["TKT-babad-bisub-lodob", "TKT-babad-bisub-lodod"].Nodup
      decide
    exact ((filter_sublist).map identity).nodup hall
  · intro a hc
    obtain ⟨b, hab, -⟩ := TransGen.head'_iff.mp hc
    exact hn a b hab
  · intro t ht _ d hd
    rw [hdeps t ht] at hd
    cases hd

def linkTurn : Turn :=
  { call := .mutate (.edit (.addDep "TKT-babad-bisub-lodob" "TKT-babad-bisub-lodod"))
    env := { id := 3, now := 0 } }

def mintTurn : Turn :=
  { call := .create { title := "roof", dependsOn := ["TKT-babad-bisub-lodob"] } [7]
    env := { id := 4, now := 0 } }

theorem fine_pair (payload : Value) : Fine (pair payload) linkTurn.env :=
  ⟨rfl, rfl, rfl, show 2 < 9223372036854775807 by omega⟩

theorem addable_pair (h : depsIn payload = []) :
    Addable (pair payload) "TKT-babad-bisub-lodob" "TKT-babad-bisub-lodod" := by
  have hids : identities (pair payload) = ["TKT-babad-bisub-lodob", "TKT-babad-bisub-lodod"] := rfl
  refine ⟨"TKT-babad-bisub-lodob", "TKT-babad-bisub-lodod", ?_, ?_, by decide, ?_⟩
  · rw [canonicalId_eq, hids]
    exact canonicalOf_stored (by decide)
  · rw [canonicalId_eq, hids]
    exact canonicalOf_stored (by decide)
  · intro hpath
    rcases ReflTransGen.cases_head hpath with he | ⟨b, ⟨t, ht, _, _, hb⟩, -⟩
    · exact absurd he (by decide)
    · rw [tasks_pair] at ht
      rcases mem_cons.mp ht with rfl | ht
      · have hb' : b ∈ depsIn payload := hb
        rw [h] at hb'
        cases hb'
      · rw [mem_singleton.mp ht] at hb
        cases hb

def failure : Except (Stop Error) PUnit → Option Error
  | .error (.error err) => some err
  | _ => none

theorem failed_of_failure {ended : Except (Stop Error) PUnit × Store}
    (h : (failure ended.1).isSome = true) : Failed ended := by
  obtain ⟨out, s⟩ := ended
  cases out with
  | ok a => cases h
  | error x =>
    cases x with
    | gone => cases h
    | error err => exact ⟨err, rfl⟩

/-- `add_dep` of two tickets that resolve and reach nothing fails when the first has a text
for a payload. -/
theorem text_payload_refuses_dependency :
    SoundStore (pair (.string "draft")) ∧ Fine (pair (.string "draft")) linkTurn.env ∧
      ¬ AddDepExact (pair (.string "draft")) "TKT-babad-bisub-lodob" "TKT-babad-bisub-lodod"
        linkTurn.env := by
  refine ⟨soundStore_pair rfl, fine_pair _, fun hexact => ?_⟩
  have hfailed : Failed (linkTurn.exec "castle" (pair (.string "draft"))) :=
    failed_of_failure (by decide +kernel)
  exact hexact.1.mp hfailed (addable_pair rfl)

theorem backs_of_fine {m : Mutation} {env : Env} (hf : Fine s env)
    (hobj : ∀ t ∈ tasks s, isObject t.payload = true) : Backs s m env := by
  intro e he _
  have hsound := mutation_sound he
  obtain ⟨row, hrow, hre, hcat⟩ := hsound.stored
  have hm : e.existing ∈ tasks s := mem_tasks.mpr ⟨row, hrow, hre, hre ▸ hcat⟩
  obtain ⟨payload, hp, -⟩ := hsound.rewrites (hobj _ hm) env.now
  exact ⟨hf.take, goesBack_of_fine hf hp⟩

theorem graph_stays_acyclic_linked :
    Keeps (turnStep "castle") (fun s => SoundStore s ∧ ∀ id dep env, Fine s env →
        (∀ a, canonicalId s id = .ok (some a) → Editable s a) → AddDepExact s id dep env)
      (pair (.object [])) [linkTurn, mintTurn] := by
  refine (graph_stays_acyclic "castle" [linkTurn, mintTurn] (soundStore_pair rfl) ?_).1
  refine meets_cons rfl ?_ ?_
  · apply backs_of_fine (fine_pair _)
    intro t ht
    rcases mem_cons.mp ht with rfl | ht
    · rfl
    · rw [mem_singleton.mp ht]
      rfl
  · refine meets_cons rfl ?_ trivial
    intro draw hdraw a ⟨t, ht, _, _, hb⟩
    rw [mem_singleton.mp hdraw] at hb
    have hn : ∀ t ∈ tasks (linkTurn.exec "castle" (pair (.object []))).2,
        idPrefix ++ Proquint.encode 7 proquintWords ∉ depsOf t := by decide +kernel
    exact hn t ht hb

end RatKingdom.Tickets
