/-
The archive of settled records.

`archive` writes the archive file and then the live file, `unarchive` the other way round, so
whatever comes between the two writes leaves a record in both stores and never in neither.
`look` is the record that stands for a generation.  A pass that finds a generation in the
archive already does not write it again, so a copy left there must not have been overtaken.
-/
import Mathlib.Data.List.Sort
import RatKingdom.Agents.Registry
import RatKingdom.Lib.First
import RatKingdom.Lib.Run

namespace RatKingdom.Agents

open Core Lib AgentRecord
open List hiding removeAll

namespace Registry

/-- `is_shadowed`: the live record of the same generation stands for an archived one. -/
def isShadowed (r : Registry) (archived : AgentRecord) : Bool :=
  match r.agents.get archived.name with
  | none => false
  | some live => live.generation = archived.generation

/-- `list_all`, oldest first. -/
def listAll (r : Registry) : List AgentRecord :=
  (r.records ++ r.archived.filter fun a => !r.isShadowed a).insertionSort
    fun a b => a.createdAt ≤ b.createdAt

/-- `archivable`, oldest first. -/
def archivable (r : Registry) (before : DateTime) : List AgentRecord :=
  (r.records.filter fun a => a.state.isArchivable && a.updatedAt < before).insertionSort
    fun a b => a.createdAt ≤ b.createdAt

def moved (r : Registry) (before now : DateTime) : List AgentRecord :=
  (((r.archivable before).map name).filterMap r.agents.get).map fun record =>
    { record with archivedAt := some now }

def pushArchived (archived : List AgentRecord) (record : AgentRecord) : List AgentRecord :=
  if archived.any fun a => a.generation = record.generation then archived
  else archived ++ [record]

/-- What comes between the two writes of a move: nothing, a write that fails, or the end of
the process and the start of the next. -/
inductive Window where
  | done | firstFails | secondFails
  | cut (reads : String → String)

def removeAll (agents : Table String AgentRecord) (records : List AgentRecord) :
    Table String AgentRecord :=
  records.foldl (fun t record => t.erase record.name) agents

def archive (r : Registry) (before now : DateTime) (window : Window) : Registry :=
  if (r.archivable before).isEmpty then r
  else
    let moved := r.moved before now
    let r := { r with archived := moved.foldl pushArchived r.archived }
    match window with
    | .firstFails => r
    | .cut reads => load reads (r.persistArchive true).disk
    | .secondFails => { r.persistArchive true with agents := removeAll r.agents moved }
    | .done => ({ r.persistArchive true with agents := removeAll r.agents moved }).persist true

/-- The later of two records, the second on a tie: `max_by_key` of the creation time. -/
def newer (a b : Nat × AgentRecord) : Nat × AgentRecord :=
  if a.2.createdAt ≤ b.2.createdAt then b else a

def newestArchived (archived : List AgentRecord) (name : String) : Option Nat :=
  match (archived.zipIdx.filter fun e => e.1.name = name).map fun e => (e.2, e.1) with
  | [] => none
  | e :: rest => some (rest.foldl newer e).1

/-- `unarchive`: the live file first. -/
def unarchive (r : Registry) (name : String) (window : Window) : Registry :=
  match r.agents.get name, newestArchived r.archived name with
  | none, some i =>
    match r.archived[i]? with
    | none => r
    | some found =>
      let record := { found with archivedAt := none }
      let r := { r with agents := r.agents.set name record }
      match window with
      | .firstFails => r
      | .cut reads => load reads (r.persist true).disk
      | .secondFails => { r.persist true with archived := r.archived.eraseIdx i }
      | .done => ({ r.persist true with archived := r.archived.eraseIdx i }).persistArchive true
  | _, _ => r

end Registry

open Registry

def AgentRecord.content (record : AgentRecord) : AgentRecord := { record with archivedAt := none }

/-- A registry, and the content of the last acknowledged change of each generation. -/
structure Booked where
  registry : Registry
  book : Table (String × SpawnId) AgentRecord

open Booked

inductive BookedOp where
  | insert (record : AgentRecord) (writes : Bool)
  | update (name : String) (mutate : AgentRecord → AgentRecord) (now : DateTime)
  | archive (before now : DateTime) (window : Window)
  | unarchive (name : String) (window : Window)
  | reload (reads : String → String)

def Booked.insert (s : Booked) (record : AgentRecord) (writes : Bool) : Booked :=
  match s.registry.insert record writes with
  | (r, true) => { registry := r, book := s.book.set record.generation record.content }
  | (r, false) => { s with registry := r }

/-- An update that is acknowledged changes no identity. -/
def Booked.update (s : Booked) (name : String) (mutate : AgentRecord → AgentRecord)
    (now : DateTime) : Option Booked :=
  match s.registry.agents.get name with
  | none => some s
  | some record =>
    let updated := { mutate record with updatedAt := now }
    if updated.generation = record.generation then
      some { registry := s.registry.update name mutate now true
             book := s.book.set record.generation updated.content }
    else none

def Booked.step (s : Booked) : BookedOp → Option Booked
  | .insert record writes => some (s.insert record writes)
  | .update name mutate now => s.update name mutate now
  | .archive before now window =>
    some { s with registry := s.registry.archive before now window }
  | .unarchive name window => some { s with registry := s.registry.unarchive name window }
  | .reload reads => some { s with registry := load reads s.registry.disk }

/-- `list_all` has each generation of the book once, with its last content, and no other. -/
def Complete (s : Booked) : Prop :=
  ∀ g, ((s.registry.listAll.filter fun a => a.generation = g).map content) = (s.book.get g).toList

/-- A record that a pass would move has no copy in the archive that says something else. -/
def Current (r : Registry) (before : DateTime) : Prop :=
  ∀ record ∈ r.archivable before, ∀ a ∈ r.archived,
    a.generation = record.generation → a.content = record.content
deriving Decidable

/-- Every cost reads back as itself. -/
def Rereads (reads : String → String) (agents : Table String AgentRecord)
    (archived : List AgentRecord) : Prop :=
  (∀ row ∈ agents.rows, reads row.2.costText = row.2.costText) ∧
    ∀ record ∈ archived, reads record.costText = record.costText
deriving Decidable

/-- A name is not taken from another generation, a pass that removes records from the live map
removes none whose copy in the archive is out of date, and a daemon that starts reads the costs
of its files back as they are. -/
def keeperGuard (s : Booked) : BookedOp → Prop
  | .insert record true => ∀ live ∈ s.registry.agents.get record.name, live.spawn = record.spawn
  | .archive before _ .done => Current s.registry before
  | .archive before _ .secondFails => Current s.registry before
  | .archive before now (.cut reads) => Rereads reads s.registry.disk.agents
      (s.registry.archived ++ s.registry.moved before now)
  | .unarchive _ (.cut reads) =>
    Rereads reads s.registry.agents (s.registry.archived ++ s.registry.disk.archived)
  | .reload reads => Rereads reads s.registry.disk.agents s.registry.disk.archived
  | _ => True

instance (s : Booked) : ∀ op, Decidable (keeperGuard s op)
  | .insert record true => inferInstanceAs (Decidable (∀ _ ∈ _, _))
  | .archive before _ .done => inferInstanceAs (Decidable (Current s.registry before))
  | .archive before _ .secondFails => inferInstanceAs (Decidable (Current s.registry before))
  | .archive _ _ (.cut _) | .unarchive _ (.cut _) | .reload _ =>
    inferInstanceAs (Decidable (Rereads _ _ _))
  | .insert _ false | .update .. | .archive _ _ .firstFails | .unarchive _ .done
  | .unarchive _ .firstFails | .unarchive _ .secondFails => isTrue trivial

section
variable {agents live : Table String AgentRecord} {archived : List AgentRecord}
  {g : String × SpawnId} {book : Table (String × SpawnId) AgentRecord}

def inArchive (archived : List AgentRecord) (g : String × SpawnId) : Option AgentRecord :=
  archived.find? fun a => a.generation = g

def look (agents : Table String AgentRecord) (archived : List AgentRecord) (g : String × SpawnId) :
    Option AgentRecord :=
  match agents.get g.1 with
  | none => inArchive archived g
  | some live => if live.generation = g then some live else inArchive archived g

/-- Each generation of the book, and no other, is found with its content. -/
def Kept (agents : Table String AgentRecord) (archived : List AgentRecord)
    (book : Table (String × SpawnId) AgentRecord) : Prop :=
  ∀ g, (look agents archived g).map content = book.get g

/-- Records are filed under their own names. -/
def Keyed (agents : Table String AgentRecord) : Prop :=
  ∀ name record, agents.get name = some record → record.name = name

def Generations (archived : List AgentRecord) : Prop := (archived.map generation).Nodup

variable {a : AgentRecord}

theorem inArchive_some (h : inArchive archived g = some a) : a ∈ archived ∧ a.generation = g := by
  have hg := find?_some h
  exact ⟨mem_of_find?_eq_some h, of_decide_eq_true hg⟩

theorem inArchive_mem (hn : Generations archived) (ha : a ∈ archived) :
    inArchive archived a.generation = some a := by
  cases hf : inArchive archived a.generation with
  | none =>
    have hno := find?_eq_none.mp hf a ha
    simp at hno
  | some b =>
    obtain ⟨hb, hg⟩ := inArchive_some hf
    rw [inj_on_of_nodup_map hn hb ha hg]

variable {record : AgentRecord}

theorem look_live (hg : agents.get g.1 = some record) (hr : record.generation = g) :
    look agents archived g = some record := by
  unfold look
  rw [hg]
  exact if_pos hr

theorem look_archived (h : ∀ record, agents.get g.1 = some record → record.generation ≠ g) :
    look agents archived g = inArchive archived g := by
  unfold look
  cases hg : agents.get g.1 with
  | none => rfl
  | some record => exact if_neg (h record hg)

theorem look_cases (agents : Table String AgentRecord) (g : String × SpawnId) :
    (∃ record, agents.get g.1 = some record ∧ record.generation = g) ∨
      ∀ record, agents.get g.1 = some record → record.generation ≠ g := by
  by_cases h : ∃ record, agents.get g.1 = some record ∧ record.generation = g
  · exact .inl h
  · exact .inr fun record hr hg => h ⟨record, hr, hg⟩

theorem filter_generation_of_nodup {l : List AgentRecord} (hn : Generations l) :
    l.filter (fun a => a.generation = g) = (inArchive l g).toList := by
  induction l with
  | nil => rfl
  | cons a l ih =>
    obtain ⟨ha, hn⟩ := nodup_cons.mp hn
    unfold inArchive
    by_cases hg : a.generation = g
    · rw [filter_cons_of_pos (by simpa using hg), find?_cons_of_pos (by simpa using hg)]
      have hnil : l.filter (fun b => b.generation = g) = [] := by
        apply filter_eq_nil_iff.mpr
        intro b hb hbg
        exact ha (mem_map.mpr ⟨b, hb, (of_decide_eq_true hbg).trans hg.symm⟩)
      rw [hnil]
      rfl
    · rw [filter_cons_of_neg (by simpa using hg), find?_cons_of_neg (by simpa using hg)]
      exact ih hn

theorem records_generations (hk : Keyed agents) : Generations (agents.rows.map Prod.snd) := by
  have hnames : (agents.rows.map Prod.snd).map name = agents.rows.map Prod.fst := by
    rw [map_map]
    apply map_congr_left
    intro row hrow
    exact hk row.1 row.2 (Table.get_eq_some_iff.mpr hrow)
  have hnodup : ((agents.rows.map Prod.snd).map name).Nodup := by
    rw [hnames]
    exact agents.nodup
  have hfst : (agents.rows.map Prod.snd).map name =
      ((agents.rows.map Prod.snd).map generation).map Prod.fst := by
    rw [map_map, map_map, map_map]
    rfl
  rw [hfst] at hnodup
  exact List.Nodup.of_map _ hnodup

theorem inRecords (hk : Keyed agents) :
    inArchive (agents.rows.map Prod.snd) g =
      (agents.get g.1).filter fun record => record.generation = g := by
  cases hf : inArchive (agents.rows.map Prod.snd) g with
  | some a =>
    obtain ⟨ha, hg⟩ := inArchive_some hf
    obtain ⟨row, hrow, rfl⟩ := mem_map.mp ha
    have hget : agents.get row.1 = some row.2 := Table.get_eq_some_iff.mpr hrow
    have hn : row.1 = g.1 := by
      rw [← hg]
      exact (hk row.1 row.2 hget).symm
    rw [← hn, hget, Option.filter_some, if_pos (by simpa using hg)]
  | none =>
    cases hget : agents.get g.1 with
    | none => rfl
    | some record =>
      have hm : record ∈ agents.rows.map Prod.snd :=
        mem_map.mpr ⟨_, Table.get_eq_some_iff.mp hget, rfl⟩
      have hno := find?_eq_none.mp hf record hm
      rw [Option.filter_some, if_neg hno]

theorem listAll_generation (r : Registry) (hk : Keyed r.agents) (hn : Generations r.archived) :
    (r.listAll.filter fun a => a.generation = g).Perm (look r.agents r.archived g).toList := by
  have hperm : (r.listAll.filter fun a => a.generation = g).Perm
      ((r.records ++ r.archived.filter fun a => !r.isShadowed a).filter fun a => a.generation = g) :=
    (perm_insertionSort _ _).filter _
  refine hperm.trans (List.Perm.of_eq ?_)
  rw [filter_append]
  have hl : r.records.filter (fun a => a.generation = g) =
      ((r.agents.get g.1).filter fun record => record.generation = g).toList := by
    unfold records
    rw [filter_generation_of_nodup (records_generations hk), inRecords hk]
  have hshadow : (r.archived.filter fun a => !r.isShadowed a).filter (fun a => a.generation = g) =
      ((inArchive r.archived g).filter fun a => !r.isShadowed a).toList := by
    rw [filter_comm, filter_generation_of_nodup hn]
    cases inArchive r.archived g with
    | none => rfl
    | some a =>
      show [a].filter _ = _
      cases hs : r.isShadowed a with
      | true | false => simp [hs, Option.filter_some]
  rw [hl, hshadow]
  rcases look_cases r.agents g with ⟨record, hget, hrg⟩ | hno
  · rw [look_live hget hrg, hget]
    have hnone : (inArchive r.archived g).filter (fun a => !r.isShadowed a) = none := by
      cases ha : inArchive r.archived g with
      | none => rfl
      | some a =>
        obtain ⟨-, hag⟩ := inArchive_some ha
        have hname : a.name = g.1 := congrArg Prod.fst hag
        have hs : r.isShadowed a = true := by
          unfold isShadowed
          rw [hname, hget]
          simp [hrg, hag]
        simp [Option.filter_some, hs]
    rw [hnone]
    simp [Option.filter_some, hrg]
  · rw [look_archived hno]
    have hnone : (r.agents.get g.1).filter (fun record => record.generation = g) = none := by
      cases hget : r.agents.get g.1 with
      | none => rfl
      | some record => simp [Option.filter_some, hno record hget]
    rw [hnone]
    cases ha : inArchive r.archived g with
    | none => rfl
    | some a =>
      obtain ⟨-, hag⟩ := inArchive_some ha
      have hname : a.name = g.1 := congrArg Prod.fst hag
      have hs : r.isShadowed a = false := by
        unfold isShadowed
        rw [hname]
        cases hget : r.agents.get g.1 with
        | none => rfl
        | some record => simp [hag, hno record hget]
      simp [Option.filter_some, hs]

theorem inArchive_append (archived : List AgentRecord) (record : AgentRecord) :
    inArchive (archived ++ [record]) g =
      (inArchive archived g).or (if record.generation = g then some record else none) := by
  unfold inArchive
  rw [find?_append]
  congr 1
  by_cases hg : record.generation = g
  · rw [if_pos hg, find?_cons_of_pos (by simpa using hg)]
  · rw [if_neg hg, find?_cons_of_neg (by simpa using hg)]
    rfl

theorem inArchive_push (archived : List AgentRecord) (record : AgentRecord) :
    inArchive (pushArchived archived record) g =
      (inArchive archived g).or (if record.generation = g then some record else none) := by
  unfold pushArchived
  by_cases hany : archived.any (fun a => a.generation = record.generation) = true
  · rw [if_pos hany]
    by_cases hg : record.generation = g
    · cases hf : inArchive archived g with
      | some a => rfl
      | none =>
        obtain ⟨a, ha, hag⟩ := any_eq_true.mp hany
        have hno := find?_eq_none.mp hf a ha
        rw [hg] at hag
        exact absurd hag hno
    · rw [if_neg hg, Option.or_none]
  · rw [if_neg hany, inArchive_append]

theorem inArchive_pushAll (records archived : List AgentRecord) :
    inArchive (records.foldl pushArchived archived) g =
      (inArchive archived g).or (inArchive records g) := by
  induction records generalizing archived with
  | nil => exact (Option.or_none).symm
  | cons record records ih =>
    rw [foldl_cons, ih, inArchive_push, Option.or_assoc]
    congr 1
    unfold inArchive
    by_cases hg : record.generation = g
    · rw [if_pos hg, find?_cons_of_pos (by simpa using hg)]
      rfl
    · rw [if_neg hg, find?_cons_of_neg (by simpa using hg)]
      rfl

theorem mem_pushAll {records archived : List AgentRecord}
    (h : a ∈ records.foldl pushArchived archived) : a ∈ archived ++ records := by
  induction records generalizing archived with
  | nil => exact mem_append_left _ h
  | cons record records ih =>
    have hm := ih h
    unfold pushArchived at hm
    split at hm
    · exact (mem_append.mp hm).elim (mem_append_left _)
        fun hr => mem_append_right _ (mem_cons_of_mem _ hr)
    · rwa [append_assoc, singleton_append] at hm

theorem generations_pushAll (records : List AgentRecord) {archived : List AgentRecord}
    (hn : Generations archived) : Generations (records.foldl pushArchived archived) := by
  induction records generalizing archived with
  | nil => exact hn
  | cons record records ih =>
    apply ih
    unfold pushArchived
    by_cases hany : archived.any (fun a => a.generation = record.generation) = true
    · rw [if_pos hany]
      exact hn
    · rw [if_neg hany]
      exact nodup_concat_key hn fun a ha he => hany (any_eq_true.mpr ⟨a, ha, decide_eq_true he⟩)

theorem get_removeAll (records : List AgentRecord) (agents : Table String AgentRecord) (name : String) :
    (removeAll agents records).get name =
      if name ∈ records.map AgentRecord.name then none else agents.get name := by
  unfold removeAll
  induction records generalizing agents with
  | nil => rfl
  | cons record records ih =>
    rw [foldl_cons, ih, Table.get_erase, map_cons]
    by_cases hn : name = record.name
    · simp [hn]
    · simp [hn]

variable {r : Registry} {before now : DateTime}

theorem mem_moved (hk : Keyed r.agents) {m : AgentRecord} (hm : m ∈ r.moved before now) :
    ∃ record, r.agents.get m.name = some record ∧ record ∈ r.archivable before ∧
      m = { record with archivedAt := some now } := by
  obtain ⟨record, hrec, rfl⟩ := mem_map.mp hm
  obtain ⟨name, hn, hget⟩ := mem_filterMap.mp hrec
  obtain ⟨a, ha, rfl⟩ := mem_map.mp hn
  have hmem : a ∈ r.records := by
    exact mem_of_mem_filter ((mem_insertionSort _).mp ha)
  obtain ⟨row, hrow, hsnd⟩ := mem_map.mp hmem
  have hrowget : r.agents.get row.1 = some row.2 := Table.get_eq_some_iff.mpr hrow
  have hkey : a.name = row.1 := by
    rw [← hsnd]
    exact hk row.1 row.2 hrowget
  have hra : record = a := by
    rw [hkey, hrowget, hsnd] at hget
    exact (Option.some.inj hget).symm
  subst hra
  exact ⟨record, by rw [hkey, hrowget, hsnd], ha, rfl⟩

theorem moved_some (hk : Keyed r.agents) {m : AgentRecord}
    (hm : inArchive (r.moved before now) g = some m) :
    ∃ record, r.agents.get g.1 = some record ∧ record.generation = g ∧
      record ∈ r.archivable before ∧ m.content = record.content := by
  obtain ⟨hmem, hg⟩ := inArchive_some hm
  obtain ⟨record, hget, harch, rfl⟩ := mem_moved hk hmem
  have hn : record.name = g.1 := congrArg Prod.fst hg
  exact ⟨record, hn ▸ hget, hg, harch, rfl⟩

theorem kept_pushAll (hk : Keyed r.agents) (hl : Kept r.agents archived book)
    (h : Kept agents archived book) :
    Kept agents ((r.moved before now).foldl pushArchived archived) book := by
  intro g
  rcases look_cases agents g with ⟨record, hget, hg⟩ | hno
  · rw [look_live hget hg, ← h g, look_live hget hg]
  · rw [look_archived hno, inArchive_pushAll]
    have hold := h g
    rw [look_archived hno] at hold
    cases ha : inArchive archived g with
    | some a =>
      rw [ha] at hold
      exact hold
    | none =>
      rw [ha] at hold
      cases hm : inArchive (r.moved before now) g with
      | none => exact hold
      | some m =>
        obtain ⟨record, hget, hg, -, -⟩ := moved_some hk hm
        have hbook := hl g
        rw [look_live hget hg, ← hold] at hbook
        cases hbook

/-- The live map without the moved records: each is found in the archive, when its copy there
says the same. -/
theorem kept_removeAll (hk : Keyed r.agents) (hl : Kept r.agents r.archived book)
    (hguard : Current r before) :
    Kept (removeAll r.agents (r.moved before now))
      ((r.moved before now).foldl pushArchived r.archived) book := by
  intro g
  rw [← hl g]
  by_cases hmem : g.1 ∈ (r.moved before now).map name
  · have hget : (removeAll r.agents (r.moved before now)).get g.1 = none := by
      rw [get_removeAll, if_pos hmem]
    rw [look_archived (fun record hr => by rw [hget] at hr; cases hr), inArchive_pushAll]
    obtain ⟨m, hm, hname⟩ := mem_map.mp hmem
    obtain ⟨record, hrec, harch, hmr⟩ := mem_moved hk hm
    rw [hname] at hrec
    by_cases hg : record.generation = g
    · rw [look_live hrec hg]
      cases ha : inArchive r.archived g with
      | some a =>
        obtain ⟨hamem, hag⟩ := inArchive_some ha
        have hsame := hguard record harch a hamem (hag.trans hg.symm)
        show some a.content = some record.content
        rw [hsame]
      | none =>
        have hmg : m.generation = g := by
          rw [hmr]
          exact hg
        cases hf : inArchive (r.moved before now) g with
        | none =>
          have hno := find?_eq_none.mp hf m hm
          exact absurd (decide_eq_true hmg) hno
        | some m' =>
          obtain ⟨record', hget', hg', -, hcontent⟩ := moved_some hk hf
          have hsame : record' = record := by
            rw [hget'] at hrec
            exact Option.some.inj hrec
          show some m'.content = some record.content
          rw [hcontent, hsame]
    · rw [look_archived (fun x hx => by rw [hrec] at hx; exact (Option.some.inj hx) ▸ hg)]
      cases hf : inArchive (r.moved before now) g with
      | none => rw [Option.or_none]
      | some m' =>
        obtain ⟨record', hget', hg', -, -⟩ := moved_some hk hf
        rw [hrec] at hget'
        exact absurd ((Option.some.inj hget') ▸ hg') hg
  · have hget : (removeAll r.agents (r.moved before now)).get g.1 = r.agents.get g.1 := by
      rw [get_removeAll, if_neg hmem]
    have hn : inArchive (r.moved before now) g = none := by
      apply find?_eq_none.mpr
      intro m hm hg
      exact hmem (mem_map.mpr ⟨m, hm, congrArg Prod.fst (of_decide_eq_true hg)⟩)
    unfold look
    rw [hget, inArchive_pushAll, hn, Option.or_none]

theorem keyed_removeAll (hk : Keyed agents) (records : List AgentRecord) :
    Keyed (removeAll agents records) := by
  intro name record hget
  rw [get_removeAll] at hget
  split at hget
  · cases hget
  · exact hk name record hget

variable {i : Nat}

theorem mem_newest {archived : List AgentRecord} {name : String}
    (h : newestArchived archived name = some i) :
    ∃ a, archived[i]? = some a ∧ a.name = name := by
  unfold newestArchived at h
  have hfold : ∀ (rest : List (Nat × AgentRecord)) (e : Nat × AgentRecord),
      rest.foldl newer e ∈ e :: rest := by
    intro rest
    induction rest with
    | nil => exact fun e => mem_cons_self
    | cons x rest ih =>
      intro e
      rw [foldl_cons]
      rcases mem_cons.mp (ih (newer e x)) with hx | hx
      · rw [hx]
        unfold newer
        split
        · exact mem_cons_of_mem _ mem_cons_self
        · exact mem_cons_self
      · exact mem_cons_of_mem _ (mem_cons_of_mem _ hx)
  have hm : ∀ e ∈ (archived.zipIdx.filter fun e => e.1.name = name).map fun e => (e.2, e.1),
      archived[e.1]? = some e.2 ∧ e.2.name = name := by
    intro e he
    obtain ⟨x, hx, rfl⟩ := mem_map.mp he
    obtain ⟨hz, hn⟩ := mem_filter.mp hx
    exact ⟨mem_zipIdx_iff_getElem?.mp hz, of_decide_eq_true hn⟩
  revert h hm
  cases (archived.zipIdx.filter fun e => e.1.name = name).map fun e => (e.2, e.1) with
  | nil =>
    intro h
    cases h
  | cons e rest =>
    intro h hm
    cases h
    exact ⟨_, hm _ (hfold rest e)⟩

variable {found : AgentRecord}

theorem kept_restored {copy : List AgentRecord} (hn : Generations archived)
    (hfound : found ∈ archived) (hfree : agents.get found.name = none)
    (hl : Kept agents archived book) (h : Kept agents copy book) :
    Kept (agents.set found.name { found with archivedAt := none }) copy book := by
  intro g
  by_cases hname : g.1 = found.name
  · have hnone : ∀ record, agents.get g.1 = some record → record.generation ≠ g := by
      intro record hr
      rw [hname, hfree] at hr
      cases hr
    have hget : (agents.set found.name { found with archivedAt := none }).get g.1 =
        some { found with archivedAt := none } := by
      rw [Table.get_set, if_pos hname]
    by_cases hg : found.generation = g
    · rw [look_live hget hg, ← hl g, look_archived hnone, ← hg, inArchive_mem hn hfound]
      rfl
    · rw [look_archived (fun record hr => by rw [hget] at hr; cases hr; exact hg), ← h g,
        look_archived hnone]
  · rw [← h g]
    unfold look
    rw [Table.get_set, if_neg hname]

theorem keyed_set (hk : Keyed agents) (record : AgentRecord) :
    Keyed (agents.set record.name record) := by
  intro name found hget
  rw [Table.get_set] at hget
  split at hget
  · rename_i hn
    cases hget
    exact hn.symm
  · exact hk name found hget

theorem find?_eraseIdx {l : List AgentRecord} {p : AgentRecord → Bool} (hi : l[i]? = some a)
    (hp : p a = false) : (l.eraseIdx i).find? p = l.find? p := by
  induction l generalizing i with
  | nil => rfl
  | cons b l ih =>
    cases i with
    | zero =>
      cases hi
      rw [eraseIdx_cons_zero, find?_cons_of_neg (by rw [hp]; exact Bool.false_ne_true)]
    | succ i =>
      rw [eraseIdx_cons_succ]
      by_cases hb : p b = true
      · rw [find?_cons_of_pos hb, find?_cons_of_pos hb]
      · rw [find?_cons_of_neg hb, find?_cons_of_neg hb]
        exact ih hi

theorem kept_eraseIdx (hi : archived[i]? = some found) (hget : agents.get found.name = some record)
    (hg : record.generation = found.generation) (h : Kept agents archived book) :
    Kept agents (archived.eraseIdx i) book := by
  intro g
  rw [← h g]
  rcases look_cases agents g with ⟨live, hl, hlg⟩ | hno
  · rw [look_live hl hlg, look_live hl hlg]
  · rw [look_archived hno, look_archived hno]
    unfold inArchive
    rw [find?_eraseIdx hi]
    apply decide_eq_false
    intro hfg
    have hn : found.name = g.1 := congrArg Prod.fst hfg
    exact hno record (hn ▸ hget) (hg.trans hfg)

structure Sound (agents : Table String AgentRecord) (archived : List AgentRecord)
    (book : Table (String × SpawnId) AgentRecord) : Prop where
  keyed : Keyed agents
  generations : Generations archived
  kept : Kept agents archived book

/-- A row written over no other generation: `insert` and `update`. -/
theorem Sound.set {record : AgentRecord} {agents' : Table String AgentRecord}
    (h : Sound agents archived book)
    (hfree : ∀ live, agents.get record.name = some live → live.generation = record.generation)
    (hget : ∀ name, agents'.get name = if name = record.name then some record else agents.get name) :
    Sound agents' archived (book.set record.generation record.content) := by
  refine ⟨?_, h.generations, fun g => ?_⟩
  · intro name found hfound
    rw [hget] at hfound
    by_cases hn : name = record.name
    · rw [if_pos hn] at hfound
      cases hfound
      exact hn.symm
    · rw [if_neg hn] at hfound
      exact h.keyed name found hfound
  · rw [Table.get_set]
    by_cases hg : g = record.generation
    · rw [if_pos hg]
      have hl : agents'.get g.1 = some record := by
        rw [hget, hg]
        exact if_pos rfl
      rw [look_live hl hg.symm]
      rfl
    · rw [if_neg hg, ← h.kept g]
      by_cases hn : g.1 = record.name
      · -- the archive is asked for the other generations of the name, before and after
        have hbefore : ∀ live, agents.get g.1 = some live → live.generation ≠ g := by
          intro live hl hlg
          rw [hn] at hl
          exact hg (hlg.symm.trans (hfree live hl))
        have hafter : ∀ live, agents'.get g.1 = some live → live.generation ≠ g := by
          intro live hl hlg
          rw [hget, if_pos hn] at hl
          cases hl
          exact hg hlg.symm
        rw [look_archived hafter, look_archived hbefore]
      · unfold look
        rw [hget, if_neg hn]

theorem Sound.pushAll (hl : Sound r.agents archived book) (h : Sound agents archived book) :
    Sound agents ((r.moved before now).foldl pushArchived archived) book :=
  ⟨h.keyed, generations_pushAll _ h.generations, kept_pushAll hl.keyed hl.kept h.kept⟩

theorem Sound.removeAll (h : Sound r.agents r.archived book) (hguard : Current r before) :
    Sound (removeAll r.agents (r.moved before now))
      ((r.moved before now).foldl pushArchived r.archived) book :=
  ⟨keyed_removeAll h.keyed _, generations_pushAll _ h.generations,
    kept_removeAll h.keyed h.kept hguard⟩

theorem Sound.restored {found : AgentRecord} {copy : List AgentRecord}
    (hl : Sound agents archived book) (hfound : found ∈ archived)
    (hfree : agents.get found.name = none) (h : Sound agents copy book) :
    Sound (agents.set found.name { found with archivedAt := none }) copy book :=
  ⟨keyed_set h.keyed { found with archivedAt := none }, h.generations,
    kept_restored hl.generations hfound hfree hl.kept h.kept⟩

theorem Sound.eraseIdx (h : Sound agents archived book) (hi : archived[i]? = some found)
    (hget : agents.get found.name = some record) (hg : record.generation = found.generation) :
    Sound agents (archived.eraseIdx i) book := by
  refine ⟨h.keyed, ?_, kept_eraseIdx hi hget hg h.kept⟩
  exact (((eraseIdx_sublist archived i).map _).nodup h.generations)

/-- Memory and files in any combination: whichever of the two writes comes first, what a
daemon finds when it starts is one of these pairs. -/
structure Safe (r : Registry) (book : Table (String × SpawnId) AgentRecord) : Prop where
  here : Sound r.agents r.archived book
  filed : Sound r.disk.agents r.disk.archived book
  liveOverFile : Sound r.agents r.disk.archived book
  fileUnder : Sound r.disk.agents r.archived book

theorem Safe.of_pair (h : Sound agents archived book) {r : Registry} (hl : r.agents = agents)
    (ha : r.archived = archived) (hdl : r.disk.agents = agents) (hda : r.disk.archived = archived) :
    Safe r book := by
  subst hl ha
  exact ⟨h, by rw [hdl, hda]; exact h, by rw [hda]; exact h, by rw [hdl]; exact h⟩

theorem Safe.of_live {r : Registry} (hdl : r.disk.agents = r.agents)
    (hhere : Sound r.agents r.archived book) (hover : Sound r.agents r.disk.archived book) :
    Safe r book :=
  ⟨hhere, by rw [hdl]; exact hover, hover, by rw [hdl]; exact hhere⟩

theorem Safe.of_archive {r : Registry} (hda : r.disk.archived = r.archived)
    (hhere : Sound r.agents r.archived book) (hunder : Sound r.disk.agents r.archived book) :
    Safe r book :=
  ⟨hhere, by rw [hda]; exact hunder, by rw [hda]; exact hhere, hunder⟩

theorem Rereads.load {reads : String → String} {disk : Disk}
    (h : Rereads reads disk.agents disk.archived) :
    (load reads disk).agents = disk.agents ∧ (load reads disk).archived = disk.archived := by
  constructor
  · apply Table.ext
    show disk.agents.rows.filterMap _ = _
    rw [filterMap_congr (g := some), filterMap_some]
    intro row hrow
    show some (row.1, row.2.reread reads) = some row
    rw [reread, h.1 row hrow]
  · show disk.archived.map _ = _
    rw [map_congr_left (g := id), map_id]
    intro record hrecord
    rw [reread, h.2 record hrecord]
    rfl

theorem Safe.load {disk : Disk} {reads : String → String}
    (h : Sound disk.agents disk.archived book) (hr : Rereads reads disk.agents disk.archived) :
    Safe (load reads disk) book :=
  .of_pair h hr.load.1 hr.load.2 rfl rfl

theorem Safe.insert (h : Safe r book) (record : AgentRecord)
    (hfree : ∀ live, r.agents.get record.name = some live → live.spawn = record.spawn) :
    Safe (r.insert record true).1 (book.set record.generation record.content) := by
  have hgen : ∀ live, r.agents.get record.name = some live →
      live.generation = record.generation := by
    intro live hl
    have hn : live.name = record.name := h.here.keyed record.name live hl
    exact Prod.ext hn (hfree live hl)
  have hget : ∀ name, (r.agents.set record.name record).get name =
      if name = record.name then some record else r.agents.get name := by
    intro name
    rw [Table.get_set]
  apply Safe.of_live
  · rfl
  · exact h.here.set hgen hget
  · exact h.liveOverFile.set hgen hget

theorem Safe.update (h : Safe r book) {name : String} {mutate : AgentRecord → AgentRecord}
    (hrecord : r.agents.get name = some record)
    (hg : { mutate record with updatedAt := now }.generation = record.generation) :
    Safe (r.update name mutate now true)
      (book.set record.generation { mutate record with updatedAt := now }.content) := by
  have hn : record.name = name := h.here.keyed name record hrecord
  have hnew : ({ mutate record with updatedAt := now } : AgentRecord).name = name :=
    (congrArg Prod.fst hg).trans hn
  have hown : ∀ live, r.agents.get
      ({ mutate record with updatedAt := now } : AgentRecord).name = some live →
      live.generation = ({ mutate record with updatedAt := now } : AgentRecord).generation := by
    intro live hl
    rw [hnew, hrecord] at hl
    cases hl
    exact hg.symm
  have hget : ∀ k, (r.agents.modify name fun record =>
      { mutate record with updatedAt := now }).get k =
        if k = ({ mutate record with updatedAt := now } : AgentRecord).name
        then some { mutate record with updatedAt := now } else r.agents.get k := by
    intro k
    rw [Table.get_modify, hnew]
    by_cases hk : k = name
    · rw [if_pos hk, if_pos hk, hk, hrecord]
      rfl
    · rw [if_neg hk, if_neg hk]
  have hupd : r.update name mutate now true = ({ r with agents := r.agents.modify name fun record =>
          { mutate record with updatedAt := now } } : Registry).persist true := by
    unfold Registry.update
    rw [hrecord]
  rw [hupd, ← hg]
  apply Safe.of_live
  · rfl
  · exact h.here.set hown hget
  · exact h.liveOverFile.set hown hget

theorem Safe.archive (h : Safe r book) {window : Window}
    (hguard : window = .done ∨ window = .secondFails → Current r before)
    (hreads : ∀ reads, window = .cut reads →
      Rereads reads r.disk.agents (r.archived ++ r.moved before now)) :
    Safe (r.archive before now window) book := by
  unfold Registry.archive
  by_cases hempty : (r.archivable before).isEmpty = true
  · rw [if_pos hempty]
    exact h
  · rw [if_neg hempty]
    -- the archive that is written, over the live map and over the live file
    have hover : Sound r.agents ((r.moved before now).foldl pushArchived r.archived) book :=
      h.here.pushAll h.here
    have hfile : Sound r.disk.agents ((r.moved before now).foldl pushArchived r.archived) book :=
      h.here.pushAll h.fileUnder
    cases window with
    | firstFails => exact ⟨hover, h.filed, h.liveOverFile, hfile⟩
    | cut reads =>
      obtain ⟨hl, harchived⟩ := hreads reads rfl
      exact .load hfile ⟨hl, fun a ha => harchived a (mem_pushAll ha)⟩
    | secondFails =>
      have hmoved : Sound (removeAll r.agents (r.moved before now))
          ((r.moved before now).foldl pushArchived r.archived) book :=
        h.here.removeAll (hguard (.inr rfl))
      exact .of_archive rfl hmoved hfile
    | done =>
      have hmoved : Sound (removeAll r.agents (r.moved before now))
          ((r.moved before now).foldl pushArchived r.archived) book :=
        h.here.removeAll (hguard (.inl rfl))
      exact .of_pair hmoved rfl rfl rfl rfl

theorem Safe.unarchive (h : Safe r book) (name : String) {window : Window}
    (hreads : ∀ reads, window = .cut reads →
      Rereads reads r.agents (r.archived ++ r.disk.archived)) :
    Safe (r.unarchive name window) book := by
  unfold Registry.unarchive
  cases hget : r.agents.get name with
  | some live => exact h
  | none =>
    cases hnewest : newestArchived r.archived name with
    | none => exact h
    | some i =>
      obtain ⟨found, hfound, rfl⟩ := mem_newest hnewest
      have hm : found ∈ r.archived := mem_of_getElem? hfound
      have hback : Sound (r.agents.set found.name { found with archivedAt := none }) r.archived
          book := h.here.restored hm hget h.here
      have hfile : Sound (r.agents.set found.name { found with archivedAt := none })
          r.disk.archived book := h.here.restored hm hget h.liveOverFile
      have hnow : (r.agents.set found.name { found with archivedAt := none }).get found.name =
          some { found with archivedAt := none } := by
        rw [Table.get_set]
        exact if_pos rfl
      have hgone : Sound (r.agents.set found.name { found with archivedAt := none })
          (r.archived.eraseIdx i) book := hback.eraseIdx hfound hnow rfl
      simp only [hfound]
      cases window with
      | firstFails => exact ⟨hback, h.filed, hfile, h.fileUnder⟩
      | cut reads =>
        obtain ⟨hl, harchived⟩ := hreads reads rfl
        refine .load hfile ⟨?_, fun a ha => harchived a (mem_append_right _ ha)⟩
        exact forall_mem_cons.mpr ⟨harchived found (mem_append_left _ hm), fun row hrow =>
          hl row (mem_of_mem_filter hrow)⟩
      | secondFails => exact .of_live rfl hgone hfile
      | done => exact .of_pair hgone rfl rfl rfl rfl

end

theorem Booked.step_safe {s s' : Booked} {op : BookedOp} (h : Safe s.registry s.book)
    (hg : keeperGuard s op) (hs : s.step op = some s') : Safe s'.registry s'.book := by
  cases op with
  | insert record writes =>
    cases hs
    cases writes with
    | false => exact ⟨h.here, h.filed, h.liveOverFile, h.fileUnder⟩
    | true => exact h.insert record hg
  | update name mutate now =>
    simp only [step, update] at hs
    split at hs
    · cases hs
      exact h
    · rename_i record hrecord
      split at hs
      · rename_i hgen
        cases hs
        exact h.update hrecord hgen
      · cases hs
  | archive before now window =>
    cases hs
    apply h.archive
    · intro hw
      rcases hw with rfl | rfl
      · exact hg
      · exact hg
    · rintro reads rfl
      exact hg
  | unarchive name window =>
    cases hs
    apply h.unarchive name
    rintro reads rfl
    exact hg
  | reload reads =>
    cases hs
    exact .load h.filed hg

theorem Safe.complete {s : Booked} (h : Safe s.registry s.book) : Complete s := by
  intro g
  have hperm := (listAll_generation (g := g) s.registry h.here.keyed h.here.generations).map content
  have hlook : ((look s.registry.agents s.registry.archived g).toList).map .content =
      (s.book.get g).toList := by
    rw [← h.here.kept g]
    cases look s.registry.agents s.registry.archived g with
    | none | some record => rfl
  rw [hlook] at hperm
  cases hbook : s.book.get g with
  | none =>
    rw [hbook] at hperm
    exact perm_nil.mp hperm
  | some record =>
    rw [hbook] at hperm
    exact perm_singleton.mp hperm

def Booked.empty : Booked := { registry := {}, book := Table.empty }

theorem safe_empty : Safe empty.registry empty.book := by
  have hpair : Sound .empty [] .empty := by
    refine ⟨?_, nodup_nil, fun g => rfl⟩
    intro name record hget
    cases hget
  exact .of_pair hpair rfl rfl rfl rfl

def settledRat : AgentRecord :=
  { name := "Nibbles", spawn := 1, role := "developer", repoName := "barn", task := some "T-1"
    state := .completed, createdAt := 0, updatedAt := 0 }

def landed (record : AgentRecord) : AgentRecord := { record with mergeCommit := some "cafe" }

def staleCopy : List BookedOp :=
  [.insert settledRat true, .archive 10 10 (.cut id), .update "Nibbles" landed 20,
    .archive 30 30 .done]

def archivedAndBack : List BookedOp :=
  [.insert settledRat true, .archive 10 10 .secondFails, .reload id, .archive 20 20 .done,
    .unarchive "Nibbles" (.cut id), .unarchive "Nibbles" .done]

end RatKingdom.Agents
