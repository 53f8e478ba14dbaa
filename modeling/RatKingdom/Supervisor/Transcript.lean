/-
The transcript of one generation of an agent: a file of lines that is cut back to its tail.

A cut starts after a newline, so what stays are whole lines, and where the newest line fills
the tail that is kept it does not stay either (`ring_iff`).
-/
import RatKingdom.Core.Text
import RatKingdom.Lib.Run

namespace RatKingdom.AgentLog

open Core Lib List

def capBytes : Nat := 512 * 1024
def keepBytes : Nat := 256 * 1024

def newline : UInt8 := 10

def trimToTail (data : Bytes) (keep : Nat) : Bytes :=
  if data.length ≤ keep then data
  else
    let start := data.length - keep
    let boundary :=
      match (data.drop start).idxOf? newline with
      | some i => start + i + 1
      | none => start
    data.drop boundary

def writeLine (file line : Bytes) : Bytes :=
  let file := file ++ line ++ [newline]
  if capBytes < file.length then trimToTail file keepBytes else file

/-- `serde_json::to_string` of an entry: compact JSON, in which a control character is
escaped. -/
structure Serializer (Entry : Type) where
  toString : Entry → Option Bytes
  one_line : ∀ {entry line}, toString entry = some line → newline ∉ line

structure Transcript where
  file : Bytes := []
  appended : List Bytes := []

variable {Entry : Type} (json : Serializer Entry)

/-- `append`, with its writes succeeding. -/
def Transcript.append (t : Transcript) (entry : Entry) : Option Transcript :=
  match json.toString entry with
  | none => some t
  | some line => some ⟨writeLine t.file line, t.appended ++ [line]⟩

def text (lines : List Bytes) : Bytes := lines.flatMap fun line => line ++ [newline]

/-- The file is within the cap if the newest line is, and holds the last of the lines that were
appended, the newest among them. -/
def Transcript.Ring (t : Transcript) : Prop :=
  (∀ line ∈ t.appended.getLast?, line.length ≤ capBytes → t.file.length ≤ capBytes) ∧
    ∃ kept, kept <:+ t.appended ∧ t.file = text kept ∧ kept.getLast? = t.appended.getLast?

/-- The line does not make the file too long, or is shorter than the tail that is kept. -/
def Transcript.Fits (t : Transcript) (entry : Entry) : Prop :=
  ∀ line ∈ json.toString entry,
    t.file.length + line.length + 1 ≤ capBytes ∨ line.length + 1 < keepBytes

/-- What is left of the data from behind the first newline at or after `start`. -/
def cut (data : Bytes) (start : Nat) : Bytes :=
  data.drop (match (data.drop start).idxOf? newline with
    | some i => start + i + 1
    | none => start)

theorem cut_append (a b : Bytes) (start : Nat) : cut (a ++ b) (a.length + start) = cut b start := by
  unfold cut
  rw [drop_length_add_append]
  cases (b.drop start).idxOf? newline with
  | none => exact drop_length_add_append _
  | some i =>
    show (a ++ b).drop (a.length + start + i + 1) = b.drop (start + i + 1)
    rw [Nat.add_assoc, Nat.add_assoc, drop_length_add_append, Nat.add_assoc]

theorem cut_line {line : Bytes} (h : newline ∉ line) (rest : Bytes) {start : Nat}
    (hs : start ≤ line.length) : cut (line ++ newline :: rest) start = rest := by
  have hidx : ((line ++ newline :: rest).drop start).idxOf? newline =
      some (line.length - start) := by
    have hn : (line.drop start).findIdx? (· == newline) = none :=
      findIdx?_eq_none_iff.mpr fun b hb => beq_eq_false_iff_ne.mpr fun heq =>
        h (heq ▸ mem_of_mem_drop hb)
    rw [drop_append_of_le_length hs, idxOf?, findIdx?_append, hn, findIdx?_cons]
    simp
  rw [cut, hidx]
  show (line ++ newline :: rest).drop (start + (line.length - start) + 1) = rest
  rw [Nat.add_sub_cancel' hs, ← drop_drop, drop_left, drop_one, tail_cons]

variable {lines : List Bytes}

theorem cut_text (h : ∀ line ∈ lines, newline ∉ line) (rest : Bytes) {start : Nat}
    (hs : start < (text lines).length) :
    ∃ kept, kept <:+ lines ∧ cut (text lines ++ rest) start = text kept ++ rest := by
  induction lines generalizing start with
  | nil => exact absurd hs (Nat.not_lt_zero _)
  | cons line lines ih =>
    have hsplit : text (line :: lines) ++ rest = line ++ newline :: (text lines ++ rest) := by
      simp [text]
    rw [hsplit]
    by_cases hle : start ≤ line.length
    · exact ⟨lines, suffix_cons _ _, cut_line (h line mem_cons_self) _ hle⟩
    · obtain ⟨s, rfl⟩ := Nat.exists_eq_add_of_lt (Nat.lt_of_not_le hle)
      have hlen : (text (line :: lines)).length = line.length + 1 + (text lines).length := by
        simp [text]
        omega
      obtain ⟨kept, hkept, hcut⟩ := ih (fun l hl => h l (mem_cons_of_mem _ hl))
        (show s < _ by omega)
      refine ⟨kept, hkept.trans (suffix_cons _ _), ?_⟩
      rw [← hcut, ← cut_append (line ++ [newline]) (text lines ++ rest) s]
      simp [Nat.add_right_comm]

theorem length_cut (data : Bytes) (start : Nat) :
    (cut data start).length ≤ data.length - start := by
  rw [cut, length_drop]
  split <;> omega

theorem trimToTail_eq {data : Bytes} {keep : Nat} (h : keep < data.length) :
    trimToTail data keep = cut data (data.length - keep) :=
  if_neg (Nat.not_le_of_lt h)

theorem text_concat (lines : List Bytes) (line : Bytes) :
    text (lines ++ [line]) = text lines ++ (line ++ [newline]) := by
  simp [text]

variable {t t' : Transcript} {entry : Entry}

theorem writeLine_fits {kept : List Bytes} (hk : ∀ line ∈ kept, newline ∉ line) {line : Bytes}
    (h : (text kept).length + line.length + 1 ≤ capBytes ∨ line.length + 1 < keepBytes) :
    (writeLine (text kept) line).length ≤ capBytes ∧
      ∃ before, before <:+ kept ∧ writeLine (text kept) line = text (before ++ [line]) := by
  have hlen : (text kept ++ line ++ [newline]).length = (text kept).length + line.length + 1 := by
    simp [Nat.add_assoc]
  unfold writeLine
  by_cases hcap : (text kept).length + line.length + 1 ≤ capBytes
  · rw [if_neg (by rw [hlen]; exact Nat.not_lt_of_le hcap)]
    exact ⟨hlen ▸ hcap, kept, suffix_refl _, by rw [text_concat, append_assoc]⟩
  · have hshort := h.resolve_left hcap
    have hkeep : keepBytes ≤ capBytes := by decide
    have htrim : trimToTail (text kept ++ line ++ [newline]) keepBytes =
        cut (text kept ++ (line ++ [newline]))
          ((text kept).length + line.length + 1 - keepBytes) := by
      rw [trimToTail_eq (by rw [hlen]; omega), hlen, append_assoc]
    rw [if_pos (by rw [hlen]; exact Nat.lt_of_not_le hcap), htrim]
    obtain ⟨before, hbefore, hcut⟩ := cut_text hk (line ++ [newline])
      (show (text kept).length + line.length + 1 - keepBytes < _ by omega)
    refine ⟨?_, before, hbefore, by rw [hcut, text_concat]⟩
    have hle := length_cut (text kept ++ (line ++ [newline]))
      ((text kept).length + line.length + 1 - keepBytes)
    rw [← append_assoc, hlen] at hle
    rw [← append_assoc]
    omega

theorem writeLine_long (file : Bytes) {line : Bytes} (hline : newline ∉ line)
    (hcap : capBytes < file.length + line.length + 1) (hlong : keepBytes ≤ line.length + 1) :
    writeLine file line = [] := by
  have hlen : (file ++ line ++ [newline]).length = file.length + line.length + 1 := by
    simp [Nat.add_assoc]
  have hkeep : keepBytes ≤ capBytes := by decide
  have hstart : file.length + line.length + 1 - keepBytes =
      file.length + (line.length + 1 - keepBytes) := by omega
  have hpos : 0 < keepBytes := by decide
  rw [writeLine, if_pos (by rw [hlen]; exact hcap), trimToTail_eq (by rw [hlen]; omega), hlen,
    append_assoc, hstart, cut_append, cut_line hline [] (by omega)]

theorem ring_step (hlines : ∀ line ∈ t.appended, newline ∉ line) (hring : t.Ring)
    (h : t.append json entry = some t') : t'.Ring ↔ t.Fits json entry := by
  unfold Transcript.append at h
  unfold Transcript.Fits
  cases hs : json.toString entry with
  | none =>
    rw [hs] at h
    cases h
    exact iff_of_true hring fun line hline => nomatch hline
  | some line =>
    rw [hs] at h
    cases h
    obtain ⟨-, kept, hkept, hfile, -⟩ := hring
    have hlast : (t.appended ++ [line]).getLast? = some line := getLast?_concat
    constructor
    · intro ⟨_, kept', _, hfile', hkept'⟩ l hl
      cases hl
      by_contra hno
      obtain ⟨hcap, hlong⟩ := not_or.mp hno
      have hgone := writeLine_long t.file (json.one_line hs) (Nat.lt_of_not_le hcap)
        (Nat.le_of_not_lt hlong)
      rw [hlast] at hkept'
      obtain ⟨front, rfl⟩ := getLast?_eq_some_iff.mp hkept'
      rw [hgone, text_concat] at hfile'
      simp at hfile'
    · intro hfits
      have hwrites := writeLine_fits (fun l hl => hlines l (hkept.mem hl)) (hfile ▸ hfits line rfl)
      rw [← hfile] at hwrites
      obtain ⟨hcap, before, hbefore, hwrite⟩ := hwrites
      refine ⟨fun _ _ _ => hcap, before ++ [line], ?_, hwrite, ?_⟩
      · obtain ⟨front, hfront⟩ := hbefore.trans hkept
        exact ⟨front, by rw [← append_assoc, hfront]⟩
      · rw [hlast, getLast?_concat]

/-- A run of appends keeps the ring exactly when every line goes in without a cut or is shorter
than the tail. -/
theorem ring_iff (entries : List Entry) :
    Keeps (Transcript.append json) Transcript.Ring {} entries ↔
      Meets (Transcript.append json) (Transcript.Fits json) {} entries := by
  refine keeps_iff_meets (I := fun t => ∀ line ∈ t.appended, newline ∉ line) ?_
    (fun _ _ _ hlines hring h => ring_step json hlines hring h) (fun _ h => (not_mem_nil h).elim)
    ⟨nofun, [], suffix_refl _, rfl, rfl⟩
  intro t entry t' hlines h line hline
  unfold Transcript.append at h
  cases hs : json.toString entry with
  | none =>
    rw [hs] at h
    cases h
    exact hlines line hline
  | some new =>
    rw [hs] at h
    cases h
    rcases mem_append.mp hline with hline | hline
    · exact hlines line hline
    · rw [mem_singleton.mp hline]
      exact json.one_line hs

/-- Entries written with as many bytes. -/
def sized : Serializer Nat where
  toString := fun n => some (replicate n 120)
  one_line := fun h => by
    cases h
    exact fun hm => absurd (eq_of_mem_replicate hm) (by decide)

/-- Of two entries of 300 KiB, the second empties the file. -/
theorem long_line_empties_file : ¬ Keeps (Transcript.append sized) Transcript.Ring {}
    [300 * 1024, 300 * 1024] := by
  generalize hn : 300 * 1024 = n
  intro hk
  have hring : Transcript.Ring ⟨writeLine [] (replicate n 120), [replicate n 120]⟩ := (hk.2 _ rfl).1
  have hfits := (ring_step sized (fun line hline => by
    rw [mem_singleton.mp hline]
    exact sized.one_line rfl) hring rfl).mp ((hk.2 _ rfl).2 _ rfl) _ rfl
  obtain ⟨-, before, hbefore, hwrite⟩ := @writeLine_fits [] (fun _ h => (not_mem_nil h).elim)
    (replicate n 120) (.inl (by simp [text, capBytes]; omega))
  rw [suffix_nil.mp hbefore] at hwrite
  have hfile : (writeLine [] (replicate n 120)).length = n + 1 := by
    rw [show writeLine [] (replicate n 120) = text [replicate n 120] from hwrite]
    simp [text]
  simp only [hfile, length_replicate, capBytes, keepBytes] at hfits
  omega

end RatKingdom.AgentLog
