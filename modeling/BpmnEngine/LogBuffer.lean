import BpmnEngine.GuardedRuns
import Mathlib.Logic.Function.Basic

/-!
# The log buffer and its file

The server keeps its last log entries in memory and appends each of them to a file. After
`compactAfter` writes a snapshot of memory goes to a temporary file, which then replaces the
log file. The snapshot is taken under the lock of the buffer; creating the temporary file,
each write to it and the renaming happen after the lock is released, and other pushes may
fall between them. The file follows memory as long as none does. The counter of writes is
not stored with the file, so the length of the file is bounded only as far as restarts find
it compacted.
-/
namespace BpmnEngine.LogBuffer

def maxEntries : Nat := 5000

def compactAfter : Nat := 500

abbrev newline : UInt8 := 10

/-! ## Lines and loading -/

/-- What a line of the file is read as. Loading skips a line without an entry and stops at one
that is not text. -/
inductive Line (α : Type) where
  | entry (a : α)
  | other
  | unreadable

/-- The format of the entries: each is one line and is read back from it. -/
structure LineFormat (α : Type) where
  text : α → List UInt8
  read : List UInt8 → Line α
  newline_notMem_text : ∀ a, newline ∉ text a
  read_text : ∀ a, read (text a) = .entry a
  read_nil : read [] = .other

/-- Entries that are flags, each with a digit as its line. -/
def flagLines : LineFormat Bool where
  text b := [if b then 49 else 48]
  read s := if s = [49] then .entry true else if s = [48] then .entry false else .other
  newline_notMem_text := by decide
  read_text := by rintro (_ | _) <;> rfl
  read_nil := rfl

variable {α : Type} {fmt : LineFormat α} {a : α} {l : List α}

/-- Memory after one more entry; the oldest one gives way. -/
def rollIn (entries : List α) (a : α) : List α :=
  (if maxEntries ≤ entries.length then entries.tail else entries) ++ [a]

def segments : List UInt8 → List (List UInt8)
  | [] => [[]]
  | b :: rest => if b = newline then [] :: segments rest else (segments rest).modifyHead (b :: ·)

def loadLines (fmt : LineFormat α) : List α → List (List UInt8) → List α
  | entries, [] => entries
  | entries, s :: rest =>
    match fmt.read s with
    | .entry a => loadLines fmt (rollIn entries a) rest
    | .other => loadLines fmt entries rest
    | .unreadable => entries

def loadEntriesFromFile (fmt : LineFormat α) (bytes : List UInt8) : List α :=
  loadLines fmt [] (segments bytes)

/-- The writes for some entries: the text of each and the end of its line. -/
def chunks (fmt : LineFormat α) (entries : List α) : List (List UInt8) :=
  entries.flatMap fun a => [fmt.text a, [newline]]

/-! ## The file system -/

/-- The files that the buffer uses. A name refers to a file by number, and an open handle keeps
the number when the name moves on. -/
structure Disk where
  contents : Nat → List UInt8
  log : Option Nat
  temp : Option Nat
  nextFile : Nat

namespace Disk

def empty : Disk := ⟨fun _ => [], none, none, 0⟩

def logBytes (d : Disk) : List UInt8 := (d.log.map d.contents).getD []

def lineCount (d : Disk) : Nat := d.logBytes.count newline

def appendToLog (d : Disk) (bytes : List UInt8) : Disk :=
  match d.log with
  | some n => { d with contents := Function.update d.contents n (d.contents n ++ bytes) }
  | none =>
    { d with
      contents := Function.update d.contents d.nextFile bytes
      log := some d.nextFile
      nextFile := d.nextFile + 1 }

/-- Opens the temporary file for writing; one that exists is emptied. -/
def createTemp (d : Disk) : Nat × Disk :=
  match d.temp with
  | some n => (n, { d with contents := Function.update d.contents n [] })
  | none =>
    (d.nextFile,
      { d with
        contents := Function.update d.contents d.nextFile []
        temp := some d.nextFile
        nextFile := d.nextFile + 1 })

/-- Writes at a position; a gap before it is filled with zeros. -/
def writeAt (d : Disk) (n position : Nat) (bytes : List UInt8) : Disk :=
  let old := d.contents n
  { d with
    contents := Function.update d.contents n (old.take position ++
      List.replicate (position - old.length) 0 ++ bytes ++ old.drop (position + bytes.length)) }

def renameTemp (d : Disk) : Disk :=
  match d.temp with
  | some n => { d with log := some n, temp := none }
  | none => d

end Disk

/-! ## The buffer -/

/-- What is left of a compaction. -/
inductive Compaction (α : Type) where
  | create (snapshot : List α)
  | write (file position : Nat) (rest : List (List UInt8))

/-- One step of `compact_file` and what remains after it. -/
def Compaction.step (fmt : LineFormat α) (d : Disk) : Compaction α → Disk × Option (Compaction α)
  | .create snapshot => (d.createTemp.2, some (.write d.createTemp.1 0 (chunks fmt snapshot)))
  | .write n position (bytes :: rest) =>
    (d.writeAt n position bytes, some (.write n (position + bytes.length) rest))
  | .write _ _ [] => (d.renameTemp, none)

structure State (α : Type) where
  entries : List α
  writtenSinceCompact : Nat
  disk : Disk
  /-- The compactions of pushes that have not returned. -/
  compactions : List (Compaction α)

namespace State

/-- A buffer on a file that does not exist yet. -/
def fresh : State α := ⟨[], 0, .empty, []⟩

/-- The part of a push under the lock. -/
def push (fmt : LineFormat α) (s : State α) (a : α) : State α :=
  let entries := rollIn s.entries a
  let disk := s.disk.appendToLog (fmt.text a ++ [newline])
  if compactAfter ≤ s.writtenSinceCompact + 1 then
    ⟨entries, 0, disk, s.compactions ++ [.create entries]⟩
  else
    ⟨entries, s.writtenSinceCompact + 1, disk, s.compactions⟩

/-- The k-th unfinished compaction makes one step. -/
def advance (fmt : LineFormat α) (s : State α) (k : Nat) : Option (State α) :=
  s.compactions[k]?.map fun c =>
    { s with
      disk := (c.step fmt s.disk).1
      compactions :=
        match (c.step fmt s.disk).2 with
        | some c' => s.compactions.set k c'
        | none => s.compactions.eraseIdx k }

/-- A new process on the same file. -/
def restart (fmt : LineFormat α) (s : State α) : State α :=
  ⟨loadEntriesFromFile fmt s.disk.logBytes, 0, s.disk, []⟩

end State

inductive Move (α : Type) where
  | push (a : α)
  | advance (k : Nat)
  | restart

def step (fmt : LineFormat α) (s : State α) : Move α → Option (State α)
  | .push a => some (s.push fmt a)
  | .advance k => s.advance fmt k
  | .restart => some (s.restart fmt)

/-- Pushes and restarts follow one another: none begins before the last compaction is over. -/
def OneAtATime (s : State α) : Move α → Prop
  | .advance _ => True
  | .push _ | .restart => s.compactions = []

/-- In addition, a restart finds no more lines than memory takes. -/
def RestartsCompacted (s : State α) (m : Move α) : Prop :=
  OneAtATime s m ∧ (m = .restart → s.disk.lineCount ≤ maxEntries)

/-! ## What loading finds -/

/-- The bytes of a file with some entries. -/
def fileOf (fmt : LineFormat α) (entries : List α) : List UInt8 := (chunks fmt entries).flatten

/-- What memory keeps of a sequence of entries. -/
def recent (l : List α) : List α := l.foldl rollIn []

theorem fileOf_cons : fileOf fmt (a :: l) = fmt.text a ++ newline :: fileOf fmt l := by
  simp [fileOf, chunks]

theorem fileOf_append_singleton :
    fileOf fmt (l ++ [a]) = fileOf fmt l ++ (fmt.text a ++ [newline]) := by
  simp [fileOf, chunks]

theorem count_newline_fileOf : (fileOf fmt l).count newline = l.length := by
  induction l with
  | nil => rfl
  | cons a rest ih =>
    simp [fileOf_cons, List.count_append, ih,
      List.count_eq_zero_of_not_mem (fmt.newline_notMem_text a)]

theorem segments_append {text rest : List UInt8} (h : newline ∉ text) :
    segments (text ++ newline :: rest) = text :: segments rest := by
  induction text with
  | nil => simp [segments]
  | cons b text ih =>
    have hb : b ≠ newline := fun hb => h (hb ▸ List.mem_cons_self)
    have htext : newline ∉ text := fun hmem => h (List.mem_cons_of_mem b hmem)
    simp [segments, hb, ih htext]

/-- Loading a file gives what memory keeps of the entries in it. -/
theorem loadEntriesFromFile_fileOf : loadEntriesFromFile fmt (fileOf fmt l) = recent l := by
  have hload : ∀ entries, loadLines fmt entries (segments (fileOf fmt l)) =
      l.foldl rollIn entries := by
    induction l with
    | nil =>
      intro entries
      simp [fileOf, chunks, segments, loadLines, fmt.read_nil]
    | cons a rest ih =>
      intro entries
      rw [fileOf_cons, segments_append (fmt.newline_notMem_text a), loadLines, fmt.read_text]
      exact ih _
  exact hload []

theorem length_recent_le : (recent l).length ≤ maxEntries := by
  have hroll : ∀ entries : List α, entries.length ≤ maxEntries →
      (l.foldl rollIn entries).length ≤ maxEntries := by
    induction l with
    | nil => exact fun _ h => h
    | cons a rest ih =>
      intro entries h
      apply ih
      rw [rollIn, List.length_append]
      split
      · simp only [List.length_tail, List.length_singleton, maxEntries] at *
        omega
      · simp only [List.length_singleton]
        omega
  exact hroll [] (Nat.zero_le _)

theorem rollIn_of_lt (h : l.length < maxEntries) : rollIn l a = l ++ [a] := by
  rw [rollIn, if_neg (Nat.not_le.mpr h)]

theorem rollIn_replicate {n : Nat} (h : n < maxEntries) :
    rollIn (List.replicate n a) a = List.replicate (n + 1) a := by
  rw [rollIn_of_lt (by rwa [List.length_replicate]), List.replicate_succ']

theorem recent_of_length_le (h : l.length ≤ maxEntries) : recent l = l := by
  have hroll : ∀ entries : List α, entries.length + l.length ≤ maxEntries →
      l.foldl rollIn entries = entries ++ l := by
    clear h
    induction l with
    | nil => simp
    | cons a rest ih =>
      intro entries h
      rw [List.length_cons] at h
      rw [List.foldl_cons, rollIn_of_lt (by omega), ih _ (by simp; omega)]
      simp
  exact hroll [] (by simpa using h)

/-! ## Steps of a compaction -/

/-- Both names refer to files that exist, and not to the same one. -/
structure Disk.Sound (d : Disk) : Prop where
  log_lt : ∀ n, d.log = some n → n < d.nextFile
  temp_lt : ∀ n, d.temp = some n → n < d.nextFile
  apart : ∀ n, d.temp = some n → d.log ≠ some n

variable {d : Disk} {bytes : List UInt8} {snapshot : List α} {c : Compaction α}

theorem Disk.Sound.appendToLog (h : d.Sound) : (d.appendToLog bytes).Sound := by
  unfold Disk.appendToLog
  split
  · exact ⟨h.log_lt, h.temp_lt, h.apart⟩
  · constructor
    · simp
    · intro n hn
      exact Nat.lt_succ_of_lt (h.temp_lt n hn)
    · intro n hn hlog
      have hlt := h.temp_lt n hn
      simp only [Option.some.injEq] at hlog
      omega

theorem Disk.logBytes_appendToLog : (d.appendToLog bytes).logBytes = d.logBytes ++ bytes := by
  unfold Disk.appendToLog Disk.logBytes
  split <;> simp_all

/-- How far a compaction has come: the temporary file holds the writes that are done. -/
inductive Progress (fmt : LineFormat α) (d : Disk) (snapshot : List α) : Compaction α → Prop where
  | create : Progress fmt d snapshot (.create snapshot)
  | write {n : Nat} (done : List (List UInt8)) {rest : List (List UInt8)} (htemp : d.temp = some n)
      (hdone : d.contents n = done.flatten) (hall : done ++ rest = chunks fmt snapshot) :
      Progress fmt d snapshot (.write n done.flatten.length rest)

theorem createTemp_spec (h : d.Sound) :
    d.createTemp.2.Sound ∧ d.createTemp.2.temp = some d.createTemp.1 ∧
      d.createTemp.2.contents d.createTemp.1 = [] ∧ d.createTemp.2.logBytes = d.logBytes := by
  unfold Disk.createTemp
  split
  case h_1 n hn =>
    refine ⟨⟨h.log_lt, h.temp_lt, h.apart⟩, hn, by simp, ?_⟩
    cases hlog : d.log with
    | none => simp [Disk.logBytes, hlog]
    | some m =>
      have hm : m ≠ n := fun hm => h.apart n hn (hm ▸ hlog)
      simp [Disk.logBytes, hlog, hm]
  case h_2 hn =>
    have hfresh : ∀ m, d.log = some m → m ≠ d.nextFile := fun m hm => by
      have hlt := h.log_lt m hm
      omega
    constructor
    · constructor
      · intro n hlog
        exact Nat.lt_succ_of_lt (h.log_lt n hlog)
      · simp
      · rintro n ⟨⟩ hlog
        exact hfresh _ hlog rfl
    · refine ⟨rfl, by simp, ?_⟩
      cases hlog : d.log with
      | none => simp [Disk.logBytes, hlog]
      | some m => simp [Disk.logBytes, hlog, hfresh m hlog]

theorem contents_writeAt {n position : Nat} (h : position = (d.contents n).length) :
    (d.writeAt n position bytes).contents n = d.contents n ++ bytes := by
  simp [Disk.writeAt, h]

/-- A step of a compaction leaves the log file alone, until the last one replaces it by the
snapshot. -/
theorem Progress.step (hd : d.Sound) (h : Progress fmt d snapshot c) :
    (c.step fmt d).1.Sound ∧
      ((∃ c', (c.step fmt d).2 = some c' ∧ Progress fmt (c.step fmt d).1 snapshot c' ∧
          (c.step fmt d).1.logBytes = d.logBytes) ∨
        (c.step fmt d).2 = none ∧ (c.step fmt d).1.logBytes = fileOf fmt snapshot) := by
  cases h with
  | create =>
    obtain ⟨hsound, htemp, hempty, hlog⟩ := createTemp_spec hd
    exact ⟨hsound, .inl ⟨_, rfl, .write [] htemp hempty rfl, hlog⟩⟩
  | @write n done rest htemp hdone hall =>
    cases rest with
    | nil =>
      have hrename : d.renameTemp = { d with log := some n, temp := none } := by
        simp [Disk.renameTemp, htemp]
      have hsound : d.renameTemp.Sound := by
        rw [hrename]
        refine ⟨?_, by simp, by simp⟩
        rintro m ⟨⟩
        exact hd.temp_lt n htemp
      refine ⟨hsound, .inr ⟨rfl, ?_⟩⟩
      simp only [Compaction.step, hrename, Disk.logBytes, fileOf, ← hall]
      simp [hdone]
    | cons b rest =>
      refine ⟨⟨hd.log_lt, hd.temp_lt, hd.apart⟩, .inl ⟨_, rfl, ?_, ?_⟩⟩
      · have hnext : Progress fmt (d.writeAt n done.flatten.length b) snapshot
            (.write n (done ++ [b]).flatten.length rest) := by
          constructor
          · exact htemp
          · rw [contents_writeAt (congrArg List.length hdone.symm), hdone]
            simp
          · simpa using hall
        simpa [Compaction.step] using hnext
      · cases hlog : d.log with
        | none => simp [Compaction.step, Disk.writeAt, Disk.logBytes, hlog]
        | some m =>
          have hm : m ≠ n := fun hm => hd.apart n htemp (hm ▸ hlog)
          simp [Compaction.step, Disk.writeAt, Disk.logBytes, hlog, hm]

/-! ## Runs -/

/-- The file holds the entries `kept`, memory what it keeps of them, and at most one compaction is
under way, with a snapshot of the present memory. -/
structure Agrees (fmt : LineFormat α) (s : State α) (kept : List α) : Prop where
  sound : s.disk.Sound
  file : s.disk.logBytes = fileOf fmt kept
  memory : s.entries = recent kept
  compacting : ∀ c ∈ s.compactions, s.compactions = [c] ∧ Progress fmt s.disk s.entries c

variable {s t : State α} {kept : List α}

theorem agrees_fresh : Agrees fmt State.fresh [] where
  sound := ⟨nofun, nofun, nofun⟩
  file := rfl
  memory := rfl
  compacting := nofun

section

variable (h : Agrees fmt s kept)

include h

theorem Agrees.lineCount : s.disk.lineCount = kept.length := by
  rw [Disk.lineCount, h.file, count_newline_fileOf]

theorem Agrees.push (hidle : s.compactions = []) (a : α) :
    Agrees fmt (s.push fmt a) (kept ++ [a]) := by
  have hfile : (s.disk.appendToLog (fmt.text a ++ [newline])).logBytes =
      fileOf fmt (kept ++ [a]) := by
    rw [Disk.logBytes_appendToLog, h.file, fileOf_append_singleton]
  have hmemory : rollIn s.entries a = recent (kept ++ [a]) := by
    simp [recent, h.memory]
  unfold State.push
  split
  · refine ⟨h.sound.appendToLog, hfile, hmemory, ?_⟩
    simp only [hidle, List.nil_append, List.mem_singleton]
    rintro c rfl
    exact ⟨rfl, .create⟩
  · refine ⟨h.sound.appendToLog, hfile, hmemory, ?_⟩
    simp [hidle]

theorem Agrees.restart : Agrees fmt (s.restart fmt) kept where
  sound := h.sound
  file := h.file
  memory := by rw [State.restart, h.file, loadEntriesFromFile_fileOf]
  compacting := nofun

/-- A step of a compaction keeps the agreement; the last one cuts the file down to memory. -/
theorem Agrees.advance {k : Nat} (ht : s.advance fmt k = some t) :
    t.writtenSinceCompact = s.writtenSinceCompact ∧
      (Agrees fmt t kept ∧ t.compactions ≠ [] ∧ s.compactions ≠ [] ∨
        Agrees fmt t s.entries ∧ t.compactions = []) := by
  obtain ⟨c, hc, rfl⟩ := Option.map_eq_some_iff.mp ht
  obtain ⟨hone, hprogress⟩ := h.compacting c (List.mem_of_getElem? hc)
  have hk : k = 0 := by
    rw [hone, List.getElem?_singleton] at hc
    split at hc
    · assumption
    · cases hc
  subst hk
  obtain ⟨hsound, ⟨c', hnext, hprogress', hlog⟩ | ⟨hnext, hlog⟩⟩ := hprogress.step h.sound
  · refine ⟨rfl, .inl ⟨⟨hsound, hlog.trans h.file, h.memory, ?_⟩, ?_, ?_⟩⟩
    · simp only [hnext, hone, List.set_cons_zero, List.mem_singleton]
      rintro c rfl
      exact ⟨rfl, hprogress'⟩
    · simp [hnext, hone]
    · simp [hone]
  · have hmemory : s.entries = recent s.entries :=
      (recent_of_length_le (h.memory ▸ length_recent_le)).symm
    refine ⟨rfl, .inr ⟨⟨hsound, hlog, hmemory, ?_⟩, ?_⟩⟩
    · simp [hnext, hone]
    · simp [hnext, hone]

end

theorem State.push_of_lt (h : s.writtenSinceCompact + 1 < compactAfter) :
    s.push fmt a = ⟨rollIn s.entries a, s.writtenSinceCompact + 1,
      s.disk.appendToLog (fmt.text a ++ [newline]), s.compactions⟩ :=
  if_neg (Nat.not_le.mpr h)

theorem State.push_of_le (h : compactAfter ≤ s.writtenSinceCompact + 1) :
    s.push fmt a = ⟨rollIn s.entries a, 0, s.disk.appendToLog (fmt.text a ++ [newline]),
      s.compactions ++ [.create (rollIn s.entries a)]⟩ :=
  if_pos h

/-- If no push takes the lock while a compaction is under way, then reloading the file yields the
entries in memory at any time, in the same order. -/
theorem reload_eq_entries (h : Reaches (step fmt) OneAtATime State.fresh s) :
    loadEntriesFromFile fmt s.disk.logBytes = s.entries := by
  obtain ⟨kept, hkept⟩ : ∃ kept, Agrees fmt s kept := by
    apply h.invariant (P := fun s => ∃ kept, Agrees fmt s kept) ⟨[], agrees_fresh⟩
    rintro s (a | k | _) t ⟨kept, hkept⟩ hidle ht
    · cases ht
      exact ⟨_, hkept.push hidle a⟩
    · rcases (hkept.advance ht).2 with ⟨hkept, _⟩ | ⟨hkept, _⟩
      · exact ⟨kept, hkept⟩
      · exact ⟨_, hkept⟩
    · cases ht
      exact ⟨kept, hkept.restart⟩
  rw [hkept.file, loadEntriesFromFile_fileOf, hkept.memory]

theorem flags_reload :
    ∃ s, Reaches (step flagLines) OneAtATime State.fresh s ∧ s.entries = [true, false] ∧
      loadEntriesFromFile flagLines s.disk.logBytes = s.entries := by
  have hstart : Reaches (step flagLines) OneAtATime State.fresh State.fresh := .start
  have hfirst := hstart.next (a := Move.push true) rfl rfl
  have hsecond := hfirst.next (a := Move.push false) rfl rfl
  exact ⟨_, hsecond, rfl, reload_eq_entries hsecond⟩

/-- The entries of the file: at most those that memory takes and the writes since then. -/
structure Bounded (s : State α) (kept : List α) : Prop where
  counter : s.writtenSinceCompact < compactAfter
  length : kept.length ≤ maxEntries + compactAfter
  idle : s.compactions = [] → kept.length ≤ maxEntries + s.writtenSinceCompact

theorem counter_pos : 0 < compactAfter := by decide

theorem Bounded.push (h : Bounded s kept) (hidle : s.compactions = []) (a : α) :
    Bounded (s.push fmt a) (kept ++ [a]) := by
  have hcounter := h.counter
  have hlength := h.idle hidle
  have hone : (kept ++ [a]).length = kept.length + 1 := List.length_append
  by_cases hfull : s.writtenSinceCompact + 1 < compactAfter
  · rw [State.push_of_lt hfull]
    exact ⟨hfull, by omega, fun _ => by simp only; omega⟩
  · rw [State.push_of_le (Nat.not_lt.mp hfull)]
    exact ⟨Nat.zero_lt_of_lt hcounter, by omega, by simp⟩

/-- The log file never holds more than `maxEntries + compactAfter` lines, if each restart finds at
most `maxEntries` of them. -/
theorem lineCount_le (h : Reaches (step fmt) RestartsCompacted State.fresh s) :
    s.disk.lineCount ≤ maxEntries + compactAfter := by
  obtain ⟨kept, hkept, hbounded⟩ : ∃ kept, Agrees fmt s kept ∧ Bounded s kept := by
    apply h.invariant (P := fun s => ∃ kept, Agrees fmt s kept ∧ Bounded s kept)
      ⟨[], agrees_fresh, counter_pos, Nat.zero_le _, fun _ => Nat.zero_le _⟩
    rintro s (a | k | _) t ⟨kept, hkept, hbounded⟩ ⟨hidle, hrestart⟩ ht
    · cases ht
      exact ⟨_, hkept.push hidle a, hbounded.push hidle a⟩
    · obtain ⟨hcounter, ⟨hkept', hbusy, _⟩ | ⟨hkept', hover⟩⟩ := hkept.advance ht
      · exact ⟨kept, hkept', hcounter ▸ hbounded.counter, hbounded.length,
          fun hidle => absurd hidle hbusy⟩
      · have hlength : s.entries.length ≤ maxEntries := hkept.memory ▸ length_recent_le
        exact ⟨_, hkept', hcounter ▸ hbounded.counter, by omega, fun _ => by omega⟩
    · cases ht
      have hlength : kept.length ≤ maxEntries := hkept.lineCount ▸ hrestart rfl
      exact ⟨kept, hkept.restart, counter_pos, by omega, fun _ => by omega⟩
  exact hkept.lineCount ▸ hbounded.length

theorem flags_lineCount :
    ∃ s, Reaches (step flagLines) RestartsCompacted State.fresh s ∧ s.entries = [true, false] ∧
      s.disk.lineCount ≤ maxEntries + compactAfter := by
  have hstart : Reaches (step flagLines) RestartsCompacted State.fresh State.fresh := .start
  have hfirst := hstart.next (a := Move.push true) ⟨rfl, nofun⟩ rfl
  have hagain := hfirst.next (a := Move.restart) ⟨rfl, fun _ => by decide⟩ rfl
  have hsecond := hagain.next (a := Move.push false) ⟨rfl, nofun⟩ rfl
  exact ⟨_, hsecond, rfl, lineCount_le hsecond⟩

/-! ## Restarts and pushes that the file does not survive -/

section Runs

variable {guard : State α → Move α → Prop} {s₀ : State α}

/-- Pushes below the threshold only lengthen the file. -/
theorem reaches_pushes (hguard : ∀ s a, s.compactions = [] → guard s (.push a)) (a : α)
    (h : Reaches (step fmt) guard s₀ s) (hkept : Agrees fmt s kept) (hidle : s.compactions = [])
    (n : Nat) (hn : s.writtenSinceCompact + n < compactAfter) :
    ∃ t, Reaches (step fmt) guard s₀ t ∧ Agrees fmt t (kept ++ List.replicate n a) ∧
      t.compactions = [] ∧ t.writtenSinceCompact = s.writtenSinceCompact + n := by
  induction n with
  | zero => exact ⟨s, h, by simpa using hkept, hidle, rfl⟩
  | succ n ih =>
    obtain ⟨t, ht, htkept, htidle, hcounter⟩ := ih (by omega)
    have hpush : t.push fmt a = _ := State.push_of_lt (by omega)
    refine ⟨t.push fmt a, ht.next (hguard t a htidle) rfl, ?_, ?_, ?_⟩
    · have hsnoc := htkept.push htidle a
      rwa [List.append_assoc, ← List.replicate_succ'] at hsnoc
    · rw [hpush]
      exact htidle
    · rw [hpush]
      simp only
      omega

/-- The number of steps that a compaction still takes. -/
def Compaction.remaining (fmt : LineFormat α) : Compaction α → Nat
  | .create snapshot => (chunks fmt snapshot).length + 2
  | .write _ _ rest => rest.length + 1

theorem Compaction.remaining_step {c' : Compaction α} (h : (c.step fmt d).2 = some c') :
    c'.remaining fmt < c.remaining fmt := by
  match c, h with
  | .create _, rfl => simp [remaining]
  | .write _ _ (_ :: _), rfl => simp [remaining]

/-- A compaction comes to its end and leaves its snapshot, whatever memory holds by then. -/
theorem reaches_compacted (hguard : ∀ s k, guard s (.advance k)) (n : Nat)
    (h : Reaches (step fmt) guard s₀ s) (hsound : s.disk.Sound) (hone : s.compactions = [c])
    (hprogress : Progress fmt s.disk snapshot c) (hn : c.remaining fmt ≤ n) :
    ∃ t, Reaches (step fmt) guard s₀ t ∧ t.compactions = [] ∧ t.entries = s.entries ∧
      t.disk.logBytes = fileOf fmt snapshot := by
  induction n generalizing s c with
  | zero => cases c <;> simp [Compaction.remaining] at hn
  | succ n ih =>
    have hstep : step fmt s (.advance 0) =
        some { s with
          disk := (c.step fmt s.disk).1
          compactions := (c.step fmt s.disk).2.toList } := by
      simp only [step, State.advance, hone, List.getElem?_cons_zero, Option.map_some]
      cases (c.step fmt s.disk).2 <;> rfl
    have hnext := h.next (hguard s 0) hstep
    obtain ⟨hsound', ⟨c', hc', hprogress', _⟩ | ⟨hc', hlog⟩⟩ := hprogress.step hsound
    · have hless := Compaction.remaining_step hc'
      have hend := ih hnext hsound' (by simp [hc']) hprogress' (by omega)
      exact hend
    · exact ⟨_, hnext, by simp [hc'], rfl, hlog⟩

end Runs

/-- The file grows without bound if the server is restarted before the threshold each time. -/
theorem lineCount_unbounded (fmt : LineFormat α) (a : α) (rounds : Nat) :
    ∃ s, Reaches (step fmt) OneAtATime State.fresh s ∧ s.disk.lineCount = 499 * rounds := by
  suffices ∃ s kept, Reaches (step fmt) OneAtATime State.fresh s ∧ Agrees fmt s kept ∧
      s.compactions = [] ∧ s.writtenSinceCompact = 0 ∧ kept.length = 499 * rounds by
    obtain ⟨s, kept, hs, hkept, _, _, hlength⟩ := this
    exact ⟨s, hs, hkept.lineCount.trans hlength⟩
  induction rounds with
  | zero => exact ⟨State.fresh, [], .start, agrees_fresh, rfl, rfl, rfl⟩
  | succ n ih =>
    obtain ⟨s, kept, hs, hkept, hidle, hcounter, hlength⟩ := ih
    obtain ⟨t, ht, htkept, htidle, _⟩ :=
      reaches_pushes (fun _ _ h => h) a hs hkept hidle 499 (by rw [hcounter]; decide)
    refine ⟨t.restart fmt, _, ht.next (a := .restart) htidle rfl, htkept.restart, rfl, rfl, ?_⟩
    rw [List.length_append, List.length_replicate, hlength]
    omega

/-- An entry that is pushed between the snapshot of a compaction and its end is missing in the
file after it. -/
theorem reload_misses_entry (fmt : LineFormat α) (a : α) :
    ∃ s, Reaches (step fmt) (fun _ m => m ≠ .restart) State.fresh s ∧ s.compactions = [] ∧
      (loadEntriesFromFile fmt s.disk.logBytes).length + 1 = s.entries.length := by
  have hstart : Reaches (step fmt) (fun _ m => m ≠ .restart) State.fresh State.fresh := .start
  have hpass : ∀ a : α, Move.push a ≠ .restart := nofun
  have hroom : compactAfter < maxEntries := by decide
  have hthreshold : 1 < compactAfter := by decide
  obtain ⟨n, hn⟩ : ∃ n, n + 1 = compactAfter := ⟨499, rfl⟩
  obtain ⟨s, hs, hkept, hidle, hcounter⟩ := reaches_pushes (fun _ a _ => hpass a) a hstart
    agrees_fresh rfl n (by simp only [State.fresh]; omega)
  have hmemory : s.entries = List.replicate n a := by
    rw [hkept.memory, List.nil_append, recent_of_length_le]
    rw [List.length_replicate]
    omega
  have hfull : s.push fmt a = _ :=
    State.push_of_le (by simp only [hcounter, State.fresh]; omega)
  rw [hmemory, rollIn_replicate (by omega), hidle] at hfull
  have hnext : (s.push fmt a).push fmt a = _ := State.push_of_lt (by rw [hfull]; exact hthreshold)
  rw [hfull, rollIn_replicate (by omega)] at hnext
  have hboth := (hs.next (hpass a) (congrArg some hfull)).next (hpass a) (congrArg some hnext)
  obtain ⟨t, ht, htidle, hentries, hlog⟩ := reaches_compacted (fun _ _ => nofun) _ hboth
    hkept.sound.appendToLog.appendToLog rfl .create (Nat.le_refl _)
  refine ⟨t, ht, htidle, ?_⟩
  rw [hlog, hentries, loadEntriesFromFile_fileOf, recent_of_length_le]
  · simp
  · rw [List.length_replicate]
    omega

theorem log_outgrows_bound :
    ∃ s, Reaches (step flagLines) OneAtATime State.fresh s ∧
      maxEntries + compactAfter < s.disk.lineCount := by
  obtain ⟨s, hs, hcount⟩ := lineCount_unbounded flagLines true 12
  exact ⟨s, hs, by rw [hcount]; decide⟩

theorem log_loses_entry :
    ∃ s, Reaches (step flagLines) (fun _ m => m ≠ .restart) State.fresh s ∧ s.compactions = [] ∧
      loadEntriesFromFile flagLines s.disk.logBytes ≠ s.entries := by
  obtain ⟨s, hs, hidle, hlength⟩ := reload_misses_entry flagLines true
  refine ⟨s, hs, hidle, fun heq => ?_⟩
  rw [heq] at hlength
  omega

end BpmnEngine.LogBuffer
