import Reactor.Lib.Run
import Reactor.Machine

/-!
# Rotation of log files

`LogFile::write` rolls to a new file when the current one is too long, or when enough
messages have been counted. `rollFile` does nothing when the second has not changed since
the last roll, but the count is reset all the same, and a file that is too long stays in
use. A file is within its bounds as long as no roll is skipped.
-/

namespace Reactor

open Transition

/-- `FileUtil`: `fwrite_unlocked` takes all that it is given. -/
structure FileUtil where
  /-- The second at which the file was opened, which names it. -/
  opened : ℤ
  nwrittenBytes : ℕ := 0
  /-- The messages in the file. -/
  messages : List (List UInt8) := []

/-- `FileUtil::append`. -/
def FileUtil.append (file : FileUtil) (msg : List UInt8) : FileUtil :=
  { file with
    nwrittenBytes := sizeAdd file.nwrittenBytes msg.length
    messages := file.messages ++ [msg] }

/-- The file is within the bounds: there are not too many messages, and it was not too long
before the last one. -/
structure FileUtil.Bounded (file : FileUtil) (fileSize fileRows : ℕ) : Prop where
  rows_le : file.messages.length ≤ fileRows
  size_le : file.messages.dropLast.flatten.length ≤ fileSize

instance (file : FileUtil) (fileSize fileRows : ℕ) :
    Decidable (file.Bounded fileSize fileRows) :=
  decidable_of_iff (file.messages.length ≤ fileRows ∧
    file.messages.dropLast.flatten.length ≤ fileSize) ⟨fun h => ⟨h.1, h.2⟩, fun h => ⟨h.1, h.2⟩⟩

/-- `LogFile`. -/
structure LogFile where
  fileSize : ℕ
  fileRows : ℕ
  count : ℤ := 0
  lastRollFile : ℤ
  file : Option FileUtil := none
  /-- The files that have been closed. -/
  closed : List FileUtil := []

namespace LogFile

/-- `LogFile::rollFile`, with the reading of the clock. The `fopen` of the new file is taken to
succeed; `FileUtil` does not look at its result and passes a null pointer on to `setbuffer`. -/
def rollFile (log : LogFile) (now : ℤ) : LogFile :=
  if now ≠ log.lastRollFile then
    { log with
      lastRollFile := now
      file := some { opened := now }
      closed := log.closed ++ log.file.toList }
  else log

/-- The constructor, which does not initialise `lastRollFile_`. -/
def create (fileSize fileRows : ℕ) (indeterminate now : ℤ) : LogFile :=
  { fileSize, fileRows, lastRollFile := indeterminate : LogFile }.rollFile now

/-- `LogFile::append` and `write`, with the reading of the clock if there is one. -/
def append (log : LogFile) : List UInt8 × ℤ → Except Fault LogFile
  | (msg, now) =>
    match log.file with
    | none => .error .nullDereference
    | some file =>
      let file := file.append msg
      let log := { log with file := some file }
      if log.fileSize < file.nwrittenBytes then .ok (log.rollFile now)
      else
        let log := { log with count := toInt (log.count + 1) }
        if log.fileRows ≤ intToSize log.count then .ok ({ log with count := 0 }.rollFile now)
        else .ok log

/-- All files, the current one last. -/
def files (log : LogFile) : List FileUtil := log.closed ++ log.file.toList

/-- The files have different names, and each is within the bounds. -/
def Bounded (log : LogFile) : Prop :=
  (log.files.map FileUtil.opened).Nodup ∧
    ∀ file ∈ log.files, file.Bounded log.fileSize log.fileRows

instance (log : LogFile) : Decidable log.Bounded :=
  inferInstanceAs (Decidable (_ ∧ _))

/-- When a message fills the current file, the clock reads a later second than at the last
roll. Neither the size nor the count overflows. -/
def RollsInTime (log : LogFile) (op : List UInt8 × ℤ) : Prop :=
  ∀ file ∈ log.file, file.nwrittenBytes + op.1.length < 2 ^ 64 ∧ log.count + 1 < 2 ^ 31 ∧
    (log.fileSize < file.nwrittenBytes + op.1.length ∨ log.fileRows ≤ log.count + 1 →
      log.lastRollFile < op.2)

instance (log : LogFile) (op : List UInt8 × ℤ) : Decidable (log.RollsInTime op) :=
  inferInstanceAs (Decidable (∀ file ∈ log.file, _))

/-- The closed files are older than the current one, and within the bounds. -/
structure Archived (log : LogFile) : Prop where
  bounded : ∀ file ∈ log.closed, file.Bounded log.fileSize log.fileRows
  opened_lt : ∀ file ∈ log.closed, file.opened < log.lastRollFile
  nodup : (log.closed.map FileUtil.opened).Nodup
  opened_eq : ∀ file ∈ log.file, file.opened = log.lastRollFile

/-- The states between calls: the current file is not full, and no more messages are in it
than are counted. -/
structure Sound (log : LogFile) : Prop extends log.Archived where
  nwrittenBytes_eq : ∀ file ∈ log.file, file.nwrittenBytes = file.messages.flatten.length
  nwrittenBytes_le : ∀ file ∈ log.file, file.nwrittenBytes ≤ log.fileSize
  rows_le : ∀ file ∈ log.file, (file.messages.length : ℤ) ≤ log.count
  count_nonneg : 0 ≤ log.count
  count_lt : log.count < log.fileRows

section

variable {log log' : LogFile} {now : ℤ}

/-- What holds of a file holds of the current one. -/
theorem forall_mem_some {P : FileUtil → Prop} {file : FileUtil} (h : P file) :
    ∀ current ∈ some file, P current := by
  intro current hcurrent
  obtain rfl := Option.some.inj hcurrent
  exact h

/-- The current file does not have the name of a closed one. -/
theorem Archived.nodup_files (h : log.Archived) : (log.files.map FileUtil.opened).Nodup := by
  rw [files]
  cases hfile : log.file with
  | none => simpa using h.nodup
  | some file =>
    have hnotMem : file.opened ∉ log.closed.map FileUtil.opened := by
      rw [h.opened_eq file hfile]
      intro hmem
      obtain ⟨old, hold, heq⟩ := List.mem_map.mp hmem
      exact absurd heq (Int.ne_of_lt (h.opened_lt old hold))
    rw [Option.toList_some, List.map_append]
    refine List.nodup_append.mpr ⟨h.nodup, by simp, ?_⟩
    rintro opened hmem current hcurrent rfl
    exact hnotMem (List.mem_singleton.mp hcurrent ▸ hmem)

/-- A roll in time closes the current file. -/
theorem Archived.rollFile (h : log.Archived)
    (hcurrent : ∀ file ∈ log.file, file.Bounded log.fileSize log.fileRows)
    (hlt : log.lastRollFile < now) : (log.rollFile now).Archived := by
  rw [LogFile.rollFile, if_pos (Int.ne_of_gt hlt)]
  refine ⟨?_, ?_, h.nodup_files, ?_⟩
  · simpa only [List.forall_mem_append, Option.mem_toList] using ⟨h.bounded, hcurrent⟩
  · intro file hfile
    rcases List.mem_append.mp hfile with hclosed | hfile
    · exact (h.opened_lt file hclosed).trans hlt
    · exact (h.opened_eq file (Option.mem_toList.mp hfile)).trans_lt hlt
  · exact forall_mem_some rfl

/-- After a roll in time the current file is empty. -/
theorem Archived.sound_rollFile (h : log.Archived)
    (hcurrent : ∀ file ∈ log.file, file.Bounded log.fileSize log.fileRows)
    (hlt : log.lastRollFile < now) (hnonneg : 0 ≤ log.count) (hcount : log.count < log.fileRows) :
    (log.rollFile now).Sound := by
  refine ⟨h.rollFile hcurrent hlt, ?_, ?_, ?_, ?_, ?_⟩
  all_goals rw [LogFile.rollFile, if_pos (Int.ne_of_gt hlt)]
  · exact forall_mem_some rfl
  · exact forall_mem_some (Nat.zero_le _)
  · exact forall_mem_some hnonneg
  · exact hnonneg
  · exact hcount

/-- A new log file is sound. -/
theorem sound_create (fileSize : ℕ) {fileRows : ℕ} (hrows : fileRows ≠ 0) (indeterminate now : ℤ) :
    (create fileSize fileRows indeterminate now).Sound := by
  have hpos : (0 : ℤ) < fileRows := by omega
  rw [create, LogFile.rollFile]
  split
  · refine ⟨⟨by simp, by simp, by simp, ?_⟩, ?_, ?_, ?_, Int.le_refl 0, hpos⟩
    all_goals
      intro file hfile
      obtain rfl := Option.some.inj hfile
      simp
  · exact ⟨⟨by simp, by simp, by simp, by simp⟩, by simp, by simp, by simp, Int.le_refl 0, hpos⟩

/-- All messages but the last one are no longer than all. -/
theorem length_flatten_dropLast_le (msgs : List (List UInt8)) :
    msgs.dropLast.flatten.length ≤ msgs.flatten.length := by
  rcases List.eq_nil_or_concat msgs with rfl | ⟨front, last, rfl⟩
  · exact Nat.le_refl _
  · simp

/-- A sound log file is within its bounds. -/
theorem Sound.isBounded (h : log.Sound) : log.Bounded := by
  refine ⟨h.nodup_files, ?_⟩
  rw [files]
  simp only [List.forall_mem_append, Option.mem_toList]
  refine ⟨h.bounded, fun file hfile => ⟨?_, ?_⟩⟩
  · have hrows := h.rows_le file hfile
    have hcount := h.count_lt
    omega
  · have hsize := h.nwrittenBytes_le file hfile
    rw [h.nwrittenBytes_eq file hfile] at hsize
    exact (length_flatten_dropLast_le _).trans hsize

/-- The current file with one more message. -/
theorem Sound.bounded_append (h : log.Sound) {file : FileUtil} (hfile : log.file = some file)
    (msg : List UInt8) : (file.append msg).Bounded log.fileSize log.fileRows := by
  have hrows := h.rows_le file hfile
  have hcount := h.count_lt
  have hsize := h.nwrittenBytes_le file hfile
  rw [h.nwrittenBytes_eq file hfile] at hsize
  constructor
  · rw [FileUtil.append, List.length_append, List.length_singleton]
    omega
  · rw [FileUtil.append, List.dropLast_concat]
    exact hsize

/-- What is archived does not depend on the messages in the current file. -/
theorem Sound.archived_append (h : log.Sound) {file : FileUtil} (hfile : log.file = some file)
    (msg : List UInt8) (count : ℤ) :
    Archived { log with file := some (file.append msg), count } where
  bounded := h.bounded
  opened_lt := h.opened_lt
  nodup := h.nodup
  opened_eq := forall_mem_some (h.opened_eq file hfile)

/-- An append that rolls in time leaves the log file sound. -/
theorem Sound.append (h : log.Sound) {op : List UInt8 × ℤ} (htime : log.RollsInTime op)
    (hok : log.append op = .ok log') : log'.Sound := by
  obtain ⟨msg, now⟩ := op
  rw [LogFile.append] at hok
  cases hfile : log.file with
  | none => simp [hfile] at hok
  | some file =>
    obtain ⟨hfits, hcount, hlater⟩ := htime file hfile
    have hbounded : ∀ current ∈ some (file.append msg),
        current.Bounded log.fileSize log.fileRows :=
      forall_mem_some (h.bounded_append hfile msg)
    have hwritten : (file.append msg).nwrittenBytes = file.nwrittenBytes + msg.length :=
      sizeAdd_of_lt hfits
    obtain ⟨c, hc⟩ := Int.eq_ofNat_of_zero_le h.count_nonneg
    have hlt := h.count_lt
    rw [hc] at hcount hlater hlt
    have hnext : toInt (log.count + 1) = (c + 1 : ℕ) := by
      rw [hc, ← Nat.cast_succ]
      exact toInt_of_lt (by omega)
    simp only [hfile, hnext, intToSize_natCast (show c + 1 < 2 ^ 64 by omega)] at hok
    split at hok
    · next hlong =>
      obtain rfl := Except.ok.inj hok
      refine (h.archived_append hfile msg log.count).sound_rollFile hbounded (hlater (.inl ?_))
        h.count_nonneg h.count_lt
      exact hwritten ▸ hlong
    · next hshort =>
      split at hok
      · next hfull =>
        obtain rfl := Except.ok.inj hok
        refine (h.archived_append hfile msg 0).sound_rollFile hbounded (hlater (.inr ?_))
          (Int.le_refl 0) ?_
        · exact_mod_cast hfull
        · exact (Int.natCast_nonneg c).trans_lt hlt
      · next hmore =>
        obtain rfl := Except.ok.inj hok
        refine ⟨h.archived_append hfile msg (c + 1 : ℕ), forall_mem_some ?_,
          forall_mem_some (Nat.not_lt.mp hshort), forall_mem_some ?_, ?_, ?_⟩
        · rw [hwritten, h.nwrittenBytes_eq file hfile]
          simp [FileUtil.append]
        · have hrows := h.rows_le file hfile
          rw [hc] at hrows
          simp only [FileUtil.append, List.length_append, List.length_singleton]
          omega
        · exact Int.natCast_nonneg _
        · dsimp only
          omega

end

/-- In every run whose rolls are all in time, all files are within the bounds in all states
reached. -/
theorem bounded_of_rollsInTime (fileSize : ℕ) {fileRows : ℕ} (hrows : fileRows ≠ 0)
    (indeterminate start : ℤ) {ops : List (List UInt8 × ℤ)}
    (h : Guarded append RollsInTime (create fileSize fileRows indeterminate start) ops) :
    Always append Bounded (create fileSize fileRows indeterminate start) ops :=
  along_of_guarded Sound (fun _ _ h htime _ hok => (h.append htime hok).isBounded)
    (fun _ _ _ h htime hok => h.append htime hok)
    (sound_create fileSize hrows indeterminate start) h

/-- Two messages fill a file, and a long one fills the next. -/
theorem bounded_four_messages : Always append Bounded (create 3 2 0 1)
    [([1], 1), ([2], 2), ([3, 4, 5, 6], 3), ([7], 3)] := by
  refine bounded_of_rollsInTime 3 (by decide) 0 1 ?_
  decide +kernel

/-- One message is allowed in a file, and the second one comes in the same second. -/
theorem not_bounded : ¬ Always append Bounded (create 10 1 0 1) [([1], 1), ([2], 1)] := by
  decide +kernel

end LogFile

end Reactor
