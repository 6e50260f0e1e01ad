import Reactor.Logging.BaseName
import Reactor.Logging.LogFile

/-!
# No log file is opened twice

The calendar time in the name of a log file may be that of an earlier second. The number behind
it makes up for this: it is the second modulo a million, and the calendar time is renewed
whenever the quotient changes. So a name determines the second in which it was made, and as long
as the clock is not set back, no name is given to two files.
-/

namespace Reactor

open Calendar Transition

/-- Leading zeros do not change a number. -/
theorem parseDigits_zeros_append (k : ℕ) (text : List UInt8) :
    parseDigits (List.replicate k '0'.toUInt8 ++ text) = parseDigits text := by
  have hzero : digitValue '0'.toUInt8 = some 0 := by decide
  induction k with
  | zero => rfl
  | succ k ih =>
    rw [← ih, List.replicate_succ, List.cons_append, parseDigits, List.foldl_cons, hzero]
    rfl

/-- The padding does not change the number. -/
theorem parse_zeroPadded (width : ℕ) (val : ℤ) : parse (zeroPadded width val) = some val := by
  have hdigits (k : ℕ) :
      parseDigits (List.replicate k '0'.toUInt8 ++ digitsOf val.natAbs) = some val.natAbs := by
    rw [parseDigits_zeros_append, parseDigits_digitsOf]
  rw [zeroPadded, signOf]
  split
  · next hneg =>
    rw [List.append_assoc, List.singleton_append, parse, if_pos rfl, hdigits, Option.map_some]
    congr 1
    omega
  · next hpos =>
    rw [List.nil_append]
    generalize width - ([] : List UInt8).length - (digitsOf val.natAbs).length = k
    cases htext : List.replicate k '0'.toUInt8 ++ digitsOf val.natAbs with
    | nil => exact absurd (List.append_eq_nil_iff.mp htext).2 (digitsOf_ne_nil _)
    | cons c text =>
      have hsign : c ≠ '-'.toUInt8 := by
        rintro rfl
        have hmem : '-'.toUInt8 ∈ List.replicate k '0'.toUInt8 ++ digitsOf val.natAbs := by
          simp [htext]
        rcases List.mem_append.mp hmem with hmem | hmem
        · exact absurd (List.mem_replicate.mp hmem).2 (by decide)
        · exact absurd (mem_digits_of_mem_digitsOf _ _ hmem) (by decide)
      rw [parse, if_neg hsign, ← htext, hdigits, Option.map_some]
      congr 1
      omega

/-- Numbers with the same digits are the same. -/
theorem zeroPadded_injective (width : ℕ) : Function.Injective (zeroPadded width) := by
  intro val val' h
  have hparse := parse_zeroPadded width val
  rw [h, parse_zeroPadded] at hparse
  exact (Option.some.inj hparse).symm

/-- A list is split at the last occurrence of an element. -/
theorem append_cons_inj_of_notMem_back {α : Type*} {front front' back back' : List α} {c : α}
    (hback : c ∉ back) (hback' : c ∉ back') (heq : front ++ c :: back = front' ++ c :: back') :
    front = front' ∧ back = back' := by
  rcases List.append_eq_append_iff.mp heq with ⟨between, hfront, hrest⟩ | ⟨between, hfront, hrest⟩
  · cases between with
    | nil => exact ⟨(hfront.trans (List.append_nil _)).symm, (List.cons.inj hrest).2⟩
    | cons d between =>
      rw [(List.cons.inj hrest).2] at hback
      exact absurd (List.mem_append_right _ List.mem_cons_self) hback
  · cases between with
    | nil => exact ⟨hfront.trans (List.append_nil _), (List.cons.inj hrest).2.symm⟩
    | cons d between =>
      rw [(List.cons.inj hrest).2] at hback'
      exact absurd (List.mem_append_right _ List.mem_cons_self) hback'

/-- The six digits and the sign fit the buffer. -/
theorem snprintf_microseconds {val : ℤ} (h : val.natAbs < 1000000) :
    snprintf 20 (zeroPadded 6 val) = zeroPadded 6 val := by
  have hdigits : (digitsOf val.natAbs).length ≤ 6 := by
    rw [digitsOf, List.length_map]
    exact (Nat.length_toDigits_le_iff (by decide : 1 < 10) (by decide)).mpr h
  have hsign : (signOf val).length ≤ 1 := by
    rw [signOf]
    split
    · exact Nat.le_refl 1
    · exact Nat.zero_le 1
  rw [snprintf, List.take_of_length_le]
  rw [zeroPadded, List.length_append, List.length_append, List.length_replicate]
  omega

namespace NameCache

/-- The cache of a thread in which names have been made before, or none. -/
def Genuine (cache : NameCache) : Prop := cache = {} ∨ ∃ now : Reading, cache = of now

/-- A name that `getBaseName` has made at a reading of the clock. -/
def Made (thread : LogThread) (name : List UInt8) (now : Reading) : Prop :=
  ∃ cache, Genuine cache ∧ cache.lastTime = key now ∧ name = thread.fileName cache.time now

section

variable {thread : LogThread} {cache cache' : NameCache} {now now' : Reading}
  {name : List UInt8}

/-- A refreshed cache is genuine, and has the key of the reading. -/
theorem Genuine.refresh (h : Genuine cache) (now : Reading) :
    Genuine (cache.refresh now) ∧ (cache.refresh now).lastTime = key now := by
  by_cases hkey : key now = cache.lastTime
  · rw [refresh_of_eq hkey]
    exact ⟨h, hkey.symm⟩
  · rw [refresh_of_ne hkey]
    exact ⟨.inr ⟨now, rfl⟩, rfl⟩

/-- The name is made of a calendar part that has been genuine and of the second of the reading. -/
theorem made_getBaseName (h : Genuine cache) (now : Reading) :
    Made thread (getBaseName thread cache now).1 now :=
  ⟨cache.refresh now, (h.refresh now).1, (h.refresh now).2, rfl⟩

/-- The calendar time and the number in a name. -/
theorem fileName_inj_parts {calendar calendar' : List UInt8} {time time' : ℤ}
    (h : thread.fileName calendar time = thread.fileName calendar' time') :
    calendar = calendar' ∧ time.tmod 1000000 = time'.tmod 1000000 := by
  have hsmall (t : ℤ) : (t.tmod 1000000).natAbs < 1000000 := by
    rw [Int.natAbs_tmod]
    exact Nat.mod_lt _ (by decide)
  have hpoint (t : ℤ) : '.'.toUInt8 ∉ zeroPadded 6 t :=
    notMem_zeroPadded (by decide) (by decide) 6 t
  rw [LogThread.fileName, LogThread.fileName, snprintf_microseconds (hsmall time),
    snprintf_microseconds (hsmall time')] at h
  have h := List.append_cancel_right (List.append_cancel_right (List.append_cancel_right
    (List.append_cancel_right h)))
  rw [List.append_assoc, List.append_assoc] at h
  obtain ⟨hcalendar, hnumber⟩ := append_cons_inj_of_notMem_back (hpoint _) (hpoint _) h
  exact ⟨hcalendar, zeroPadded_injective 6 hnumber⟩

/-- Two genuine caches with the same calendar time are those of the same key. -/
theorem Genuine.lastTime_eq (h : Genuine cache) (h' : Genuine cache')
    (htime : cache.time = cache'.time) : cache.lastTime = cache'.lastTime := by
  rcases h with rfl | ⟨now, rfl⟩
  · rcases h' with rfl | ⟨now', rfl⟩
    · rfl
    · exact absurd htime.symm (calendarTime_ne_nil now')
  · rcases h' with rfl | ⟨now', rfl⟩
    · exact absurd htime (calendarTime_ne_nil now)
    · exact congrArg key (calendarTime_inj htime)

/-- A name determines the second in which it was made. -/
theorem Made.reading_eq (h : Made thread name now) (h' : Made thread name now') : now = now' := by
  obtain ⟨cache, hcache, hkey, rfl⟩ := h
  obtain ⟨cache', hcache', hkey', hname⟩ := h'
  obtain ⟨htime, hnumber⟩ := fileName_inj_parts hname
  have hquotient : key now = key now' := by
    rw [← hkey, ← hkey', hcache.lastTime_eq hcache' htime]
  apply Subtype.ext
  rw [← Int.tmod_add_mul_tdiv now.1 1000000, ← Int.tmod_add_mul_tdiv now'.1 1000000, hnumber]
  exact congrArg _ (congrArg _ hquotient)

end

end NameCache

namespace LogFile

/-- `write` calls `rollFile`. -/
def rolls (log : LogFile) (msg : List UInt8) : Bool :=
  match log.file with
  | none => false
  | some file =>
    log.fileSize < (file.append msg).nwrittenBytes ||
      log.fileRows ≤ intToSize (toInt (log.count + 1))

section

variable {log log' : LogFile} {msg : List UInt8} {now : ℤ}

/-- After a roll the time of the roll is kept. -/
theorem lastRollFile_rollFile (log : LogFile) (now : ℤ) :
    (log.rollFile now).lastRollFile = now := by
  rw [rollFile]
  split
  · rfl
  · next hsame => exact (not_not.mp hsame).symm

/-- A roll opens a file unless there was one in the same second. -/
theorem opened_rollFile (log : LogFile) (now : ℤ) :
    (log.rollFile now).files.map FileUtil.opened =
      log.files.map FileUtil.opened ++ if now ≠ log.lastRollFile then [now] else [] := by
  rw [rollFile]
  split
  · simp [files]
  · simp

/-- A call of `append` writes the message, and then it may roll. -/
theorem append_cases (hok : log.append (msg, now) = .ok log') :
    ∃ mid : LogFile, mid.lastRollFile = log.lastRollFile ∧
      mid.files.map FileUtil.opened = log.files.map FileUtil.opened ∧
      log' = if log.rolls msg then mid.rollFile now else mid := by
  rw [append] at hok
  rw [rolls]
  cases hfile : log.file with
  | none => simp [hfile] at hok
  | some file =>
    have hopened (count : ℤ) :
        (files { log with file := some (file.append msg), count }).map FileUtil.opened =
          log.files.map FileUtil.opened := by
      simp [files, hfile, FileUtil.append]
    rw [hfile] at hok
    dsimp only at hok ⊢
    split at hok
    · next hlong =>
      obtain rfl := Except.ok.inj hok
      exact ⟨{ log with file := some (file.append msg) }, rfl, hopened log.count, by simp [hlong]⟩
    · next hshort =>
      split at hok
      · next hfull =>
        obtain rfl := Except.ok.inj hok
        exact ⟨{ log with file := some (file.append msg), count := 0 }, rfl, hopened 0,
          by simp [hfull]⟩
      · next hmore =>
        obtain rfl := Except.ok.inj hok
        exact ⟨{ log with file := some (file.append msg), count := toInt (log.count + 1) }, rfl,
          hopened _, by simp [hshort, hmore]⟩

end

end LogFile

/-- `LogFile` with the cache of its thread. -/
structure NamedLogFile where
  log : LogFile
  cache : NameCache := {}
  /-- The names given to `fopen`, with the readings of the clock. -/
  names : List (List UInt8 × Reading) := []

namespace NamedLogFile

/-- `LogFile::rollFile`, which makes a name even if no file is opened. -/
def rollFile (thread : LogThread) (s : NamedLogFile) (now : Reading) : NamedLogFile :=
  let (name, cache) := s.cache.getBaseName thread now
  { log := s.log.rollFile now
    cache
    names := s.names ++ if now.1 ≠ s.log.lastRollFile then [(name, now)] else [] }

/-- The constructor, in a new thread. -/
def create (thread : LogThread) (fileSize fileRows : ℕ) (indeterminate : ℤ) (now : Reading) :
    NamedLogFile :=
  rollFile thread { log := { fileSize, fileRows, lastRollFile := indeterminate } } now

/-- `LogFile::append`. -/
def step (thread : LogThread) (s : NamedLogFile) :
    List UInt8 × Reading → Except Fault NamedLogFile
  | (msg, now) => do
    let log ← s.log.append (msg, now)
    return { (if s.log.rolls msg then s.rollFile thread now else s) with log }

/-- When the clock is read, it is not behind the last reading. -/
def InTime (s : NamedLogFile) (op : List UInt8 × Reading) : Prop :=
  s.log.rolls op.1 → s.log.lastRollFile ≤ op.2

instance (s : NamedLogFile) (op : List UInt8 × Reading) : Decidable (s.InTime op) :=
  inferInstanceAs (Decidable (_ → _))

/-- Every file has its name, and no two have the same one. -/
structure Distinct (s : NamedLogFile) : Prop where
  length_eq : s.names.length = s.log.files.length
  nodup : (s.names.map Prod.fst).Nodup

instance (s : NamedLogFile) : Decidable s.Distinct :=
  decidable_of_iff (s.names.length = s.log.files.length ∧ (s.names.map Prod.fst).Nodup)
    ⟨fun h => ⟨h.1, h.2⟩, fun h => ⟨h.1, h.2⟩⟩

/-- The invariant: the files have been opened one after the other. -/
structure Sound (thread : LogThread) (s : NamedLogFile) : Prop where
  cache : s.cache.Genuine
  made : ∀ entry ∈ s.names, NameCache.Made thread entry.1 entry.2
  opened_eq : s.log.files.map FileUtil.opened = s.names.map fun entry => entry.2.1
  increasing : s.names.Pairwise fun entry entry' => entry.2.1 < entry'.2.1
  le_lastRollFile : ∀ entry ∈ s.names, entry.2.1 ≤ s.log.lastRollFile

section

variable {thread : LogThread} {s s' : NamedLogFile}

/-- In a sound state no two files have the same name. -/
theorem Sound.distinct (h : s.Sound thread) : s.Distinct where
  length_eq := by simpa using (congrArg List.length h.opened_eq).symm
  nodup := by
    rw [List.Nodup, List.pairwise_map]
    refine h.increasing.imp_of_mem fun {entry entry'} hentry hentry' hlt hname => ?_
    have hmade := h.made entry hentry
    rw [hname] at hmade
    have heq := hmade.reading_eq (h.made entry' hentry')
    rw [heq] at hlt
    exact absurd hlt (Int.lt_irrefl _)

/-- A new file is younger than all others. -/
theorem Sound.rollFile (h : s.Sound thread) {now : Reading}
    (hle : s.log.lastRollFile ≤ now.1 ∨ s.names = []) : (s.rollFile thread now).Sound thread := by
  have hlast : (s.rollFile thread now).log.lastRollFile = now.1 :=
    LogFile.lastRollFile_rollFile s.log now.1
  have hold : ∀ entry ∈ s.names, entry.2.1 ≤ now.1 := by
    intro entry hentry
    rcases hle with hle | hnil
    · exact (h.le_lastRollFile entry hentry).trans hle
    · rw [hnil] at hentry
      cases hentry
  have hnames : (s.rollFile thread now).names = s.names ++
      if now.1 ≠ s.log.lastRollFile then [((s.cache.getBaseName thread now).1, now)] else [] := rfl
  by_cases hsame : now.1 = s.log.lastRollFile
  · rw [if_neg (not_not.mpr hsame), List.append_nil] at hnames
    constructor
    · exact (h.cache.refresh now).1
    · rw [hnames]
      exact h.made
    · rw [hnames, ← h.opened_eq]
      exact (LogFile.opened_rollFile s.log now.1).trans (by simp [hsame])
    · rw [hnames]
      exact h.increasing
    · rw [hnames, hlast]
      exact hold
  · rw [if_pos hsame] at hnames
    constructor
    · exact (h.cache.refresh now).1
    · rw [hnames, List.forall_mem_append]
      exact ⟨h.made, by simpa using NameCache.made_getBaseName h.cache now⟩
    · rw [hnames, List.map_append, ← h.opened_eq]
      exact (LogFile.opened_rollFile s.log now.1).trans (by simp [hsame])
    · rw [hnames]
      refine List.pairwise_append.mpr ⟨h.increasing, List.pairwise_singleton _ _, ?_⟩
      intro entry hentry entry' hentry'
      rw [List.mem_singleton.mp hentry']
      rcases hle with hle | hnil
      · have hbefore := h.le_lastRollFile entry hentry
        dsimp only
        omega
      · rw [hnil] at hentry
        cases hentry
    · rw [hnames, hlast, List.forall_mem_append]
      exact ⟨hold, by simp⟩

/-- A step in time keeps the file names sound. -/
theorem Sound.step (h : s.Sound thread) {op : List UInt8 × Reading} (hop : s.InTime op)
    (hok : s.step thread op = .ok s') : s'.Sound thread := by
  obtain ⟨msg, now⟩ := op
  obtain ⟨log, happend, hok⟩ := bind_eq_ok.mp hok
  obtain rfl := Except.ok.inj hok
  obtain ⟨mid, hlast, hopened, rfl⟩ := LogFile.append_cases happend
  -- Whether the message is in the file makes no difference to the names.
  have hmid : Sound thread { s with log := mid } :=
    ⟨h.cache, h.made, hopened.trans h.opened_eq, h.increasing, hlast ▸ h.le_lastRollFile⟩
  cases hrolls : s.log.rolls msg with
  | false => simpa [hrolls] using hmid
  | true =>
    have hle : mid.lastRollFile ≤ now.1 := hlast ▸ hop hrolls
    have hroll : NamedLogFile.rollFile thread { s with log := mid } now =
        { s.rollFile thread now with log := mid.rollFile now } := by
      simp only [NamedLogFile.rollFile, hlast]
    have hsound := hmid.rollFile (.inl hle)
    rw [hroll] at hsound
    simpa [hrolls] using hsound

/-- The first file is named soundly. -/
theorem sound_create (thread : LogThread) (fileSize fileRows : ℕ) (indeterminate : ℤ)
    (now : Reading) : (create thread fileSize fileRows indeterminate now).Sound thread := by
  refine Sound.rollFile ⟨.inl rfl, ?_, rfl, .nil, ?_⟩ (.inr rfl)
  · simp
  · simp

end

/-- As long as the clock is not set back, no file is opened twice. -/
theorem names_distinct (thread : LogThread) (fileSize fileRows : ℕ) (indeterminate : ℤ)
    (start : Reading) {ops : List (List UInt8 × Reading)}
    (h : Guarded (step thread) InTime
      (create thread fileSize fileRows indeterminate start) ops) :
    Always (step thread) Distinct (create thread fileSize fileRows indeterminate start) ops :=
  along_of_guarded (Sound thread) (fun _ _ h hop _ hok => (h.step hop hok).distinct)
    (fun _ _ _ h hop hok => h.step hop hok)
    (sound_create thread fileSize fileRows indeterminate start) h

/-- Three files in a second and the two after it, whose names tell the same calendar time. -/
theorem names_distinct_three_files :
    Always (step { hostName := [], tid := 1 }) Distinct
      (create { hostName := [], tid := 1 } 10 1 0 ⟨1700000000, by decide⟩)
      [([1], ⟨1700000001, by decide⟩), ([2], ⟨1700000002, by decide⟩)] := by
  refine names_distinct _ 10 1 0 _ ?_
  decide +kernel

end NamedLogFile

end Reactor
