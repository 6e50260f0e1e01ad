import Reactor.Logging.Format

/-!
# Log records

A record is what the constructor of `Logger` inserts, what the user inserts, and what `finish`
inserts, a newline last. A string that does not fit is left out as a whole, the newline too, and
an integer that does not fit is written over the end of the buffer.
-/

namespace Reactor

open Calendar Transition

/-- The newline that ends a record. -/
def newline : UInt8 := '\n'.toUInt8

/-- `Logger::LogLevel`. -/
inductive LogLevel where
  | trace
  | debug
  | info
  | warn
  | error
  | sysfatal
  deriving DecidableEq, Repr

namespace LogLevel

/-- `logLevel`. -/
def name : LogLevel → List UInt8
  | trace => ['T', 'R', 'A', 'C', 'E'].map Char.toUInt8
  | debug => ['D', 'E', 'B', 'U', 'G'].map Char.toUInt8
  | info => ['I', 'N', 'F', 'O'].map Char.toUInt8
  | warn => ['W', 'A', 'R', 'N'].map Char.toUInt8
  | error => ['E', 'R', 'R', 'O', 'R'].map Char.toUInt8
  | sysfatal => ['S', 'Y', 'S', 'F', 'A', 'T', 'A', 'L'].map Char.toUInt8

/-- The levels whose records tell `errno`. -/
def tellsErrno : LogLevel → Bool
  | trace | debug | info => false
  | warn | error | sysfatal => true

end LogLevel

/-- `SourceFile`: the name behind the last slash. -/
def sourceFile (filename : List UInt8) : List UInt8 :=
  (filename.reverse.takeWhile (· ≠ '/'.toUInt8)).reverse

/-- The calendar time of a second in a record. -/
def recordTime (seconds : ℤ) : List UInt8 :=
  let tm := gmtime seconds
  snprintf 32 (zeroPadded 4 (tm.tmYear + 1900) ++ dayAndTime tm)

/-- `t_lastTime` and `t_Seconds`, which is empty until a record has set it. -/
structure RecordTimeCache where
  lastTime : ℤ := 0
  seconds : List UInt8 := []
  printed : seconds = [] ∨ seconds = recordTime lastTime := by simp

/-- `t_lastTime` and `t_Seconds` behind the test in `toFormatTime`. -/
def RecordTimeCache.refresh (cache : RecordTimeCache) (seconds : ℤ) : RecordTimeCache :=
  if seconds ≠ cache.lastTime then
    { lastTime := seconds, seconds := recordTime seconds, printed := .inr rfl }
  else cache

namespace StreamOp

/-- What the user inserts: integers, strings and characters, without a newline. -/
def Plain : StreamOp → Prop
  | .double _ => False
  | .cString (some val) | .string val | .append val => newline ∉ val
  | .char c => c ≠ newline
  | .cString none | .int _ | .longInt _ | .longLong _ | .unsignedInt _ | .unsignedLongLong _ => True

/-- The text of a double is up to `snprintf`. -/
def isDouble : StreamOp → Bool
  | .double _ => true
  | _ => false

end StreamOp

/-- All that a record is made of. -/
structure LogRecord where
  filename : List UInt8
  level : LogLevel
  line : IntegerType.int.Value
  func : Option (List UInt8)
  /-- `nowTime_`. -/
  microSeconds : ℤ
  cache : RecordTimeCache
  tid : IntegerType.int.Value
  /-- The text of `errno`, unless it is zero. -/
  strerror : Option (List UInt8)
  insertions : List { op : StreamOp // op.Plain }

namespace LogRecord

open LogStream

/-- What `toFormatTime` inserts. -/
def toFormatTime (r : LogRecord) : List StreamOp :=
  let seconds := r.microSeconds.tdiv 1000000
  let microseconds := r.microSeconds.tmod 1000000
  let buf := snprintf 30 (zeroPadded 6 microseconds)
  [.cString (some (r.cache.refresh seconds).seconds), .cString (some ['.'.toUInt8]),
    .cString (some buf), .cString (some [' '.toUInt8])]

/-- What the constructor inserts. -/
def start (r : LogRecord) : List StreamOp :=
  r.toFormatTime ++
    [.int r.tid, .cString (some [' '.toUInt8]), .cString (some r.level.name),
      .cString (some [' '.toUInt8])] ++
    if r.level.tellsErrno then
      match r.strerror with
      | some text => [.cString (some text), .cString (some [' '.toUInt8])]
      | none => []
    else []

/-- What is inserted before `finish`. -/
def content (r : LogRecord) : List StreamOp := r.start ++ r.insertions.map Subtype.val

/-- What is passed to `g_output`. -/
def output (r : LogRecord) : Except Fault (List Cell) :=
  Logger.record r.content (sourceFile r.filename) r.line r.func

/-- All that is inserted before the newline of `finish`. -/
def body (r : LogRecord) : List StreamOp :=
  r.content ++ (Logger.finish (sourceFile r.filename) r.line r.func).dropLast

/-- The texts that neither the user nor the program inserts have no newline. -/
def NoNewline (r : LogRecord) : Prop :=
  newline ∉ r.filename ∧ (∀ text ∈ r.func, newline ∉ text) ∧ ∀ text ∈ r.strerror, newline ∉ text

/-- The record is a line: it fits the buffer, ends with the newline of `finish`, and has no
other newline. -/
def IsLine (r : LogRecord) : Prop :=
  ∃ (stream : LogStream) (front : List UInt8), run step {} r.body = .ok stream ∧
    stream.output = .ok (front.map some) ∧
    r.output = .ok ((front ++ [newline]).map some) ∧
    (front ++ [newline]).length ≤ kSmallBufferSize ∧ (r.NoNewline → newline ∉ front)

end LogRecord

/-! ## What a stream holds -/

/-- The bytes that an insertion adds if there is room for them. -/
def StreamOp.text : StreamOp → List UInt8
  | .int val => numeral val
  | .longInt val => numeral val
  | .longLong val => numeral val
  | .unsignedInt val => numeral val
  | .unsignedLongLong val => numeral val
  | .double text => (text.take 31 ++ [0]).take text.length
  | .cString none => ['(', 'N', 'U', 'L', 'L', ')'].map Char.toUInt8
  | .cString (some val) | .string val | .append val => val.take (toInt val.length).toNat
  | .char c => [c]

/-- The bytes behind an insertion. -/
def put (bytes : List UInt8) (op : StreamOp) : List UInt8 :=
  if bytes.length + op.text.length ≤ kSmallBufferSize then bytes ++ op.text else bytes

/-- The lengths of the texts decide which of them are stored. -/
theorem length_foldl_put (ops : List StreamOp) (bytes : List UInt8) :
    (ops.foldl put bytes).length = ops.foldl (fun len op =>
      if len + op.text.length ≤ kSmallBufferSize then len + op.text.length else len)
        bytes.length := by
  induction ops generalizing bytes with
  | nil => rfl
  | cons op ops ih =>
    rw [List.foldl_cons, List.foldl_cons, ih, put, apply_ite List.length, List.length_append]

namespace LogStream

open FixedBuffer

section

variable {stream stream' : LogStream} {bytes : List UInt8}

/-- An integer for which there is room. -/
theorem interger_put (h : stream.Holds bytes) {T : IntegerType} {val : ℤ} (hval : T.least ≤ val)
    (hroom : stream.HasRoomFor T val) :
    ∃ stream', stream.interger T val = .ok stream' ∧ stream'.Holds
      (if bytes.length + (numeral val).length ≤ kSmallBufferSize then bytes ++ numeral val
        else bytes) := by
  obtain ⟨hne, hfits⟩ := hroom
  rw [dataSize, h.cur_eq] at hfits
  obtain ⟨stream', hok, hholds⟩ :=
    h.print_ok (Nat.le_refl (numeral val).length) (Nat.le_succ _) hfits
  rw [List.take_left] at hholds
  rw [if_pos hfits, interger, IntegerType.tranToString_eq hval hne, ok_bind]
  exact ⟨stream', hok, hholds⟩

/-- A string is added or left out. -/
theorem append_put (h : stream.Holds bytes) {msg : List UInt8} {n : ℕ} (hn : n ≤ msg.length) :
    ∃ stream', FixedBuffer.append stream msg n = .ok stream' ∧ stream'.Holds
      (if bytes.length + (msg.take n).length ≤ kSmallBufferSize then bytes ++ msg.take n
        else bytes) := by
  rw [List.length_take, Nat.min_eq_left hn]
  obtain ⟨hfits, hfull⟩ := h.append_ok (by decide) hn
  split
  · next hroom => exact hfits hroom
  · next hroom => exact ⟨stream, hfull (Nat.not_le.mp hroom), h⟩

/-- A text is put whole or not at all. -/
theorem string_put (h : stream.Holds bytes) {msg : List UInt8} (hlen : 0 ≤ toInt msg.length) :
    ∃ stream', stream.append msg = .ok stream' ∧ stream'.Holds
      (if bytes.length + (msg.take (toInt msg.length).toNat).length ≤ kSmallBufferSize then
        bytes ++ msg.take (toInt msg.length).toNat else bytes) := by
  have hle := toInt_le msg.length
  rw [← Int.toNat_of_nonneg hlen] at hle
  have hput := append_put h (Int.ofNat_le.mp hle)
  rwa [Int.toNat_of_nonneg hlen] at hput

/-- An insertion for which there is room. -/
theorem step_put (h : stream.Holds bytes) {op : StreamOp} (hroom : stream.HasRoom op) :
    ∃ stream', stream.step op = .ok stream' ∧ stream'.Holds (put bytes op) := by
  cases op with
  | int val => exact interger_put h val.2.1 hroom
  | longInt val => exact interger_put h val.2.1 hroom
  | longLong val => exact interger_put h val.2.1 hroom
  | unsignedInt val => exact interger_put h val.2.1 hroom
  | unsignedLongLong val => exact interger_put h val.2.1 hroom
  | double text =>
    obtain ⟨hshort, hfits⟩ := hroom
    rw [dataSize, h.cur_eq] at hfits
    have hlen : (text.take 31).length = min 31 text.length := List.length_take
    have hle : (text.take 31).length ≤ text.length := by omega
    obtain ⟨stream', hok, hholds⟩ := h.print_ok hle (by omega) hfits
    have htext : (StreamOp.double text).text.length = text.length := by
      rw [StreamOp.text, List.length_take, List.length_append, List.length_singleton]
      omega
    refine ⟨stream', hok, ?_⟩
    rw [put, if_pos (htext ▸ hfits)]
    exact hholds
  | cString val =>
    cases val with
    | none => exact append_put h (n := 6) (Nat.le_refl _)
    | some val => exact string_put h hroom
  | char c => exact append_put h (n := 1) (Nat.le_refl 1)
  | string val => exact string_put h hroom
  | append msg => exact string_put h hroom

/-- Without doubles an insertion succeeds exactly if there is room for it. -/
theorem step_ok_iff (h : ∃ bytes, stream.Holds bytes) {op : StreamOp} (hop : op.isDouble = false) :
    (∃ stream', stream.step op = .ok stream') ↔ stream.HasRoom op := by
  obtain ⟨bytes, h⟩ := h
  constructor
  · rintro ⟨stream', hok⟩
    cases op with
    | int val => exact hasRoomFor_of_interger val.2.1 hok
    | longInt val => exact hasRoomFor_of_interger val.2.1 hok
    | longLong val => exact hasRoomFor_of_interger val.2.1 hok
    | unsignedInt val => exact hasRoomFor_of_interger val.2.1 hok
    | unsignedLongLong val => exact hasRoomFor_of_interger val.2.1 hok
    | double text => cases hop
    | cString val =>
      cases val with
      | none => trivial
      | some val => exact length_nonneg_of_append h hok
    | char c => trivial
    | string val => exact length_nonneg_of_append h hok
    | append msg => exact length_nonneg_of_append h hok
  · intro hroom
    obtain ⟨stream', hok, -⟩ := step_put h hroom
    exact ⟨stream', hok⟩

end

/-- A run with room for all insertions holds what they put. -/
theorem run_put {ops : List StreamOp} (h : Guarded step HasRoom ({} : LogStream) ops) :
    ∃ stream, run step ({} : LogStream) ops = .ok stream ∧ stream.Holds (ops.foldl put []) :=
  run_of_simulation (fun _ _ _ h hroom => step_put h hroom) holds_empty h

/-- A run without doubles succeeds exactly if there is room for all insertions. -/
theorem run_ok_iff {ops : List StreamOp} (hops : ∀ op ∈ ops, op.isDouble = false) :
    (∃ stream, run step ({} : LogStream) ops = .ok stream) ↔
      Guarded step HasRoom ({} : LogStream) ops :=
  run_ok_iff_guarded (fun _ _ h hop => step_ok_iff h hop)
    (fun _ _ _ h hroom hok => holds_step h hroom hok) ⟨[], holds_empty⟩ hops

end LogStream

namespace LogRecord

open LogStream

/-- There is room for every insertion, and for the newline behind them. -/
def HasRoom (r : LogRecord) : Prop :=
  Guarded step LogStream.HasRoom ({} : LogStream) r.body ∧
    (r.body.foldl put []).length < kSmallBufferSize

/-- The insertion of the newline. -/
def endl : StreamOp := .cString (some [newline])

/-- The record ends with the end of the line. -/
theorem finish_eq (file : List UInt8) (line : IntegerType.int.Value) (func : Option (List UInt8)) :
    Logger.finish file line func = (Logger.finish file line func).dropLast ++ [endl] := by
  cases func with
  | none => rfl
  | some func => rfl

/-- The line is ended behind the body. -/
theorem output_eq (r : LogRecord) :
    r.output = (do
      let stream ← run step ({} : LogStream) r.body
      let stream ← LogStream.step stream endl
      stream.output) := by
  rw [output, Logger.record, finish_eq, ← List.append_assoc, run_append, body]
  cases run step ({} : LogStream)
      (r.content ++ (Logger.finish (sourceFile r.filename) r.line r.func).dropLast) with
  | error e => rfl
  | ok stream =>
    rw [ok_bind, ok_bind, run]
    cases LogStream.step stream endl with
    | error e => rfl
    | ok stream => rfl

/-- The end of the line has the length one. -/
theorem toInt_one : toInt ([newline].length : ℕ) = 1 := toInt_of_lt (by decide)

/-- The end of the line is one character. -/
theorem text_endl : endl.text = [newline] := by
  rw [endl, StreamOp.text, toInt_one]
  rfl

/-- The end of the line is put wherever there is room for one character. -/
theorem put_endl {front : List UInt8} :
    put front endl = if front.length < kSmallBufferSize then front ++ [newline] else front := by
  rw [put, text_endl, List.length_singleton]
  rfl

/-- With room for all insertions but the newline, the output is what they put and the newline,
if it still fits. -/
theorem output_of_guarded {r : LogRecord}
    (h : Guarded step LogStream.HasRoom ({} : LogStream) r.body) :
    ∃ stream, run step ({} : LogStream) r.body = .ok stream ∧
      stream.output = .ok ((r.body.foldl put []).map some) ∧
      r.output = .ok ((put (r.body.foldl put []) endl).map some) ∧
      (put (r.body.foldl put []) endl).length ≤ kSmallBufferSize := by
  obtain ⟨stream, hrun, hholds⟩ := run_put h
  have hroom : stream.HasRoom endl := by
    rw [endl, LogStream.HasRoom, toInt_one]
    decide
  obtain ⟨last, hlast, hholds'⟩ := step_put hholds hroom
  refine ⟨stream, hrun, hholds.output_eq, ?_, hholds'.length_le⟩
  rw [output_eq, hrun, ok_bind, hlast, ok_bind, hholds'.output_eq]

/-! ## Where a newline may come from -/

/-- A padded number has no newline. -/
theorem newline_notMem_zeroPadded (width : ℕ) (val : ℤ) : newline ∉ zeroPadded width val :=
  notMem_zeroPadded (by decide) (by decide) width val

/-- Cutting a text off adds no newline. -/
theorem newline_notMem_snprintf {size : ℕ} {text : List UInt8} (h : newline ∉ text) :
    newline ∉ snprintf size text :=
  fun hmem => h (List.mem_of_mem_take hmem)

/-- The text of a second has no newline. -/
theorem newline_notMem_recordTime (seconds : ℤ) : newline ∉ recordTime seconds := by
  have hcolon : newline ∉ [':'.toUInt8] := by decide
  have hdash : newline ∉ ['-'.toUInt8] := by decide
  apply newline_notMem_snprintf
  simp only [dayAndTime, List.mem_append, not_or, newline_notMem_zeroPadded, hcolon, hdash,
    not_false_eq_true, and_self]

/-- The cached text of the second has no newline. -/
theorem newline_notMem_seconds (cache : RecordTimeCache) : newline ∉ cache.seconds := by
  rcases cache.printed with hempty | hprinted
  · rw [hempty]
    exact List.not_mem_nil
  · rw [hprinted]
    exact newline_notMem_recordTime _

/-- The file name has no newline unless the path has. -/
theorem newline_notMem_sourceFile {filename : List UInt8} (h : newline ∉ filename) :
    newline ∉ sourceFile filename := by
  intro hmem
  have hmem := (List.takeWhile_prefix _).subset (List.mem_reverse.mp hmem)
  exact h (List.mem_reverse.mp hmem)

/-- The name of a level has no newline. -/
theorem newline_notMem_name (level : LogLevel) : newline ∉ level.name := by
  cases level with
  | trace | debug | info | warn | error | sysfatal => decide

/-- A plain operation prints no newline. -/
theorem newline_notMem_text {op : StreamOp} (h : op.Plain) : newline ∉ op.text := by
  have hnumeral (val : ℤ) : newline ∉ numeral val := notMem_numeral (by decide) (by decide) val
  cases op with
  | int val | longInt val | longLong val | unsignedInt val | unsignedLongLong val =>
    exact hnumeral val
  | double text => cases h
  | cString val =>
    cases val with
    | none =>
      rw [StreamOp.text]
      decide
    | some val => exact fun hmem => h (List.mem_of_mem_take hmem)
  | char c => exact fun hmem => h (List.mem_singleton.mp hmem).symm
  | string val | append val => exact fun hmem => h (List.mem_of_mem_take hmem)

/-- Plain operations add no newline. -/
theorem newline_notMem_foldl_put {ops : List StreamOp} {bytes : List UInt8}
    (hbytes : newline ∉ bytes) (hops : ∀ op ∈ ops, op.Plain) : newline ∉ ops.foldl put bytes := by
  induction ops generalizing bytes with
  | nil => exact hbytes
  | cons op ops ih =>
    obtain ⟨hop, hops⟩ := List.forall_mem_cons.mp hops
    refine ih ?_ hops
    rw [put]
    split
    · intro hmem
      rcases List.mem_append.mp hmem with hmem | hmem
      · exact hbytes hmem
      · exact newline_notMem_text hop hmem
    · exact hbytes

/-- What is inserted before the newline: texts of the program without a newline, integers, the
texts of the record, and what the user inserts. -/
theorem forall_mem_body {r : LogRecord} {P : StreamOp → Prop}
    (htext : ∀ text, newline ∉ text → P (.cString (some text))) (hint : ∀ val, P (.int val))
    (hfile : P (.append (sourceFile r.filename)))
    (hfunc : ∀ text ∈ r.func, P (.cString (some text)))
    (herror : ∀ text ∈ r.strerror, P (.cString (some text)))
    (huser : ∀ op, op.Plain → P op) : ∀ op ∈ r.body, P op := by
  have hspace : P (.cString (some [' '.toUInt8])) := htext _ (by decide)
  have htime : ∀ op ∈ r.toFormatTime, P op := by
    rw [toFormatTime]
    simp only [List.forall_mem_cons]
    exact ⟨htext _ (newline_notMem_seconds _), htext _ (by decide),
      htext _ (newline_notMem_snprintf (newline_notMem_zeroPadded _ _)), hspace, by simp⟩
  have hstart : ∀ op ∈ r.start, P op := by
    rw [start, List.forall_mem_append, List.forall_mem_append]
    refine ⟨⟨htime, ?_⟩, ?_⟩
    · simp only [List.forall_mem_cons]
      exact ⟨hint _, hspace, htext _ (newline_notMem_name _), hspace, by simp⟩
    · split
      · split
        · next text htext' =>
          simp only [List.forall_mem_cons]
          exact ⟨herror text htext', hspace, by simp⟩
        · simp
      · simp
  rw [body, content, List.forall_mem_append, List.forall_mem_append]
  refine ⟨⟨hstart, ?_⟩, ?_⟩
  · intro op hop
    obtain ⟨insertion, -, rfl⟩ := List.mem_map.mp hop
    exact huser _ insertion.2
  · have hdash : P (.cString (some ([' ', '-', ' '].map Char.toUInt8))) := htext _ (by decide)
    cases hf : r.func with
    | none =>
      intro op hop
      simp only [Logger.finish, List.cons_append, List.nil_append, List.dropLast, List.mem_cons,
        List.not_mem_nil, or_false] at hop
      rcases hop with rfl | rfl | rfl | rfl | rfl
      · exact hdash
      · exact hfile
      · exact hspace
      · exact hint _
      · exact hspace
    | some func =>
      intro op hop
      simp only [Logger.finish, List.cons_append, List.nil_append, List.dropLast, List.mem_cons,
        List.not_mem_nil, or_false] at hop
      rcases hop with rfl | rfl | rfl | rfl | rfl | rfl
      · exact hdash
      · exact hfile
      · exact hspace
      · exact hint _
      · exact hspace
      · exact hfunc func hf

/-- Records print no doubles. -/
theorem isDouble_of_mem_body {r : LogRecord} : ∀ op ∈ r.body, op.isDouble = false := by
  refine forall_mem_body (fun _ _ => rfl) (fun _ => rfl) rfl (fun _ _ => rfl) (fun _ _ => rfl) ?_
  intro op hop
  cases op with
  | double text => cases hop
  | int | longInt | longLong | unsignedInt | unsignedLongLong | cString | char | string | append =>
    rfl

/-- A record whose strings have no newline is printed by plain operations. -/
theorem plain_of_mem_body {r : LogRecord} (h : r.NoNewline) : ∀ op ∈ r.body, op.Plain := by
  obtain ⟨hfile, hfunc, herror⟩ := h
  exact forall_mem_body (fun _ htext => htext) (fun _ => trivial)
    (newline_notMem_sourceFile hfile) hfunc herror fun _ hop => hop

/-- A line has had room for all insertions. -/
theorem hasRoom_of_isLine {r : LogRecord} (h : r.IsLine) : r.HasRoom := by
  obtain ⟨stream, front, hrun, hfront, hout, -, -⟩ := h
  have hguard := (run_ok_iff isDouble_of_mem_body).mp ⟨stream, hrun⟩
  obtain ⟨stream', hrun', hfront', hout', -⟩ := output_of_guarded hguard
  obtain rfl := Except.ok.inj (hrun.symm.trans hrun')
  have hinj := List.map_injective_iff.mpr (Option.some_injective UInt8)
  have hsame := hinj (Except.ok.inj (hfront.symm.trans hfront'))
  have hput := hinj (Except.ok.inj (hout.symm.trans hout'))
  refine ⟨hguard, ?_⟩
  by_contra hfull
  rw [put_endl, if_neg hfull, ← hsame] at hput
  simp at hput

/-- A record is a line exactly if there is room for all insertions, the newline included. -/
theorem isLine_iff (r : LogRecord) : r.IsLine ↔ r.HasRoom := by
  constructor
  · exact hasRoom_of_isLine
  · rintro ⟨hguard, hroom⟩
    obtain ⟨stream, hrun, hfront, hout, hlen⟩ := output_of_guarded hguard
    rw [put_endl, if_pos hroom] at hout hlen
    exact ⟨stream, _, hrun, hfront, hout, hlen,
      fun h => newline_notMem_foldl_put List.not_mem_nil (plain_of_mem_body h)⟩

/-- A message of 3958 characters, with which the space behind the line number fills the buffer. -/
theorem not_isLine : ¬ IsLine
    { filename := ['a', '.', 'c', 'c'].map Char.toUInt8, level := .info, line := ⟨1, by decide⟩
      func := none, microSeconds := 1700000000123456, cache := {}, tid := ⟨1, by decide⟩
      strerror := none
      insertions := [⟨.string (List.replicate 3958 'x'.toUInt8), by
        intro hmem
        exact absurd (List.mem_replicate.mp hmem).2 (by decide)⟩] } := by
  intro h
  have hroom := (hasRoom_of_isLine h).2
  rw [length_foldl_put] at hroom
  revert hroom
  decide +kernel

end LogRecord

end Reactor
