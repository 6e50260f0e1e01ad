import Reactor.Logging.FixedBuffer

/-!
# What a log stream writes

The operators of `LogStream` for strings and characters go through `append`, which tests
for room. Those for integers and doubles print at the cursor, where `snprintf` is told that
there are 32 bytes, and then move the cursor by the length of the text, whatever was
written. So the buffer holds exactly the calls for which there is room.
-/

namespace Reactor

open Transition

/-- The integer types that have an operator, as wide as on a 64-bit target. -/
inductive IntegerType where
  | int
  | longInt
  | longLong
  | unsignedInt
  | unsignedLongLong
  deriving DecidableEq, Repr

namespace IntegerType

/-- The number of bits. -/
def width : IntegerType → ℕ
  | int | unsignedInt => 32
  | longInt | longLong | unsignedLongLong => 64

/-- The type has negative values. -/
def signed : IntegerType → Bool
  | int | longInt | longLong => true
  | unsignedInt | unsignedLongLong => false

/-- The least value. -/
def least (T : IntegerType) : ℤ := if T.signed then -2 ^ (T.width - 1) else 0

/-- The greatest value. -/
def greatest (T : IntegerType) : ℤ := if T.signed then 2 ^ (T.width - 1) - 1 else 2 ^ T.width - 1

/-- The value of the type that is congruent to an integer. -/
def wrap (T : IntegerType) (val : ℤ) : ℤ :=
  if T.signed then val.bmod (2 ^ T.width) else val % 2 ^ T.width

/-- The values of a type. -/
abbrev Value (T : IntegerType) := { val : ℤ // T.least ≤ val ∧ val ≤ T.greatest }

end IntegerType

/-- `digits`. -/
def digits : List UInt8 :=
  ['0', '1', '2', '3', '4', '5', '6', '7', '8', '9'].map Char.toUInt8

/-- `digits[index]`: a negative index is outside the array. -/
def digitAt (index : ℤ) : Except Fault UInt8 :=
  match index with
  | .ofNat i =>
    match digits[i]? with
    | some digit => .ok digit
    | none => .error .outOfBounds
  | .negSucc _ => .error .outOfBounds

/-- Each division brings the number nearer to zero. -/
theorem natAbs_tdiv_lt {t : ℤ} (h : ¬ t.tdiv 10 = 0) : (t.tdiv 10).natAbs < t.natAbs := by
  rw [Int.natAbs_tdiv]
  have hne : t.natAbs ≠ 0 := by
    rw [Int.natAbs_ne_zero]
    rintro rfl
    exact h rfl
  exact Nat.div_lt_self (Nat.pos_of_ne_zero hne) (by decide)

/-- The loop of `tranToString`: the digits of `t` from the last one on. Division rounds
towards zero. -/
def tranLoop (t : ℤ) : Except Fault (List UInt8) :=
  if _h : t.tdiv 10 = 0 then (digitAt (t.tmod 10)).map fun digit => [digit]
  else do
    let digit ← digitAt (t.tmod 10)
    let rest ← tranLoop (t.tdiv 10)
    return digit :: rest
termination_by t.natAbs
decreasing_by exact natAbs_tdiv_lt _h

/-- `tranToString`: the text that it leaves in front of a zero. The least value of a signed
type is its own negation. -/
def tranToString (T : IntegerType) (val : ℤ) : Except Fault (List UInt8) := do
  let t := if val < 0 then T.wrap (-val) else val
  let p ← tranLoop t
  return (if val < 0 then p ++ ['-'.toUInt8] else p).reverse

/-- `LogStream`: a buffer and nothing else. -/
abbrev LogStream := FixedBuffer kSmallBufferSize

namespace LogStream

/-- `LogStream::Interger`. -/
def interger (stream : LogStream) (T : IntegerType) (val : ℤ) : Except Fault LogStream := do
  let text ← tranToString T val
  stream.print text text.length

/-- `operator<<(double)`: `text` is what the format yields, of which `snprintf` writes at
most 31 characters. -/
def double (stream : LogStream) (text : List UInt8) : Except Fault LogStream :=
  stream.print (text.take 31) text.length

/-- `append`: the length is converted to `int`. -/
def append (stream : LogStream) (msg : List UInt8) : Except Fault LogStream :=
  FixedBuffer.append stream msg (toInt msg.length)

/-- `operator<<(const char*)` and `operator<<(const void*)`; `none` is the null pointer. -/
def cString (stream : LogStream) : Option (List UInt8) → Except Fault LogStream
  | some val => stream.append val
  | none => FixedBuffer.append stream (['(', 'N', 'U', 'L', 'L', ')'].map Char.toUInt8) 6

end LogStream

/-- A call on a log stream. -/
inductive StreamOp where
  | int (val : IntegerType.int.Value)
  | longInt (val : IntegerType.longInt.Value)
  | longLong (val : IntegerType.longLong.Value)
  | unsignedInt (val : IntegerType.unsignedInt.Value)
  | unsignedLongLong (val : IntegerType.unsignedLongLong.Value)
  /-- A `double`, or a `float` that is converted to one, by its text. -/
  | double (text : List UInt8)
  | cString (val : Option (List UInt8))
  | char (c : UInt8)
  | string (val : List UInt8)
  | append (msg : List UInt8)

namespace LogStream

/-- The operators. -/
def step (stream : LogStream) : StreamOp → Except Fault LogStream
  | .int val => stream.interger .int val
  | .longInt val => stream.interger .longInt val
  | .longLong val => stream.interger .longLong val
  | .unsignedInt val => stream.interger .unsignedInt val
  | .unsignedLongLong val => stream.interger .unsignedLongLong val
  | .double text => stream.double text
  | .cString val => stream.cString val
  | .char c => FixedBuffer.append stream [c] 1
  | .string val => stream.append val
  | .append msg => stream.append msg

end LogStream

/-! ## The text of an integer -/

/-- The decimal numeral of an integer. -/
def numeral (val : ℤ) : List UInt8 :=
  (if val < 0 then ['-'.toUInt8] else []) ++ (Nat.toDigits 10 val.natAbs).map Char.toUInt8

/-- The digits of a natural number are read within the table. -/
theorem digitAt_natCast {i : ℕ} (h : i < 10) : digitAt i = .ok (Nat.digitChar i).toUInt8 := by
  have hall : ∀ i < 10, digitAt (i : ℕ) = .ok (Nat.digitChar i).toUInt8 := by decide
  exact hall i h

/-- A negative index is out of bounds. -/
theorem digitAt_of_neg {index : ℤ} (h : index < 0) : digitAt index = .error .outOfBounds := by
  cases index with
  | ofNat i => exact absurd h (Int.not_lt.mpr (Int.natCast_nonneg i))
  | negSucc i => rfl

/-- The loop finds the digits of a natural number. -/
theorem tranLoop_natCast (n : ℕ) :
    tranLoop n = .ok ((Nat.toDigits 10 n).reverse.map Char.toUInt8) := by
  induction n using Nat.strong_induction_on with
  | _ n ih =>
    have hdiv : (n : ℤ).tdiv 10 = (n / 10 : ℕ) := rfl
    have hmod : (n : ℤ).tmod 10 = (n % 10 : ℕ) := rfl
    have hdigit := digitAt_natCast (Nat.mod_lt n (by decide : 0 < 10))
    rw [tranLoop, hdiv, hmod, hdigit, Nat.toDigits_eq_if (by decide)]
    by_cases hlt : n < 10
    · have hzero : n / 10 = 0 := Nat.div_eq_of_lt hlt
      rw [dif_pos (by rw [hzero]; rfl), if_pos hlt, Nat.mod_eq_of_lt hlt]
      rfl
    · have hpos : n / 10 ≠ 0 := by omega
      rw [dif_neg (by exact_mod_cast hpos), if_neg hlt, ok_bind, ih (n / 10) (by omega), ok_bind]
      simp

/-- A negative number whose last digit is not zero has a negative remainder. -/
theorem tranLoop_of_neg {t : ℤ} (h : t.tmod 10 < 0) : tranLoop t = .error .outOfBounds := by
  rw [tranLoop, digitAt_of_neg h]
  split <;> rfl

namespace IntegerType

variable {T : IntegerType} {val : ℤ}

/-- Negation does not wrap, except for the least value. -/
theorem wrap_neg (h : T.least ≤ val) (hne : val ≠ T.least) (hneg : val < 0) :
    T.wrap (-val) = -val := by
  cases T with
  | int | longInt | longLong =>
    simp only [least, signed, width, if_true] at h hne
    simp only [wrap, signed, width, if_true, Int.bmod_eq_emod]
    split <;> omega
  | unsignedInt | unsignedLongLong => exact absurd hneg (Int.not_lt.mpr h)

/-- A value that has a negation is divided without its sign. -/
theorem dividend_eq (h : T.least ≤ val) (hne : T.signed = true → val ≠ T.least) :
    (if val < 0 then T.wrap (-val) else val) = (val.natAbs : ℤ) := by
  split
  · next hneg =>
    have hsigned : T.signed = true := by
      by_contra hunsigned
      rw [least, if_neg hunsigned] at h
      omega
    rw [wrap_neg h (hne hsigned) hneg]
    omega
  · omega

/-- A value that has a negation is written as its numeral. -/
theorem tranToString_eq (h : T.least ≤ val) (hne : T.signed = true → val ≠ T.least) :
    tranToString T val = .ok (numeral val) := by
  rw [tranToString, dividend_eq h hne, tranLoop_natCast, ok_bind, numeral]
  split <;> simp

/-- The least value of a signed type is printed with a negative index. -/
theorem tranToString_least (hsigned : T.signed = true) :
    tranToString T T.least = .error .outOfBounds := by
  have hleast : T.least < 0 ∧ T.wrap (-T.least) = T.least ∧ T.least.tmod 10 < 0 := by
    cases T with
    | int | longInt | longLong => decide
    | unsignedInt | unsignedLongLong => cases hsigned
  obtain ⟨hneg, hsame, hmod⟩ := hleast
  rw [tranToString, if_pos hneg, hsame, tranLoop_of_neg hmod, error_bind]

end IntegerType

namespace LogStream

open FixedBuffer

/-! ## The calls for which there is room -/

/-- The integer has a numeral that fits. -/
def HasRoomFor (stream : LogStream) (T : IntegerType) (val : ℤ) : Prop :=
  (T.signed = true → val ≠ T.least) ∧
    stream.dataSize + (numeral val).length ≤ kSmallBufferSize

/-- There is room for what a call writes. A double may have one character more than
`snprintf` writes, whose zero then takes its place. A string need not fit, but its length
must not be negative as an `int`. -/
def HasRoom (stream : LogStream) : StreamOp → Prop
  | .int val => stream.HasRoomFor .int val
  | .longInt val => stream.HasRoomFor .longInt val
  | .longLong val => stream.HasRoomFor .longLong val
  | .unsignedInt val => stream.HasRoomFor .unsignedInt val
  | .unsignedLongLong val => stream.HasRoomFor .unsignedLongLong val
  | .double text => text.length ≤ 32 ∧ stream.dataSize + text.length ≤ kSmallBufferSize
  | .cString (some val) => 0 ≤ toInt val.length
  | .cString none | .char _ => True
  | .string val | .append val => 0 ≤ toInt val.length

section

variable {stream stream' : LogStream} {bytes : List UInt8}

/-- The step has room, and then it yields a buffer that holds bytes; else it yields none
that is contained. -/
def StepDecides (hasRoom : Prop) (r : Except Fault LogStream) : Prop :=
  (hasRoom → ∃ stream' bytes', r = .ok stream' ∧ stream'.Holds bytes') ∧
    ∀ stream', r = .ok stream' → stream'.Contained → hasRoom

/-- A printed number is decided by the room for it and for the null byte. -/
theorem print_decides (h : stream.Holds bytes) {chars : List UInt8} {reported : ℕ}
    (hle : chars.length ≤ reported) :
    StepDecides (reported ≤ chars.length + 1 ∧ stream.dataSize + reported ≤ kSmallBufferSize)
      (stream.print chars reported) := by
  rw [dataSize, h.cur_eq]
  constructor
  · intro hboth
    obtain ⟨stream', hok, hholds⟩ := h.print_ok hle hboth.1 hboth.2
    exact ⟨stream', _, hok, hholds⟩
  · intro stream' hok hc
    exact h.print_contained hok hc

/-- An integer that is inserted without a fault had room. -/
theorem hasRoomFor_of_interger {T : IntegerType} {val : ℤ} (hval : T.least ≤ val)
    (hok : stream.interger T val = .ok stream') : stream.HasRoomFor T val := by
  by_cases hne : T.signed = true → val ≠ T.least
  · rw [interger, IntegerType.tranToString_eq hval hne, ok_bind, FixedBuffer.print] at hok
    obtain ⟨stored, hstore, -⟩ := bind_eq_ok.mp hok
    have hfits := (ite_eq_ok.mp hstore).1
    rw [List.length_append, List.length_singleton] at hfits
    exact ⟨hne, by rw [dataSize]; omega⟩
  · obtain ⟨hsigned, rfl⟩ : T.signed = true ∧ val = T.least := by simpa using hne
    rw [interger, IntegerType.tranToString_least hsigned] at hok
    cases hok

/-- A length that has become negative is not appended. -/
theorem length_nonneg_of_append (h : stream.Holds bytes) {msg : List UInt8}
    (hok : stream.append msg = .ok stream') : 0 ≤ toInt msg.length := by
  by_contra hneg
  rw [append, h.append_error (by decide) (Int.not_le.mp hneg) (le_toInt _)] at hok
  cases hok

/-- An integer is decided by the room that `numeric_limits` asks for. -/
theorem interger_decides (h : stream.Holds bytes) {T : IntegerType} {val : ℤ}
    (hval : T.least ≤ val) :
    StepDecides (stream.HasRoomFor T val) (stream.interger T val) := by
  refine ⟨fun hroom => ?_, fun stream' hok _ => hasRoomFor_of_interger hval hok⟩
  rw [interger, IntegerType.tranToString_eq hval hroom.1, ok_bind]
  exact (print_decides h (Nat.le_refl (numeral val).length)).1 ⟨Nat.le_succ _, hroom.2⟩

/-- A text is decided by its length as an `int`. -/
theorem append_decides (h : stream.Holds bytes) (msg : List UInt8) :
    StepDecides (0 ≤ toInt msg.length) (stream.append msg) := by
  refine ⟨fun hnonneg => ?_, fun stream' hok _ => length_nonneg_of_append h hok⟩
  have hle := toInt_le msg.length
  rw [append]
  rw [← Int.toNat_of_nonneg hnonneg] at hle ⊢
  exact h.exists_append (by decide) (by exact_mod_cast hle)

/-- A short text of the source itself. -/
theorem append_literal_decides (h : stream.Holds bytes) (msg : List UInt8) :
    StepDecides True (FixedBuffer.append stream msg msg.length) :=
  ⟨fun _ => h.exists_append (by decide) (Nat.le_refl _), fun _ _ _ => trivial⟩

/-- Every operation is decided by the room for it. -/
theorem step_decides (h : stream.Holds bytes) (op : StreamOp) :
    StepDecides (stream.HasRoom op) (stream.step op) := by
  cases op with
  | int val => exact interger_decides h val.property.1
  | longInt val => exact interger_decides h val.property.1
  | longLong val => exact interger_decides h val.property.1
  | unsignedInt val => exact interger_decides h val.property.1
  | unsignedLongLong val => exact interger_decides h val.property.1
  | double text =>
    have hlen : (text.take 31).length = min 31 text.length := List.length_take
    have hprint : StepDecides (text.length ≤ (text.take 31).length + 1 ∧
        stream.dataSize + text.length ≤ kSmallBufferSize) (stream.double text) :=
      print_decides h (by omega)
    constructor
    · intro hboth
      have hshort := hboth.1
      exact hprint.1 ⟨by omega, hboth.2⟩
    · intro stream' hok hc
      obtain ⟨hshort, hroom⟩ := hprint.2 stream' hok hc
      exact ⟨by omega, hroom⟩
  | cString val =>
    cases val with
    | none => exact append_literal_decides h (['(', 'N', 'U', 'L', 'L', ')'].map Char.toUInt8)
    | some val => exact append_decides h val
  | char c => exact append_literal_decides h [c]
  | string val => exact append_decides h val
  | append msg => exact append_decides h msg

/-- A call yields a contained buffer exactly if there is room for it. -/
theorem contained_step_iff (h : ∃ bytes, stream.Holds bytes) (op : StreamOp) :
    (∃ stream', stream.step op = .ok stream' ∧ stream'.Contained) ↔ stream.HasRoom op := by
  obtain ⟨bytes, hbytes⟩ := h
  obtain ⟨hroom, hcontained⟩ := step_decides hbytes op
  constructor
  · rintro ⟨stream', hok, hc⟩
    exact hcontained stream' hok hc
  · intro hfits
    obtain ⟨stream', bytes', hok, hholds⟩ := hroom hfits
    exact ⟨stream', hok, hholds.contained (by decide)⟩

/-- With room an operation succeeds. -/
theorem exists_holds_step (h : ∃ bytes, stream.Holds bytes) {op : StreamOp}
    (hroom : stream.HasRoom op) :
    ∃ stream', stream.step op = .ok stream' ∧ ∃ bytes, stream'.Holds bytes := by
  obtain ⟨bytes, hbytes⟩ := h
  obtain ⟨stream', bytes', hok, hholds⟩ := (step_decides hbytes op).1 hroom
  exact ⟨stream', hok, bytes', hholds⟩

/-- Operations that succeed keep the stream holding bytes. -/
theorem holds_step (h : ∃ bytes, stream.Holds bytes) {op : StreamOp} (hroom : stream.HasRoom op)
    (hok : stream.step op = .ok stream') : ∃ bytes, stream'.Holds bytes := by
  obtain ⟨stream'', hok', hholds⟩ := exists_holds_step h hroom
  obtain rfl := Except.ok.inj (hok.symm.trans hok')
  exact hholds

end

/-! ## Runs -/

/-- In every run of calls on an empty stream no call writes outside the buffer, and all
states reached are contained, if and only if there is room for every call. -/
theorem contained_iff_hasRoom (ops : List StreamOp) :
    Safe step Contained ({} : LogStream) ops ↔ Guarded step HasRoom ({} : LogStream) ops :=
  along_iff_guarded (fun _ op h => contained_step_iff h op) (fun _ _ _ h => holds_step h)
    ⟨[], holds_empty⟩

/-- The double `1e26`, whose text has 40 characters, and a digit behind a string that fills the
buffer. -/
theorem not_contained :
    ¬ Safe step Contained ({} : LogStream)
        [.double ("100000000000000004764729344.000000000000".toList.map Char.toUInt8)] ∧
      ¬ Safe step Contained ({} : LogStream)
        [.string (List.replicate 4000 'a'.toUInt8), .int ⟨7, by decide⟩] := by
  constructor
  · rintro ⟨⟨stream, hok, hc⟩, -⟩
    have hroom := (step_decides holds_empty _).2 stream hok hc
    exact absurd hroom.1 (by simp)
  · rintro ⟨⟨stream, hok, -⟩, hrest⟩
    obtain ⟨⟨stream', hok', hc⟩, -⟩ := hrest stream hok
    have hmsg : 4000 ≤ (List.replicate 4000 'a'.toUInt8).length := by
      rw [List.length_replicate]
    obtain ⟨full, happend, hholds⟩ := (holds_empty.append_ok (by decide) hmsg).1 (Nat.le_refl _)
    have hlen : toInt (List.replicate 4000 'a'.toUInt8).length = (4000 : ℕ) := by
      rw [List.length_replicate]
      exact toInt_of_lt (by decide)
    rw [step, LogStream.append, hlen] at hok
    obtain rfl := Except.ok.inj (hok.symm.trans happend)
    have hroom := (step_decides hholds _).2 stream' hok' hc
    have hcur : stream.dataSize = 4000 := by
      rw [dataSize, hholds.cur_eq, List.nil_append, List.length_take, List.length_replicate,
        Nat.min_self]
    exact absurd hroom.2 (by rw [hcur]; decide)

end LogStream

namespace Logger

open LogStream

/-- `Logger::finish`: the calls that end a record. -/
def finish (file : List UInt8) (line : IntegerType.int.Value) (func : Option (List UInt8)) :
    List StreamOp :=
  [.cString (some ([' ', '-', ' '].map Char.toUInt8)), .append file,
    .cString (some [' '.toUInt8]), .int line, .cString (some [' '.toUInt8])] ++
  match func with
  | some func => [.cString (some func), .cString (some ['\n'.toUInt8])]
  | none => [.cString (some ['\n'.toUInt8])]

/-- What `Logger::~Logger` passes to `g_output` after a record has been built. -/
def record (ops : List StreamOp) (file : List UInt8) (line : IntegerType.int.Value)
    (func : Option (List UInt8)) : Except Fault (List Cell) := do
  let stream ← run step {} (ops ++ finish file line func)
  stream.output

/-- A record for which there is room is put out from inside the buffer. -/
theorem record_ok {ops : List StreamOp} {file : List UInt8} {line : IntegerType.int.Value}
    {func : Option (List UInt8)}
    (h : Guarded step HasRoom ({} : LogStream) (ops ++ finish file line func)) :
    ∃ bytes : List UInt8, record ops file line func = .ok (bytes.map some) ∧
      bytes.length ≤ kSmallBufferSize := by
  have hsafe : Safe step (fun stream => ∃ bytes, stream.Holds bytes) ({} : LogStream)
      (ops ++ finish file line func) :=
    along_of_guarded (fun stream => ∃ bytes, stream.Holds bytes)
      (fun _ _ h => exists_holds_step h) (fun _ _ _ h => holds_step h)
      ⟨[], FixedBuffer.holds_empty⟩ h
  obtain ⟨stream, hrun⟩ := hsafe.run_ok
  obtain ⟨bytes, hholds⟩ := hsafe.at_end ⟨[], FixedBuffer.holds_empty⟩ hrun
  refine ⟨bytes, ?_, hholds.length_le⟩
  rw [record, hrun, ok_bind, hholds.output_eq]

end Logger

end Reactor
