import Reactor.Logging.LogStream

/-!
# Integers as text

Every integer type is printed by one template, which finds the digits from the last one on
and reverses them in place. The text is the canonical numeral of the value, unless the value
is the least one of a signed type, whose negation wraps.
-/

namespace Reactor

open Transition

/-- The value of a digit. -/
def digitValue (c : UInt8) : Option ℕ := if c ∈ digits then some (c.toNat - 48) else none

/-- The number that decimal digits stand for. -/
def parseDigits (text : List UInt8) : Option ℕ :=
  text.foldl (fun acc c => acc.bind fun n => (digitValue c).map (10 * n + ·)) (some 0)

/-- The integer that a text stands for. -/
def parse : List UInt8 → Option ℤ
  | [] => none
  | c :: text =>
    if c = '-'.toUInt8 then (parseDigits text).map fun (n : ℕ) => -(n : ℤ)
    else (parseDigits (c :: text)).map fun (n : ℕ) => (n : ℤ)

/-- The canonical numeral of a value: a sign for negative values, and digits without leading
zeros. -/
def IsCanonical (text : List UInt8) (val : ℤ) : Prop :=
  ∃ body : List UInt8, text = (if val < 0 then ['-'.toUInt8] else []) ++ body ∧ body ≠ [] ∧
    (∀ c ∈ body, c ∈ digits) ∧ (body.head? = some '0'.toUInt8 → val = 0 ∧ body = ['0'.toUInt8])

/-- The indices into `digits` that the loop of `tranToString` uses. -/
def tranIndices (t : ℤ) : List ℤ :=
  if _h : t.tdiv 10 = 0 then [t.tmod 10] else t.tmod 10 :: tranIndices (t.tdiv 10)
termination_by t.natAbs
decreasing_by exact natAbs_tdiv_lt _h

/-- The loop looks its indices up. -/
theorem tranLoop_eq_mapM (t : ℤ) : tranLoop t = (tranIndices t).mapM digitAt := by
  fun_induction tranIndices t with
  | case1 t h =>
    rw [tranLoop, dif_pos h, List.mapM_cons, List.mapM_nil]
    cases digitAt (t.tmod 10) with
    | error e => rfl
    | ok digit => rfl
  | case2 t h ih =>
    rw [tranLoop, dif_neg h, List.mapM_cons, ih]

/-- For a natural number the indices are digits. -/
theorem tranIndices_natCast (n : ℕ) : ∀ i ∈ tranIndices n, 0 ≤ i ∧ i ≤ 9 := by
  induction n using Nat.strong_induction_on with
  | _ n ih =>
    have hdiv : (n : ℤ).tdiv 10 = (n / 10 : ℕ) := rfl
    have hmod : (n : ℤ).tmod 10 = (n % 10 : ℕ) := rfl
    rw [tranIndices, hdiv, hmod]
    split
    · simp
      omega
    · next hpos =>
      rintro i (_ | ⟨_, hi⟩)
      · omega
      · exact ih (n / 10) (by omega) i hi

/-! ## The numeral is canonical -/

section

variable {n : ℕ}

/-- The character of a digit stands for it. -/
theorem digitValue_digitChar (h : n < 10) : digitValue (Nat.digitChar n).toUInt8 = some n := by
  have hall : ∀ n < 10, digitValue (Nat.digitChar n).toUInt8 = some n := by decide
  exact hall n h

/-- The character of a digit is not the sign, and only that of zero is a zero. -/
theorem digitChar_ne (h : n < 10) :
    (Nat.digitChar n).toUInt8 ≠ '-'.toUInt8 ∧
      ((Nat.digitChar n).toUInt8 = '0'.toUInt8 → n = 0) := by
  have hall : ∀ n < 10, (Nat.digitChar n).toUInt8 ≠ '-'.toUInt8 ∧
      ((Nat.digitChar n).toUInt8 = '0'.toUInt8 → n = 0) := by decide
  exact hall n h

/-- The digits of a number. -/
def digitsOf (n : ℕ) : List UInt8 := (Nat.toDigits 10 n).map Char.toUInt8

/-- A number below ten has one digit. -/
theorem digitsOf_of_lt (h : n < 10) : digitsOf n = [(Nat.digitChar n).toUInt8] := by
  rw [digitsOf, Nat.toDigits_of_lt_base h, List.map_singleton]

/-- The last digit is the remainder. -/
theorem digitsOf_of_le (h : 10 ≤ n) :
    digitsOf n = digitsOf (n / 10) ++ [(Nat.digitChar (n % 10)).toUInt8] := by
  rw [digitsOf, Nat.toDigits_of_base_le (by decide) h, List.map_append, List.map_singleton,
    digitsOf]

/-- Every number has a digit. -/
theorem digitsOf_ne_nil (n : ℕ) : digitsOf n ≠ [] := by
  simp [digitsOf]

/-- The digits stand for the number. -/
theorem parseDigits_digitsOf (n : ℕ) : parseDigits (digitsOf n) = some n := by
  induction n using Nat.strong_induction_on with
  | _ n ih =>
    by_cases hlt : n < 10
    · rw [digitsOf_of_lt hlt]
      simp [parseDigits, digitValue_digitChar hlt]
    · have hparse := ih (n / 10) (by omega)
      rw [parseDigits] at hparse
      rw [digitsOf_of_le (by omega), parseDigits, List.foldl_append, hparse]
      simp [digitValue_digitChar (Nat.mod_lt n (by decide : 0 < 10))]
      omega

/-- The digits are decimal ones. -/
theorem mem_digits_of_mem_digitsOf (n : ℕ) : ∀ c ∈ digitsOf n, c ∈ digits := by
  have hmem : ∀ n < 10, (Nat.digitChar n).toUInt8 ∈ digits := by decide
  induction n using Nat.strong_induction_on with
  | _ n ih =>
    by_cases hlt : n < 10
    · rw [digitsOf_of_lt hlt]
      simpa using hmem n hlt
    · rw [digitsOf_of_le (by omega)]
      intro c hc
      rcases List.mem_append.mp hc with hc | hc
      · exact ih (n / 10) (by omega) c hc
      · rw [List.mem_singleton.mp hc]
        exact hmem _ (Nat.mod_lt n (by decide))

/-- The first digit is zero only for zero itself. -/
theorem head_digitsOf (n : ℕ) (h : (digitsOf n).head? = some '0'.toUInt8) : n = 0 := by
  induction n using Nat.strong_induction_on with
  | _ n ih =>
    by_cases hlt : n < 10
    · rw [digitsOf_of_lt hlt, List.head?_cons] at h
      exact (digitChar_ne hlt).2 (Option.some.inj h)
    · rw [digitsOf_of_le (by omega), List.head?_append_of_ne_nil _ (digitsOf_ne_nil _)] at h
      have := ih (n / 10) (by omega) h
      omega

/-- The digits do not begin with a sign. -/
theorem digitsOf_ne_sign {c : UInt8} {text : List UInt8} (h : digitsOf n = c :: text) :
    c ≠ '-'.toUInt8 := by
  have hmem : c ∈ digits := mem_digits_of_mem_digitsOf n c (by simp [h])
  rintro rfl
  exact absurd hmem (by decide)

end

/-- The numeral has no needless zero or sign. -/
theorem isCanonical_numeral (val : ℤ) : IsCanonical (numeral val) val := by
  refine ⟨digitsOf val.natAbs, rfl, digitsOf_ne_nil _, mem_digits_of_mem_digitsOf _, ?_⟩
  intro hhead
  have hzero := head_digitsOf _ hhead
  rw [hzero]
  exact ⟨Int.natAbs_eq_zero.mp hzero, rfl⟩

/-- The numeral stands for its number. -/
theorem parse_numeral (val : ℤ) : parse (numeral val) = some val := by
  change parse ((if val < 0 then ['-'.toUInt8] else []) ++ digitsOf val.natAbs) = some val
  have hdigits := parseDigits_digitsOf val.natAbs
  split
  · next hneg =>
    rw [List.singleton_append, parse, if_pos rfl, hdigits, Option.map_some]
    congr 1
    omega
  · next hpos =>
    rw [List.nil_append]
    cases htext : digitsOf val.natAbs with
    | nil => exact absurd htext (digitsOf_ne_nil _)
    | cons c text =>
      rw [parse, if_neg (digitsOf_ne_sign htext), ← htext, hdigits, Option.map_some]
      congr 1
      omega

/-! ## What the operators append -/

namespace IntegerType

/-- The value that `tranToString` divides. -/
def dividend (T : IntegerType) (val : ℤ) : ℤ := if val < 0 then T.wrap (-val) else val

/-- The call of `operator<<` with a value. -/
def shift : (T : IntegerType) → T.Value → StreamOp
  | int, val => .int val
  | longInt, val => .longInt val
  | longLong, val => .longLong val
  | unsignedInt, val => .unsignedInt val
  | unsignedLongLong, val => .unsignedLongLong val

end IntegerType

namespace LogStream

/-- The stream has the text behind what it held, and nothing else. -/
structure Appends (stream stream' : LogStream) (text : List UInt8) : Prop where
  dataSize_eq : stream'.dataSize = stream.dataSize + text.length
  kept : Memory.read stream'.data 0 stream.dataSize = Memory.read stream.data 0 stream.dataSize
  appended : Memory.read stream'.data stream.dataSize text.length = text.map some

/-- `operator<<` appends the canonical numeral of the value to every stream with room for it,
the numeral can be parsed, and all indices into `digits` are within it. -/
structure Renders (T : IntegerType) (val : T.Value) : Prop where
  appends : ∀ stream : LogStream,
    stream.dataSize + (numeral val).length ≤ kSmallBufferSize →
      ∃ stream', stream.step (T.shift val) = .ok stream' ∧ Appends stream stream' (numeral val)
  canonical : IsCanonical (numeral val) val
  parsed : parse (numeral val) = some val.1
  indices : ∀ i ∈ tranIndices (T.dividend val), 0 ≤ i ∧ i ≤ 9

variable {T : IntegerType}

/-- Shifting an integer prints it. -/
theorem step_shift (stream : LogStream) (val : T.Value) :
    stream.step (T.shift val) = stream.interger T val := by
  cases T with
  | int | longInt | longLong | unsignedInt | unsignedLongLong => rfl

/-- Text that fits is appended. -/
theorem print_appends {stream : LogStream} {text : List UInt8}
    (hroom : stream.dataSize + text.length ≤ kSmallBufferSize) :
    ∃ stream', stream.print text text.length = .ok stream' ∧ Appends stream stream' text := by
  have hlen : (text ++ [0]).length = text.length + 1 := List.length_append
  rw [FixedBuffer.dataSize] at hroom
  refine ⟨{ data := Memory.write stream.data stream.cur ((text ++ [0]).map some)
            cur := stream.cur + text.length }, ?_, rfl, ?_, ?_⟩
  · rw [FixedBuffer.print, FixedBuffer.store, if_pos (by omega), ok_bind]
    rfl
  · exact Memory.read_write_before (by rw [Nat.zero_add]; exact Nat.le_refl _)
  · have hself := Memory.read_write_self stream.data stream.cur ((text ++ [0]).map some)
    have hprefix := congrArg (List.take text.length) hself
    rw [Memory.take_read, List.length_map, hlen, Nat.min_eq_left (Nat.le_succ _), ← List.map_take,
      List.take_left] at hprefix
    exact hprefix

/-- A value is rendered, unless it is the least one of a signed type. -/
theorem renders_iff (T : IntegerType) (val : T.Value) :
    Renders T val ↔ ¬ (T.signed = true ∧ val.1 = T.least) := by
  constructor
  · rintro hrenders ⟨hsigned, hleast⟩
    have hroom : ({} : LogStream).dataSize + (numeral val.1).length ≤ kSmallBufferSize := by
      rw [hleast]
      cases T with
      | int | longInt | longLong => decide +kernel
      | unsignedInt | unsignedLongLong => cases hsigned
    obtain ⟨stream', hok, -⟩ := hrenders.appends {} hroom
    rw [step_shift, interger, hleast, IntegerType.tranToString_least hsigned] at hok
    cases hok
  · intro hne
    have hval : T.signed = true → val.1 ≠ T.least := fun hsigned heq => hne ⟨hsigned, heq⟩
    refine ⟨fun stream hroom => ?_, isCanonical_numeral val, parse_numeral val, ?_⟩
    · rw [step_shift, interger, IntegerType.tranToString_eq val.2.1 hval, ok_bind]
      exact print_appends hroom
    · rw [IntegerType.dividend, IntegerType.dividend_eq val.2.1 hval]
      exact tranIndices_natCast _

/-- The least `int`. -/
theorem least_not_rendered : ¬ Renders .int ⟨-2147483648, by decide⟩ := by
  intro hrenders
  have hmem : (-8 : ℤ) ∈ tranIndices (IntegerType.int.dividend (-2147483648)) := by
    have hleast : IntegerType.int.dividend (-2147483648) = -2147483648 := by decide
    rw [hleast, tranIndices]
    decide
  exact absurd (hrenders.indices _ hmem).1 (by decide)

end LogStream

end Reactor
