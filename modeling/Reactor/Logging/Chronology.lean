import Reactor.Logging.Record

/-!
# The times of the records

A record begins with its time. `toFormatTime` formats the seconds once and prints them from a
cache as long as they stay the same; the text is that of `TimeStamp::toFormatString`, which has no
cache. In the years of four digits the texts are all of one length and ordered as the times are:
records that are sorted as texts are in the order of time.
-/

namespace Reactor

open Calendar Transition

/-- `%.0<digits>d`: the digits that are asked for do not include the sign. -/
def withDigits (digits : ℕ) (val : ℤ) : List UInt8 :=
  signOf val ++ List.replicate (digits - (digitsOf val.natAbs).length) '0'.toUInt8 ++
    digitsOf val.natAbs

/-- The calendar time as it is printed. -/
def calendarText (tm : Tm) : List UInt8 := zeroPadded 4 (tm.tmYear + 1900) ++ dayAndTime tm

/-- `TimeStamp::toFormatString`. -/
def toFormatString (microSeconds : ℤ) (hasMicroSeconds : Bool) : List UInt8 :=
  let tm := gmtime (microSeconds.tdiv 1000000)
  if hasMicroSeconds then
    snprintf 32 (calendarText tm ++ ['.'.toUInt8] ++ withDigits 6 (microSeconds.tmod 1000000))
  else snprintf 32 (calendarText tm)

/-- The records of a thread, with the times that they have printed. -/
structure RecordClock where
  cache : RecordTimeCache := {}
  /-- The times of the records so far, and the texts that `toFormatTime` has inserted. -/
  printed : List (ℤ × List UInt8) := []

/-- The text that `toFormatTime` inserts. -/
def LogRecord.timeText (r : LogRecord) : List UInt8 := r.toFormatTime.flatMap StreamOp.text

/-- The constructor of a record in the thread, whose cache it uses. -/
def RecordClock.step (clock : RecordClock) (r : LogRecord) : Except Disabled RecordClock :=
  .ok {
    cache := clock.cache.refresh (r.microSeconds.tdiv 1000000)
    printed := clock.printed ++ [(r.microSeconds, { r with cache := clock.cache }.timeText)] }

/-! ## Order -/

/-- Texts of one length decide before what follows them. -/
theorem append_lt_append {α : Type*} [LT α] {a a' b b' : List α} (hlength : a.length = a'.length)
    (h : a < a') : a ++ b < a' ++ b' := by
  induction a generalizing a' with
  | nil =>
    cases a' with
    | nil => exact absurd h (List.not_lt_nil [])
    | cons x' a' => cases hlength
  | cons x a ih =>
    cases a' with
    | nil => cases hlength
    | cons x' a' =>
      rw [List.cons_append, List.cons_append, List.cons_lt_cons_iff]
      rcases List.cons_lt_cons_iff.mp h with hhead | ⟨rfl, htail⟩
      · exact .inl hhead
      · exact .inr ⟨rfl, ih (Nat.succ.inj hlength) htail⟩

/-- The digits of a natural number are padded on the left. -/
theorem zeroPadded_natCast (width n : ℕ) : zeroPadded width n =
    List.replicate (width - (digitsOf n).length) '0'.toUInt8 ++ digitsOf n := by
  have hsign : signOf n = [] := if_neg (by omega)
  rw [zeroPadded, hsign]
  rfl

/-- The last digit stands by itself. -/
theorem zeroPadded_succ {width : ℕ} (hwidth : 0 < width) (n : ℕ) : zeroPadded (width + 1) n =
    zeroPadded width (n / 10 : ℕ) ++ [(Nat.digitChar (n % 10)).toUInt8] := by
  rw [zeroPadded_natCast, zeroPadded_natCast]
  by_cases hn : n < 10
  · have hzero : n / 10 = 0 := by omega
    have hdigit : (Nat.digitChar 0).toUInt8 = '0'.toUInt8 := by decide
    obtain ⟨k, rfl⟩ : ∃ k, width = k + 1 := ⟨width - 1, by omega⟩
    rw [digitsOf_of_lt hn, hzero, digitsOf_of_lt (by decide), Nat.mod_eq_of_lt hn, hdigit,
      List.length_singleton, List.length_singleton, Nat.add_sub_cancel, Nat.add_sub_cancel,
      List.replicate_succ']
  · rw [digitsOf_of_le (by omega), List.length_append, List.length_singleton,
      Nat.add_sub_add_right, List.append_assoc]

/-- A number that fits into its width fills it. -/
theorem length_zeroPadded {width n : ℕ} (hwidth : 0 < width) (hn : n < 10 ^ width) :
    (zeroPadded width n).length = width := by
  have hdigits : (digitsOf n).length ≤ width := by
    rw [digitsOf, List.length_map]
    exact (Nat.length_toDigits_le_iff (by decide : 1 < 10) hwidth).mpr hn
  rw [zeroPadded_natCast, List.length_append, List.length_replicate]
  omega

/-- Numbers of one width are ordered as texts. -/
theorem zeroPadded_lt {width n n' : ℕ} (hwidth : 0 < width) (h : n < n') (hn' : n' < 10 ^ width) :
    zeroPadded width n < zeroPadded width n' := by
  have hdigit : ∀ i < 10, ∀ j < i, (Nat.digitChar j).toUInt8 < (Nat.digitChar i).toUInt8 := by
    decide
  induction width, hwidth using Nat.le_induction generalizing n n' with
  | base =>
    rw [zeroPadded_natCast, zeroPadded_natCast, digitsOf_of_lt (by omega),
      digitsOf_of_lt (by omega)]
    exact List.cons_lt_cons_iff.mpr (.inl (hdigit n' (by omega) n h))
  | succ width hwidth ih =>
    rw [zeroPadded_succ hwidth, zeroPadded_succ hwidth]
    have hpow : 10 ^ (width + 1) = 10 * 10 ^ width := by rw [Nat.pow_succ, Nat.mul_comm]
    by_cases hfront : n / 10 = n' / 10
    · rw [hfront]
      apply List.append_left_lt
      exact List.cons_lt_cons_iff.mpr (.inl (hdigit _ (by omega) _ (by omega)))
    · apply append_lt_append
      · rw [length_zeroPadded hwidth (by omega), length_zeroPadded hwidth (by omega)]
      · exact ih (by omega) (by omega)

/-- A number decides before what follows it. -/
theorem zeroPadded_append_lt {width : ℕ} {val val' : ℤ} {text text' : List UInt8}
    (hwidth : 0 < width) (hval : 0 ≤ val) (hval' : 0 ≤ val' ∧ val' < 10 ^ width)
    (h : val < val' ∨ val = val' ∧ text < text') :
    zeroPadded width val ++ text < zeroPadded width val' ++ text' := by
  obtain ⟨n, rfl⟩ := Int.eq_ofNat_of_zero_le hval
  obtain ⟨n', rfl⟩ := Int.eq_ofNat_of_zero_le hval'.1
  have hn' : n' < 10 ^ width := by exact_mod_cast hval'.2
  rcases h with hlt | ⟨heq, htext⟩
  · have hlt : n < n' := by omega
    apply append_lt_append
    · rw [length_zeroPadded hwidth (by omega), length_zeroPadded hwidth hn']
    · exact zeroPadded_lt hwidth hlt hn'
  · rw [heq]
    exact List.append_left_lt htext

/-! ## The calendar time -/

section

variable {tm tm' : Tm}

/-- The year has four digits. -/
def FourDigits (tm : Tm) : Prop := 0 ≤ tm.tmYear + 1900 ∧ tm.tmYear + 1900 < 10000

/-- A calendar text of a year with four digits has 17 bytes. -/
theorem length_calendarText (h : tm.Regular) (hyear : FourDigits tm) :
    (calendarText tm).length = 17 := by
  obtain ⟨n, hn⟩ := Int.eq_ofNat_of_zero_le hyear.1
  have hlt : n < 10 ^ 4 := by
    have := hyear.2
    omega
  rw [calendarText, List.length_append, length_dayAndTime h, hn, length_zeroPadded (by decide) hlt]

/-- Earlier times have smaller texts. -/
theorem calendarText_lt (h : tm.Regular) (h' : tm'.Regular) (hyear : FourDigits tm)
    (hyear' : FourDigits tm') (hbefore : tm.Before tm') : calendarText tm < calendarText tm' := by
  obtain ⟨hmon, hmday, hhour, hmin, hsec⟩ := h
  obtain ⟨hmon', hmday', hhour', hmin', hsec'⟩ := h'
  simp only [calendarText, dayAndTime, List.append_assoc]
  refine zeroPadded_append_lt (by decide) hyear.1 hyear' ?_
  refine hbefore.imp (by omega) (And.imp (by omega) fun hbefore => ?_)
  refine zeroPadded_append_lt (by decide) (by omega) ⟨by omega, by omega⟩ ?_
  refine hbefore.imp (by omega) (And.imp (by omega) fun hbefore => ?_)
  refine zeroPadded_append_lt (by decide) (by omega) ⟨by omega, by omega⟩ ?_
  refine hbefore.imp_right (And.imp_right fun hbefore => List.append_left_lt ?_)
  refine zeroPadded_append_lt (by decide) hhour.1 ⟨hhour'.1, by omega⟩ ?_
  refine hbefore.imp_right (And.imp_right fun hbefore => List.append_left_lt ?_)
  refine zeroPadded_append_lt (by decide) hmin.1 ⟨hmin'.1, by omega⟩ ?_
  refine hbefore.imp_right (And.imp_right fun hbefore => List.append_left_lt ?_)
  have hlast := @zeroPadded_append_lt 2 tm.tmSec tm'.tmSec [] [] (by decide) hsec.1
    ⟨hsec'.1, by omega⟩ (.inl hbefore)
  simpa only [List.append_nil] using hlast

end

/-! ## The time of a record -/

/-- The time is behind the first second of 1970, and its year has four digits. -/
def InRange (microSeconds : ℤ) : Prop :=
  1000000 ≤ microSeconds ∧ microSeconds < 253402300800 * 1000000

section

variable {time time' : ℤ}

/-- From 1970 to 9999 the year has four digits. -/
theorem fourDigits_gmtime {seconds : ℤ} (hnonneg : 0 ≤ seconds) (hlt : seconds < 253402300800) :
    FourDigits (gmtime seconds) := by
  have hfirst : date 0 = ⟨1970, 1, 1⟩ := by decide
  have hlast : date 2932896 = ⟨9999, 12, 31⟩ := by decide
  have hlower : 1970 ≤ (date (seconds / 86400)).year := by
    rcases (show 0 = seconds / 86400 ∨ 0 < seconds / 86400 by omega) with heq | hlater
    · rw [← heq, hfirst]
    · have hdate := date_lt hlater
      rw [hfirst] at hdate
      dsimp only at hdate
      omega
  have hupper : (date (seconds / 86400)).year ≤ 9999 := by
    rcases (show seconds / 86400 = 2932896 ∨ seconds / 86400 < 2932896 by omega) with heq | hsooner
    · rw [heq, hlast]
    · have hdate := date_lt hsooner
      rw [hlast] at hdate
      dsimp only at hdate
      omega
  rw [FourDigits, gmtime]
  dsimp only
  omega

/-- The text of a time, with its microseconds. -/
def fullText (microSeconds : ℤ) : List UInt8 :=
  calendarText (gmtime (microSeconds / 1000000)) ++
    (['.'.toUInt8] ++ zeroPadded 6 (microSeconds % 1000000))

/-- The calendar text of a time in the range has 17 bytes. -/
theorem length_calendarText_gmtime (h : InRange time) :
    (calendarText (gmtime (time / 1000000))).length = 17 := by
  obtain ⟨hlower, hupper⟩ := h
  exact length_calendarText (gmtime_regular _) (fourDigits_gmtime (by omega) (by omega))

/-- The microseconds have six digits. -/
theorem length_microseconds (time : ℤ) : (zeroPadded 6 (time % 1000000)).length = 6 := by
  obtain ⟨n, hn⟩ := Int.eq_ofNat_of_zero_le (show 0 ≤ time % 1000000 by omega)
  rw [hn]
  exact length_zeroPadded (by decide) (by omega)

/-- The whole text has 24 bytes. -/
theorem length_fullText (h : InRange time) : (fullText time).length = 24 := by
  rw [fullText, List.length_append, List.length_append, length_calendarText_gmtime h,
    length_microseconds, List.length_singleton]

/-- The later time has the greater text. -/
theorem fullText_lt (h : InRange time) (h' : InRange time') (hlt : time < time') :
    fullText time < fullText time' := by
  rcases (show time / 1000000 < time' / 1000000 ∨ time / 1000000 = time' / 1000000 ∧
    time % 1000000 < time' % 1000000 by omega) with hsecond | ⟨hsecond, hmicro⟩
  · apply append_lt_append
    · rw [length_calendarText_gmtime h, length_calendarText_gmtime h']
    · obtain ⟨hlower, hupper⟩ := h
      obtain ⟨hlower', hupper'⟩ := h'
      exact calendarText_lt (gmtime_regular _) (gmtime_regular _)
        (fourDigits_gmtime (by omega) (by omega)) (fourDigits_gmtime (by omega) (by omega))
        (gmtime_before hsecond)
  · rw [fullText, fullText, hsecond]
    apply List.append_left_lt
    apply List.append_left_lt
    have hlast := @zeroPadded_append_lt 6 (time % 1000000) (time' % 1000000) [] [] (by decide)
      (by omega) ⟨by omega, by omega⟩ (.inl hmicro)
    simpa only [List.append_nil] using hlast

/-- The order of the texts is that of the times. -/
theorem fullText_lt_iff (h : InRange time) (h' : InRange time') :
    fullText time < fullText time' ↔ time < time' := by
  constructor
  · intro hlt
    rcases Int.lt_trichotomy time time' with hsooner | rfl | hlater
    · exact hsooner
    · exact absurd hlt (List.lt_irrefl _)
    · exact absurd (fullText_lt h' h hlater) (List.lt_asymm hlt)
  · exact fullText_lt h h'

/-- The text fits the buffers. -/
theorem toFormatString_eq (h : InRange time) : toFormatString time true = fullText time := by
  have hlower := h.1
  have hdiv : time.tdiv 1000000 = time / 1000000 := Int.tdiv_eq_ediv_of_nonneg (by omega)
  have hmod : time.tmod 1000000 = time % 1000000 := Int.tmod_eq_emod_of_nonneg (by omega)
  have hdigits : withDigits 6 (time % 1000000) = zeroPadded 6 (time % 1000000) := by
    have hsign : signOf (time % 1000000) = [] := if_neg (by omega)
    rw [withDigits, zeroPadded, hsign]
    rfl
  have hlength := length_fullText h
  rw [fullText] at hlength ⊢
  rw [toFormatString, if_pos rfl, hdiv, hmod, hdigits, List.append_assoc, snprintf,
    List.take_of_length_le (by omega)]

/-- The text of the second is the calendar text, and nothing is cut off. -/
theorem recordTime_eq (h : InRange time) :
    recordTime (time / 1000000) = calendarText (gmtime (time / 1000000)) := by
  have hlength := length_calendarText_gmtime h
  rw [recordTime, ← calendarText, snprintf, List.take_of_length_le (by omega)]

end

/-! ## The records of a thread -/

namespace RecordClock

/-- The cache is empty, or has the text of its second. -/
def Fresh (clock : RecordClock) : Prop :=
  clock.cache.seconds = recordTime clock.cache.lastTime ∨ clock.cache.lastTime = 0

/-- The times that have been printed are those that have no cache, of one length and in the order
of time. -/
structure Chronological (clock : RecordClock) : Prop where
  text_eq : ∀ p ∈ clock.printed, InRange p.1 →
    p.2 = toFormatString p.1 true ++ [' '.toUInt8] ∧ p.2.length = 25
  lt_iff : ∀ p ∈ clock.printed, ∀ q ∈ clock.printed, InRange p.1 → InRange q.1 →
    (p.2 < q.2 ↔ p.1 < q.1)

section

variable {clock clock' : RecordClock} {r : LogRecord}

/-- The cache has the text of the second that it has been refreshed for. -/
theorem seconds_refresh {cache : RecordTimeCache} {seconds : ℤ}
    (hfresh : cache.seconds = recordTime cache.lastTime ∨ cache.lastTime = 0)
    (hseconds : seconds ≠ 0) :
    (cache.refresh seconds).seconds = recordTime seconds := by
  rw [RecordTimeCache.refresh]
  split
  · rfl
  · next hsame =>
    have hsame : seconds = cache.lastTime := not_not.mp hsame
    rcases hfresh with hfresh | hzero
    · rw [hfresh, hsame]
    · exact absurd (hsame.trans hzero) hseconds

/-- A record keeps the cache fresh. -/
theorem Fresh.step (h : clock.Fresh) (hok : clock.step r = .ok clock') : clock'.Fresh := by
  obtain rfl := Except.ok.inj hok
  rw [Fresh]
  dsimp only
  by_cases hseconds : r.microSeconds.tdiv 1000000 = 0
  · right
    rw [hseconds, RecordTimeCache.refresh]
    split
    · rfl
    · next hsame => exact (not_not.mp hsame).symm
  · left
    rw [seconds_refresh h hseconds, RecordTimeCache.refresh]
    split
    · rfl
    · next hsame => rw [not_not.mp hsame]

/-- A C string without a null byte in it is printed whole. -/
theorem text_cString {text : List UInt8} (hlength : text.length < 2 ^ 31) :
    StreamOp.text (.cString (some text)) = text := by
  rw [StreamOp.text, toInt_of_lt hlength, Int.toNat_natCast, List.take_length]

/-- `toFormatTime` inserts the text that has no cache. -/
theorem Fresh.timeText_eq (h : clock.Fresh) (hrange : InRange r.microSeconds) :
    { r with cache := clock.cache }.timeText = fullText r.microSeconds ++ [' '.toUInt8] := by
  have hlower := hrange.1
  have hdiv : r.microSeconds.tdiv 1000000 = r.microSeconds / 1000000 :=
    Int.tdiv_eq_ediv_of_nonneg (by omega)
  have hmod : r.microSeconds.tmod 1000000 = r.microSeconds % 1000000 :=
    Int.tmod_eq_emod_of_nonneg (by omega)
  have hcache : (clock.cache.refresh (r.microSeconds / 1000000)).seconds =
      calendarText (gmtime (r.microSeconds / 1000000)) := by
    rw [seconds_refresh h (by omega), recordTime_eq hrange]
  have hmicro : snprintf 30 (zeroPadded 6 (r.microSeconds % 1000000)) =
      zeroPadded 6 (r.microSeconds % 1000000) := by
    have hlength := length_microseconds r.microSeconds
    rw [snprintf, List.take_of_length_le (by omega)]
  have hshort := length_calendarText_gmtime hrange
  have hshort' := length_microseconds r.microSeconds
  rw [LogRecord.timeText, LogRecord.toFormatTime]
  simp only [hdiv, hmod, hcache, hmicro, List.flatMap_cons, List.flatMap_nil, List.append_nil]
  rw [text_cString (by omega), text_cString (by decide), text_cString (by omega),
    text_cString (by decide), fullText]
  simp only [List.append_assoc]

/-- What the records of a thread keep. -/
structure Told (clock : RecordClock) : Prop where
  fresh : clock.Fresh
  text_eq : ∀ p ∈ clock.printed, InRange p.1 → p.2 = fullText p.1 ++ [' '.toUInt8]

/-- A record adds its text to what is told. -/
theorem Told.step (h : clock.Told) (hok : clock.step r = .ok clock') : clock'.Told := by
  refine ⟨h.fresh.step hok, ?_⟩
  obtain rfl := Except.ok.inj hok
  intro p hp hrange
  rcases List.mem_append.mp hp with hold | hnew
  · exact h.text_eq p hold hrange
  · obtain rfl := List.mem_singleton.mp hnew
    exact h.fresh.timeText_eq hrange

/-- The texts told are in the order of the times. -/
theorem Told.chronological (h : clock.Told) : clock.Chronological where
  text_eq p hp hrange := by
    rw [h.text_eq p hp hrange, toFormatString_eq hrange, List.length_append,
      length_fullText hrange]
    exact ⟨rfl, rfl⟩
  lt_iff p hp q hq hrange hrange' := by
    rw [h.text_eq p hp hrange, h.text_eq q hq hrange', ← fullText_lt_iff hrange hrange']
    constructor
    · intro hlt
      by_contra hnot
      rcases Int.lt_trichotomy p.1 q.1 with hsooner | heq | hlater
      · exact hnot (fullText_lt hrange hrange' hsooner)
      · rw [heq] at hlt
        exact List.lt_irrefl _ hlt
      · refine List.lt_asymm hlt (append_lt_append ?_ (fullText_lt hrange' hrange hlater))
        exact (length_fullText hrange').trans (length_fullText hrange).symm
    · intro hlt
      exact append_lt_append ((length_fullText hrange).trans (length_fullText hrange').symm) hlt

end

/-- Without records there is nothing to tell. -/
theorem told_empty : Told {} where
  fresh := .inr rfl
  text_eq := List.forall_mem_nil _

/-- Whatever the clock reads, the cached times are right, and sorting the records of a thread
sorts them by time. -/
theorem records_chronological (records : List LogRecord) :
    Always step Chronological {} records := by
  apply along_of_guarded Told ?_ (fun clock r clock' h _ hok => h.step hok) told_empty guarded_true
  exact fun clock r h _ clock' hok => (h.step hok).chronological

end RecordClock

end Reactor
