import Reactor.Lib.Run
import Reactor.Logging.Format

/-!
# The names of log files

`LogFile::getBaseName` keeps the calendar time of a name for the next call in the same thread.
The clock is read in seconds, but the test whether the text is still valid divides by a million,
as if it were microseconds.
-/

namespace Reactor

open Calendar Transition

/-- A reading of the clock, whose year must fit an `int`. -/
abbrev Reading :=
  { time : ℤ // -2 ^ 31 ≤ (gmtime time).tmYear ∧ (gmtime time).tmYear + 1900 < 2 ^ 31 }

/-- What a name tells of the thread. -/
structure LogThread where
  hostName : List UInt8
  tid : ℤ

/-- `t_lastTime` and `t_Time`, which all `LogFile` objects of a thread share. -/
structure NameCache where
  lastTime : ℤ := 0
  time : List UInt8 := []
  deriving DecidableEq

/-- The calendar time of a name. -/
def calendarTime (tm : Tm) : List UInt8 :=
  snprintf 64 (spacePadded 4 (tm.tmYear + 1900) ++ dayAndTime tm)

/-- A name around its calendar time. -/
def LogThread.fileName (thread : LogThread) (calendar : List UInt8) (now : ℤ) : List UInt8 :=
  let microseconds := now.tmod 1000000
  calendar ++ ['.'.toUInt8] ++ snprintf 20 (zeroPadded 6 microseconds) ++ thread.hostName ++
    ['.'.toUInt8] ++ snprintf 20 (numeral thread.tid) ++ ['.', 'l', 'o', 'g'].map Char.toUInt8

namespace NameCache

/-- What `t_lastTime` is compared with. -/
def key (now : ℤ) : ℤ := now.tdiv 1000000

/-- `t_lastTime` and `t_Time` behind the test. -/
def refresh (cache : NameCache) (now : Reading) : NameCache :=
  let seconds := key now
  if seconds ≠ cache.lastTime then { lastTime := seconds, time := calendarTime (gmtime now) }
  else cache

/-- `LogFile::getBaseName`: the name, and the state of the cache. -/
def getBaseName (thread : LogThread) (cache : NameCache) (now : Reading) :
    List UInt8 × NameCache :=
  let cache := cache.refresh now
  (thread.fileName cache.time now, cache)

/-- A call of `getBaseName`. -/
def step (thread : LogThread) (cache : NameCache) (now : Reading) :
    Except Disabled NameCache :=
  .ok (getBaseName thread cache now).2

/-- The name without a cache. -/
def uncachedName (thread : LogThread) (now : Reading) : List UInt8 :=
  thread.fileName (calendarTime (gmtime now)) now

/-- All names agree with those without a cache. -/
def Agrees (thread : LogThread) : NameCache → List Reading → Prop :=
  Along (step thread) fun cache now _ =>
    (getBaseName thread cache now).1 = uncachedName thread now

instance (thread : LogThread) (cache : NameCache) (readings : List Reading) :
    Decidable (Agrees thread cache readings) :=
  inferInstanceAs (Decidable (Along (step thread) _ cache readings))

/-- A reading is the same as the one before, or its key is another one. -/
def Renewed (previous now : Reading) : Prop := now.1 = previous.1 ∨ key now ≠ key previous

/-- The cache behind a call that has returned the right name. -/
def of (now : Reading) : NameCache where
  lastTime := key now
  time := calendarTime (gmtime now)

section

variable {thread : LogThread} {cache : NameCache} {now now' : Reading}

/-- The year has twelve places at most. -/
theorem length_year_le (now : Reading) :
    (spacePadded 4 ((gmtime now).tmYear + 1900)).length ≤ 12 := by
  have hnum : (numeral ((gmtime now).tmYear + 1900)).length ≤ 10 + 1 :=
    length_numeral_le (by decide) (by have := now.2; omega)
  rw [spacePadded, List.length_append, List.length_replicate]
  omega

/-- The text is short enough for `t_Time`. -/
theorem calendarTime_eq (now : Reading) : calendarTime (gmtime now) =
    spacePadded 4 ((gmtime now).tmYear + 1900) ++ dayAndTime (gmtime now) := by
  have hyear := length_year_le now
  rw [calendarTime, snprintf, List.take_of_length_le]
  rw [List.length_append, length_dayAndTime (gmtime_regular now)]
  omega

/-- No two readings share a calendar time. -/
theorem calendarTime_inj (h : calendarTime (gmtime now) = calendarTime (gmtime now')) :
    now.1 = now'.1 := by
  rw [calendarTime_eq, calendarTime_eq] at h
  have hregular := gmtime_regular now
  have hregular' := gmtime_regular now'
  have hlen : (dayAndTime (gmtime now)).length = (dayAndTime (gmtime now')).length := by
    rw [length_dayAndTime hregular, length_dayAndTime hregular']
  obtain ⟨hyear, hday⟩ := List.append_inj' h hlen
  have hyear := spacePadded_injective 4 hyear
  obtain ⟨hmon, hmday, hhour, hmin, hsec⟩ := dayAndTime_inj hregular hregular' hday
  apply gmtime_injective
  cases htm : gmtime now.1 with
  | mk year mon mday hour min sec =>
    cases htm' : gmtime now'.1 with
    | mk year' mon' mday' hour' min' sec' =>
      simp only [htm, htm'] at hyear hmon hmday hhour hmin hsec
      rw [add_right_cancel hyear, hmon, hmday, hhour, hmin, hsec]

/-- Names made by the same thread at the same second differ exactly if their calendar parts do. -/
theorem fileName_inj {calendar calendar' : List UInt8} {now : ℤ} :
    thread.fileName calendar now = thread.fileName calendar' now ↔ calendar = calendar' := by
  simp [LogThread.fileName]

/-- The calendar part is not empty. -/
theorem calendarTime_ne_nil (now : Reading) : calendarTime (gmtime now) ≠ [] := by
  rw [calendarTime_eq]
  have hlen := length_dayAndTime (gmtime_regular now)
  apply List.append_ne_nil_of_right_ne_nil
  rintro hnil
  rw [hnil] at hlen
  cases hlen

/-- The name is right exactly if the cached calendar part is. -/
theorem name_eq_iff :
    (getBaseName thread cache now).1 = uncachedName thread now ↔
      (cache.refresh now).time = calendarTime (gmtime now) :=
  fileName_inj

/-- A new key renews the cache. -/
theorem refresh_of_ne (h : key now ≠ cache.lastTime) : cache.refresh now = of now := by
  rw [refresh]
  exact if_pos h

/-- The same key keeps the cache. -/
theorem refresh_of_eq (h : key now = cache.lastTime) : cache.refresh now = cache := by
  rw [refresh]
  exact if_neg (not_not.mpr h)

/-- Behind a right name the next one is right exactly if the text is renewed, and then the
cache is that of the new reading. -/
theorem agrees_of_cons {previous : Reading} {readings : List Reading} :
    Agrees thread (of previous) (now :: readings) ↔
      Renewed previous now ∧ Agrees thread (of now) readings := by
  have hname : (getBaseName thread (of previous) now).1 = uncachedName thread now ↔
      Renewed previous now := by
    rw [name_eq_iff]
    by_cases hkey : key now = key previous
    · rw [refresh_of_eq hkey, Renewed]
      constructor
      · intro htime
        exact .inl (calendarTime_inj htime).symm
      · rintro (hsame | hne)
        · rw [hsame]
          rfl
        · exact absurd hkey hne
    · rw [refresh_of_ne hkey]
      exact ⟨fun _ => .inr hkey, fun _ => rfl⟩
  have hnext : Renewed previous now → (of previous).refresh now = of now := by
    intro hrenewed
    by_cases hkey : key now = key previous
    · rw [refresh_of_eq hkey]
      rcases hrenewed with hsame | hne
      · rw [of, of, hsame]
      · exact absurd hkey hne
    · exact refresh_of_ne hkey
  rw [Agrees, Along, hname]
  refine and_congr_right fun hrenewed => ?_
  rw [← Agrees, ← hnext hrenewed]
  exact ⟨fun h => h _ rfl, fun h cache hcache => Except.ok.inj hcache ▸ h⟩

/-- All names agree exactly if every change of the calendar part comes with a new key. -/
theorem agrees_of_iff_isChain {previous : Reading} {readings : List Reading} :
    Agrees thread (of previous) readings ↔ (previous :: readings).IsChain Renewed := by
  induction readings generalizing previous with
  | nil => exact ⟨fun _ => .singleton _, fun _ => trivial⟩
  | cons now readings ih => rw [agrees_of_cons, List.isChain_cons_cons, ih]

/-- The names are right, whatever the clock reads, exactly if the first reading has not the key
that the cache begins with, and each further one is the same as the one before or has another
key. -/
theorem agrees_iff (thread : LogThread) (readings : List Reading) :
    Agrees thread {} readings ↔
      (∀ first ∈ readings.head?, key first ≠ 0) ∧ readings.IsChain Renewed := by
  cases readings with
  | nil => exact ⟨fun _ => ⟨by simp, .nil⟩, fun _ => trivial⟩
  | cons now readings =>
    have hhead : (∀ first ∈ (now :: readings).head?, key first.1 ≠ 0) ↔ key now ≠ 0 := by simp
    rw [hhead, Agrees, Along, name_eq_iff]
    by_cases hkey : key now = 0
    · rw [refresh_of_eq hkey]
      exact ⟨fun h => absurd h.1.symm (calendarTime_ne_nil now), fun h => absurd hkey h.1⟩
    · rw [← @agrees_of_iff_isChain thread, refresh_of_ne hkey]
      refine and_congr ⟨fun _ => hkey, fun _ => rfl⟩ ?_
      rw [← Agrees, ← @refresh_of_ne {} now hkey]
      exact ⟨fun h => h _ rfl, fun h cache hcache => Except.ok.inj hcache ▸ h⟩

/-- Two successive seconds. -/
theorem not_agrees :
    ¬ Agrees { hostName := [], tid := 1 } {}
      [⟨1700000000, by decide⟩, ⟨1700000001, by decide⟩] := by
  decide +kernel

end

end NameCache

end Reactor
