import Reactor.TimerQueue.Lifetime

/-!
# When callbacks are started

`handlerRead` reads the clock once and runs its batch as of that reading. By these readings no
callback is started before its timer expires, and a timer that does not repeat is started once,
wherever the clock jumps. A repeating timer is not started again before the time that `addTime`
makes of the last reading and the interval, which is at most a microsecond before the interval is
over, and not at all for an interval that is at most a quarter of the reading.
-/

namespace Reactor

open Transition

/-- The interval of a timer that repeats. -/
def Timer.period (timer : Timer) : Option ℕ := if timer.repeats then some timer.interval else none

/-- What there is to tell of the timers. -/
inductive TimerMark where
  | created (p : ℕ) (timer : Timer)
  /-- The callback is started by a handler that has read `now`. -/
  | started (p : ℕ) (now : ℤ)
  deriving DecidableEq, Repr

namespace TimerMark

/-- The interval at which the timer repeats. The latest mark comes first. -/
def period (p : ℕ) : List TimerMark → Option ℕ
  | [] => none
  | .created p' timer :: marks => if p' = p then timer.period else period p marks
  | .started _ _ :: marks => period p marks

/-- The time before which the callback is not to be started. -/
def earliest (p : ℕ) : List TimerMark → Option ℤ
  | [] => none
  | .created p' timer :: marks => if p' = p then some timer.time else earliest p marks
  | .started p' now :: marks =>
    if p' = p then (period p marks).map fun n => addTime now (inSeconds n) else earliest p marks

/-- No callback is started too early, or once more than it should. -/
def OnTime : List TimerMark → Prop
  | [] => True
  | .created _ _ :: marks => OnTime marks
  | .started p now :: marks => (∃ time, earliest p marks = some time ∧ time ≤ now) ∧ OnTime marks

end TimerMark

/-- The reading of the clock by which the handler goes. -/
def HandlerPoint.reading : HandlerPoint → Option ℤ
  | .outside => none
  | .running now _ _ | .callback now _ _ | .resetting now _ => some now

namespace TimerRun

open TimerMark

/-- What there is to tell of a step. -/
def marks (s : TimerRun) : TimerAction → List TimerMark
  | .call (.addTimer p timer) => [.created p timer]
  | .runNext =>
    match s.point with
    | .running now _ (e :: _) => [.started e.timer now]
    | _ => []
  | _ => []

/-- The marks tell the time of the timer at a place. -/
def Tells (point : HandlerPoint) (told : List TimerMark) (p : ℕ) : TimerPlace → Prop
  | .queued timer => period p told = timer.period ∧ earliest p told = some timer.time
  | .taken timer => period p told = timer.period ∧ ∀ now, point.reading = some now →
    (p ∈ point.waiting → earliest p told = some timer.time ∧ timer.time ≤ now) ∧
      (p ∉ point.waiting → earliest p told = timer.period.map fun n => addTime now (inSeconds n))
  | .free | .lost _ => True

/-- What runs keep. -/
structure Timed (s : TimerRun) (told : List TimerMark) : Prop extends Kept s where
  onTime : OnTime told
  waiting_nodup : s.point.waiting.Nodup
  tells : ∀ p, Tells s.point told p (s.place p)

section

variable {s t : TimerRun} {a : TimerAction} {p : ℕ} {told : List TimerMark}

/-- What is told of a timer depends on the marks of that timer, its turn and the reading. -/
theorem Tells.congr {point point' : HandlerPoint} {told' : List TimerMark} {place : TimerPlace}
    (h : Tells point told p place) (hreading : point'.reading = point.reading)
    (hwaiting : p ∈ point'.waiting ↔ p ∈ point.waiting)
    (hperiod : period p told' = period p told)
    (hearliest : earliest p told' = earliest p told) : Tells point' told' p place := by
  cases place with
  | free | lost timer => trivial
  | queued timer =>
    rw [Tells, hperiod, hearliest]
    exact h
  | taken timer =>
    rw [Tells, hperiod, hearliest, hreading]
    simp only [hwaiting]
    exact h

/-- A call keeps the timers in time, with its mark. -/
theorem Timed.call (h : s.Timed told) {c : TimerCall} (hok : s.step (.call c) = .ok t)
    (hkept : t.Kept) (hpoint : t.point = s.point) : t.Timed (s.marks (.call c) ++ told) := by
  refine ⟨hkept, ?_, by rw [hpoint]; exact h.waiting_nodup, fun p => ?_⟩
  · cases c <;> exact h.onTime
  · rw [h.place_step hok p, hpoint]
    have hp := h.tells p
    cases c with
    | addTimer p' timer =>
      by_cases hne : p' = p
      · subst hne
        rw [advance, if_pos rfl]
        exact ⟨if_pos rfl, if_pos rfl⟩
      · rw [advance, if_neg hne]
        exact hp.congr rfl Iff.rfl (if_neg hne) (if_neg hne)
    | cancelTimer p' =>
      cases hplace : s.place p with
      | queued timer =>
        rw [hplace] at hp
        rw [advance]
        split
        · trivial
        · exact hp
      | free | taken timer | lost timer =>
        rw [hplace] at hp
        exact hp
    | expire =>
      rw [advance]
      · exact hp
      all_goals simp

/-- The timers that the batch takes are due. -/
theorem Timed.begin (h : s.Timed told) (hpoint : s.point = .outside) {now : ℤ}
    (hok : s.step (.handlerRead now) = .ok t) (hkept : t.Kept) : t.Timed told := by
  have hbegin := (h.toKept.begin now).1
  have hplace := fun p => h.place_step hok p
  rw [TimerRun.step, hpoint] at hok
  obtain rfl := Except.ok.inj (hbegin.symm.trans hok)
  refine ⟨hkept, h.onTime, h.sound.batch_nodup, fun p => ?_⟩
  have hp := h.tells p
  rw [hplace p]
  cases hcases : s.place p with
  | free | lost timer => trivial
  | queued timer =>
    rw [hcases] at hp
    rw [advance]
    split
    · next hdue =>
      refine ⟨hp.1, fun now' hreading => ?_⟩
      obtain rfl := Option.some.inj hreading
      have hin : p ∈ (s.queue.batch now).map TimerEntry.timer :=
        h.sound.mem_batch_timers.mpr ⟨timer, schedule_eq_of_place hcases, hdue⟩
      exact ⟨fun _ => ⟨hp.2, hdue⟩, fun hout => absurd hin hout⟩
    · exact hp
  | taken timer =>
    -- Outside the handler there is no batch.
    have hin := mem_batch_of_place hcases
    rw [hpoint] at hin
    cases hin

/-- A callback is started when its turn comes, which is not before its time. -/
theorem Timed.runNext (h : s.Timed told) {now : ℤ} {expired todo : List TimerEntry}
    {e : TimerEntry} (hpoint : s.point = .running now expired (e :: todo))
    (hok : s.step .runNext = .ok t) (hkept : t.Kept) :
    t.Timed (.started e.timer now :: told) := by
  have hplace := fun p => h.place_step hok p
  have hnodup := h.waiting_nodup
  have hin : e.timer ∈ s.point.waiting := by
    rw [hpoint]
    exact List.mem_cons_self
  obtain ⟨hlive, hnone⟩ := h.held e.timer (h.waiting_subset hin)
  obtain ⟨timer, htimer⟩ := Option.ne_none_iff_exists'.mp hlive
  have htold := h.tells e.timer
  rw [place_of_taken htimer hnone (h.waiting_subset hin)] at htold
  obtain ⟨hperiod, htime⟩ := htold
  have htime := (htime now (by rw [hpoint]; rfl)).1 hin
  rw [TimerRun.step, hpoint] at hok
  obtain rfl := Except.ok.inj ((h.runNext_cons hpoint).1.symm.trans hok)
  rw [hpoint] at hnodup
  obtain ⟨hout, hnodup⟩ := List.nodup_cons.mp hnodup
  refine ⟨hkept, ⟨⟨timer.time, htime⟩, h.onTime⟩, hnodup, fun p => ?_⟩
  rw [hplace p]
  by_cases hp : e.timer = p
  · subst hp
    rw [place_of_taken htimer hnone (h.waiting_subset hin)]
    refine ⟨hperiod, fun now' hreading => ?_⟩
    obtain rfl := Option.some.inj hreading
    have hstarted : earliest e.timer (.started e.timer now :: told) =
        (period e.timer told).map fun n => addTime now (inSeconds n) := if_pos rfl
    exact ⟨fun hin => absurd hin hout, fun _ => by rw [hstarted, hperiod]⟩
  · refine (h.tells p).congr (by rw [hpoint]; rfl) ?_ rfl (if_neg hp)
    rw [hpoint]
    exact (or_iff_right (Ne.symm hp)).symm.trans List.mem_cons.symm

/-- A timer that is put back waits for its interval. -/
theorem Timed.resetNext (h : s.Timed told) {now : ℤ} {todo : List TimerEntry}
    (hpoint : s.point = .resetting now todo) (hok : s.step .resetNext = .ok t) (hkept : t.Kept)
    (hwaiting : t.point.waiting = [])
    (hreading : ∀ now', t.point.reading = some now' → now' = now) : t.Timed told := by
  refine ⟨hkept, h.onTime, by simp [hwaiting], fun p => ?_⟩
  have hp := h.tells p
  rw [h.place_step hok p]
  cases hcases : s.place p with
  | free | lost timer => trivial
  | queued timer =>
    rw [hcases] at hp
    exact hp
  | taken timer =>
    rw [hcases] at hp
    obtain ⟨hperiod, htime⟩ := hp
    have hlater : earliest p told = timer.period.map fun n => addTime now (inSeconds n) :=
      (htime now (by rw [hpoint]; rfl)).2 (by rw [hpoint]; exact List.not_mem_nil)
    have hstays : Tells t.point told p (.taken timer) := by
      refine ⟨hperiod, fun now' hnow => ⟨fun hin => ?_, fun _ => ?_⟩⟩
      · rw [hwaiting] at hin
        cases hin
      · rw [hreading now' hnow]
        exact hlater
    rw [advance, hpoint]
    split
    · next now' e todo' heq =>
      obtain ⟨rfl, rfl⟩ := HandlerPoint.resetting.inj heq
      split
      · split
        · next hkept =>
          refine ⟨hperiod, ?_⟩
          rw [hlater, Timer.period, if_pos hkept.1, Timer.resetTimer, if_pos hkept.1]
          rfl
        · trivial
      · exact hstays
    · exact hstays

/-- Every step tells of timers on time. -/
theorem Timed.step (h : s.Timed told) (hok : s.step a = .ok t) : t.Timed (s.marks a ++ told) := by
  have hstep := h.toKept.step a
  rw [hok] at hstep
  obtain ⟨hkept, heffect⟩ := hstep
  cases a with
  | call c => exact h.call hok hkept heffect.1
  | handlerRead now =>
    cases hpoint : s.point with
    | outside => exact h.begin hpoint hok hkept
    | running now' expired todo | callback now' expired todo | resetting now' todo =>
      rw [TimerRun.step, hpoint] at hok
      cases hok
  | runNext =>
    cases hpoint : s.point with
    | running now expired todo =>
      cases todo with
      | nil =>
        have hplace := fun p => h.place_step hok p
        rw [TimerRun.step, hpoint] at hok
        obtain rfl := Except.ok.inj hok
        have hmarks : s.marks .runNext = [] := by rw [marks, hpoint]
        rw [hmarks, List.nil_append]
        refine ⟨hkept, h.onTime, .nil, fun p => ?_⟩
        rw [hplace p]
        exact (h.tells p).congr (by rw [hpoint]; rfl) (by rw [hpoint]; rfl) rfl rfl
      | cons e todo =>
        have hmarks : s.marks .runNext = [.started e.timer now] := by rw [marks, hpoint]
        rw [hmarks]
        exact h.runNext hpoint hok hkept
    | outside | callback now' expired todo | resetting now' todo =>
      rw [TimerRun.step, hpoint] at hok
      cases hok
  | callbackReturns =>
    have hplace := fun p => h.place_step hok p
    cases hpoint : s.point with
    | callback now expired todo =>
      rw [TimerRun.step, hpoint] at hok
      obtain rfl := Except.ok.inj hok
      have hnodup := h.waiting_nodup
      rw [hpoint] at hnodup
      refine ⟨hkept, h.onTime, hnodup, fun p => ?_⟩
      rw [hplace p]
      exact (h.tells p).congr (by rw [hpoint]; rfl) (by rw [hpoint]; rfl) rfl rfl
    | outside | running now' expired todo | resetting now' todo =>
      rw [TimerRun.step, hpoint] at hok
      cases hok
  | resetNext =>
    cases hpoint : s.point with
    | resetting now todo =>
      refine h.resetNext hpoint hok hkept heffect.1 fun now' hnow => ?_
      rw [TimerRun.step, hpoint] at hok
      cases todo with
      | nil =>
        obtain ⟨queue, -, hok⟩ := bind_eq_ok.mp hok
        obtain rfl := Except.ok.inj hok
        cases hnow
      | cons e todo =>
        obtain ⟨queue, -, hok⟩ := bind_eq_ok.mp hok
        obtain rfl := Except.ok.inj hok
        exact (Option.some.inj hnow).symm
    | outside | running now' expired todo | callback now' expired todo =>
      rw [TimerRun.step, hpoint] at hok
      cases hok

end

end TimerRun

end Reactor
