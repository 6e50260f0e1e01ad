import Reactor.TimerQueue.Exact

/-!
# The alarm of the timer queue

A queued timer is run only when the timer descriptor becomes readable. The alarm is moved
by a timer that is earlier than all others and by the end of `handlerRead`; a
cancellation leaves it where it is, which is early enough.
-/

namespace Reactor

open Transition

namespace TimerQueue

/-- While timers are queued, the alarm is set for an instant that is not after any of
them, or has gone off and waits to be handled. -/
def NoMissedTimer (queue : TimerQueue) : Prop :=
  (∃ e, e ∈ queue.timers) →
    (∃ time, queue.alarm = .armed time ∧ ∀ e ∈ queue.timers, time ≤ e.time) ∨
      queue.alarm = .fired

/-- All expiries are positive timestamps. -/
def Positive (queue : TimerQueue) : Prop := ∀ e ∈ queue.timers, 0 < e.time

/-- The step leaves positive expiries only. -/
def LeavesPositive (queue : TimerQueue) (op : TimerOp) : Prop :=
  ∀ queue', queue.step op = .ok queue' → queue'.Positive

instance (queue : TimerQueue) : Decidable queue.Positive :=
  inferInstanceAs (Decidable (∀ e ∈ queue.timers.toList, 0 < e.time))

instance (queue : TimerQueue) (op : TimerOp) : Decidable (LeavesPositive queue op) :=
  match h : queue.step op with
  | .error _ => .isTrue fun queue' hok => by simp [h] at hok
  | .ok queue' =>
    decidable_of_iff queue'.Positive
      ⟨fun hpositive _ hok => Except.ok.inj (h.symm.trans hok) ▸ hpositive,
        fun hpositive => hpositive queue' h⟩

section

variable {queue queue' : TimerQueue}

/-- A positive time arms the alarm. -/
theorem setTimer_of_pos {time : ℤ} (h : 0 < time) (alarm : Alarm) :
    alarm.setTimer time = .armed time := by
  rw [Alarm.setTimer, if_neg h.ne', if_neg h.not_gt]

/-- An alarm is early enough for fewer timers. -/
theorem NoMissedTimer.mono (h : queue.NoMissedTimer)
    (hsub : ∀ e ∈ queue'.timers, e ∈ queue.timers) (halarm : queue'.alarm = queue.alarm) :
    queue'.NoMissedTimer := by
  rintro ⟨e, he⟩
  rw [halarm]
  refine (h ⟨e, hsub e he⟩).imp_left ?_
  rintro ⟨time, htime, hearly⟩
  exact ⟨time, htime, fun e he => hearly e (hsub e he)⟩

/-- A timer that is not earlier than all others finds the alarm set early enough. -/
theorem NoMissedTimer.addTimer (h : queue.NoMissedTimer) (hsound : queue.Sound) {p : ℕ}
    {timer : Timer} (hfree : queue.heap p = none) (hp : p < intptrMax)
    (hok : queue.call (.addTimer p timer) = .ok queue') (hpositive : queue'.Positive) :
    queue'.NoMissedTimer := by
  have hself : Function.update queue.heap p (some timer) p = some timer := Function.update_self ..
  have hnone : queue.schedule p = none := by simp [schedule, hfree]
  obtain ⟨earliest, hearliest, hadd⟩ := addTimer_ok (hsound.setHeap hnone hp (some timer)) hself
  rw [call, newTimer, if_pos ⟨hfree, hp⟩, ok_bind, hadd] at hok
  obtain rfl := Except.ok.inj hok
  have htime : 0 < timer.time := hpositive _ (OrderedSet.mem_insert.mpr (.inl rfl))
  rintro -
  cases earliest with
  | true =>
    refine .inl ⟨timer.time, setTimer_of_pos htime _, fun e he => ?_⟩
    rcases OrderedSet.mem_insert.mp he with rfl | he
    · exact le_refl _
    · exact (hearliest.mp rfl e he).le
  | false =>
    have hnot : ¬ ∀ e ∈ queue.timers, timer.time < e.time := fun hall =>
      Bool.false_ne_true (hearliest.mpr hall)
    simp only [not_forall, not_lt] at hnot
    obtain ⟨first, hfirst, hle⟩ := hnot
    refine (h ⟨first, hfirst⟩).imp_left ?_
    rintro ⟨time, halarm, hearly⟩
    refine ⟨time, halarm, fun e he => ?_⟩
    rcases OrderedSet.mem_insert.mp he with rfl | he
    · exact (hearly first hfirst).trans hle
    · exact hearly e he

/-- A cancellation does not move the alarm. -/
theorem NoMissedTimer.cancelTimer (h : queue.NoMissedTimer) {p : ℕ}
    (hok : queue.cancelTimer p = .ok queue') : queue'.NoMissedTimer := by
  rw [TimerQueue.cancelTimer] at hok
  split at hok
  · cases hok
  · dsimp only at hok
    split at hok
    · obtain rfl := Except.ok.inj hok
      exact h.mono (fun e he => (OrderedSet.mem_erase.mp he).2) rfl
    · split at hok
      · obtain rfl := Except.ok.inj hok
        exact h.mono (fun e he => he) rfl
      · obtain rfl := Except.ok.inj hok
        exact h

/-- An alarm that expires makes the descriptor readable, so that no timer is missed. -/
theorem NoMissedTimer.expire (h : queue.NoMissedTimer) :
    NoMissedTimer { queue with alarm := queue.alarm.expire } := by
  intro he
  rcases h he with ⟨time, halarm, -⟩ | hfired
  · exact .inr (by simp [halarm, Alarm.expire])
  · exact .inr (by simp [hfired, Alarm.expire])

/-- `reset` sets the alarm for the first timer. -/
theorem noMissedTimer_of_rearm (hok : queue.rearm = .ok queue') (hsound : queue'.Sound)
    (hpositive : queue'.Positive) : queue'.NoMissedTimer := by
  rw [rearm] at hok
  split at hok
  · next hfirst =>
    obtain rfl := Except.ok.inj hok
    rintro ⟨e, he⟩
    exact absurd he (OrderedSet.first?_eq_none.mp hfirst e)
  · next e hfirst =>
    obtain ⟨first, hderef, hreturn⟩ := bind_eq_ok.mp hok
    have hmem := OrderedSet.first?_mem hfirst
    have htimers : queue'.timers = queue.timers ∧ queue'.heap = queue.heap := by
      obtain rfl := Except.ok.inj hreturn
      split <;> exact ⟨rfl, rfl⟩
    have htime : first.time = e.time := by
      obtain ⟨timer, hheap, htime⟩ := hsound.time_eq e (htimers.1 ▸ hmem)
      rw [htimers.2] at hheap
      rw [deref_ok hheap] at hderef
      rwa [← Except.ok.inj hderef]
    have hpos : 0 < first.time := htime ▸ hpositive e (htimers.1 ▸ hmem)
    rintro -
    refine .inl ⟨e.time, ?_, fun e' he' => ?_⟩
    · obtain rfl := Except.ok.inj hreturn
      rw [if_pos hpos.ne', ← htime]
      exact setTimer_of_pos hpos _
    · rw [htimers.1] at he'
      exact TimerEntry.time_le (OrderedSet.first?_le hfirst he')

/-- A step that leaves positive expiries misses no timer. -/
theorem NoMissedTimer.step (h : queue.NoMissedTimer) (hsound : queue.Sound) (op : TimerOp)
    (hok : queue.step op = .ok queue') (hpositive : queue'.Positive) :
    queue'.NoMissedTimer := by
  cases op with
  | call c =>
    cases c with
    | addTimer p timer =>
      by_cases hfresh : queue.heap p = none ∧ p < intptrMax
      · exact h.addTimer hsound hfresh.1 hfresh.2 hok hpositive
      · rw [TimerQueue.step, call, newTimer, if_neg hfresh] at hok
        cases hok
    | cancelTimer p => exact h.cancelTimer hok
    | expire =>
      obtain rfl := Except.ok.inj hok
      exact h.expire
  | handlerRead now callback =>
    have hsound' : queue'.Sound := by
      have hstep := hsound.step (.handlerRead now callback)
      rwa [hok] at hstep
    rw [TimerQueue.step, hsound.handlerRead_eq] at hok
    obtain ⟨ended, -, hreset⟩ := bind_eq_ok.mp hok
    obtain ⟨restored, -, hrearm⟩ := bind_eq_ok.mp hreset
    exact noMissedTimer_of_rearm hrearm hsound' hpositive

end

/-- In every run of a new queue that leaves positive expiries only, whatever the clock
shows and the callbacks do, no timer is missed. -/
theorem no_missed_timer {ops : List TimerOp} (h : Guarded step LeavesPositive {} ops) :
    Always step NoMissedTimer {} ops := by
  refine along_of_guarded (fun queue => queue.Sound ∧ queue.NoMissedTimer) ?_ ?_
    ⟨sound_empty, fun ⟨_, he⟩ => absurd he OrderedSet.notMem_empty⟩ h
  · rintro queue op ⟨hsound, hearly⟩ hpositive queue' hok
    exact hearly.step hsound op hok (hpositive queue' hok)
  · rintro queue op queue' ⟨hsound, hearly⟩ hpositive hok
    refine ⟨?_, hearly.step hsound op hok (hpositive queue' hok)⟩
    have hstep := hsound.step op
    rwa [hok] at hstep

/-- A repeating timer whose callback adds a timer and cancels another one. -/
theorem no_missed_timer_six_steps : Always step NoMissedTimer {}
    [.call (.addTimer 8 ⟨100, 50, true⟩), .call (.addTimer 16 ⟨120, 0, false⟩), .call .expire,
      .handlerRead 110 fun _ => [.addTimer 24 ⟨130, 0, false⟩, .cancelTimer 16],
      .call (.cancelTimer 24), .call .expire] :=
  no_missed_timer (by decide +kernel)

end TimerQueue

end Reactor
