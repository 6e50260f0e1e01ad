import Reactor.TimerQueue.Basic

/-!
# Schedules

A schedule says which timers are queued and with which expiry; this is what the timer
queue stands for. A call changes it at the address that it names, so that a sequence of
calls has at an address the effect of those that name it.
-/

namespace Reactor

open Transition

/-- The queued timers. -/
abbrev Schedule := ℕ → Option Timer

namespace Schedule

/-- The effect of a call. -/
def call (schedule : Schedule) : TimerCall → Schedule
  | .addTimer p timer => Function.update schedule p (some timer)
  | .cancelTimer p => Function.update schedule p none
  | .expire => schedule

/-- The timer is queued with an expiry that is not after `now`. -/
def Due (schedule : Schedule) (now : ℤ) (p : ℕ) : Prop :=
  ∃ timer, schedule p = some timer ∧ timer.time ≤ now

/-- The effect of `handlerRead`: the timers that are due run in the order of their
expiry, those of them that repeat and have not been cancelled are queued again for the time
that `next` makes of their interval, and the others change by the calls of the callbacks only. -/
structure Fires (next : ℕ → ℤ) (before : Schedule) (now : ℤ) (callback : ℕ → List TimerCall)
    (batch : List ℕ) (after : Schedule) : Prop where
  nodup : batch.Nodup
  due_iff : ∀ p, p ∈ batch ↔ before.Due now p
  ordered : batch.Pairwise fun p p' => ∀ timer ∈ before p, ∀ timer' ∈ before p',
    timer.time ≤ timer'.time
  repeating : ∀ p ∈ batch, ∀ timer ∈ before p, timer.repeats = true →
    .cancelTimer p ∉ batch.flatMap callback →
      after p = some { timer with time := next timer.interval }
  released : ∀ p ∈ batch, ∀ timer ∈ before p,
    (timer.repeats = false ∨ .cancelTimer p ∈ batch.flatMap callback) → after p = none
  others : ∀ p ∉ batch, after p = (batch.flatMap callback).foldl call before p

/-- The timer is to be put back: it is due, repeats, and is not cancelled by a callback of a
timer that is due. -/
def Returns (schedule : Schedule) (now : ℤ) (callback : ℕ → List TimerCall) (p : ℕ)
    (timer : Timer) : Prop :=
  schedule p = some timer ∧ timer.time ≤ now ∧ timer.repeats = true ∧
    ∀ p', schedule.Due now p' → .cancelTimer p ∉ callback p'

namespace Fires

variable {next next' : ℕ → ℤ} {before after : Schedule} {now : ℤ} {callback : ℕ → List TimerCall}
  {batch batch' : List ℕ} {p : ℕ} {timer : Timer}

/-- The timers that are put back, in terms of the batch. -/
theorem returns_iff (h : before.Fires next now callback batch after) :
    before.Returns now callback p timer ↔ p ∈ batch ∧ before p = some timer ∧
      timer.repeats = true ∧ .cancelTimer p ∉ batch.flatMap callback := by
  have hcancel : .cancelTimer p ∉ batch.flatMap callback ↔
      ∀ p', before.Due now p' → .cancelTimer p ∉ callback p' := by
    rw [List.mem_flatMap, not_exists]
    refine forall_congr' fun p' => ?_
    rw [not_and, h.due_iff]
  rw [Returns, hcancel, h.due_iff, Due]
  constructor
  · rintro ⟨hp, htime, hrepeats, hkept⟩
    exact ⟨⟨timer, hp, htime⟩, hp, hrepeats, hkept⟩
  · rintro ⟨⟨timer', hp', htime⟩, hp, hrepeats, hkept⟩
    obtain rfl := Option.some.inj (hp'.symm.trans hp)
    exact ⟨hp, htime, hrepeats, hkept⟩

/-- The times of the timers that are put back are all that `next` decides. -/
theorem congr (h : before.Fires next now callback batch after)
    (hnext : ∀ p timer, before.Returns now callback p timer →
      next timer.interval = next' timer.interval) :
    before.Fires next' now callback batch after where
  nodup := h.nodup
  due_iff := h.due_iff
  ordered := h.ordered
  repeating p hp timer htimer hrepeats hkept := by
    rw [← hnext p timer (h.returns_iff.mpr ⟨hp, htimer, hrepeats, hkept⟩)]
    exact h.repeating p hp timer htimer hrepeats hkept
  released := h.released
  others := h.others

/-- The effect tells for which time a timer is put back. -/
theorem next_eq (h : before.Fires next now callback batch after)
    (h' : before.Fires next' now callback batch' after)
    (hreturns : before.Returns now callback p timer) :
    next timer.interval = next' timer.interval := by
  obtain ⟨hp, htimer, hrepeats, hkept⟩ := h.returns_iff.mp hreturns
  obtain ⟨hp', -, -, hkept'⟩ := h'.returns_iff.mp hreturns
  have hsame := (h.repeating p hp timer htimer hrepeats hkept).symm.trans
    (h'.repeating p hp' timer htimer hrepeats hkept')
  exact congrArg Timer.time (Option.some.inj hsame)

end Fires

/-- A call acts on each address alone. -/
theorem call_congr {schedule schedule' : Schedule} {p : ℕ} (h : schedule p = schedule' p)
    (c : TimerCall) : schedule.call c p = schedule'.call c p := by
  cases c with
  | addTimer p' timer =>
    by_cases hp : p = p'
    · subst hp
      simp [call]
    · simpa [call, hp] using h
  | cancelTimer p' =>
    by_cases hp : p = p'
    · subst hp
      simp [call]
    · simpa [call, hp] using h
  | expire => exact h

/-- What a sequence of calls does to a timer does not depend on the others. -/
theorem foldl_call_congr {schedule schedule' : Schedule} {p : ℕ} (h : schedule p = schedule' p)
    (calls : List TimerCall) : calls.foldl call schedule p = calls.foldl call schedule' p := by
  induction calls generalizing schedule schedule' with
  | nil => exact h
  | cons c calls ih => exact ih (call_congr h c)

end Schedule

namespace TimerQueue

/-- The timers of the set, which are queued under their own expiry. -/
def schedule (queue : TimerQueue) : Schedule := fun p =>
  (queue.heap p).filter fun timer => timerEntry timer.time p ∈ queue.timers

/-- A timer is scheduled if it exists and its entry is in the set. -/
theorem schedule_eq_some {queue : TimerQueue} {p : ℕ} {timer : Timer} :
    queue.schedule p = some timer ↔
      queue.heap p = some timer ∧ timerEntry timer.time p ∈ queue.timers := by
  simp [schedule, Option.filter_eq_some_iff]

/-- A timer is not scheduled if its entry is not in the set. -/
theorem schedule_eq_none {queue : TimerQueue} {p : ℕ} :
    queue.schedule p = none ↔
      ∀ timer, queue.heap p = some timer → timerEntry timer.time p ∉ queue.timers := by
  simp [schedule, Option.filter_eq_none_iff]

/-- Every entry carries the expiry of its timer, and no timer has two entries. -/
structure Consistent (queue : TimerQueue) : Prop where
  time_eq : ∀ e ∈ queue.timers, ∃ timer, queue.heap e.timer = some timer ∧ timer.time = e.time
  nodup : (queue.timers.toList.map TimerEntry.timer).Nodup

/-- The invariant of the queue, also while callbacks run. -/
structure Sound (queue : TimerQueue) : Prop where
  time_eq : ∀ e ∈ queue.timers, ∃ timer, queue.heap e.timer = some timer ∧ timer.time = e.time
  address_lt : ∀ p, queue.heap p ≠ none → p < intptrMax

section

variable {queue : TimerQueue} {p : ℕ} {timer : Timer}

/-- An entry belongs to the queued timer with its address and expiry. -/
theorem Sound.mem_iff (h : queue.Sound) {e : TimerEntry} :
    e ∈ queue.timers ↔ ∃ timer, queue.schedule e.timer = some timer ∧ timer.time = e.time := by
  constructor
  · intro he
    obtain ⟨timer, hheap, htime⟩ := h.time_eq e he
    refine ⟨timer, schedule_eq_some.mpr ⟨hheap, ?_⟩, htime⟩
    rwa [htime, timerEntry_eq]
  · rintro ⟨timer, hschedule, htime⟩
    have hmem := (schedule_eq_some.mp hschedule).2
    rwa [htime, timerEntry_eq] at hmem

/-- No entry belongs to a timer that is not scheduled. -/
theorem Sound.timer_ne (h : queue.Sound) (hnone : queue.schedule p = none) {e : TimerEntry}
    (he : e ∈ queue.timers) : e.timer ≠ p := by
  rintro rfl
  obtain ⟨timer, hschedule, -⟩ := h.mem_iff.mp he
  rw [hnone] at hschedule
  cases hschedule

/-- No timer has two entries. -/
theorem Sound.eq_of_timer_eq (h : queue.Sound) {e e' : TimerEntry} (he : e ∈ queue.timers)
    (he' : e' ∈ queue.timers) (htimer : e.timer = e'.timer) : e = e' := by
  obtain ⟨timer, hheap, htime⟩ := h.time_eq e he
  obtain ⟨timer', hheap', htime'⟩ := h.time_eq e' he'
  rw [htimer, hheap'] at hheap
  obtain rfl := Option.some.inj hheap
  rw [← timerEntry_eq e, ← timerEntry_eq e', ← htime, ← htime', htimer]

/-- A sound queue is consistent. -/
theorem Sound.consistent (h : queue.Sound) : queue.Consistent where
  time_eq := h.time_eq
  nodup := queue.timers.nodup.map_on fun _ he _ he' => h.eq_of_timer_eq he he'

/-- The schedule changes where the heap or the entry of a timer does. -/
theorem schedule_congr {queue' : TimerQueue} (hheap : queue'.heap p = queue.heap p)
    (hmem : ∀ time, timerEntry time p ∈ queue'.timers ↔ timerEntry time p ∈ queue.timers) :
    queue'.schedule p = queue.schedule p := by
  simp [schedule, hheap, hmem]

/-- Inserting the entry of a timer schedules it. -/
theorem schedule_insert (queue : TimerQueue) (hp : queue.heap p = some timer) :
    schedule { queue with timers := queue.timers.insert (timerEntry timer.time p) } =
      Function.update queue.schedule p (some timer) := by
  funext p'
  by_cases hne : p' = p
  · subst hne
    rw [Function.update_self, schedule_eq_some]
    exact ⟨hp, OrderedSet.mem_insert.mpr (.inl rfl)⟩
  · rw [Function.update_of_ne hne]
    refine schedule_congr rfl fun time => ?_
    rw [OrderedSet.mem_insert]
    exact or_iff_right fun heq => hne (timerEntry_inj heq).2

/-- Erasing the entry of a timer takes it from the schedule. -/
theorem schedule_erase (hp : queue.heap p = some timer) :
    schedule { queue with timers := queue.timers.erase (timerEntry timer.time p) } =
      Function.update queue.schedule p none := by
  funext p'
  by_cases hne : p' = p
  · subst hne
    rw [Function.update_self, schedule_eq_none]
    rintro timer' hp' hmem
    obtain rfl := Option.some.inj (hp.symm.trans hp')
    exact (OrderedSet.mem_erase.mp hmem).1 rfl
  · rw [Function.update_of_ne hne]
    refine schedule_congr rfl fun time => ?_
    rw [OrderedSet.mem_erase]
    exact and_iff_right fun heq => hne (timerEntry_inj heq).2

/-- Inserting the entry of a timer keeps the queue sound. -/
theorem Sound.insert (h : queue.Sound) (hp : queue.heap p = some timer) :
    Sound { queue with timers := queue.timers.insert (timerEntry timer.time p) } where
  time_eq e he := by
    rcases OrderedSet.mem_insert.mp he with rfl | he
    · exact ⟨timer, hp, rfl⟩
    · exact h.time_eq e he
  address_lt := h.address_lt

/-- Erasing an entry keeps the queue sound. -/
theorem Sound.erase (h : queue.Sound) (e : TimerEntry) :
    Sound { queue with timers := queue.timers.erase e } where
  time_eq e' he' := h.time_eq e' (OrderedSet.mem_erase.mp he').2
  address_lt := h.address_lt

/-- A timer that exists can be read. -/
theorem deref_ok (hp : queue.heap p = some timer) : queue.deref p = .ok timer := by
  simp only [deref, hp]

/-- `insert` asks whether the timer is earlier than all that are queued. -/
theorem Sound.insert_ok (h : queue.Sound) (hp : queue.heap p = some timer) :
    ∃ earliest, queue.insert p =
        .ok (earliest, { queue with timers := queue.timers.insert (timerEntry timer.time p) }) ∧
      (earliest = true ↔ ∀ e ∈ queue.timers, timer.time < e.time) := by
  rw [TimerQueue.insert, deref_ok hp, ok_bind, isEarliest]
  cases hfirst : queue.timers.first? with
  | none =>
    refine ⟨true, rfl, ?_⟩
    have hempty := OrderedSet.first?_eq_none.mp hfirst
    simp [hempty]
  | some e =>
    have he := OrderedSet.first?_mem hfirst
    obtain ⟨first, hheap, htime⟩ := h.time_eq e he
    refine ⟨decide (timer.time < first.time), by simp [deref_ok hheap], ?_⟩
    rw [decide_eq_true_iff, htime]
    constructor
    · intro hlt e' he'
      exact hlt.trans_le (TimerEntry.time_le (OrderedSet.first?_le hfirst he'))
    · intro hall
      exact hall e he

end

end TimerQueue

end Reactor
