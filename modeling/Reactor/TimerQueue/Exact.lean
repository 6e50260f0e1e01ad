import Reactor.TimerQueue.Callbacks

/-!
# Exactness of the timer queue

`handlerRead` runs the timers that are due, each once and in the order of their expiry,
and puts those back that repeat and have not been cancelled, for the time that `addTime` gives.
All other timers change by explicit calls only. That time is the sum of the reading of the clock
and the interval if and only if the roundings of `addTime` do not show.
-/

namespace Reactor

open Transition

namespace TimerQueue

section

variable {queue : TimerQueue} {now : ℤ}

/-! ## Taking the batch -/

/-- The sentinel cuts off the entries that are due, since no timer lies at its address. -/
theorem Sound.lt_sentinel_iff (h : queue.Sound) {e : TimerEntry} (he : e ∈ queue.timers) :
    e < timerEntry now intptrMax ↔ e.time ≤ now := by
  obtain ⟨timer, hheap, -⟩ := h.time_eq e he
  have hlt := h.address_lt e.timer (by simp [hheap])
  rw [TimerEntry.lt_timerEntry, le_iff_lt_or_eq]
  simp [hlt]

/-- `getExpired` takes the entries below the sentinel, and its assertion holds. -/
theorem Sound.getExpired_ok (h : queue.Sound) (now : ℤ) :
    queue.getExpired now = .ok (queue.timers.below (timerEntry now intptrMax),
      { queue with timers := queue.timers.dropBelow (timerEntry now intptrMax) }) := by
  rw [getExpired, if_pos]
  cases hfirst : (queue.timers.dropBelow (timerEntry now intptrMax)).first? with
  | none => rfl
  | some e =>
    obtain ⟨he, hle⟩ := OrderedSet.mem_dropBelow.mp (OrderedSet.first?_mem hfirst)
    have hlater : ¬ e.time ≤ now := fun hdue => ((h.lt_sentinel_iff he).mpr hdue).not_ge hle
    simpa using hlater

/-- A queue from whose front entries are taken stays sound. -/
theorem Sound.dropBelow (h : queue.Sound) (x : TimerEntry) :
    Sound { queue with timers := queue.timers.dropBelow x } where
  time_eq e he := h.time_eq e (OrderedSet.mem_dropBelow.mp he).1
  address_lt := h.address_lt

/-- The batch of expired entries. -/
def batch (queue : TimerQueue) (now : ℤ) : List TimerEntry :=
  queue.timers.below (timerEntry now intptrMax)

/-- The batch are the timers that are due. -/
theorem Sound.mem_batch (h : queue.Sound) {e : TimerEntry} :
    e ∈ queue.batch now ↔ e ∈ queue.timers ∧ e.time ≤ now := by
  rw [batch, OrderedSet.mem_below]
  exact and_congr_right fun he => h.lt_sentinel_iff he

/-- The timers of the batch are those that are due. -/
theorem Sound.mem_batch_timers (h : queue.Sound) {p : ℕ} :
    p ∈ (queue.batch now).map TimerEntry.timer ↔ queue.schedule.Due now p := by
  rw [List.mem_map]
  constructor
  · rintro ⟨e, he, rfl⟩
    obtain ⟨hmem, hdue⟩ := h.mem_batch.mp he
    obtain ⟨timer, hschedule, htime⟩ := h.mem_iff.mp hmem
    exact ⟨timer, hschedule, htime ▸ hdue⟩
  · rintro ⟨timer, hschedule, hdue⟩
    exact ⟨timerEntry timer.time p, h.mem_batch.mpr ⟨(schedule_eq_some.mp hschedule).2, hdue⟩, rfl⟩

/-- No timer is in the batch twice. -/
theorem Sound.batch_nodup (h : queue.Sound) :
    ((queue.batch now).map TimerEntry.timer).Nodup := by
  have hnodup : (queue.batch now).Nodup := (queue.timers.below_sorted _).imp ne_of_lt
  exact hnodup.map_on fun _ he _ he' =>
    h.eq_of_timer_eq (h.mem_batch.mp he).1 (h.mem_batch.mp he').1

/-- The batch is in the order of the expiries. -/
theorem Sound.batch_ordered (h : queue.Sound) :
    ((queue.batch now).map TimerEntry.timer).Pairwise fun p p' =>
      ∀ timer ∈ queue.schedule p, ∀ timer' ∈ queue.schedule p', timer.time ≤ timer'.time := by
  rw [List.pairwise_map]
  refine ((queue.timers.below_sorted _).imp_of_mem ?_)
  intro e e' he he' hlt timer hp timer' hp'
  obtain ⟨timer₁, hschedule, htime⟩ := h.mem_iff.mp (h.mem_batch.mp he).1
  obtain ⟨timer₂, hschedule', htime'⟩ := h.mem_iff.mp (h.mem_batch.mp he').1
  obtain rfl := Option.some.inj (hschedule.symm.trans hp)
  obtain rfl := Option.some.inj (hschedule'.symm.trans hp')
  rw [htime, htime']
  exact TimerEntry.time_le hlt.le

/-- Without the batch the schedule is the same elsewhere. -/
theorem Sound.schedule_dropBelow (h : queue.Sound) (p : ℕ) :
    schedule { queue with timers := queue.timers.dropBelow (timerEntry now intptrMax) } p =
      if p ∈ (queue.batch now).map TimerEntry.timer then none else queue.schedule p := by
  split
  · next hp =>
    obtain ⟨timer, hschedule, hdue⟩ := h.mem_batch_timers.mp hp
    rw [schedule_eq_none]
    intro timer' hheap hmem
    obtain rfl := Option.some.inj ((schedule_eq_some.mp hschedule).1.symm.trans hheap)
    obtain ⟨hmem, hle⟩ := OrderedSet.mem_dropBelow.mp hmem
    exact ((h.lt_sentinel_iff hmem).mpr hdue).not_ge hle
  · next hp =>
    cases hschedule : queue.schedule p with
    | none =>
      rw [schedule_eq_none] at hschedule ⊢
      exact fun timer hheap hmem => hschedule timer hheap (OrderedSet.mem_dropBelow.mp hmem).1
    | some timer =>
      obtain ⟨hheap, hmem⟩ := schedule_eq_some.mp hschedule
      refine schedule_eq_some.mpr ⟨hheap, OrderedSet.mem_dropBelow.mpr ⟨hmem, ?_⟩⟩
      refine not_lt.mp fun hlt => hp (h.mem_batch_timers.mpr ⟨timer, hschedule, ?_⟩)
      exact (h.lt_sentinel_iff hmem).mp hlt

/-! ## Putting the batch back -/

/-- What `reset` makes of a timer of the batch. -/
def putBack (now : ℤ) (queue : TimerQueue) (p : ℕ) (timer : Timer) : Option Timer :=
  if timer.repeats ∧ p ∉ queue.cancelTimers then some (timer.resetTimer now) else none

/-- The loop of `reset` handles one timer. -/
theorem Sound.resetEntry (h : queue.Sound) (now : ℤ) {e : TimerEntry} {timer : Timer}
    (hp : queue.heap e.timer = some timer) (hnone : queue.schedule e.timer = none) :
    ∃ queue', resetEntry now queue e = .ok queue' ∧ queue'.Sound ∧
      queue'.ran = queue.ran ∧ queue'.cancelTimers = queue.cancelTimers ∧
      queue'.schedule e.timer = queue.putBack now e.timer timer ∧
      ∀ p ≠ e.timer, queue'.heap p = queue.heap p ∧ queue'.schedule p = queue.schedule p := by
  have hbound := h.address_lt e.timer (by simp [hp])
  rw [TimerQueue.resetEntry, deref_ok hp, ok_bind, putBack]
  split
  · have hself : Function.update queue.heap e.timer (some (timer.resetTimer now)) e.timer =
        some (timer.resetTimer now) := Function.update_self ..
    have hsound := h.setHeap hnone hbound (some (timer.resetTimer now))
    obtain ⟨earliest, hinsert, -⟩ := hsound.insert_ok hself
    have hschedule := schedule_insert { queue with
      heap := Function.update queue.heap e.timer (some (timer.resetTimer now)) } hself
    rw [h.schedule_setHeap hnone] at hschedule
    rw [hinsert]
    refine ⟨_, rfl, hsound.insert hself, rfl, rfl, ?_, fun p hne => ⟨?_, ?_⟩⟩
    · exact (congrFun hschedule e.timer).trans (Function.update_self ..)
    · exact Function.update_of_ne hne ..
    · exact (congrFun hschedule p).trans (Function.update_of_ne hne ..)
  · have hschedule := h.schedule_setHeap hnone none
    refine ⟨_, rfl, h.setHeap hnone hbound none, rfl, rfl, ?_, fun p hne => ⟨?_, ?_⟩⟩
    · exact (congrFun hschedule e.timer).trans hnone
    · exact Function.update_of_ne hne ..
    · exact congrFun hschedule p

/-- The loop of `reset` handles the batch. -/
theorem Sound.run_resetEntry (h : queue.Sound) (now : ℤ) {expired : List TimerEntry}
    (hnodup : (expired.map TimerEntry.timer).Nodup)
    (hlive : ∀ e ∈ expired, queue.heap e.timer ≠ none ∧ queue.schedule e.timer = none) :
    ∃ queue', run (TimerQueue.resetEntry now) queue expired = .ok queue' ∧ queue'.Sound ∧
      queue'.ran = queue.ran ∧
      (∀ e ∈ expired, ∀ timer, queue.heap e.timer = some timer →
        queue'.schedule e.timer = queue.putBack now e.timer timer) ∧
      ∀ p ∉ expired.map TimerEntry.timer, queue'.schedule p = queue.schedule p := by
  induction expired generalizing queue with
  | nil => exact ⟨queue, rfl, h, rfl, by simp, fun _ _ => rfl⟩
  | cons e expired ih =>
    obtain ⟨hmem, hnodup⟩ := List.nodup_cons.mp hnodup
    obtain ⟨hheap, hnone⟩ := hlive e List.mem_cons_self
    obtain ⟨timer, hp⟩ := Option.ne_none_iff_exists'.mp hheap
    obtain ⟨queue₁, hok, hsound, hran, hcancel, hback, hframe⟩ := h.resetEntry now hp hnone
    have hne : ∀ e' ∈ expired, e'.timer ≠ e.timer := fun e' he' heq =>
      hmem (heq ▸ List.mem_map_of_mem he')
    obtain ⟨queue₂, hok₂, hsound₂, hran₂, hback₂, hframe₂⟩ := ih hsound hnodup fun e' he' => by
      rw [(hframe _ (hne e' he')).1, (hframe _ (hne e' he')).2]
      exact hlive e' (List.mem_cons_of_mem e he')
    refine ⟨queue₂, by simpa only [run, hok] using hok₂, hsound₂, hran₂.trans hran,
      fun e' he' timer' hp' => ?_, fun p hp' => ?_⟩
    · rcases List.mem_cons.mp he' with rfl | he'
      · obtain rfl := Option.some.inj (hp.symm.trans hp')
        rw [hframe₂ _ hmem, hback]
      · rw [hback₂ e' he' timer' (by rwa [(hframe _ (hne e' he')).1]), putBack, putBack, hcancel]
    · rw [List.map_cons, List.mem_cons, not_or] at hp'
      rw [hframe₂ p hp'.2, (hframe p hp'.1).2]

/-- The end of `reset` concerns the alarm only. -/
theorem Sound.rearm_ok (h : queue.Sound) :
    ∃ alarm, queue.rearm = .ok { queue with alarm } := by
  rw [rearm]
  cases hfirst : queue.timers.first? with
  | none => exact ⟨_, rfl⟩
  | some e =>
    obtain ⟨first, hheap, -⟩ := h.time_eq e (OrderedSet.first?_mem hfirst)
    simp only [deref_ok hheap, ok_bind, pure_eq_ok]
    split
    · exact ⟨_, rfl⟩
    · exact ⟨_, rfl⟩

/-! ## The handler -/

/-- The queue when `handlerRead` has taken its batch. -/
def begin (queue : TimerQueue) (now : ℤ) : TimerQueue :=
  { queue with
    timers := queue.timers.dropBelow (timerEntry now intptrMax)
    alarm := queue.alarm.readTimerfd
    callingExpiredTimers := true
    cancelTimers := ∅ }

/-- The queue is sound when the batch has been taken. -/
theorem Sound.begin (h : queue.Sound) (now : ℤ) : (queue.begin now).Sound :=
  ⟨(h.dropBelow _).time_eq, h.address_lt⟩

/-- The handler runs the callbacks of the batch and puts it back. -/
theorem Sound.handlerRead_eq (h : queue.Sound) (now : ℤ) (callback : ℕ → List TimerCall) :
    queue.handlerRead now callback =
      (TimerQueue.runExpired callback (queue.batch now) (queue.begin now) >>= fun ended =>
        reset { ended with callingExpiredTimers := false } (queue.batch now) now) := by
  have hcalled : Sound { queue with
      alarm := queue.alarm.readTimerfd
      callingExpiredTimers := true
      cancelTimers := ∅ } := ⟨h.time_eq, h.address_lt⟩
  rw [handlerRead, hcalled.getExpired_ok now]
  rfl

/-- What `reset` finds of a timer of the batch when the callbacks have run. -/
def Waiting (ended : TimerQueue) (calls : List TimerCall) (p : ℕ) (timer : Timer) : Prop :=
  ended.heap p = some timer ∧ ended.schedule p = none ∧
    (p ∈ ended.cancelTimers ↔ .cancelTimer p ∈ calls)

/-- The callbacks of the batch. -/
theorem Sound.runBatch (h : queue.Sound) (now : ℤ) (callback : ℕ → List TimerCall) :
    Ensures (TimerQueue.runExpired callback (queue.batch now) (queue.begin now)) (fun ended =>
      Progress ((queue.batch now).map TimerEntry.timer)
        (((queue.batch now).map TimerEntry.timer).flatMap callback) (queue.begin now) ended ∧
      ∀ e ∈ queue.batch now, ∃ timer, queue.heap e.timer = some timer ∧
        ended.Waiting (((queue.batch now).map TimerEntry.timer).flatMap callback) e.timer timer)
      TimerFault.OfCaller := by
  have hlive : ∀ e ∈ queue.batch now, ∃ timer, queue.heap e.timer = some timer := by
    intro e he
    obtain ⟨timer, hheap, -⟩ := h.time_eq e (h.mem_batch.mp he).1
    exact ⟨timer, hheap⟩
  refine ((h.begin now).runExpired callback (queue.batch now) hlive).imp fun ended hprogress =>
    ⟨hprogress, fun e he => ?_⟩
  obtain ⟨timer, hheap⟩ := hlive e he
  have hnone : (queue.begin now).schedule e.timer = none :=
    (h.schedule_dropBelow e.timer).trans (if_pos (List.mem_map_of_mem he))
  obtain ⟨hnone', hiff⟩ := hprogress.cancelled rfl hheap hnone
  exact ⟨timer, hheap, hprogress.heap_eq hheap, hnone',
    hiff.trans (or_iff_right (Finset.notMem_empty e.timer))⟩

/-- `handlerRead` fires the schedule. -/
theorem Sound.handlerRead (h : queue.Sound) (now : ℤ) (callback : ℕ → List TimerCall) :
    Ensures (queue.handlerRead now callback) (fun queue' => queue'.Sound ∧
      ∃ batch, queue'.ran = queue.ran ++ batch ∧
        queue.schedule.Fires (fun interval => addTime now (inSeconds interval)) now callback
          batch queue'.schedule) TimerFault.OfCaller := by
  rw [h.handlerRead_eq]
  refine (h.runBatch now callback).bind fun ended ⟨hprogress, hended⟩ => ?_
  have h₂ : Sound { ended with callingExpiredTimers := false } :=
    ⟨hprogress.sound.time_eq, hprogress.sound.address_lt⟩
  obtain ⟨restored, hok, hsound, hran, hback, hframe⟩ := h₂.run_resetEntry now
    h.batch_nodup fun e he => by
      obtain ⟨timer, -, hheap, hnone, -⟩ := hended e he
      exact ⟨fun hdead => Option.some_ne_none _ (hheap.symm.trans hdead), hnone⟩
  obtain ⟨alarm, hrearm⟩ := hsound.rearm_ok
  rw [reset, hok, ok_bind, hrearm]
  have hfinal : ∀ p ∈ (queue.batch now).map TimerEntry.timer, ∀ timer ∈ queue.schedule p,
      restored.schedule p = if timer.repeats ∧
        .cancelTimer p ∉ ((queue.batch now).map TimerEntry.timer).flatMap callback then
          some (timer.resetTimer now) else none := by
    intro p hp timer hschedule
    obtain ⟨e, he, rfl⟩ := List.mem_map.mp hp
    obtain ⟨timer', hheap, hheap', -, hiff⟩ := hended e he
    obtain rfl := Option.some.inj ((schedule_eq_some.mp hschedule).1.symm.trans hheap)
    rw [hback e he timer hheap', putBack]
    exact if_congr (and_congr_right' (not_congr hiff)) rfl rfl
  refine ⟨⟨hsound.time_eq, hsound.address_lt⟩, (queue.batch now).map TimerEntry.timer,
    hran.trans hprogress.ran_eq, h.batch_nodup, fun p => h.mem_batch_timers, h.batch_ordered,
    ?_, ?_, ?_⟩
  · intro p hp timer hschedule hrepeats hkept
    refine (hfinal p hp timer hschedule).trans ?_
    rw [if_pos ⟨hrepeats, hkept⟩, Timer.resetTimer, if_pos hrepeats]
  · intro p hp timer hschedule hreleased
    refine (hfinal p hp timer hschedule).trans (if_neg ?_)
    rintro ⟨hrepeats, hkept⟩
    rcases hreleased with hone | hcancelled
    · rw [hone] at hrepeats
      cases hrepeats
    · exact hkept hcancelled
  · intro p hp
    refine (hframe p hp).trans ((congrFun hprogress.schedule_eq p).trans ?_)
    exact Schedule.foldl_call_congr ((h.schedule_dropBelow p).trans (if_neg hp)) _

/-! ## Runs -/

/-- The effect of a step on the schedule, where a timer that repeats is put back for the time
`next now interval`. -/
def Effect (next : ℤ → ℕ → ℤ) (queue : TimerQueue) (op : TimerOp) (queue' : TimerQueue) : Prop :=
  queue'.Consistent ∧
    match op with
    | .call c => queue'.ran = queue.ran ∧ queue'.schedule = queue.schedule.call c
    | .handlerRead now callback => ∃ batch, queue'.ran = queue.ran ++ batch ∧
      queue.schedule.Fires (next now) now callback batch queue'.schedule

/-- A step leaves the queue consistent and has the effect on the schedule that it should,
unless the caller or the allocator is at fault. -/
def Exactness (queue : TimerQueue) (op : TimerOp) (r : Except TimerFault TimerQueue) : Prop :=
  Ensures r (queue.Effect (fun now interval => now + interval) op) TimerFault.OfCaller

/-- The interval is added exactly to the reading of the clock for every timer that is to be put
back. -/
def AddsUp (queue : TimerQueue) : TimerOp → Prop
  | .call _ => True
  | .handlerRead now callback =>
    ∀ p timer, queue.schedule.Returns now callback p timer → AddsExactly now timer.interval

/-- A step keeps the queue sound. -/
theorem Sound.step (h : queue.Sound) (op : TimerOp) :
    Ensures (queue.step op) Sound TimerFault.OfCaller := by
  cases op with
  | call c => exact (h.call c).imp fun _ hprogress => hprogress.sound
  | handlerRead now callback => exact (h.handlerRead now callback).imp fun _ hfires => hfires.1

/-- The effect of a step, with the times that `addTime` gives. -/
theorem Sound.effect (h : queue.Sound) (op : TimerOp) :
    Ensures (queue.step op) (queue.Effect (fun now interval => addTime now (inSeconds interval)) op)
      TimerFault.OfCaller := by
  cases op with
  | call c =>
    refine (h.call c).imp fun queue' hprogress => ⟨hprogress.sound.consistent, ?_, ?_⟩
    · exact hprogress.ran_eq.trans (List.append_nil _)
    · exact hprogress.schedule_eq
  | handlerRead now callback =>
    exact (h.handlerRead now callback).imp fun queue' hfires =>
      ⟨hfires.1.consistent, hfires.2⟩

/-- A step that returns is exact if and only if the intervals are added exactly. -/
theorem Sound.exactness_iff (h : queue.Sound) {op : TimerOp} (hclock : op.OfClock) :
    Exactness queue op (queue.step op) ↔
      ∀ queue', queue.step op = .ok queue' → queue.AddsUp op := by
  have heffect := h.effect op
  cases hstep : queue.step op with
  | error e =>
    rw [hstep] at heffect
    exact iff_of_true heffect fun _ hok => by cases hok
  | ok queue' =>
    rw [hstep] at heffect
    obtain ⟨hconsistent, heffect⟩ := heffect
    cases op with
    | call c => exact iff_of_true ⟨hconsistent, heffect⟩ fun _ _ => trivial
    | handlerRead now callback =>
      obtain ⟨batch, hran, hfires⟩ := heffect
      constructor
      · rintro ⟨-, batch', -, hexact⟩ _ _ p timer hreturns
        exact (addTime_eq_iff hclock.1).mp (hfires.next_eq hexact hreturns)
      · intro hadds
        refine ⟨hconsistent, batch, hran, hfires.congr fun p timer hreturns => ?_⟩
        exact (addTime_eq_iff hclock.1).mpr (hadds queue' rfl p timer hreturns)

end

/-- A new queue is sound. -/
theorem sound_empty : Sound {} where
  time_eq _ he := absurd he OrderedSet.notMem_empty
  address_lt _ hp := absurd rfl hp

/-- A run of a new queue is exact, whatever the callbacks do, if and only if in each
`handlerRead` that returns the intervals of the timers that are put back are added exactly to the
reading of the clock. -/
theorem timers_exact_iff (ops : List TimerOp) (hclock : ∀ op ∈ ops, op.OfClock) :
    Along step Exactness {} ops ↔
      Along step (fun queue op r => ∀ queue', r = .ok queue' → queue.AddsUp op) {} ops :=
  along_congr_of_guarded Sound (fun _ _ h hop => h.exactness_iff hop)
    (fun _ op _ h _ _ hok => by simpa [hok, Ensures] using h.step op) sound_empty
    (guarded_of_forall_mem hclock)

/-- A timer that repeats ten times a second, on a clock of the year 2001, handled five
microseconds late. -/
theorem timers_exact_two_steps : Along step Exactness {}
    [.call (.addTimer 8 ⟨10 ^ 15, 100000, true⟩), .handlerRead (10 ^ 15 + 5) fun _ => []] := by
  refine (timers_exact_iff _ ?_).mpr ⟨fun _ _ => trivial, fun queue hadded => ⟨?_, ?_⟩⟩
  · simp [TimerOp.OfClock]
  · intro _ _ p timer hreturns
    obtain rfl := Except.ok.inj hadded
    have hheap := (schedule_eq_some.mp hreturns.1).1
    obtain ⟨-, rfl⟩ : p = 8 ∧ ⟨10 ^ 15, 100000, true⟩ = timer := by
      simpa [Function.update_apply] using hheap
    exact addsExactly_of_le (by norm_num) (by norm_num)
  · exact fun _ _ => trivial

/-- A timer that repeats every 32.001 seconds, on a clock that shows one second: it is put back a
microsecond early. -/
theorem not_timers_exact : ¬ Along step Exactness {}
    [.call (.addTimer 1 ⟨10 ^ 6, 32001000, true⟩), .handlerRead (10 ^ 6) fun _ => []] := by
  intro h
  obtain ⟨queue, hadded⟩ : ∃ queue,
      step {} (.call (.addTimer 1 ⟨10 ^ 6, 32001000, true⟩)) = .ok queue := ⟨_, rfl⟩
  have hsound := sound_empty.step (.call (.addTimer 1 ⟨10 ^ 6, 32001000, true⟩))
  rw [hadded] at hsound
  have hadds := (Sound.exactness_iff hsound (by simp [TimerOp.OfClock])).mp (h.2 queue hadded).1
  obtain rfl := Except.ok.inj hadded
  have hexact := hadds _ rfl 1 ⟨10 ^ 6, 32001000, true⟩ ⟨rfl, le_rfl, rfl, by simp⟩
  exact absurd ((addTime_eq_iff (by norm_num)).mpr hexact) (by decide +kernel)

end TimerQueue

end Reactor
