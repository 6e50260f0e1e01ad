import Reactor.TimerQueue.Schedule

/-!
# Calls and callbacks

A call keeps the timers that exist and changes the schedule at its own address. While the
callbacks of a batch run, a cancelled timer of the batch is no longer in the set; it is
noted in `cancelTimers_`.
-/

namespace Reactor

open Transition

namespace TimerQueue

/-- What the calls `calls` and the run of the timers `ran` do to the queue. -/
structure Progress (ran : List ℕ) (calls : List TimerCall) (before after : TimerQueue) :
    Prop where
  sound : after.Sound
  heap_eq : ∀ {p timer}, before.heap p = some timer → after.heap p = some timer
  schedule_eq : after.schedule = calls.foldl Schedule.call before.schedule
  ran_eq : after.ran = before.ran ++ ran
  calling_eq : after.callingExpiredTimers = before.callingExpiredTimers
  cancelled : before.callingExpiredTimers = true → ∀ {p timer}, before.heap p = some timer →
    before.schedule p = none → after.schedule p = none ∧
      (p ∈ after.cancelTimers ↔ p ∈ before.cancelTimers ∨ .cancelTimer p ∈ calls)

namespace Progress

variable {ran ran' : List ℕ} {calls calls' : List TimerCall} {q₀ q₁ q₂ : TimerQueue}

/-- Nothing has been called yet. -/
theorem refl (h : q₀.Sound) : Progress [] [] q₀ q₀ where
  sound := h
  heap_eq := id
  schedule_eq := rfl
  ran_eq := (List.append_nil _).symm
  calling_eq := rfl
  cancelled _ _ _ _ hnone := ⟨hnone, by simp⟩

/-- The effects of two parts of the batch make up one. -/
theorem trans (h : Progress ran calls q₀ q₁) (h' : Progress ran' calls' q₁ q₂) :
    Progress (ran ++ ran') (calls ++ calls') q₀ q₂ where
  sound := h'.sound
  heap_eq hp := h'.heap_eq (h.heap_eq hp)
  schedule_eq := by rw [h'.schedule_eq, h.schedule_eq, List.foldl_append]
  ran_eq := by rw [h'.ran_eq, h.ran_eq, List.append_assoc]
  calling_eq := h'.calling_eq.trans h.calling_eq
  cancelled hcalling p timer hp hnone := by
    obtain ⟨hnone', hiff⟩ := h.cancelled hcalling hp hnone
    obtain ⟨hnone'', hiff'⟩ := h'.cancelled (h.calling_eq.trans hcalling) (h.heap_eq hp) hnone'
    refine ⟨hnone'', ?_⟩
    rw [hiff', hiff, List.mem_append, or_assoc]

end Progress

section

variable {queue : TimerQueue} {p : ℕ} {timer : Timer}

/-- A timer that is not queued can be created, changed or released. -/
theorem Sound.setHeap (h : queue.Sound) (hnone : queue.schedule p = none) (hp : p < intptrMax)
    (value : Option Timer) :
    Sound { queue with heap := Function.update queue.heap p value } where
  time_eq e he := by
    obtain ⟨timer', hheap, htime⟩ := h.time_eq e he
    exact ⟨timer', (Function.update_of_ne (h.timer_ne hnone he) ..).trans hheap, htime⟩
  address_lt p' hp' := by
    by_cases hne : p' = p
    · rwa [hne]
    · exact h.address_lt p' fun hfree' => hp' ((Function.update_of_ne hne ..).trans hfree')

/-- Such a timer stays out of the schedule. -/
theorem Sound.schedule_setHeap (h : queue.Sound) (hnone : queue.schedule p = none)
    (value : Option Timer) :
    schedule { queue with heap := Function.update queue.heap p value } = queue.schedule := by
  funext p'
  by_cases hne : p' = p
  · subst hne
    rw [hnone, schedule_eq_none]
    exact fun timer' _ hmem => h.timer_ne hnone hmem rfl
  · exact schedule_congr (Function.update_of_ne hne ..) fun _ => Iff.rfl

/-- `addTimer` sets the alarm for a timer that is earlier than all that are queued. -/
theorem addTimer_ok (h : queue.Sound) (hp : queue.heap p = some timer) :
    ∃ earliest : Bool, (earliest = true ↔ ∀ e ∈ queue.timers, timer.time < e.time) ∧
      queue.addTimer p = .ok { queue with
        timers := queue.timers.insert (timerEntry timer.time p)
        alarm := if earliest then queue.alarm.setTimer timer.time else queue.alarm } := by
  obtain ⟨earliest, hinsert, hearliest⟩ := h.insert_ok hp
  refine ⟨earliest, hearliest, ?_⟩
  rw [addTimer, hinsert]
  cases earliest with
  | false => rfl
  | true => simp [deref, hp]

/-- A new timer is queued with its expiry. -/
theorem Sound.progress_addTimer (h : queue.Sound) (hfree : queue.heap p = none)
    (hp : p < intptrMax) (timer : Timer) :
    ∃ queue', queue.call (.addTimer p timer) = .ok queue' ∧
      Progress [] [.addTimer p timer] queue queue' := by
  have hself : Function.update queue.heap p (some timer) p = some timer := Function.update_self ..
  have hnone : queue.schedule p = none := by simp [schedule, hfree]
  have hsound := h.setHeap hnone hp (some timer)
  obtain ⟨earliest, -, hadd⟩ := addTimer_ok hsound hself
  have hcall : queue.call (.addTimer p timer) = addTimer { queue with
      heap := Function.update queue.heap p (some timer) } p := by
    rw [TimerQueue.call, TimerQueue.newTimer, if_pos ⟨hfree, hp⟩, ok_bind]
  refine ⟨_, hcall.trans hadd, ?_⟩
  have hschedule := schedule_insert { queue with
    heap := Function.update queue.heap p (some timer) } hself
  rw [h.schedule_setHeap hnone] at hschedule
  have hsound' := hsound.insert hself
  have hne : ∀ {p' timer'}, queue.heap p' = some timer' → p' ≠ p := by
    rintro p' timer' hp' rfl
    rw [hfree] at hp'
    cases hp'
  refine ⟨⟨hsound'.time_eq, hsound'.address_lt⟩, fun hp' => ?_, hschedule,
    (List.append_nil _).symm, rfl, fun _ p' timer' hp' hnone => ⟨?_, by simp⟩⟩
  · exact (Function.update_of_ne (hne hp') ..).trans hp'
  · exact (congrFun hschedule p').trans ((Function.update_of_ne (hne hp') ..).trans hnone)

/-- A cancelled timer leaves the schedule; a timer that is running or waits to be run is
noted. -/
theorem Sound.progress_cancelTimer (h : queue.Sound) (hp : queue.heap p = some timer) :
    ∃ queue', queue.call (.cancelTimer p) = .ok queue' ∧
      Progress [] [.cancelTimer p] queue queue' := by
  by_cases hmem : timerEntry timer.time p ∈ queue.timers
  · have hschedule := schedule_erase hp
    refine ⟨_, by simp only [TimerQueue.call, cancelTimer, hp, if_pos hmem], h.erase _, id,
      hschedule,
      (List.append_nil _).symm, rfl, fun _ p' timer' hp' hnone => ?_⟩
    have hne : p' ≠ p := by
      rintro rfl
      rw [schedule_eq_some.mpr ⟨hp, hmem⟩] at hnone
      cases hnone
    refine ⟨(congrFun hschedule p').trans ((Function.update_of_ne hne ..).trans hnone), ?_⟩
    simp [hne]
  · have hnone : queue.schedule p = none := by
      rw [schedule_eq_none]
      rintro timer' hp'
      rwa [← Option.some.inj (hp.symm.trans hp')]
    have hschedule : queue.schedule = Function.update queue.schedule p none := by
      rw [← hnone, Function.update_eq_self]
    cases hcalling : queue.callingExpiredTimers with
    | true =>
      refine ⟨{ queue with cancelTimers := Insert.insert p queue.cancelTimers },
        by simp only [TimerQueue.call, cancelTimer, hp, if_neg hmem, hcalling, if_true],
        ⟨h.time_eq, h.address_lt⟩, id, hschedule, (List.append_nil _).symm, rfl,
        fun _ p' timer' hp' hnone' => ⟨hnone', ?_⟩⟩
      rw [Finset.mem_insert, List.mem_singleton, TimerCall.cancelTimer.injEq, or_comm]
    | false =>
      refine ⟨queue, by simp only [TimerQueue.call, cancelTimer, hp, if_neg hmem, hcalling,
        Bool.false_eq_true, if_false], h, id, hschedule, (List.append_nil _).symm, rfl,
        fun htrue => ?_⟩
      rw [hcalling] at htrue
      cases htrue

/-- A call makes its own progress, or the allocator or the caller is at fault. -/
theorem Sound.call (h : queue.Sound) (c : TimerCall) :
    Ensures (queue.call c) (Progress [] [c] queue) TimerFault.OfCaller := by
  cases c with
  | addTimer p timer =>
    by_cases hfresh : queue.heap p = none ∧ p < intptrMax
    · obtain ⟨queue', hok, hprogress⟩ := h.progress_addTimer hfresh.1 hfresh.2 timer
      rw [hok]
      exact hprogress
    · rw [TimerQueue.call, TimerQueue.newTimer, if_neg hfresh]
      exact .inr rfl
  | cancelTimer p =>
    cases hp : queue.heap p with
    | none =>
      simp only [TimerQueue.call, cancelTimer, hp]
      exact .inl rfl
    | some timer =>
      obtain ⟨queue', hok, hprogress⟩ := h.progress_cancelTimer hp
      rw [hok]
      exact hprogress
  | expire =>
    exact ⟨⟨h.time_eq, h.address_lt⟩, id, rfl, (List.append_nil _).symm, rfl,
      fun _ _ _ _ hnone => ⟨hnone, by simp⟩⟩

/-- The calls of one callback. -/
theorem Sound.run_call (h : queue.Sound) (calls : List TimerCall) :
    Ensures (run TimerQueue.call queue calls) (Progress [] calls queue) TimerFault.OfCaller := by
  induction calls generalizing queue with
  | nil => exact .refl h
  | cons c calls ih =>
    have hcall := h.call c
    cases hstep : queue.call c with
    | error e =>
      rw [hstep] at hcall
      simp only [run, hstep]
      exact hcall
    | ok queue' =>
      rw [hstep] at hcall
      simp only [run, hstep]
      exact (ih hcall.sound).imp fun _ hrest => hcall.trans hrest

/-- The batch runs in its order, each timer once. -/
theorem Sound.runExpired (h : queue.Sound) (callback : ℕ → List TimerCall)
    (expired : List TimerEntry)
    (hlive : ∀ e ∈ expired, ∃ timer, queue.heap e.timer = some timer) :
    Ensures (runExpired callback expired queue)
      (Progress (expired.map TimerEntry.timer)
        ((expired.map TimerEntry.timer).flatMap callback) queue) TimerFault.OfCaller := by
  induction expired generalizing queue with
  | nil => exact .refl h
  | cons e expired ih =>
    obtain ⟨timer, hp⟩ := hlive e List.mem_cons_self
    have hran : Progress [e.timer] [] queue { queue with ran := queue.ran ++ [e.timer] } :=
      ⟨⟨h.time_eq, h.address_lt⟩, id, rfl, rfl, rfl, fun _ _ _ _ hnone => ⟨hnone, by simp⟩⟩
    rw [TimerQueue.runExpired, deref_ok hp, ok_bind]
    refine (hran.sound.run_call (callback e.timer)).bind fun queue' hcalls => ?_
    refine (ih hcalls.sound fun e' he' => ?_).imp fun queue'' hrest => ?_
    · obtain ⟨timer', hp'⟩ := hlive e' (List.mem_cons_of_mem e he')
      exact ⟨timer', hcalls.heap_eq (hran.heap_eq hp')⟩
    · simpa using (hran.trans hcalls).trans hrest

end

end TimerQueue

end Reactor
