import Reactor.TimerQueue.Rounds

/-!
# The life of a timer

Whatever happens to the other timers, a timer is queued, taken by a batch, and put back or
released; the queue is as many such lives side by side. `cancelTimer` erases a timer from the set
and does not release it: it is lost.
-/

namespace Reactor

open Transition

/-- Where a timer is. -/
inductive TimerPlace where
  /-- There is none at the address. -/
  | free
  | queued (timer : Timer)
  /-- In the batch of the handler. -/
  | taken (timer : Timer)
  /-- Neither the set nor the batch holds it. -/
  | lost (timer : Timer)
  deriving DecidableEq, Repr

namespace TimerRun

/-- Where the timer at the address `p` is. -/
def place (s : TimerRun) (p : ℕ) : TimerPlace :=
  match s.queue.heap p, s.queue.schedule p with
  | none, _ => .free
  | some _, some timer => .queued timer
  | some timer, none => if p ∈ s.point.batch then .taken timer else .lost timer

/-- What a step makes of the timer at the address `p`. -/
def advance (s : TimerRun) (p : ℕ) : TimerAction → TimerPlace → TimerPlace
  | .call (.addTimer p' timer), place => if p' = p then .queued timer else place
  | .call (.cancelTimer p'), .queued timer => if p' = p then .lost timer else .queued timer
  | .handlerRead now, .queued timer => if timer.time ≤ now then .taken timer else .queued timer
  | .resetNext, .taken timer =>
    match s.point with
    | .resetting now (e :: _) =>
      if e.timer = p then
        if timer.repeats ∧ p ∉ s.queue.cancelTimers then .queued (timer.resetTimer now) else .free
      else .taken timer
    | _ => .taken timer
  | _, place => place

/-- The timers that exist after a call. -/
def heapAfter (heap : ℕ → Option Timer) : TimerCall → ℕ → Option Timer
  | .addTimer p timer => Function.update heap p (some timer)
  | .cancelTimer _ | .expire => heap

section

variable {s t : TimerRun} {a : TimerAction} {p : ℕ} {timer : Timer}

/-! ## Places -/

/-- Without an object at its address a timer is free. -/
theorem place_of_free (hheap : s.queue.heap p = none) : s.place p = .free := by
  rw [place, hheap]

/-- A queued timer is in the queue. -/
theorem place_of_queued (hqueued : s.queue.schedule p = some timer) :
    s.place p = .queued timer := by
  rw [place, (TimerQueue.schedule_eq_some.mp hqueued).1, hqueued]

/-- A timer of the batch that is not queued is taken. -/
theorem place_of_taken (hheap : s.queue.heap p = some timer) (hnone : s.queue.schedule p = none)
    (hp : p ∈ s.point.batch) : s.place p = .taken timer := by
  rw [place, hheap, hnone]
  exact if_pos hp

/-- A timer that neither the queue nor the batch holds is lost. -/
theorem place_of_lost (hheap : s.queue.heap p = some timer) (hnone : s.queue.schedule p = none)
    (hp : p ∉ s.point.batch) : s.place p = .lost timer := by
  rw [place, hheap, hnone]
  exact if_neg hp

/-- The four places. -/
theorem place_cases (s : TimerRun) (p : ℕ) :
    s.queue.heap p = none ∧ s.place p = .free ∨
      (∃ timer, s.queue.schedule p = some timer ∧ s.place p = .queued timer) ∨
      (∃ timer, s.queue.heap p = some timer ∧ s.queue.schedule p = none ∧
        p ∈ s.point.batch ∧ s.place p = .taken timer) ∨
      ∃ timer, s.queue.heap p = some timer ∧ s.queue.schedule p = none ∧
        p ∉ s.point.batch ∧ s.place p = .lost timer := by
  cases hheap : s.queue.heap p with
  | none => exact .inl ⟨rfl, place_of_free hheap⟩
  | some timer =>
    cases hqueued : s.queue.schedule p with
    | some timer' => exact .inr (.inl ⟨timer', rfl, place_of_queued hqueued⟩)
    | none =>
      by_cases hp : p ∈ s.point.batch
      · exact .inr (.inr (.inl ⟨timer, rfl, rfl, hp, place_of_taken hheap hqueued hp⟩))
      · exact .inr (.inr (.inr ⟨timer, rfl, rfl, hp, place_of_lost hheap hqueued hp⟩))

/-- A timer whose place is the queue is scheduled. -/
theorem schedule_eq_of_place (hplace : s.place p = .queued timer) :
    s.queue.schedule p = some timer := by
  rcases s.place_cases p with ⟨-, hfree⟩ | ⟨timer', hqueued, hplace'⟩ | ⟨timer', -, -, -, htaken⟩ |
    ⟨timer', -, -, -, hlost⟩
  · simp [hplace] at hfree
  · rw [hplace] at hplace'
    cases hplace'
    exact hqueued
  · simp [hplace] at htaken
  · simp [hplace] at hlost

/-- A timer that is taken is in the batch. -/
theorem mem_batch_of_place (hplace : s.place p = .taken timer) : p ∈ s.point.batch := by
  rcases s.place_cases p with ⟨-, hfree⟩ | ⟨timer', -, hqueued⟩ | ⟨timer', -, -, hin, -⟩ |
    ⟨timer', -, -, -, hlost⟩
  · simp [hplace] at hfree
  · simp [hplace] at hqueued
  · exact hin
  · simp [hplace] at hlost

/-- The place of a timer is a matter of the heap, the queue and the batch. -/
theorem place_congr (hheap : t.queue.heap p = s.queue.heap p)
    (hqueued : t.queue.schedule p = s.queue.schedule p)
    (hbatch : p ∈ t.point.batch ↔ p ∈ s.point.batch) : t.place p = s.place p := by
  rw [place, place, hheap, hqueued]
  simp only [hbatch]

/-! ## The steps of a life -/

/-- A call concerns the heap when it creates a timer. -/
theorem call_heap {queue queue' : TimerQueue} {c : TimerCall} (hok : queue.call c = .ok queue') :
    queue'.heap = heapAfter queue.heap c := by
  cases c with
  | addTimer p timer =>
    obtain ⟨created, hnew, hadd⟩ := bind_eq_ok.mp hok
    obtain ⟨-, rfl⟩ := ite_eq_ok.mp hnew
    obtain ⟨⟨earliest, inserted⟩, hinsert, hok⟩ := bind_eq_ok.mp hadd
    obtain ⟨timer', -, hinsert⟩ := bind_eq_ok.mp hinsert
    obtain ⟨earliest', -, hinsert⟩ := bind_eq_ok.mp hinsert
    obtain ⟨rfl, rfl⟩ := Prod.mk.inj (Except.ok.inj hinsert)
    cases earliest' with
    | false =>
      obtain rfl := Except.ok.inj hok
      rfl
    | true =>
      obtain ⟨timer'', -, hok⟩ := bind_eq_ok.mp hok
      obtain rfl := Except.ok.inj hok
      rfl
  | cancelTimer p =>
    rw [TimerQueue.call, TimerQueue.cancelTimer] at hok
    split at hok
    · cases hok
    · dsimp only at hok
      split at hok
      · obtain rfl := Except.ok.inj hok
        rfl
      · split at hok
        · obtain rfl := Except.ok.inj hok
          rfl
        · obtain rfl := Except.ok.inj hok
          rfl
  | expire =>
    obtain rfl := Except.ok.inj hok
    rfl

/-- A call acts on its own timer. -/
theorem Kept.place_call (h : s.Kept) {c : TimerCall} {queue : TimerQueue}
    (hok : s.queue.call c = .ok queue) (history : List TimerEvent) (p : ℕ) :
    place { s with queue, history } p = s.advance p (.call c) (s.place p) := by
  have hheap := call_heap hok
  have hschedule : queue.schedule = s.queue.schedule.call c := by
    have hcall := h.sound.call c
    rw [hok] at hcall
    exact hcall.schedule_eq
  cases c with
  | addTimer p' timer =>
    by_cases hp : p' = p
    · subst hp
      have hqueued : queue.schedule p' = some timer := by
        rw [hschedule]
        exact Function.update_self ..
      rw [place_of_queued (s := { s with queue, history }) hqueued]
      exact (if_pos rfl).symm
    · have hsame : place { s with queue, history } p = s.place p := by
        refine place_congr ?_ ?_ Iff.rfl
        · exact (congrFun hheap p).trans (Function.update_of_ne (Ne.symm hp) ..)
        · exact (congrFun hschedule p).trans (Function.update_of_ne (Ne.symm hp) ..)
      rw [hsame]
      exact (if_neg hp).symm
  | cancelTimer p' =>
    by_cases hp : p' = p
    · subst hp
      have hnone : queue.schedule p' = none := by
        rw [hschedule]
        exact Function.update_self ..
      rcases s.place_cases p' with ⟨hfree, hplace⟩ | ⟨timer, hqueued, hplace⟩ |
        ⟨timer, hlive, -, hbatch, hplace⟩ | ⟨timer, hlive, -, hbatch, hplace⟩
      · rw [hplace]
        exact place_of_free ((congrFun hheap p').trans hfree)
      · have hlive := (TimerQueue.schedule_eq_some.mp hqueued).1
        have hbatch : p' ∉ s.point.batch := by
          intro hbatch
          rw [(h.held p' hbatch).2] at hqueued
          cases hqueued
        rw [hplace, advance, if_pos rfl]
        exact place_of_lost ((congrFun hheap p').trans hlive) hnone hbatch
      · rw [hplace]
        exact place_of_taken ((congrFun hheap p').trans hlive) hnone hbatch
      · rw [hplace]
        exact place_of_lost ((congrFun hheap p').trans hlive) hnone hbatch
    · have hsame : place { s with queue, history } p = s.place p := by
        refine place_congr (congrFun hheap p) ?_ Iff.rfl
        exact (congrFun hschedule p).trans (Function.update_of_ne (Ne.symm hp) ..)
      rw [hsame]
      cases s.place p with
      | queued timer => exact (if_neg hp).symm
      | free | taken timer | lost timer => rfl
  | expire =>
    have hsame : place { s with queue, history } p = s.place p :=
      place_congr (congrFun hheap p) (congrFun hschedule p) Iff.rfl
    rw [hsame]
    rfl

/-- The batch takes the timers that are due. -/
theorem Kept.place_begin (h : s.Kept) (hpoint : s.point = .outside) (now : ℤ) (p : ℕ) :
    place { s with
      queue := s.queue.begin now
      point := .running now (s.queue.batch now) (s.queue.batch now) } p =
      s.advance p (.handlerRead now) (s.place p) := by
  have hschedule : (s.queue.begin now).schedule p =
      if p ∈ (s.queue.batch now).map TimerEntry.timer then none else s.queue.schedule p :=
    h.sound.schedule_dropBelow p
  have hbatch : p ∈ (s.queue.batch now).map TimerEntry.timer ↔ s.queue.schedule.Due now p :=
    h.sound.mem_batch_timers
  rcases s.place_cases p with ⟨hfree, hplace⟩ | ⟨timer, hqueued, hplace⟩ |
    ⟨timer, hlive, hnone, hin, hplace⟩ | ⟨timer, hlive, hnone, -, hplace⟩
  · rw [hplace]
    exact place_of_free hfree
  · rw [hplace, advance]
    split
    · next hdue =>
      have hin := hbatch.mpr ⟨timer, hqueued, hdue⟩
      rw [if_pos hin] at hschedule
      exact place_of_taken (TimerQueue.schedule_eq_some.mp hqueued).1 hschedule hin
    · next hlater =>
      rw [if_neg] at hschedule
      · exact place_of_queued (hschedule.trans hqueued)
      · intro hin
        obtain ⟨timer', hqueued', hdue⟩ := hbatch.mp hin
        obtain rfl := Option.some.inj (hqueued.symm.trans hqueued')
        exact hlater hdue
  · rw [hpoint] at hin
    cases hin
  · have hout : p ∉ (s.queue.batch now).map TimerEntry.timer := by
      intro hin
      obtain ⟨timer', hqueued, -⟩ := hbatch.mp hin
      rw [hnone] at hqueued
      cases hqueued
    rw [if_neg hout] at hschedule
    rw [hplace]
    exact place_of_lost hlive (hschedule.trans hnone) hout

/-- `reset` puts the timer back or releases it. -/
theorem Kept.place_resetEntry (h : s.Kept) {now : ℤ} {e : TimerEntry} {todo : List TimerEntry}
    (hpoint : s.point = .resetting now (e :: todo)) {queue : TimerQueue}
    (hok : s.queue.resetEntry now e = .ok queue) (history : List TimerEvent) (p : ℕ) :
    place { queue, point := .resetting now todo, history } p =
      s.advance p .resetNext (s.place p) := by
  have hheld := h.held
  have hnodup := h.nodup
  rw [hpoint] at hheld hnodup
  obtain ⟨hmem, -⟩ := List.nodup_cons.mp hnodup
  obtain ⟨hheap, hnone⟩ := hheld e.timer List.mem_cons_self
  obtain ⟨timer, htimer⟩ := Option.ne_none_iff_exists'.mp hheap
  obtain ⟨queue', hok', -, -, -, hback, hframe⟩ := h.sound.resetEntry now htimer hnone
  obtain rfl := Except.ok.inj (hok.symm.trans hok')
  by_cases hp : e.timer = p
  · subst hp
    have hin : e.timer ∈ s.point.batch := by
      rw [hpoint]
      exact List.mem_cons_self
    rw [place_of_taken htimer hnone hin, advance, hpoint]
    dsimp only
    rw [if_pos rfl]
    rw [TimerQueue.putBack] at hback
    split at hback
    · next hkept =>
      rw [if_pos hkept]
      exact place_of_queued hback
    · next hreleased =>
      rw [if_neg hreleased]
      rw [TimerQueue.resetEntry, TimerQueue.deref_ok htimer, ok_bind, if_neg hreleased] at hok
      obtain rfl := Except.ok.inj hok
      exact place_of_free (Function.update_self ..)
  · have hsame : place { queue, point := .resetting now todo, history } p = s.place p := by
      apply place_congr (hframe p (Ne.symm hp)).1 (hframe p (Ne.symm hp)).2
      rw [hpoint]
      exact (or_iff_right (Ne.symm hp)).symm.trans List.mem_cons.symm
    rw [hsame]
    cases s.place p with
    | taken timer =>
      rw [advance, hpoint]
      exact (if_neg hp).symm
    | free | queued timer | lost timer => rfl

/-- A step takes each timer one step on in its life. -/
theorem Kept.place_step (h : s.Kept) (hok : s.step a = .ok t) (p : ℕ) :
    t.place p = s.advance p a (s.place p) := by
  cases a with
  | call c =>
    obtain ⟨-, hok⟩ := guard_eq_ok.mp hok
    cases hcall : s.queue.call c with
    | error e =>
      rw [hcall] at hok
      cases hok
    | ok queue =>
      rw [hcall] at hok
      obtain rfl := Except.ok.inj hok
      exact h.place_call hcall _ p
  | handlerRead now =>
    rw [TimerRun.step] at hok
    split at hok
    · next hpoint =>
      obtain rfl := Except.ok.inj ((h.begin now).1.symm.trans hok)
      exact h.place_begin hpoint now p
    · cases hok
  | runNext =>
    rw [TimerRun.step] at hok
    split at hok
    · next now expired todo hpoint =>
      cases todo with
      | nil =>
        obtain rfl := Except.ok.inj hok
        exact place_congr rfl rfl (by rw [hpoint]; rfl)
      | cons e todo =>
        obtain rfl := Except.ok.inj ((h.runNext_cons hpoint).1.symm.trans hok)
        exact place_congr rfl rfl (by rw [hpoint]; rfl)
    · cases hok
  | callbackReturns =>
    rw [TimerRun.step] at hok
    split at hok
    · next now expired todo hpoint =>
      obtain rfl := Except.ok.inj hok
      exact place_congr rfl rfl (by rw [hpoint]; rfl)
    · cases hok
  | resetNext =>
    rw [TimerRun.step] at hok
    split at hok
    · next now todo hpoint =>
      cases todo with
      | nil =>
        obtain ⟨alarm, hrearm⟩ := h.sound.rearm_ok
        rw [TimerRun.resetNext, hrearm] at hok
        obtain rfl := Except.ok.inj hok
        have hsame : place { s with queue := { s.queue with alarm }, point := .outside } p =
            s.place p := place_congr rfl rfl (by rw [hpoint]; rfl)
        have hstay : s.advance p .resetNext (s.place p) = s.place p := by
          cases s.place p with
          | taken timer => rw [advance, hpoint]
          | free | queued timer | lost timer => rfl
        exact hsame.trans hstay.symm
      | cons e todo =>
        cases hreset : s.queue.resetEntry now e with
        | error e' =>
          rw [TimerRun.resetNext, hreset] at hok
          cases hok
        | ok queue =>
          rw [TimerRun.resetNext, hreset] at hok
          obtain rfl := Except.ok.inj hok
          exact h.place_resetEntry hpoint hreset _ p
    · cases hok

/-! ## Lost timers -/

/-- The timer exists, but neither the set nor the batch holds it. -/
def Lost (s : TimerRun) (p : ℕ) : Prop :=
  s.queue.heap p ≠ none ∧ s.queue.schedule p = none ∧ p ∉ s.point.batch

/-- A timer is lost exactly if that is its place. -/
theorem lost_iff : s.Lost p ↔ ∃ timer, s.place p = .lost timer := by
  rcases s.place_cases p with ⟨hfree, hplace⟩ | ⟨timer, hqueued, hplace⟩ |
    ⟨timer, -, -, hin, hplace⟩ | ⟨timer, hlive, hnone, hout, hplace⟩
  · simp [Lost, hfree, hplace]
  · simp [Lost, hqueued, hplace]
  · simp [Lost, hin, hplace]
  · simp [Lost, hlive, hnone, hout, hplace]

/-- The timer that a step cancels while it is queued. -/
def drops (s : TimerRun) : TimerAction → List ℕ
  | .call (.cancelTimer p) => if (s.queue.schedule p).isSome then [p] else []
  | _ => []

/-- The step function with the timers kept beside the state that were cancelled while they were
queued. -/
def stepDropping (s : List ℕ × TimerRun) (a : TimerAction) :
    Except TimerStop (List ℕ × TimerRun) :=
  (s.2.step a).map fun t => (s.2.drops a ++ s.1, t)

/-- A timer is dropped when it is cancelled in the queue. -/
theorem mem_drops : p ∈ s.drops a ↔
    a = .call (.cancelTimer p) ∧ ∃ timer, s.place p = .queued timer := by
  cases a with
  | call c =>
    cases c with
    | cancelTimer p' =>
      rw [drops]
      by_cases hp : p' = p
      · subst hp
        rcases s.place_cases p' with ⟨hfree, hplace⟩ | ⟨timer, hqueued, hplace⟩ |
          ⟨timer, -, hnone, -, hplace⟩ | ⟨timer, -, hnone, -, hplace⟩
        · simp [hplace, TimerQueue.schedule, hfree]
        · simp [hplace, hqueued]
        · simp [hplace, hnone]
        · simp [hplace, hnone]
      · have hne : p ≠ p' := Ne.symm hp
        split <;> simp [hp, hne]
    | addTimer p' timer => simp [drops]
    | expire => simp [drops]
  | handlerRead now => simp [drops]
  | runNext => simp [drops]
  | callbackReturns => simp [drops]
  | resetNext => simp [drops]

/-- A timer is created where there is none. -/
theorem place_eq_free (hok : s.step (.call (.addTimer p timer)) = .ok t) : s.place p = .free := by
  obtain ⟨-, hok⟩ := guard_eq_ok.mp hok
  cases hcall : s.queue.call (.addTimer p timer) with
  | error e =>
    rw [hcall] at hok
    cases hok
  | ok queue =>
    obtain ⟨created, hnew, -⟩ := bind_eq_ok.mp hcall
    obtain ⟨⟨hfree, -⟩, -⟩ := ite_eq_ok.mp hnew
    exact place_of_free hfree

/-- A step loses the timer that it cancels while it is queued, and what is lost stays lost. -/
theorem Kept.lost_step (h : s.Kept) (hok : s.step a = .ok t) (p : ℕ) :
    t.Lost p ↔ p ∈ s.drops a ∨ s.Lost p := by
  rw [lost_iff, lost_iff, mem_drops, h.place_step hok p]
  cases a with
  | call c =>
    cases c with
    | addTimer p' timer =>
      by_cases hp : p' = p
      · subst hp
        simp [advance, place_eq_free hok]
      · simp [advance, hp]
    | cancelTimer p' =>
      by_cases hp : p' = p
      · subst hp
        cases s.place p' <;> simp [advance]
      · cases s.place p <;> simp [advance, hp]
    | expire => cases s.place p <;> simp [advance]
  | handlerRead now =>
    cases s.place p with
    | queued timer =>
      by_cases hdue : timer.time ≤ now <;> simp [advance, hdue]
    | free | taken timer | lost timer => simp [advance]
  | runNext => cases s.place p <;> simp [advance]
  | callbackReturns => cases s.place p <;> simp [advance]
  | resetNext =>
    cases s.place p with
    | taken timer =>
      have hkept : ∀ timer', s.advance p .resetNext (.taken timer) ≠ .lost timer' := by
        intro timer'
        rw [advance]
        split
        · split
          · split <;> simp
          · simp
        · simp
      simp [hkept]
    | free | queued timer | lost timer => simp [advance]

end

/-- A new queue has lost no timer. -/
theorem lost_of_empty (p : ℕ) : ¬ Lost {} p := fun hlost => hlost.1 rfl

/-- The timers that are lost are those that were cancelled while they were queued: each of them,
for good, and no others. -/
theorem lost_iff_dropped (actions : List TimerAction) :
    Always stepDropping (fun s => s.1.Nodup ∧ ∀ p, s.2.Lost p ↔ p ∈ s.1) ([], {}) actions := by
  have hkeep : ∀ (s : List ℕ × TimerRun) a t, s.2.Kept ∧ s.1.Nodup ∧ (∀ p, s.2.Lost p ↔ p ∈ s.1) →
      stepDropping s a = .ok t → t.2.Kept ∧ t.1.Nodup ∧ ∀ p, t.2.Lost p ↔ p ∈ t.1 := by
    rintro s a t ⟨hkept, hnodup, hlost⟩ hok
    obtain ⟨u, hstep, rfl⟩ := map_eq_ok.mp hok
    have hnext := hkept.step a
    rw [hstep] at hnext
    refine ⟨hnext.1, ?_, fun p => ?_⟩
    · refine List.nodup_append.mpr ⟨?_, hnodup, ?_⟩
      · rw [drops.eq_def]
        split
        · split <;> simp
        · simp
      · rintro p hp p' hp' rfl
        -- A lost timer is not queued, so that it cannot be lost again.
        obtain ⟨-, timer, hqueued⟩ := mem_drops.mp hp
        obtain ⟨timer', hplace⟩ := lost_iff.mp ((hlost p).mpr hp')
        rw [hqueued] at hplace
        cases hplace
    · rw [hkept.lost_step hstep p, hlost p, List.mem_append]
  have hempty : Kept ({} : TimerRun) ∧ ([] : List ℕ).Nodup ∧ ∀ p, Lost {} p ↔ p ∈ ([] : List ℕ) :=
    ⟨kept_empty, .nil, fun p => iff_of_false (lost_of_empty p) (List.not_mem_nil)⟩
  apply along_of_guarded (fun s : List ℕ × TimerRun => s.2.Kept ∧ s.1.Nodup ∧
    ∀ p, s.2.Lost p ↔ p ∈ s.1) ?_ (fun s a t hs _ => hkeep s a t hs) hempty guarded_true
  exact fun s a hs _ t hok => (hkeep s a t hs hok).2

end TimerRun

end Reactor
