import Reactor.Machine
import Reactor.TimerQueue.Exact

/-!
# The handler taken apart

`handlerRead` gives way to user code while it runs its batch, so its loops are taken apart here
into their rounds. `cancelTimer` erases a timer that is queued and notes one of the batch in
`cancelTimers_`, where `reset` looks before it puts a timer back: no cancelled timer comes back
into the set.
-/

namespace Reactor

open Transition

/-! ## What happens to a timer -/

/-- What happens to the timer at an address. -/
inductive TimerEvent where
  | created (p : ℕ)
  | cancelled (p : ℕ)
  /-- Its callback is started. -/
  | started (p : ℕ)
  /-- `reset` puts it back. -/
  | inserted (p : ℕ)
  deriving DecidableEq, Repr

namespace TimerEvent

/-- The timer has been cancelled since it was created. The latest event comes first. -/
def Gone (p : ℕ) : List TimerEvent → Prop
  | [] => False
  | .created p' :: history => p' ≠ p ∧ Gone p history
  | .cancelled p' :: history => p' = p ∨ Gone p history
  | .started _ :: history | .inserted _ :: history => Gone p history

/-- The timer whose callback is started. -/
def starts : TimerEvent → Option ℕ
  | .started p => some p
  | _ => none

/-- The timer that `reset` puts back. -/
def putsBack : TimerEvent → Option ℕ
  | .inserted p => some p
  | _ => none

/-- The events that concern a timer through `of` come before it is cancelled. -/
def NeverGone (of : TimerEvent → Option ℕ) : List TimerEvent → Prop
  | [] => True
  | event :: history => (∀ p ∈ of event, ¬ Gone p history) ∧ NeverGone of history

instance decidableGone (p : ℕ) : ∀ history, Decidable (Gone p history)
  | [] => .isFalse id
  | .created _ :: history =>
    have := decidableGone p history
    inferInstanceAs (Decidable (_ ∧ Gone p history))
  | .cancelled _ :: history =>
    have := decidableGone p history
    inferInstanceAs (Decidable (_ ∨ Gone p history))
  | .started _ :: history | .inserted _ :: history => decidableGone p history

instance decidableNeverGone (of : TimerEvent → Option ℕ) :
    ∀ history, Decidable (NeverGone of history)
  | [] => .isTrue trivial
  | event :: history =>
    have := decidableNeverGone of history
    inferInstanceAs (Decidable ((∀ p ∈ of event, ¬ Gone p history) ∧ NeverGone of history))

end TimerEvent

/-! ## The handler taken apart -/

/-- Where the loop thread is. -/
inductive HandlerPoint where
  /-- Not in `handlerRead`. -/
  | outside
  /-- At the head of the loop of `handlerRead`, with the timers `todo` of the batch left. -/
  | running (now : ℤ) (expired todo : List TimerEntry)
  /-- In the callback of a timer of the batch. -/
  | callback (now : ℤ) (expired todo : List TimerEntry)
  /-- At the head of the loop of `reset`, with the timers `todo` of the batch left. -/
  | resetting (now : ℤ) (todo : List TimerEntry)

namespace HandlerPoint

/-- The timers of the batch that `reset` has not handled. -/
def batch : HandlerPoint → List ℕ
  | .outside => []
  | .running _ expired _ | .callback _ expired _ => expired.map TimerEntry.timer
  | .resetting _ todo => todo.map TimerEntry.timer

/-- The timers of the batch whose turn has not come. -/
def waiting : HandlerPoint → List ℕ
  | .running _ _ todo | .callback _ _ todo => todo.map TimerEntry.timer
  | .outside | .resetting _ _ => []

/-- User code runs, in a callback or outside the handler. -/
def inUserCode : HandlerPoint → Bool
  | .outside | .callback _ _ _ => true
  | .running _ _ _ | .resetting _ _ => false

/-- The batch is being run. -/
def runsBatch : HandlerPoint → Bool
  | .running _ _ _ | .callback _ _ _ => true
  | .outside | .resetting _ _ => false

end HandlerPoint

/-- Why an action is not taken. -/
inductive TimerStop where
  | disabled
  | fault (e : TimerFault)
  deriving DecidableEq, Repr

/-- The action is not possible, or it is the fault of a caller or of the allocator. -/
def TimerStop.OfCaller : TimerStop → Prop
  | .disabled => True
  | .fault e => e.OfCaller

/-- A step of the queue. -/
def liftTimer {α : Type} : Except TimerFault α → Except TimerStop α
  | .ok a => .ok a
  | .error e => .error (.fault e)

/-- The queue with the place that the loop thread is at. -/
structure TimerRun where
  queue : TimerQueue := {}
  point : HandlerPoint := .outside
  /-- What has happened to the timers, the latest first. -/
  history : List TimerEvent := []

/-- A step of the loop thread, or of user code that it runs. -/
inductive TimerAction where
  /-- User code calls the queue, or the alarm expires. -/
  | call (c : TimerCall)
  /-- The descriptor is handled at the time `now`. -/
  | handlerRead (now : ℤ)
  /-- The next timer of the batch is run, or the loop ends. -/
  | runNext
  | callbackReturns
  /-- The next timer of the batch is put back or released, or the handler ends. -/
  | resetNext
  deriving DecidableEq, Repr

namespace TimerRun

open TimerEvent

/-- What a call makes happen. -/
def record : TimerCall → List TimerEvent
  | .addTimer p _ => [.created p]
  | .cancelTimer p => [.cancelled p]
  | .expire => []

/-- `handlerRead` up to its loop. -/
def begin (s : TimerRun) (now : ℤ) : Except TimerStop TimerRun := do
  let (expired, queue) ← liftTimer ({ s.queue with
    alarm := s.queue.alarm.readTimerfd
    callingExpiredTimers := true
    cancelTimers := ∅ }.getExpired now)
  return { s with queue, point := .running now expired expired }

/-- One round of the loop of `handlerRead`, up to the callback, or its end. -/
def runNext (s : TimerRun) (now : ℤ) (expired : List TimerEntry) :
    List TimerEntry → Except TimerStop TimerRun
  | [] => .ok { s with
      queue := { s.queue with callingExpiredTimers := false }
      point := .resetting now expired }
  | e :: todo => do
    let _ ← liftTimer (s.queue.deref e.timer)
    return {
      queue := { s.queue with ran := s.queue.ran ++ [e.timer] }
      point := .callback now expired todo
      history := .started e.timer :: s.history }

/-- One round of the loop of `reset`, or its end. -/
def resetNext (s : TimerRun) (now : ℤ) : List TimerEntry → Except TimerStop TimerRun
  | [] => do
    let queue ← liftTimer s.queue.rearm
    return { s with queue, point := .outside }
  | e :: todo => do
    let queue ← liftTimer (s.queue.resetEntry now e)
    return {
      queue
      point := .resetting now todo
      history := if (queue.schedule e.timer).isSome then .inserted e.timer :: s.history
        else s.history }

/-- A step of the loop thread. -/
def step (s : TimerRun) : TimerAction → Except TimerStop TimerRun
  | .call c =>
    if s.point.inUserCode ∨ c = .expire then do
      let queue ← liftTimer (s.queue.call c)
      return { s with queue, history := record c ++ s.history }
    else .error .disabled
  | .handlerRead now =>
    match s.point with
    | .outside => s.begin now
    | _ => .error .disabled
  | .runNext =>
    match s.point with
    | .running now expired todo => s.runNext now expired todo
    | _ => .error .disabled
  | .callbackReturns =>
    match s.point with
    | .callback now expired todo => .ok { s with point := .running now expired todo }
    | _ => .error .disabled
  | .resetNext =>
    match s.point with
    | .resetting now todo => s.resetNext now todo
    | _ => .error .disabled

/-! ## What is put back -/

/-- A cancelled timer is out of the set, and noted if it is in the batch. -/
structure Kept (s : TimerRun) : Prop where
  sound : s.queue.Sound
  neverPutBack : NeverGone putsBack s.history
  dequeued : ∀ p, Gone p s.history → s.queue.schedule p = none
  noted : ∀ p ∈ s.point.batch, Gone p s.history → p ∈ s.queue.cancelTimers
  held : ∀ p ∈ s.point.batch, s.queue.heap p ≠ none ∧ s.queue.schedule p = none
  nodup : s.point.batch.Nodup
  waiting_subset : s.point.waiting ⊆ s.point.batch
  calling : s.point.runsBatch = true → s.queue.callingExpiredTimers = true

section

variable {s t : TimerRun}

/-- Faults of the caller stay faults of the caller. -/
theorem ensures_liftTimer {α : Type} {x : Except TimerFault α} {P : α → Prop}
    (h : Ensures x P TimerFault.OfCaller) : Ensures (liftTimer x) P TimerStop.OfCaller := by
  cases x <;> exact h

/-- What a call leaves of the cancelled timers: all of them, but for one that it creates anew. -/
theorem gone_record {p : ℕ} {c : TimerCall} {history : List TimerEvent} :
    Gone p (record c ++ history) ↔
      c = .cancelTimer p ∨ Gone p history ∧ ∀ timer, c ≠ .addTimer p timer := by
  cases c with
  | addTimer p' timer => simp [record, Gone, and_comm]
  | cancelTimer p' => simp [record, Gone]
  | expire => simp [record]

/-- Events that do not count change nothing. -/
theorem neverGone_record {of : TimerEvent → Option ℕ} {c : TimerCall} {history : List TimerEvent}
    (hcreated : ∀ p, of (.created p) = none) (hcancelled : ∀ p, of (.cancelled p) = none) :
    NeverGone of (record c ++ history) ↔ NeverGone of history := by
  cases c <;> simp [record, NeverGone, hcreated, hcancelled]

/-- A step that leaves the queue's timers alone. -/
theorem Kept.move (h : s.Kept) (hheap : t.queue.heap = s.queue.heap)
    (htimers : t.queue.timers = s.queue.timers)
    (hcancel : t.queue.cancelTimers = s.queue.cancelTimers)
    (hgone : ∀ p, Gone p t.history → Gone p s.history)
    (hnever : NeverGone putsBack t.history) (hbatch : t.point.batch = s.point.batch)
    (hwaiting : t.point.waiting ⊆ s.point.waiting)
    (hcalling : t.point.runsBatch = true → t.queue.callingExpiredTimers = true) : t.Kept := by
  have hschedule (p : ℕ) : t.queue.schedule p = s.queue.schedule p := by
    rw [TimerQueue.schedule, TimerQueue.schedule, hheap, htimers]
  refine ⟨⟨?_, ?_⟩, hnever, fun p hp => (hschedule p).trans (h.dequeued p (hgone p hp)), ?_, ?_,
    ?_, ?_, hcalling⟩
  · rw [hheap, htimers]
    exact h.sound.time_eq
  · rw [hheap]
    exact h.sound.address_lt
  · rw [hbatch, hcancel]
    exact fun p hp hp' => h.noted p hp (hgone p hp')
  · rw [hbatch, hheap]
    exact fun p hp => ⟨(h.held p hp).1, (hschedule p).trans (h.held p hp).2⟩
  · rw [hbatch]
    exact h.nodup
  · rw [hbatch]
    exact List.Subset.trans hwaiting h.waiting_subset

/-- A call that is made outside the handler or in a callback. A timer of the batch that it
cancels is noted, since the batch is being run. -/
theorem Kept.call (h : s.Kept) {c : TimerCall} (huser : s.point.inUserCode = true)
    {queue : TimerQueue} (hcall : TimerQueue.Progress [] [c] s.queue queue) :
    Kept { s with queue, history := record c ++ s.history } := by
  have hschedule : queue.schedule = s.queue.schedule.call c := hcall.schedule_eq
  have hbatch : ∀ p ∈ s.point.batch, queue.heap p ≠ none ∧ queue.schedule p = none ∧
      (p ∈ queue.cancelTimers ↔ p ∈ s.queue.cancelTimers ∨ c = .cancelTimer p) := by
    intro p hp
    have hcalling : s.queue.callingExpiredTimers = true := by
      cases hpoint : s.point with
      | outside => simp [hpoint, HandlerPoint.batch] at hp
      | callback now expired todo => exact h.calling (by rw [hpoint]; rfl)
      | running now expired todo | resetting now todo =>
        rw [hpoint] at huser
        cases huser
    obtain ⟨hheap, hnone⟩ := h.held p hp
    obtain ⟨timer, htimer⟩ := Option.ne_none_iff_exists'.mp hheap
    obtain ⟨hnone', hiff⟩ := hcall.cancelled hcalling htimer hnone
    rw [List.mem_singleton, eq_comm] at hiff
    exact ⟨Option.ne_none_iff_exists'.mpr ⟨timer, hcall.heap_eq htimer⟩, hnone', hiff⟩
  have hnever : NeverGone putsBack (record c ++ s.history) :=
    (neverGone_record (fun _ => rfl) fun _ => rfl).mpr h.neverPutBack
  refine ⟨hcall.sound, hnever, fun p hgone => ?_, fun p hp hgone => ?_,
    fun p hp => ⟨(hbatch p hp).1, (hbatch p hp).2.1⟩, h.nodup,
    h.waiting_subset, fun hruns => hcall.calling_eq.trans (h.calling hruns)⟩
  · show queue.schedule p = none
    rw [hschedule]
    rcases gone_record.mp hgone with rfl | ⟨hgone, hother⟩
    · exact Function.update_self ..
    · have hnone := h.dequeued p hgone
      cases c with
      | addTimer p' timer =>
        have hne : p ≠ p' := by
          rintro rfl
          exact hother timer rfl
        exact (Function.update_of_ne hne ..).trans hnone
      | cancelTimer p' =>
        by_cases hp : p = p'
        · rw [hp]
          exact Function.update_self ..
        · exact (Function.update_of_ne hp ..).trans hnone
      | expire => exact hnone
  · rw [(hbatch p hp).2.2]
    rcases gone_record.mp hgone with hcancel | ⟨hgone, -⟩
    · exact .inr hcancel
    · exact .inl (h.noted p hp hgone)

/-- The handler takes its batch, in which no cancelled timer is. -/
theorem Kept.begin (h : s.Kept) (now : ℤ) :
    s.begin now = .ok { s with
      queue := s.queue.begin now
      point := .running now (s.queue.batch now) (s.queue.batch now) } ∧
    Kept { s with
      queue := s.queue.begin now
      point := .running now (s.queue.batch now) (s.queue.batch now) } := by
  have hcalled : TimerQueue.Sound { s.queue with
      alarm := s.queue.alarm.readTimerfd
      callingExpiredTimers := true
      cancelTimers := ∅ } := ⟨h.sound.time_eq, h.sound.address_lt⟩
  have hschedule (p : ℕ) : (s.queue.begin now).schedule p =
      if p ∈ (s.queue.batch now).map TimerEntry.timer then none else s.queue.schedule p :=
    h.sound.schedule_dropBelow p
  have hdue : ∀ p ∈ (s.queue.batch now).map TimerEntry.timer,
      ∃ timer, s.queue.schedule p = some timer := by
    intro p hp
    obtain ⟨timer, hqueued, -⟩ := h.sound.mem_batch_timers.mp hp
    exact ⟨timer, hqueued⟩
  refine ⟨?_, h.sound.begin now, h.neverPutBack, fun p hgone => ?_, fun p hp hgone => ?_,
    fun p hp => ⟨?_, ?_⟩, h.sound.batch_nodup, List.Subset.refl _, fun _ => rfl⟩
  · rw [TimerRun.begin, hcalled.getExpired_ok now]
    rfl
  · refine (hschedule p).trans ?_
    split
    · rfl
    · exact h.dequeued p hgone
  · obtain ⟨timer, hqueued⟩ := hdue p hp
    rw [h.dequeued p hgone] at hqueued
    cases hqueued
  · obtain ⟨timer, hqueued⟩ := hdue p hp
    exact Option.ne_none_iff_exists'.mpr ⟨timer, (TimerQueue.schedule_eq_some.mp hqueued).1⟩
  · exact (hschedule p).trans (if_pos hp)

/-- The next timer of the batch is there. -/
theorem Kept.runNext_cons (h : s.Kept) {now : ℤ} {expired todo : List TimerEntry} {e : TimerEntry}
    (hpoint : s.point = .running now expired (e :: todo)) :
    s.runNext now expired (e :: todo) = .ok {
      queue := { s.queue with ran := s.queue.ran ++ [e.timer] }
      point := .callback now expired todo
      history := .started e.timer :: s.history } ∧
    Kept {
      queue := { s.queue with ran := s.queue.ran ++ [e.timer] }
      point := .callback now expired todo
      history := .started e.timer :: s.history } := by
  have hmem : e.timer ∈ s.point.waiting := by
    rw [hpoint]
    exact List.mem_cons_self
  obtain ⟨timer, htimer⟩ := Option.ne_none_iff_exists'.mp (h.held _ (h.waiting_subset hmem)).1
  refine ⟨?_, h.move rfl rfl rfl (fun _ => id) ⟨by simp [putsBack], h.neverPutBack⟩ ?_ ?_ ?_⟩
  · rw [TimerRun.runNext, TimerQueue.deref_ok htimer]
    rfl
  · rw [hpoint]
    rfl
  · rw [hpoint]
    exact List.subset_cons_self ..
  · exact fun _ => h.calling (by rw [hpoint]; rfl)

/-- The loop of `reset` puts no cancelled timer back. -/
theorem Kept.resetNext_cons (h : s.Kept) {now : ℤ} {todo : List TimerEntry} {e : TimerEntry}
    (hpoint : s.point = .resetting now (e :: todo)) :
    ∃ queue history, s.resetNext now (e :: todo) =
        .ok { queue, point := .resetting now todo, history } ∧
      (history = s.history ∨ history = .inserted e.timer :: s.history) ∧
      Kept { queue, point := .resetting now todo, history } := by
  have hnoted := h.noted
  have hheld := h.held
  have hnodup := h.nodup
  rw [hpoint] at hnoted hheld hnodup
  obtain ⟨hmem, hnodup⟩ := List.nodup_cons.mp hnodup
  have hself : e.timer ∈ (HandlerPoint.resetting now (e :: todo)).batch := List.mem_cons_self
  have hrest : ∀ p ∈ todo.map TimerEntry.timer,
      p ∈ (HandlerPoint.resetting now (e :: todo)).batch ∧ p ≠ e.timer :=
    fun p hp => ⟨List.mem_cons_of_mem _ hp, fun heq => hmem (heq ▸ hp)⟩
  obtain ⟨hheap, hnone⟩ := hheld e.timer hself
  obtain ⟨timer, htimer⟩ := Option.ne_none_iff_exists'.mp hheap
  obtain ⟨queue, hok, hsound, -, hcancel, hback, hframe⟩ := h.sound.resetEntry now htimer hnone
  have hgone : Gone e.timer s.history → queue.schedule e.timer = none := by
    intro hgone
    rw [hback, TimerQueue.putBack, if_neg]
    exact fun hkept => hkept.2 (hnoted e.timer hself hgone)
  have hkept (history : List TimerEvent) (hnever : NeverGone putsBack history)
      (hsame : ∀ p, Gone p history ↔ Gone p s.history) :
      Kept { queue, point := .resetting now todo, history } := by
    refine ⟨hsound, hnever, fun p hp => ?_, fun p hp hp' => ?_, fun p hp => ?_, hnodup,
      List.nil_subset _, fun hruns => by cases hruns⟩
    · by_cases hne : p = e.timer
      · rw [hne]
        exact hgone (hne ▸ (hsame p).mp hp)
      · exact (hframe p hne).2.trans (h.dequeued p ((hsame p).mp hp))
    · show p ∈ queue.cancelTimers
      rw [hcancel]
      exact hnoted p (hrest p hp).1 ((hsame p).mp hp')
    · obtain ⟨hmem, hne⟩ := hrest p hp
      show queue.heap p ≠ none ∧ queue.schedule p = none
      rw [(hframe p hne).1, (hframe p hne).2]
      exact hheld p hmem
  rw [TimerRun.resetNext, hok]
  by_cases hsome : (queue.schedule e.timer).isSome
  · refine ⟨queue, .inserted e.timer :: s.history, ?_, .inr rfl, ?_⟩
    · simp [liftTimer, hsome]
    · refine hkept _ ⟨?_, h.neverPutBack⟩ fun p => Iff.rfl
      rintro p hp hgone'
      obtain rfl := Option.some.inj hp
      rw [hgone hgone'] at hsome
      cases hsome
  · refine ⟨queue, s.history, ?_, .inl rfl, hkept _ h.neverPutBack fun p => Iff.rfl⟩
    simp [liftTimer, hsome]

/-- What a step does to the history and to the timers that wait for their turn. -/
def Effect (s t : TimerRun) : TimerAction → Prop
  | .call c => t.point = s.point ∧ t.history = record c ++ s.history
  | .handlerRead _ => t.queue.cancelTimers = ∅ ∧ t.history = s.history
  | .runNext => t.point.waiting = [] ∧ t.history = s.history ∨
    ∃ p, s.point.waiting = p :: t.point.waiting ∧ t.history = .started p :: s.history
  | .callbackReturns => t.point.waiting = s.point.waiting ∧ t.history = s.history
  | .resetNext => t.point.waiting = [] ∧
    (t.history = s.history ∨ ∃ p, t.history = .inserted p :: s.history)

/-- Every step keeps the invariant. -/
theorem Kept.step (h : s.Kept) (a : TimerAction) :
    Ensures (s.step a) (fun t => t.Kept ∧ s.Effect t a) TimerStop.OfCaller := by
  cases a with
  | call c =>
    rw [TimerRun.step]
    split
    · next hallowed =>
      by_cases hexpire : c = .expire
      · subst hexpire
        exact ⟨h.move rfl rfl rfl (fun _ => id) h.neverPutBack rfl (List.Subset.refl _) h.calling,
          rfl, rfl⟩
      · refine (ensures_liftTimer (h.sound.call c)).bind fun queue hcall => ?_
        exact ⟨h.call (hallowed.resolve_right hexpire) hcall, rfl, rfl⟩
    · trivial
  | handlerRead now =>
    rw [TimerRun.step]
    split
    · obtain ⟨hok, hkept⟩ := h.begin now
      rw [hok]
      exact ⟨hkept, rfl, rfl⟩
    · trivial
  | runNext =>
    rw [TimerRun.step]
    split
    · next now expired todo hpoint =>
      cases todo with
      | nil =>
        exact ⟨h.move rfl rfl rfl (fun _ => id) h.neverPutBack (by rw [hpoint]; rfl)
          (List.nil_subset _) (fun hruns => by cases hruns), .inl ⟨rfl, rfl⟩⟩
      | cons e todo =>
        obtain ⟨hok, hkept⟩ := h.runNext_cons hpoint
        rw [hok]
        exact ⟨hkept, .inr ⟨e.timer, by rw [hpoint]; rfl, rfl⟩⟩
    · trivial
  | callbackReturns =>
    rw [TimerRun.step]
    split
    · next now expired todo hpoint =>
      have hwaiting : s.point.waiting = todo.map TimerEntry.timer := by rw [hpoint]; rfl
      exact ⟨h.move rfl rfl rfl (fun _ => id) h.neverPutBack (by rw [hpoint]; rfl)
        (hwaiting ▸ List.Subset.refl _)
        (fun _ => h.calling (by rw [hpoint]; rfl)), hwaiting.symm, rfl⟩
    · trivial
  | resetNext =>
    rw [TimerRun.step]
    split
    · next now todo hpoint =>
      cases todo with
      | nil =>
        obtain ⟨alarm, hok⟩ := h.sound.rearm_ok
        rw [TimerRun.resetNext, hok]
        exact ⟨h.move rfl rfl rfl (fun _ => id) h.neverPutBack (by rw [hpoint]; rfl)
          (List.nil_subset _) (fun hruns => by cases hruns), rfl, .inl rfl⟩
      | cons e todo =>
        obtain ⟨queue, history, hok, hhistory, hkept⟩ := h.resetNext_cons hpoint
        rw [hok]
        exact ⟨hkept, rfl, hhistory.imp_right fun heq => ⟨e.timer, heq⟩⟩
    · trivial

end

/-- Nothing has been created yet. -/
theorem kept_empty : Kept {} where
  sound := TimerQueue.sound_empty
  neverPutBack := trivial
  dequeued _ hgone := hgone.elim
  noted _ _ hgone := hgone.elim
  held := List.forall_mem_nil _
  nodup := .nil
  waiting_subset := List.nil_subset _
  calling hruns := by cases hruns

/-- A cancelled timer is never put back, whatever the callbacks do. -/
theorem never_putBack (actions : List TimerAction) :
    Always step (fun s => NeverGone putsBack s.history) {} actions := by
  apply along_of_guarded Kept ?_ ?_ kept_empty guarded_true
  · intro s a h _ t hok
    have hstep := h.step a
    rw [hok] at hstep
    exact hstep.1.neverPutBack
  · intro s a t h _ hok
    have hstep := h.step a
    rw [hok] at hstep
    exact hstep.1

/-! ## The steps of `handlerRead` -/

section

variable {queue queue' : TimerQueue} {now : ℤ} {callback : ℕ → List TimerCall}
  {expired todo : List TimerEntry} {history : List TimerEvent}

/-- The calls of a callback are steps. -/
theorem exists_run_of_calls {calls : List TimerCall}
    (hok : run TimerQueue.call queue calls = .ok queue') :
    ∃ history', run step ⟨queue, .callback now expired todo, history⟩ (calls.map .call) =
      .ok ⟨queue', .callback now expired todo, history'⟩ := by
  induction calls generalizing queue history with
  | nil =>
    obtain rfl := Except.ok.inj hok
    exact ⟨history, rfl⟩
  | cons c calls ih =>
    obtain ⟨queue₁, hcall, hrest⟩ := run_cons_eq_ok.mp hok
    obtain ⟨history', hrun⟩ := @ih queue₁ (record c ++ history) hrest
    refine ⟨history', run_cons_eq_ok.mpr ⟨_, ?_, hrun⟩⟩
    rw [step, if_pos (.inl rfl), hcall]
    rfl

/-- The loop that runs the batch takes its steps. -/
theorem exists_run_of_runExpired (hok : TimerQueue.runExpired callback todo queue = .ok queue') :
    ∃ actions history', run step ⟨queue, .running now expired todo, history⟩ actions =
      .ok ⟨queue', .running now expired [], history'⟩ := by
  induction todo generalizing queue history with
  | nil =>
    obtain rfl := Except.ok.inj hok
    exact ⟨[], history, rfl⟩
  | cons e todo ih =>
    obtain ⟨timer, hderef, hok⟩ := bind_eq_ok.mp hok
    obtain ⟨queue₁, hcalls, hrest⟩ := bind_eq_ok.mp hok
    obtain ⟨history₁, hcallback⟩ := @exists_run_of_calls _ _ now expired todo
      (.started e.timer :: history) _ hcalls
    obtain ⟨actions, history', hrun⟩ := @ih queue₁ history₁ hrest
    refine ⟨.runNext :: ((callback e.timer).map .call ++ .callbackReturns :: actions), history',
      run_cons_eq_ok.mpr ⟨⟨{ queue with ran := queue.ran ++ [e.timer] },
        .callback now expired todo, .started e.timer :: history⟩, ?_, ?_⟩⟩
    · simp only [step, runNext, hderef, liftTimer, ok_bind, pure_eq_ok]
    · rw [run_append, hcallback, ok_bind]
      exact run_cons_eq_ok.mpr ⟨_, rfl, hrun⟩

/-- The loop of `reset` takes its steps. -/
theorem exists_run_of_resetEntry (hok : run (TimerQueue.resetEntry now) queue todo = .ok queue') :
    ∃ actions history', run step ⟨queue, .resetting now todo, history⟩ actions =
      .ok ⟨queue', .resetting now [], history'⟩ := by
  induction todo generalizing queue history with
  | nil =>
    obtain rfl := Except.ok.inj hok
    exact ⟨[], history, rfl⟩
  | cons e todo ih =>
    obtain ⟨queue₁, hreset, hrest⟩ := run_cons_eq_ok.mp hok
    obtain ⟨actions, history', hrun⟩ := @ih queue₁ (if (queue₁.schedule e.timer).isSome then
      .inserted e.timer :: history else history) hrest
    refine ⟨.resetNext :: actions, history', run_cons_eq_ok.mpr ⟨_, ?_, hrun⟩⟩
    simp only [step, resetNext, hreset, liftTimer, ok_bind, pure_eq_ok]

/-- Every step of the queue is a run of these steps. -/
theorem exists_run_of_step {op : TimerOp} (hok : queue.step op = .ok queue')
    (history : List TimerEvent) :
    ∃ actions history', run step ⟨queue, .outside, history⟩ actions =
      .ok ⟨queue', .outside, history'⟩ := by
  cases op with
  | call c =>
    refine ⟨[.call c], record c ++ history, run_cons_eq_ok.mpr ⟨_, ?_, rfl⟩⟩
    have hcall : queue.call c = .ok queue' := hok
    rw [step, if_pos (.inl rfl), hcall]
    rfl
  | handlerRead now callback =>
    obtain ⟨⟨expired, queue₁⟩, hexpired, hok⟩ := bind_eq_ok.mp hok
    obtain ⟨queue₂, hrun, hok⟩ := bind_eq_ok.mp hok
    obtain ⟨queue₃, hreset, hrearm⟩ := bind_eq_ok.mp hok
    obtain ⟨actions, history₂, hactions⟩ :=
      @exists_run_of_runExpired _ _ now _ expired _ history hrun
    obtain ⟨actions', history₃, hactions'⟩ := @exists_run_of_resetEntry _ _ _ _ history₂ hreset
    refine ⟨.handlerRead now :: (actions ++ .runNext :: (actions' ++ [.resetNext])), history₃,
      run_cons_eq_ok.mpr ⟨⟨queue₁, .running now expired expired, history⟩, ?_, ?_⟩⟩
    · simp only [step, begin, hexpired, liftTimer, ok_bind, pure_eq_ok]
    · rw [run_append, hactions, ok_bind]
      refine run_cons_eq_ok.mpr ⟨_, rfl, ?_⟩
      rw [run_append, hactions', ok_bind]
      refine run_cons_eq_ok.mpr ⟨⟨queue', .outside, history₃⟩, ?_, rfl⟩
      simp only [step, resetNext, hrearm, liftTimer, ok_bind, pure_eq_ok]

end

end TimerRun

end Reactor
