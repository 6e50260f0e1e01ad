import Mathlib.Algebra.Group.Nat.Defs
import Mathlib.Data.List.Basic
import Mathlib.Logic.Function.Basic
import Reactor.Lib.Run
import Reactor.Machine

/-!
# The functor queue of the event loop

Other threads push functors and then write to the event descriptor; the loop thread
polls, runs the handlers of the active channels, and swaps the queue for the batch that
it runs. The program is cut at every point where another thread can be seen, so that a
run of the model is an interleaving.
-/

namespace Reactor

open Transition

/-- What another thread is about to do. -/
inductive ThreadPc where
  | idle
  /-- In `queueInLoop`, between the push and `wakeup`. -/
  | queued
  /-- In `stop`, between the assignment of `start_` and `wakeup`. -/
  | stopping
  deriving DecidableEq, Repr

/-- Where the loop thread is. -/
inductive LoopPc (F : Type*) where
  /-- Not in `loop`. -/
  | idle
  /-- At the test of `start_`. -/
  | test
  /-- In `poll`. -/
  | poll
  /-- In the handlers of the active channels; the handler of `wakeupChannel_` is still to
  run if `readable`. -/
  | handlers (readable : Bool)
  /-- In `doPendingFunctors`, between the swap and the assignment of
  `callingPendFunctors_`. -/
  | swapped (functors : List F)
  /-- In the loop of `doPendingFunctors`, before or in a functor; `functors` are those
  behind it. -/
  | running (functors : List F)
  deriving Repr

/-- The loop thread is between the iterations or in `poll`. -/
def LoopPc.Quiet {F : Type*} (pc : LoopPc F) : Prop := pc = .idle ∨ pc = .test ∨ pc = .poll

/-- The largest value of the counter of an event descriptor. -/
def eventfdMax : ℕ := 2 ^ 64 - 2

/-- `EventLoop`, with the counter of its event descriptor, the threads that use it, and
the functors that were pushed and executed. -/
structure EventLoop (τ F : Type*) where
  start : Bool := false
  pendingFunctors : List F := []
  callingPendFunctors : Bool := false
  counter : ℕ := 0
  pc : LoopPc F := .idle
  /-- The loop thread is in `queueInLoop`, behind the push. -/
  queuing : Bool := false
  threads : τ → ThreadPc := fun _ => .idle
  executed : List F := []
  pushed : List F := []

/-- A step of another thread or of the loop thread. -/
inductive LoopAction (τ F : Type*) where
  /-- The thread `t` pushes a functor in `queueInLoop`. -/
  | push (t : τ) (functor : F)
  /-- The thread `t` clears `start_` in `stop`. -/
  | clearStart (t : τ)
  /-- The thread `t` writes to the event descriptor and returns. -/
  | wakeup (t : τ)
  /-- The loop thread calls `loop`. -/
  | enter
  /-- The loop thread tests `start_`. -/
  | test
  /-- `poll` returns; `readable` if it reports `wakeupChannel_`. -/
  | pollReturn (readable : Bool)
  /-- The handler of `wakeupChannel_`. -/
  | readEventFd
  /-- A handler or a functor pushes a functor in `queueInLoop`. -/
  | loopPush (functor : F)
  /-- The rest of this `queueInLoop`. -/
  | loopWakeup
  /-- A handler or a functor calls `stop`. -/
  | loopStop
  /-- `doPendingFunctors` swaps the queue. -/
  | swap
  /-- `callingPendFunctors_` is set. -/
  | setCalling
  /-- The next functor of the batch is called. -/
  | callFunctor
  /-- `callingPendFunctors_` is cleared. -/
  | clearCalling

namespace EventLoop

variable {τ F : Type*} [DecidableEq τ]

/-- `wakeup`. A write that would pass the largest value fails. -/
def wakeup (loop : EventLoop τ F) : EventLoop τ F :=
  { loop with counter := if loop.counter < eventfdMax then loop.counter + 1 else loop.counter }

/-- `pendingFunctors_.push_back` under the mutex. -/
def pushBack (loop : EventLoop τ F) (functor : F) : EventLoop τ F :=
  { loop with
    pendingFunctors := loop.pendingFunctors ++ [functor]
    pushed := loop.pushed ++ [functor] }

/-- The other thread `t` moves on. -/
def setThread (loop : EventLoop τ F) (t : τ) (pc : ThreadPc) : EventLoop τ F :=
  { loop with threads := Function.update loop.threads t pc }

/-- The loop thread may run user code, which is a handler or a functor. -/
def inUserCode (loop : EventLoop τ F) : Bool :=
  match loop.pc with
  | .handlers _ => !loop.queuing
  | .running _ => !loop.queuing
  | _ => false

/-- A step of the interleaving. -/
def step (loop : EventLoop τ F) : LoopAction τ F → Except Disabled (EventLoop τ F)
  | .push t functor =>
    if loop.threads t = .idle then .ok ((loop.pushBack functor).setThread t .queued)
    else .error .disabled
  | .clearStart t =>
    if loop.threads t = .idle then .ok ({ loop with start := false }.setThread t .stopping)
    else .error .disabled
  | .wakeup t =>
    if loop.threads t ≠ .idle then .ok (loop.wakeup.setThread t .idle)
    else .error .disabled
  | .enter =>
    match loop.pc with
    | .idle => .ok { loop with start := true, pc := .test }
    | _ => .error .disabled
  | .test =>
    match loop.pc with
    | .test => .ok { loop with pc := if loop.start then .poll else .idle }
    | _ => .error .disabled
  | .pollReturn readable =>
    match loop.pc with
    | .poll =>
      if readable = true → 0 < loop.counter then .ok { loop with pc := .handlers readable }
      else .error .disabled
    | _ => .error .disabled
  | .readEventFd =>
    match loop.pc, loop.queuing with
    | .handlers true, false => .ok { loop with counter := 0, pc := .handlers false }
    | _, _ => .error .disabled
  | .loopPush functor =>
    if loop.inUserCode then .ok { loop.pushBack functor with queuing := true }
    else .error .disabled
  | .loopWakeup =>
    if loop.queuing then
      let woken := if loop.callingPendFunctors then loop.wakeup else loop
      .ok { woken with queuing := false }
    else .error .disabled
  | .loopStop =>
    if loop.inUserCode then .ok { loop with start := false } else .error .disabled
  | .swap =>
    match loop.pc, loop.queuing with
    | .handlers false, false =>
      .ok { loop with pc := .swapped loop.pendingFunctors, pendingFunctors := [] }
    | _, _ => .error .disabled
  | .setCalling =>
    match loop.pc with
    | .swapped functors => .ok { loop with pc := .running functors, callingPendFunctors := true }
    | _ => .error .disabled
  | .callFunctor =>
    match loop.pc, loop.queuing with
    | .running (functor :: functors), false =>
      .ok { loop with pc := .running functors, executed := loop.executed ++ [functor] }
    | _, _ => .error .disabled
  | .clearCalling =>
    match loop.pc, loop.queuing with
    | .running [], false => .ok { loop with pc := .test, callingPendFunctors := false }
    | _, _ => .error .disabled

/-- The rest of the batch that `doPendingFunctors` has swapped out. -/
def unexecuted (loop : EventLoop τ F) : List F :=
  match loop.pc with
  | .swapped functors => functors
  | .running functors => functors
  | _ => []

/-- No functor is lost, duplicated or reordered. -/
def InOrder (loop : EventLoop τ F) : Prop :=
  loop.executed ++ loop.unexecuted ++ loop.pendingFunctors = loop.pushed

/-- A poll with pending functors has been woken, or a thread is about to wake it. -/
def Woken (loop : EventLoop τ F) : Prop :=
  loop.pc = .poll → loop.pendingFunctors ≠ [] →
    0 < loop.counter ∨ ∃ t, loop.threads t = .queued

/-- The loop thread runs the handlers of the active channels. -/
def InHandlers (loop : EventLoop τ F) : Prop := ∃ readable, loop.pc = .handlers readable

/-- The loop thread runs the functors of a batch. -/
def InFunctors (loop : EventLoop τ F) : Prop := ∃ functors, loop.pc = .running functors

/-- Somebody has written to the event descriptor or is about to. -/
def Noticed (loop : EventLoop τ F) : Prop :=
  0 < loop.counter ∨ (∃ t, loop.threads t = .queued) ∨ loop.queuing = true

/-- The invariant of the loop. Only the handlers may leave a functor unnoticed, since
`doPendingFunctors` follows them. -/
structure Sound (loop : EventLoop τ F) : Prop where
  inOrder : loop.InOrder
  calling_iff : loop.callingPendFunctors = true ↔ loop.InFunctors
  queuing : loop.queuing = true → loop.InHandlers ∨ loop.InFunctors
  noticed : ¬ loop.InHandlers → loop.pendingFunctors ≠ [] → loop.Noticed

section

variable {loop loop' : EventLoop τ F}

omit [DecidableEq τ] in
/-- A wakeup makes the descriptor readable. -/
theorem wakeup_counter_pos (loop : EventLoop τ F) : 0 < loop.wakeup.counter := by
  rw [wakeup]
  dsimp only
  split
  · omega
  · next h =>
    rw [eventfdMax] at h
    omega

omit [DecidableEq τ] in
/-- In a sound state the loop has been woken for every functor. -/
theorem Sound.woken (h : loop.Sound) : loop.Woken := by
  intro hpc hpending
  have hnot : ¬ loop.InHandlers := by
    rintro ⟨readable, hhandlers⟩
    rw [hpc] at hhandlers
    cases hhandlers
  rcases h.noticed hnot hpending with hcounter | hthread | hqueuing
  · exact .inl hcounter
  · exact .inr hthread
  · rcases h.queuing hqueuing with hhandlers | ⟨functors, hrunning⟩
    · exact absurd hhandlers hnot
    · rw [hpc] at hrunning
      cases hrunning

/-! ## Other threads -/

omit [DecidableEq τ] in
/-- A functor that is pushed comes behind all others. -/
theorem InOrder.pushBack (h : loop.InOrder) (functor : F) : (loop.pushBack functor).InOrder := by
  have horder : loop.executed ++ loop.unexecuted ++ loop.pendingFunctors = loop.pushed := h
  change loop.executed ++ loop.unexecuted ++ (loop.pendingFunctors ++ [functor]) =
    loop.pushed ++ [functor]
  rw [← List.append_assoc, horder]

/-- A push by another thread is noticed by its own `wakeup`. -/
theorem Sound.push (h : loop.Sound) (t : τ) (functor : F) :
    ((loop.pushBack functor).setThread t .queued).Sound where
  inOrder := h.inOrder.pushBack functor
  calling_iff := h.calling_iff
  queuing := h.queuing
  noticed _ _ := .inr (.inl ⟨t, Function.update_self ..⟩)

/-- A thread that clears `start_` is about to wake the loop up. -/
theorem Sound.clearStart (h : loop.Sound) {t : τ} (hidle : loop.threads t = .idle) :
    ({ loop with start := false }.setThread t .stopping).Sound where
  inOrder := h.inOrder
  calling_iff := h.calling_iff
  queuing := h.queuing
  noticed hnot hpending := by
    refine (h.noticed hnot hpending).imp_right (Or.imp_left ?_)
    rintro ⟨t', hqueued⟩
    have hne : t' ≠ t := by
      rintro rfl
      rw [hidle] at hqueued
      cases hqueued
    exact ⟨t', (Function.update_of_ne hne ..).trans hqueued⟩

/-- A wakeup keeps the loop sound. -/
theorem Sound.wakeup (h : loop.Sound) (t : τ) : (loop.wakeup.setThread t .idle).Sound where
  inOrder := h.inOrder
  calling_iff := h.calling_iff
  queuing := h.queuing
  noticed _ _ := .inl (wakeup_counter_pos loop)

/-! ## User code of the loop thread -/

omit [DecidableEq τ] in
/-- The loop is in user code when a handler or a functor runs and pushes nothing. -/
theorem inUserCode_iff :
    loop.inUserCode = true ↔ (loop.InHandlers ∨ loop.InFunctors) ∧ loop.queuing = false := by
  rw [inUserCode, InHandlers, InFunctors]
  cases loop.pc <;> simp

omit [DecidableEq τ] in
/-- A push by user code. -/
theorem Sound.loopPush (h : loop.Sound) (huser : loop.inUserCode = true) (functor : F) :
    Sound { loop.pushBack functor with queuing := true } where
  inOrder := h.inOrder.pushBack functor
  calling_iff := h.calling_iff
  queuing _ := (inUserCode_iff.mp huser).1
  noticed _ _ := .inr (.inr rfl)

omit [DecidableEq τ] in
/-- A functor wakes the next poll; a handler need not. -/
theorem Sound.loopWakeup (h : loop.Sound) (hqueuing : loop.queuing = true) :
    Sound { (if loop.callingPendFunctors then loop.wakeup else loop) with queuing := false } := by
  by_cases hcalling : loop.callingPendFunctors = true
  · rw [if_pos hcalling]
    exact ⟨h.inOrder, h.calling_iff, fun hfalse => absurd hfalse Bool.false_ne_true,
      fun _ _ => .inl (wakeup_counter_pos loop)⟩
  · rw [if_neg hcalling]
    have hhandlers : loop.InHandlers :=
      (h.queuing hqueuing).resolve_right fun hfunctors => hcalling (h.calling_iff.mpr hfunctors)
    exact ⟨h.inOrder, h.calling_iff, fun hfalse => absurd hfalse Bool.false_ne_true,
      fun hnot => absurd hhandlers hnot⟩

omit [DecidableEq τ] in
/-- Stopping from the loop itself keeps it sound. -/
theorem Sound.loopStop (h : loop.Sound) : Sound { loop with start := false } :=
  ⟨h.inOrder, h.calling_iff, h.queuing, h.noticed⟩

/-! ## The loop -/

omit [DecidableEq τ] in
/-- Only handlers and functors push from the loop. -/
theorem Sound.queuing_eq_false (h : loop.Sound) (hhandlers : ¬ loop.InHandlers)
    (hfunctors : ¬ loop.InFunctors) : loop.queuing = false := by
  by_contra hqueuing
  rcases h.queuing (by simpa using hqueuing) with hin | hin
  · exact hhandlers hin
  · exact hfunctors hin

omit [DecidableEq τ] in
/-- The loop thread moves on between the iterations. -/
theorem Sound.move (h : loop.Sound) (hquiet : LoopPc.Quiet loop.pc) (start : Bool)
    {pc : LoopPc F} (hquiet' : LoopPc.Quiet pc) : Sound { loop with start, pc } := by
  have hhandlers : ¬ loop.InHandlers := by
    rintro ⟨readable, hpc⟩
    simp [LoopPc.Quiet, hpc] at hquiet
  have hfunctors : ¬ loop.InFunctors := by
    rintro ⟨functors, hpc⟩
    simp [LoopPc.Quiet, hpc] at hquiet
  have hfunctors' : ¬ ∃ functors, pc = .running functors := by
    rintro ⟨functors, rfl⟩
    simp [LoopPc.Quiet] at hquiet'
  have hunexecuted : unexecuted { loop with start, pc } = loop.unexecuted := by
    rcases hquiet with hpc | hpc | hpc <;> rcases hquiet' with rfl | rfl | rfl <;>
      simp [unexecuted, hpc]
  refine ⟨?_,
    (iff_false_right hfunctors').mpr fun hcalling => hfunctors (h.calling_iff.mp hcalling),
    fun hqueuing => ?_, fun _ => h.noticed hhandlers⟩
  · rw [InOrder, hunexecuted]
    exact h.inOrder
  · rw [h.queuing_eq_false hhandlers hfunctors] at hqueuing
    cases hqueuing

omit [DecidableEq τ] in
/-- The handlers run, until `swap`, without promises about pending functors. -/
theorem Sound.handle (h : loop.Sound) (hpc : loop.pc = .poll ∨ loop.InHandlers) (counter : ℕ)
    (readable : Bool) : Sound { loop with counter, pc := .handlers readable } := by
  have hunexecuted : loop.unexecuted = [] := by
    rcases hpc with hpc | ⟨_, hpc⟩ <;> simp [unexecuted, hpc]
  have hfunctors : ¬ loop.InFunctors := by
    rintro ⟨functors, hrunning⟩
    rcases hpc with hpc | ⟨_, hpc⟩ <;> simp [hpc] at hrunning
  refine ⟨?_, (iff_false_right ?_).mpr fun hcalling => hfunctors (h.calling_iff.mp hcalling),
    fun _ => .inl ⟨readable, rfl⟩, fun hnot => absurd ⟨readable, rfl⟩ hnot⟩
  · have horder := h.inOrder
    rwa [InOrder, hunexecuted] at horder
  · rintro ⟨functors, hrunning⟩
    cases hrunning

omit [DecidableEq τ] in
/-- At other points no handler runs. -/
theorem not_inHandlers {pc : LoopPc F} (hpc : loop.pc = pc)
    (h : ∀ readable, pc ≠ .handlers readable) : ¬ loop.InHandlers := by
  rintro ⟨readable, hhandlers⟩
  exact h readable (hpc.symm.trans hhandlers)

omit [DecidableEq τ] in
/-- At other points no functor runs. -/
theorem not_inFunctors {pc : LoopPc F} (hpc : loop.pc = pc)
    (h : ∀ functors, pc ≠ .running functors) : ¬ loop.InFunctors := by
  rintro ⟨functors, hrunning⟩
  exact h functors (hpc.symm.trans hrunning)

omit [DecidableEq τ] in
/-- The swap turns the pending functors into the batch. -/
theorem Sound.swap (h : loop.Sound) {readable : Bool} (hpc : loop.pc = .handlers readable)
    (hqueuing : loop.queuing = false) :
    Sound { loop with pc := .swapped loop.pendingFunctors, pendingFunctors := [] } := by
  have hfunctors := not_inFunctors hpc (by simp)
  refine ⟨?_, ⟨fun hcalling => absurd (h.calling_iff.mp hcalling) hfunctors, ?_⟩, ?_,
    fun _ hpending => absurd rfl hpending⟩
  · have horder := h.inOrder
    rw [InOrder, unexecuted, hpc] at horder
    simpa [InOrder, unexecuted] using horder
  · rintro ⟨functors, hrunning⟩
    cases hrunning
  · intro htrue
    rw [hqueuing] at htrue
    cases htrue

omit [DecidableEq τ] in
/-- The batch that has been taken is about to run. -/
theorem Sound.setCalling (h : loop.Sound) {functors : List F} (hpc : loop.pc = .swapped functors) :
    Sound { loop with pc := .running functors, callingPendFunctors := true } := by
  have hhandlers := not_inHandlers hpc (by simp)
  refine ⟨?_, ⟨fun _ => ⟨functors, rfl⟩, fun _ => rfl⟩, fun _ => .inr ⟨functors, rfl⟩,
    fun _ => h.noticed hhandlers⟩
  have horder := h.inOrder
  rwa [InOrder, unexecuted, hpc] at horder

omit [DecidableEq τ] in
/-- A functor is executed when it is called; until it returns it is user code. -/
theorem Sound.callFunctor (h : loop.Sound) {functor : F} {functors : List F}
    (hpc : loop.pc = .running (functor :: functors)) :
    Sound { loop with pc := .running functors, executed := loop.executed ++ [functor] } := by
  have hhandlers := not_inHandlers hpc (by simp)
  refine ⟨?_, ⟨fun _ => ⟨functors, rfl⟩, fun _ => h.calling_iff.mpr ⟨_, hpc⟩⟩,
    fun _ => .inr ⟨functors, rfl⟩, fun _ => h.noticed hhandlers⟩
  have horder := h.inOrder
  rw [InOrder, unexecuted, hpc] at horder
  simpa [InOrder, unexecuted] using horder

omit [DecidableEq τ] in
/-- The batch has been run to its end. -/
theorem Sound.clearCalling (h : loop.Sound) (hpc : loop.pc = .running [])
    (hqueuing : loop.queuing = false) :
    Sound { loop with pc := .test, callingPendFunctors := false } := by
  have hhandlers := not_inHandlers hpc (by simp)
  refine ⟨?_, ⟨fun hfalse => absurd hfalse Bool.false_ne_true, ?_⟩, ?_,
    fun _ => h.noticed hhandlers⟩
  · have horder := h.inOrder
    rwa [InOrder, unexecuted, hpc] at horder
  · rintro ⟨functors, hrunning⟩
    cases hrunning
  · intro htrue
    rw [hqueuing] at htrue
    cases htrue

/-- Every step of the interleaving keeps the invariant. -/
theorem Sound.step (h : loop.Sound) (action : LoopAction τ F)
    (hok : loop.step action = .ok loop') : loop'.Sound := by
  cases action with
  | push t functor =>
    obtain ⟨-, rfl⟩ := ite_eq_ok.mp hok
    exact h.push t functor
  | clearStart t =>
    obtain ⟨hidle, rfl⟩ := ite_eq_ok.mp hok
    exact h.clearStart hidle
  | wakeup t =>
    obtain ⟨-, rfl⟩ := ite_eq_ok.mp hok
    exact h.wakeup t
  | enter =>
    rw [EventLoop.step] at hok
    split at hok
    · next hpc =>
      obtain rfl := Except.ok.inj hok
      exact h.move (.inl hpc) true (.inr (.inl rfl))
    · cases hok
  | test =>
    rw [EventLoop.step] at hok
    split at hok
    · next hpc =>
      obtain rfl := Except.ok.inj hok
      refine h.move (.inr (.inl hpc)) loop.start ?_
      split
      · exact .inr (.inr rfl)
      · exact .inl rfl
    · cases hok
  | pollReturn readable =>
    rw [EventLoop.step] at hok
    split at hok
    · next hpc =>
      obtain ⟨-, rfl⟩ := ite_eq_ok.mp hok
      exact h.handle (.inl hpc) loop.counter readable
    · cases hok
  | readEventFd =>
    rw [EventLoop.step] at hok
    split at hok
    · next hpc hqueuing =>
      obtain rfl := Except.ok.inj hok
      exact h.handle (.inr ⟨true, hpc⟩) 0 false
    · cases hok
  | loopPush functor =>
    obtain ⟨huser, rfl⟩ := ite_eq_ok.mp hok
    exact h.loopPush huser functor
  | loopWakeup =>
    obtain ⟨hqueuing, rfl⟩ := ite_eq_ok.mp hok
    exact h.loopWakeup hqueuing
  | loopStop =>
    obtain ⟨-, rfl⟩ := ite_eq_ok.mp hok
    exact h.loopStop
  | swap =>
    rw [EventLoop.step] at hok
    split at hok
    · next hpc hqueuing =>
      obtain rfl := Except.ok.inj hok
      exact h.swap hpc hqueuing
    · cases hok
  | setCalling =>
    rw [EventLoop.step] at hok
    split at hok
    · next functors hpc =>
      obtain rfl := Except.ok.inj hok
      exact h.setCalling hpc
    · cases hok
  | callFunctor =>
    rw [EventLoop.step] at hok
    split at hok
    · next functor functors hpc hqueuing =>
      obtain rfl := Except.ok.inj hok
      exact h.callFunctor hpc
    · cases hok
  | clearCalling =>
    rw [EventLoop.step] at hok
    split at hok
    · next hpc hqueuing =>
      obtain rfl := Except.ok.inj hok
      exact h.clearCalling hpc hqueuing
    · cases hok

omit [DecidableEq τ] in
/-- A new loop is sound. -/
theorem sound_empty : Sound ({} : EventLoop τ F) where
  inOrder := rfl
  calling_iff := ⟨fun hfalse => absurd hfalse Bool.false_ne_true, fun ⟨_, hpc⟩ => by cases hpc⟩
  queuing hfalse := absurd hfalse Bool.false_ne_true
  noticed _ hpending := absurd rfl hpending

end

/-- In every interleaving no functor is lost, duplicated or reordered, and no poll sleeps
over a pending functor. -/
theorem functors_inOrder_and_woken (actions : List (LoopAction τ F)) :
    Always step (fun loop => loop.InOrder ∧ loop.Woken) ({} : EventLoop τ F) actions := by
  refine along_of_guarded Sound ?_ ?_ sound_empty guarded_true
  · intro loop action h _ loop' hok
    exact ⟨(h.step action hok).inOrder, (h.step action hok).woken⟩
  · exact fun loop action loop' h _ hok => h.step action hok

end EventLoop

end Reactor
