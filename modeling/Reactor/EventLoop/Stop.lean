import Reactor.EventLoop

/-!
# Stopping the event loop from another thread

`stop` clears `start_` and wakes the loop, `loop` sets `start_` before its first test.
A `stop` that follows this assignment is not lost, wherever the loop thread is. One that
precedes it is overwritten, and the loop goes back to sleep.
-/

namespace Reactor

open Transition

/-- A step of a run in which `loop` is called once. -/
inductive StopAction (τ F : Type*) where
  /-- The loop thread calls `loop`, which has not assigned `start_` yet. -/
  | callLoop
  /-- A step of the interleaving. -/
  | interleave (action : LoopAction τ F)

/-- A run in which `loop` is called once, and what has become of `stop`. -/
structure StopRun (τ F : Type*) where
  loop : EventLoop τ F := {}
  /-- The loop thread has called `loop`. -/
  called : Bool := false
  /-- `loop` has set `start_`. -/
  initialised : Bool := false
  /-- A `stop` of another thread has returned. -/
  returned : Bool := false
  /-- The iterations that the loop thread has begun since then. -/
  iterations : ℕ := 0

namespace StopRun

variable {τ F : Type*} [DecidableEq τ]

/-- A step of the run. -/
def step (s : StopRun τ F) : StopAction τ F → Except Disabled (StopRun τ F)
  | .callLoop => if s.called = false then .ok { s with called := true } else .error .disabled
  | .interleave .enter =>
    if s.called = true ∧ s.initialised = false then
      (s.loop.step .enter).map fun loop => { s with loop, initialised := true }
    else .error .disabled
  | .interleave (.wakeup t) =>
    (s.loop.step (.wakeup t)).map fun loop =>
      { s with loop, returned := s.returned || decide (s.loop.threads t = .stopping) }
  | .interleave .test =>
    (s.loop.step .test).map fun loop =>
      { s with loop, iterations := s.iterations + if s.returned && s.loop.start then 1 else 0 }
  | .interleave action => (s.loop.step action).map fun loop => { s with loop }

/-- After `stop` has returned the loop begins at most one iteration, and no poll sleeps. -/
def StopKept (s : StopRun τ F) : Prop :=
  s.returned = true → s.iterations ≤ 1 ∧ (s.loop.pc = .poll → 0 < s.loop.counter)

/-- `stop` clears `start_` after `loop` has set it. -/
def StopsInitialised (s : StopRun τ F) : StopAction τ F → Prop
  | .interleave (.clearStart _) => s.initialised = true
  | _ => True

instance (s : StopRun τ F) (action : StopAction τ F) : Decidable (s.StopsInitialised action) := by
  unfold StopsInitialised
  split
  · infer_instance
  · infer_instance

end StopRun

namespace EventLoop

variable {τ F : Type*} [DecidableEq τ] {loop loop' : EventLoop τ F}

omit [DecidableEq τ] in
/-- A wakeup does not lower the counter. -/
theorem counter_le_wakeup (loop : EventLoop τ F) : loop.counter ≤ loop.wakeup.counter := by
  unfold wakeup
  dsimp only
  split
  · omega
  · omega

/-- What a step leaves of a loop that has been stopped: it stays stopped, and if it is in
`poll` it was there before and has not lost its wakeup. -/
def StaysStopped (loop loop' : EventLoop τ F) : Prop :=
  loop'.start = false ∧ (loop'.pc = .poll → loop.pc = .poll ∧ loop.counter ≤ loop'.counter)

omit [DecidableEq τ] in
/-- A stop lasts while the loop stays where it is and no wakeup gets lost. -/
theorem staysStopped_of_eq (hstart : loop'.start = false) (hpc : loop'.pc = loop.pc)
    (hcounter : loop.counter ≤ loop'.counter) : loop.StaysStopped loop' := by
  constructor
  · exact hstart
  · intro hpoll
    exact ⟨hpc.symm.trans hpoll, hcounter⟩

/-- Every step but the call of `loop` leaves a stopped loop stopped. -/
theorem staysStopped_step (hstart : loop.start = false) {action : LoopAction τ F}
    (hnot : action ≠ .enter) (hok : loop.step action = .ok loop') : loop.StaysStopped loop' := by
  cases action with
  | push t functor =>
    obtain ⟨-, rfl⟩ := ite_eq_ok.mp hok
    exact staysStopped_of_eq hstart rfl (Nat.le_refl _)
  | clearStart t =>
    obtain ⟨-, rfl⟩ := ite_eq_ok.mp hok
    exact staysStopped_of_eq rfl rfl (Nat.le_refl _)
  | wakeup t =>
    obtain ⟨-, rfl⟩ := ite_eq_ok.mp hok
    exact staysStopped_of_eq hstart rfl (counter_le_wakeup loop)
  | enter => exact absurd rfl hnot
  | test =>
    rw [step] at hok
    split at hok
    · obtain rfl := Except.ok.inj hok
      simp [StaysStopped, hstart]
    · cases hok
  | pollReturn readable =>
    rw [step] at hok
    split at hok
    · obtain ⟨-, rfl⟩ := ite_eq_ok.mp hok
      simp [StaysStopped, hstart]
    · cases hok
  | loopPush functor =>
    obtain ⟨-, rfl⟩ := ite_eq_ok.mp hok
    exact staysStopped_of_eq hstart rfl (Nat.le_refl _)
  | loopWakeup =>
    obtain ⟨-, rfl⟩ := ite_eq_ok.mp hok
    split
    · exact staysStopped_of_eq hstart rfl (counter_le_wakeup loop)
    · exact staysStopped_of_eq hstart rfl (Nat.le_refl _)
  | loopStop =>
    obtain ⟨-, rfl⟩ := ite_eq_ok.mp hok
    exact staysStopped_of_eq rfl rfl (Nat.le_refl _)
  | readEventFd | swap | setCalling | callFunctor | clearCalling =>
    rw [step] at hok
    split at hok
    · obtain rfl := Except.ok.inj hok
      simp [StaysStopped, hstart]
    · cases hok

/-- A thread is in `stop` if it was there before or has just cleared `start_`. -/
theorem stopping_step {action : LoopAction τ F} (hok : loop.step action = .ok loop') {t : τ}
    (ht : loop'.threads t = .stopping) :
    loop.threads t = .stopping ∨ action = .clearStart t := by
  cases action with
  | push t' functor =>
    obtain ⟨-, rfl⟩ := ite_eq_ok.mp hok
    by_cases heq : t = t'
    · subst heq
      simp [setThread] at ht
    · left
      exact (Function.update_of_ne heq ..).symm.trans ht
  | clearStart t' =>
    obtain ⟨-, rfl⟩ := ite_eq_ok.mp hok
    by_cases heq : t = t'
    · right
      rw [heq]
    · left
      exact (Function.update_of_ne heq ..).symm.trans ht
  | wakeup t' =>
    obtain ⟨-, rfl⟩ := ite_eq_ok.mp hok
    by_cases heq : t = t'
    · subst heq
      simp [setThread] at ht
    · left
      exact (Function.update_of_ne heq ..).symm.trans ht
  | loopPush functor =>
    obtain ⟨-, rfl⟩ := ite_eq_ok.mp hok
    exact .inl ht
  | loopWakeup =>
    obtain ⟨-, rfl⟩ := ite_eq_ok.mp hok
    left
    dsimp only at ht
    split at ht
    · exact ht
    · exact ht
  | loopStop =>
    obtain ⟨-, rfl⟩ := ite_eq_ok.mp hok
    exact .inl ht
  | pollReturn readable =>
    rw [step] at hok
    split at hok
    · obtain ⟨-, rfl⟩ := ite_eq_ok.mp hok
      exact .inl ht
    · cases hok
  | enter | test | readEventFd | swap | setCalling | callFunctor | clearCalling =>
    rw [step] at hok
    split at hok
    · obtain rfl := Except.ok.inj hok
      exact .inl ht
    · cases hok

end EventLoop

namespace StopRun

variable {τ F : Type*} [DecidableEq τ] {s s' : StopRun τ F}

/-- The invariant of a run in which no `stop` comes too early. -/
structure Sound (s : StopRun τ F) : Prop where
  /-- A `stop` has begun only after the initialisation, and `start_` stays cleared. -/
  stopped : (s.returned = true ∨ ∃ t, s.loop.threads t = .stopping) →
    s.initialised = true ∧ s.loop.start = false
  awake : s.returned = true → s.loop.pc = .poll → 0 < s.loop.counter
  iterations : s.iterations = 0

omit [DecidableEq τ] in
/-- A new loop has not been stopped. -/
theorem sound_empty : Sound ({} : StopRun τ F) := by
  constructor
  · rintro (hfalse | ⟨t, ht⟩)
    · cases hfalse
    · cases ht
  · intro hfalse
    cases hfalse
  · rfl

omit [DecidableEq τ] in
/-- In a sound state no stop has been forgotten. -/
theorem Sound.stopKept (h : s.Sound) : s.StopKept := by
  intro hreturned
  have hiterations := h.iterations
  exact ⟨by omega, h.awake hreturned⟩

/-- What a step of the interleaving does to the record of the run. -/
structure Records (s s' : StopRun τ F) (action : LoopAction τ F) : Prop where
  loop : s.loop.step action = .ok s'.loop
  enter : action = .enter → s.initialised = false
  initialised : s.initialised = true → s'.initialised = true
  returned : s'.returned = true → s.returned = true ∨
    ∃ t, action = .wakeup t ∧ s.loop.threads t = .stopping
  iterations : (s.returned = true → s.loop.start = false) → s'.iterations = s.iterations

/-- A step records the stops that it makes. -/
theorem records_step {action : LoopAction τ F} (hok : s.step (.interleave action) = .ok s') :
    s.Records s' action := by
  cases action with
  | enter =>
    rw [step] at hok
    split at hok
    · next hcalled =>
      obtain ⟨loop, hloop, rfl⟩ := map_eq_ok.mp hok
      exact ⟨hloop, fun _ => hcalled.2, fun _ => rfl, .inl, fun _ => rfl⟩
    · cases hok
  | wakeup t =>
    obtain ⟨loop, hloop, rfl⟩ := map_eq_ok.mp hok
    refine ⟨hloop, by simp, id, ?_, fun _ => rfl⟩
    intro hreturned
    rcases Bool.or_eq_true_iff.mp hreturned with hreturned | hstopping
    · exact .inl hreturned
    · exact .inr ⟨t, rfl, of_decide_eq_true hstopping⟩
  | test =>
    obtain ⟨loop, hloop, rfl⟩ := map_eq_ok.mp hok
    refine ⟨hloop, by simp, id, .inl, ?_⟩
    intro hstopped
    by_cases hreturned : s.returned = true
    · simp [hstopped hreturned]
    · simp [hreturned]
  | push _ _ | clearStart _ | pollReturn _ | readEventFd | loopPush _ | loopWakeup | loopStop
  | swap | setCalling | callFunctor | clearCalling =>
    obtain ⟨loop, hloop, rfl⟩ := map_eq_ok.mp hok
    exact ⟨hloop, by simp, id, .inl, fun _ => rfl⟩

/-- A step keeps the invariant, if no `stop` comes too early. -/
theorem Sound.step (h : s.Sound) (action : StopAction τ F) (hguard : s.StopsInitialised action)
    (hok : s.step action = .ok s') : s'.Sound := by
  cases action with
  | callLoop =>
    obtain ⟨-, rfl⟩ := ite_eq_ok.mp hok
    exact ⟨h.stopped, h.awake, h.iterations⟩
  | interleave action =>
    have hrecords := records_step hok
    have hreturned : s.returned = true → s.loop.start = false := fun hreturned =>
      (h.stopped (.inl hreturned)).2
    -- A stopped loop has been initialised, so the step is not its call.
    have hstays : s.initialised = true → s.loop.start = false → s.loop.StaysStopped s'.loop := by
      intro hinitialised hstart
      apply EventLoop.staysStopped_step hstart ?_ hrecords.loop
      intro henter
      rw [hrecords.enter henter] at hinitialised
      cases hinitialised
    have hbegun : (s'.returned = true ∨ ∃ t, s'.loop.threads t = .stopping) →
        (∃ t, action = .clearStart t) ∨ s.returned = true ∨
          ∃ t, s.loop.threads t = .stopping := by
      rintro (hreturned' | ⟨t, ht⟩)
      · right
        rcases hrecords.returned hreturned' with hbefore | ⟨t, -, ht⟩
        · exact .inl hbefore
        · exact .inr ⟨t, ht⟩
      · rcases EventLoop.stopping_step hrecords.loop ht with hbefore | rfl
        · exact .inr (.inr ⟨t, hbefore⟩)
        · exact .inl ⟨t, rfl⟩
    constructor
    · intro hstopped
      rcases hbegun hstopped with ⟨t, rfl⟩ | hbefore
      · have hloop := hrecords.loop
        obtain ⟨-, heq⟩ := ite_eq_ok.mp hloop
        exact ⟨hrecords.initialised hguard, heq ▸ rfl⟩
      · obtain ⟨hinitialised, hstart⟩ := h.stopped hbefore
        exact ⟨hrecords.initialised hinitialised, (hstays hinitialised hstart).1⟩
    · intro hreturned' hpoll
      rcases hrecords.returned hreturned' with hbefore | ⟨t, rfl, -⟩
      · obtain ⟨hinitialised, hstart⟩ := h.stopped (.inl hbefore)
        obtain ⟨hpoll', hcounter⟩ := (hstays hinitialised hstart).2 hpoll
        have hawake := h.awake hbefore hpoll'
        omega
      · obtain ⟨-, heq⟩ := ite_eq_ok.mp hrecords.loop
        rw [← heq]
        exact EventLoop.wakeup_counter_pos s.loop
    · rw [hrecords.iterations hreturned, h.iterations]

/-- If `stop` clears `start_` only after `loop` has set it, it is never lost. -/
theorem stopKept_of_initialised {actions : List (StopAction τ F)}
    (h : Guarded step StopsInitialised ({} : StopRun τ F) actions) :
    Always step StopKept ({} : StopRun τ F) actions := by
  apply along_of_guarded Sound ?_ ?_ sound_empty h
  · intro s action hs hguard s' hok
    exact (hs.step action hguard hok).stopKept
  · intro s action s' hs hguard hok
    exact hs.step action hguard hok

/-- Another thread stops a loop that sleeps in its first `poll`. -/
theorem stopKept_of_initialised_ten_steps :
    Always step StopKept ({} : StopRun ℕ ℕ)
      [.callLoop, .interleave .enter, .interleave .test, .interleave (.clearStart 0),
        .interleave (.wakeup 0), .interleave (.pollReturn true), .interleave .readEventFd,
        .interleave .swap, .interleave .setCalling, .interleave .clearCalling,
        .interleave .test] :=
  stopKept_of_initialised (by decide +kernel)

/-- The order of the steps of `stop` and `loop` in which `stop` is lost: the loop thread
has called `loop`, and `stop` is over before `start_` is set. -/
def lostStop : List (StopAction ℕ ℕ) :=
  [.callLoop, .interleave (.clearStart 0), .interleave (.wakeup 0), .interleave .enter,
    .interleave .test, .interleave (.pollReturn true), .interleave .readEventFd,
    .interleave .swap, .interleave .setCalling, .interleave .clearCalling, .interleave .test]

/-- A `stop` that comes too early is lost: the loop begins a second iteration and sleeps
with nobody to wake it. -/
theorem not_stopKept : ¬ Always step StopKept ({} : StopRun ℕ ℕ) lostStop := by
  have hcode : (run step ({} : StopRun ℕ ℕ) lostStop).map (fun s => (s.returned, s.iterations)) =
      .ok (true, 2) := by decide +kernel
  intro h
  obtain ⟨s, hrun, hs⟩ := map_eq_ok.mp hcode
  obtain ⟨hreturned, hiterations⟩ := Prod.mk.inj hs
  have hkept := Always.at_end sound_empty.stopKept h hrun hreturned
  omega

end StopRun

end Reactor
