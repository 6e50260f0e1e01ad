import Reactor.EventLoop.Progress
import Reactor.EventLoop.Stop

/-!
# A stopped loop returns

Once `start_` is clear, wherever the loop thread is and whoever has cleared it, the loop runs the
batch that it has swapped out, or the one that it is about to swap out, and leaves the iteration
at the next test. A thread that clears `start_` while the loop sleeps in `poll` is still to wake
it.
-/

namespace Reactor

open Transition

/-- The steps to the return of a stopped loop of which `pending` functors are not swapped out. -/
def LoopPc.untilReturn {F : Type*} (pending : ℕ) : LoopPc F → ℕ
  | .idle => 0
  | .test => 1
  | .poll => 6 + pending
  | .handlers readable => 4 + readable.toNat + pending
  | .swapped functors => 3 + functors.length
  | .running functors => 2 + functors.length

/-- A further functor costs one step more. -/
theorem LoopPc.untilReturn_succ {F : Type*} (pending : ℕ) (pc : LoopPc F) :
    pc.untilReturn (pending + 1) ≤ pc.untilReturn pending + 1 := by
  cases pc <;> simp only [untilReturn] <;> omega

namespace EventLoop

variable {τ F : Type*}

/-- In a poll the loop has been woken since `start_` was cleared, or the thread that has cleared
it is about to wake it. -/
def Roused (loop : EventLoop τ F) : Prop :=
  loop.start = false → loop.pc = .poll → 0 < loop.counter ∨ ∃ t, loop.threads t = .stopping

/-- The steps of the loop thread before a stopped loop returns. -/
def untilReturn (loop : EventLoop τ F) : ℕ :=
  loop.pc.untilReturn loop.pendingFunctors.length + loop.queuing.toNat

/-- A functor may still come into the last batch, and a push in the loop thread may write to the
event descriptor. -/
def pushes : LoopAction τ F → ℕ
  | .push _ _ => 1
  | .loopPush _ => 2
  | _ => 0

variable [DecidableEq τ] {loop loop' : EventLoop τ F} {action : LoopAction τ F}

/-- A step leaves no sleeping loop stopped. -/
theorem Roused.step (h : loop.Roused) (hok : loop.step action = .ok loop') : loop'.Roused := by
  intro hstart hpoll
  cases action with
  | push t functor =>
    obtain ⟨hidle, rfl⟩ := ite_eq_ok.mp hok
    refine (h hstart hpoll).imp_right ?_
    rintro ⟨t', hstopping⟩
    have hne : t' ≠ t := by
      rintro rfl
      rw [hidle] at hstopping
      cases hstopping
    exact ⟨t', (Function.update_of_ne hne ..).trans hstopping⟩
  | clearStart t =>
    obtain ⟨-, rfl⟩ := ite_eq_ok.mp hok
    exact .inr ⟨t, Function.update_self ..⟩
  | wakeup t =>
    obtain ⟨-, rfl⟩ := ite_eq_ok.mp hok
    exact .inl (wakeup_counter_pos loop)
  | test =>
    rw [EventLoop.step] at hok
    split at hok
    · obtain rfl := Except.ok.inj hok
      simp only at hstart hpoll
      rw [hstart] at hpoll
      cases hpoll
    · cases hok
  | pollReturn readable =>
    rw [EventLoop.step] at hok
    split at hok
    · obtain ⟨-, rfl⟩ := ite_eq_ok.mp hok
      cases hpoll
    · cases hok
  | loopPush functor =>
    obtain ⟨-, rfl⟩ := ite_eq_ok.mp hok
    exact h hstart hpoll
  | loopWakeup =>
    obtain ⟨-, rfl⟩ := ite_eq_ok.mp hok
    split
    · exact .inl (wakeup_counter_pos loop)
    · next hcalling =>
      rw [if_neg hcalling] at hstart hpoll
      exact h hstart hpoll
  | loopStop =>
    obtain ⟨huser, rfl⟩ := ite_eq_ok.mp hok
    have hpc : loop.pc = .poll := hpoll
    rw [inUserCode, hpc] at huser
    cases huser
  | enter | readEventFd | swap | setCalling | callFunctor | clearCalling =>
    rw [EventLoop.step] at hok
    split at hok
    · obtain rfl := Except.ok.inj hok
      cases hpoll
    · cases hok

/-- Each step of the loop thread brings a stopped loop closer to its return. -/
theorem untilReturn_step (hstart : loop.start = false) (hnot : action ≠ .enter)
    (hok : loop.step action = .ok loop') :
    loop'.untilReturn + (byLoop action).toNat ≤ loop.untilReturn + pushes action := by
  cases action with
  | push t functor =>
    obtain ⟨-, rfl⟩ := ite_eq_ok.mp hok
    have hpending := loop.pc.untilReturn_succ loop.pendingFunctors.length
    simp [untilReturn, setThread, pushBack, pushes, byLoop]
    omega
  | clearStart t | wakeup t | loopStop =>
    obtain ⟨-, rfl⟩ := ite_eq_ok.mp hok
    exact Nat.le_refl _
  | enter => exact absurd rfl hnot
  | test =>
    rw [EventLoop.step] at hok
    split at hok
    · next hpc =>
      obtain rfl := Except.ok.inj hok
      simp only [untilReturn, LoopPc.untilReturn, hpc, hstart, byLoop, pushes, Bool.false_eq_true,
        if_false, Bool.toNat_true]
      omega
    · cases hok
  | pollReturn readable =>
    rw [EventLoop.step] at hok
    split at hok
    · next hpc =>
      obtain ⟨-, rfl⟩ := ite_eq_ok.mp hok
      simp only [untilReturn, LoopPc.untilReturn, hpc]
      cases readable <;> simp only [byLoop, pushes, Bool.toNat_true, Bool.toNat_false] <;> omega
    · cases hok
  | loopPush functor =>
    obtain ⟨huser, rfl⟩ := ite_eq_ok.mp hok
    have hqueuing := (inUserCode_iff.mp huser).2
    have hpending := loop.pc.untilReturn_succ loop.pendingFunctors.length
    simp [untilReturn, pushBack, pushes, byLoop, hqueuing]
    omega
  | loopWakeup =>
    obtain ⟨hqueuing, rfl⟩ := ite_eq_ok.mp hok
    cases hcalling : loop.callingPendFunctors <;>
      simp [untilReturn, wakeup, byLoop, pushes, hqueuing]
  | readEventFd | swap | clearCalling =>
    rw [EventLoop.step] at hok
    split at hok
    · next hpc hqueuing =>
      obtain rfl := Except.ok.inj hok
      simp only [untilReturn, LoopPc.untilReturn, hpc, hqueuing, byLoop, pushes, List.length_nil,
        Bool.toNat_true, Bool.toNat_false]
      omega
    · cases hok
  | setCalling =>
    rw [EventLoop.step] at hok
    split at hok
    · next functors hpc =>
      obtain rfl := Except.ok.inj hok
      simp only [untilReturn, LoopPc.untilReturn, hpc, byLoop, pushes, Bool.toNat_true]
      omega
    · cases hok
  | callFunctor =>
    rw [EventLoop.step] at hok
    split at hok
    · next functor functors hpc hqueuing =>
      obtain rfl := Except.ok.inj hok
      simp only [untilReturn, LoopPc.untilReturn, hpc, byLoop, pushes, List.length_cons,
        Bool.toNat_true]
      omega
    · cases hok

/-- The loop is entered by a call only. -/
theorem idle_step (hidle : loop.pc = .idle) (hnot : action ≠ .enter)
    (hok : loop.step action = .ok loop') : loop'.pc = .idle := by
  cases action with
  | push t functor | clearStart t | wakeup t | loopPush functor | loopStop =>
    obtain ⟨-, rfl⟩ := ite_eq_ok.mp hok
    exact hidle
  | loopWakeup =>
    obtain ⟨-, rfl⟩ := ite_eq_ok.mp hok
    split
    · exact hidle
    · exact hidle
  | enter => exact absurd rfl hnot
  | test | pollReturn | readEventFd | swap | setCalling | callFunctor | clearCalling =>
    simp only [EventLoop.step, hidle] at hok
    cases hok

omit [DecidableEq τ] in
/-- The loop returns within seven steps and one for each functor. -/
theorem untilReturn_le (loop : EventLoop τ F) :
    loop.untilReturn ≤ 7 + loop.unexecuted.length + loop.pendingFunctors.length := by
  have hqueuing := loop.queuing.toNat_le
  rw [untilReturn, unexecuted]
  cases hpc : loop.pc with
  | handlers readable =>
    have hreadable := readable.toNat_le
    simp only [LoopPc.untilReturn, List.length_nil]
    omega
  | idle | test | poll | swapped functors | running functors =>
    simp only [LoopPc.untilReturn, List.length_nil]
    omega

end EventLoop

namespace StopRun

variable {τ F : Type*}

/-- What the loop thread does of itself in `loop`. -/
def byLoop : StopAction τ F → Bool
  | .callLoop => false
  | .interleave action => EventLoop.byLoop action

/-- The functors that a step may add to the last batch. -/
def credit : StopAction τ F → ℕ
  | .callLoop => 0
  | .interleave action => EventLoop.pushes action

/-- `loop` has returned. -/
def Returned (s : StopRun τ F) : Prop := s.initialised = true ∧ s.loop.pc = .idle

/-- The loop sleeps, and a thread in `stop` is still to wake it. -/
def Unroused (s : StopRun τ F) : Prop := s.loop.pc = .poll ∧ ∃ t, s.loop.threads t = .stopping

/-- `start_` is clear behind its initialisation. -/
def Stopping (s : StopRun τ F) : Prop := s.initialised = true ∧ s.loop.start = false

variable [DecidableEq τ] {s s' : StopRun τ F} {action : LoopAction τ F}

/-- A loop that has been woken up to stop stays so. -/
theorem roused_step {a : StopAction τ F} (h : s.loop.Roused) (hok : s.step a = .ok s') :
    s'.loop.Roused := by
  cases a with
  | callLoop =>
    obtain ⟨-, rfl⟩ := ite_eq_ok.mp hok
    exact h
  | interleave action => exact h.step (records_step hok).loop

/-- A loop that has been called is not called again. -/
theorem Stopping.ne_enter (h : s.Stopping) (hok : s.step (.interleave action) = .ok s') :
    action ≠ .enter := by
  intro henter
  have hfalse := (records_step hok).enter henter
  rw [h.1] at hfalse
  cases hfalse

/-- A thread in `stop` stays on its way to the wakeup. -/
theorem Stopping.step (h : s.Stopping) {a : StopAction τ F} (hok : s.step a = .ok s') :
    s'.Stopping := by
  cases a with
  | callLoop =>
    obtain ⟨-, rfl⟩ := ite_eq_ok.mp hok
    exact h
  | interleave action =>
    have hrecords := records_step hok
    exact ⟨hrecords.initialised h.1,
      (EventLoop.staysStopped_step h.2 (h.ne_enter hok) hrecords.loop).1⟩

/-- A step of the loop thread is one of the run. -/
theorem exists_step_of_loop (hown : EventLoop.byLoop action = true) {loop : EventLoop τ F}
    (hok : s.loop.step action = .ok loop) : ∃ s', s.step (.interleave action) = .ok s' := by
  cases action with
  | push | clearStart | wakeup | enter | loopPush | loopStop => cases hown
  | test | pollReturn | readEventFd | loopWakeup | swap | setCalling | callFunctor
  | clearCalling => exact ⟨_, map_eq_ok.mpr ⟨loop, hok, rfl⟩⟩

/-- The steps of the loop bring it nearer to its return. -/
theorem nears_return : Nears step byLoop credit
    (fun s : StopRun τ F => s.loop.Roused ∧ s.Stopping) Returned Unroused
    (fun s => s.loop.untilReturn) where
  keeps s a s' h hok := ⟨roused_step h.1 hok, h.2.step hok⟩
  stays s a s' h hreturned hok := by
    cases a with
    | callLoop =>
      obtain ⟨-, rfl⟩ := ite_eq_ok.mp hok
      exact hreturned
    | interleave action =>
      have hrecords := records_step hok
      refine ⟨hrecords.initialised hreturned.1, ?_⟩
      exact EventLoop.idle_step hreturned.2 (h.2.ne_enter hok) hrecords.loop
  pays s a s' h hok _ := by
    cases a with
    | callLoop =>
      obtain ⟨-, rfl⟩ := ite_eq_ok.mp hok
      exact Nat.le_refl _
    | interleave action =>
      exact EventLoop.untilReturn_step h.2.2 (h.2.ne_enter hok) (records_step hok).loop
  moves s h hnot hshort := by
    have hidle : s.loop.pc ≠ .idle := fun hidle => hnot ⟨h.2.1, hidle⟩
    have hawake (hpoll : s.loop.pc = .poll) : 0 < s.loop.counter :=
      (h.1 h.2.2 hpoll).resolve_right fun hstopping => hshort ⟨hpoll, hstopping⟩
    obtain ⟨action, loop, hown, hok⟩ := EventLoop.exists_own_step hidle hawake
    obtain ⟨s', hstep⟩ := exists_step_of_loop hown hok
    exact ⟨.interleave action, s', hown, hstep⟩

/-- From every state of every interleaving in which `start_` is clear behind its initialisation,
be it by another thread, a handler or a functor, `loop` returns: the loop thread takes seven steps
and one for each functor of its batch and of the queue, besides one for a functor that is pushed
meanwhile and two if the loop thread pushes it. It is stopped short of it only before the `wakeup`
of a `stop`. -/
theorem loop_returns (actions : List (StopAction τ F)) :
    Always step (fun s => s.Stopping → Attains step byLoop credit Returned Unroused
      (7 + s.loop.unexecuted.length + s.loop.pendingFunctors.length) s)
      ({} : StopRun τ F) actions := by
  refine along_of_guarded (fun s => s.loop.Roused) ?_ ?_ ?_ guarded_true
  · intro s a h _ s' hok hstopping
    exact nears_return.attains ⟨roused_step h hok, hstopping⟩ s'.loop.untilReturn_le
  · exact fun s a s' h _ hok => roused_step h hok
  · intro _ hpoll
    cases hpoll

end StopRun

end Reactor
