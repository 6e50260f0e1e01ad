import Reactor.EventLoop
import Reactor.Lib.Progress

/-!
# Every functor has its turn

The batch that `doPendingFunctors` runs is fixed by the swap: functors that are pushed meanwhile
wait for the next iteration, so that neither they nor the handlers keep a functor waiting. It is
executed within two iterations, even if `poll` never times out and other threads never stop
pushing.
-/

namespace Reactor

open Transition

namespace EventLoop

variable {τ F : Type*}

/-- What the loop thread does of itself, outside user code. A poll that has not been woken by the
event descriptor returns when the other channels or the timeout want it to. -/
def byLoop : LoopAction τ F → Bool
  | .test | .pollReturn true | .readEventFd | .loopWakeup | .swap | .setCalling | .callFunctor
  | .clearCalling => true
  | .push _ _ | .clearStart _ | .wakeup _ | .loopPush _ | .loopStop | .pollReturn false
  | .enter => false

/-- A push in the loop thread may write to the event descriptor, and a new call of `loop` begins
its iterations anew. Other threads cost the functors nothing. -/
def credit : LoopAction τ F → ℕ
  | .loopPush _ => 1
  | .enter => 5
  | _ => 0

/-- The steps of the loop thread before it executes the functors of the batch in which the
functor number `n` is. -/
def place (n : ℕ) (loop : EventLoop τ F) : ℕ :=
  match loop.pc with
  | .idle => 0
  | .test => 5
  | .poll => 4
  | .handlers true => 3
  | .handlers false => 2
  | .swapped functors => if n ≤ loop.executed.length + functors.length then 1 else 7
  | .running functors => if n ≤ loop.executed.length + functors.length then 0 else 6

/-- The steps of the loop thread before the functor number `n` has been executed. -/
def rank (n : ℕ) (loop : EventLoop τ F) : ℕ :=
  loop.place n + (n - loop.executed.length) + if loop.queuing then 1 else 0

/-- The functor number `n` has been executed. -/
def Executed (n : ℕ) (loop : EventLoop τ F) : Prop := n ≤ loop.executed.length

/-- The loop has been left, or a thread that has pushed a functor is still to wake it. -/
def Waits (loop : EventLoop τ F) : Prop :=
  loop.pc = .idle ∨ loop.pc = .poll ∧ ∃ t, loop.threads t = .queued

section

variable [DecidableEq τ] {loop loop' : EventLoop τ F} {n : ℕ}

/-- Pushed and executed functors stay so. -/
theorem step_grows (action : LoopAction τ F) (hok : loop.step action = .ok loop') :
    loop.pushed.length ≤ loop'.pushed.length ∧
      loop.executed.length ≤ loop'.executed.length := by
  cases action with
  | push t functor =>
    obtain ⟨-, rfl⟩ := ite_eq_ok.mp hok
    simp [setThread, pushBack]
  | clearStart t =>
    obtain ⟨-, rfl⟩ := ite_eq_ok.mp hok
    exact ⟨Nat.le_refl _, Nat.le_refl _⟩
  | wakeup t =>
    obtain ⟨-, rfl⟩ := ite_eq_ok.mp hok
    exact ⟨Nat.le_refl _, Nat.le_refl _⟩
  | loopPush functor =>
    obtain ⟨-, rfl⟩ := ite_eq_ok.mp hok
    simp [pushBack]
  | loopWakeup =>
    obtain ⟨-, rfl⟩ := ite_eq_ok.mp hok
    split
    · exact ⟨Nat.le_refl _, Nat.le_refl _⟩
    · exact ⟨Nat.le_refl _, Nat.le_refl _⟩
  | loopStop =>
    obtain ⟨-, rfl⟩ := ite_eq_ok.mp hok
    exact ⟨Nat.le_refl _, Nat.le_refl _⟩
  | callFunctor =>
    rw [EventLoop.step] at hok
    split at hok
    · obtain rfl := Except.ok.inj hok
      simp
    · cases hok
  | pollReturn readable =>
    rw [EventLoop.step] at hok
    split at hok
    · obtain ⟨-, rfl⟩ := ite_eq_ok.mp hok
      exact ⟨Nat.le_refl _, Nat.le_refl _⟩
    · cases hok
  | _ =>
    rw [EventLoop.step] at hok
    split at hok
    · obtain rfl := Except.ok.inj hok
      exact ⟨Nat.le_refl _, Nat.le_refl _⟩
    · cases hok

omit [DecidableEq τ] in
/-- What has been pushed and is neither executed nor in the batch is pending. -/
theorem Sound.pushed_length (h : loop.Sound) :
    loop.pushed.length =
      loop.executed.length + loop.unexecuted.length + loop.pendingFunctors.length := by
  rw [← h.inOrder, List.length_append, List.length_append]

/-- Each step of the loop thread brings the functor closer to its turn. -/
theorem rank_lt_of_step (h : loop.Sound) (hpushed : n ≤ loop.pushed.length)
    (action : LoopAction τ F) (hown : byLoop action = true) (hok : loop.step action = .ok loop')
    (hnot : ¬ Executed n loop') : loop'.rank n < loop.rank n := by
  rw [Executed, Nat.not_le] at hnot
  cases action with
  | push | clearStart | wakeup | enter | loopPush | loopStop => cases hown
  | test =>
    rw [EventLoop.step] at hok
    split at hok
    · next hpc =>
      obtain rfl := Except.ok.inj hok
      cases hstart : loop.start <;> simp [rank, place, hpc]
    · cases hok
  | pollReturn readable =>
    cases readable with
    | false => cases hown
    | true =>
      rw [EventLoop.step] at hok
      split at hok
      · next hpc =>
        obtain ⟨-, rfl⟩ := ite_eq_ok.mp hok
        simp [rank, place, hpc]
      · cases hok
  | readEventFd =>
    rw [EventLoop.step] at hok
    split at hok
    · next hpc hqueuing =>
      obtain rfl := Except.ok.inj hok
      simp [rank, place, hpc]
    · cases hok
  | loopWakeup =>
    obtain ⟨hqueuing, rfl⟩ := ite_eq_ok.mp hok
    cases hcalling : loop.callingPendFunctors <;> simp [rank, place, wakeup, hqueuing]
  | swap =>
    rw [EventLoop.step] at hok
    split at hok
    · next hpc hqueuing =>
      obtain rfl := Except.ok.inj hok
      -- The functor is pending, since the handlers run without a batch.
      have hlength := h.pushed_length
      have hin : n ≤ loop.executed.length + loop.pendingFunctors.length := by
        simp only [unexecuted, hpc, List.length_nil] at hlength
        omega
      simp [rank, place, hpc, hin]
    · cases hok
  | setCalling =>
    rw [EventLoop.step] at hok
    split at hok
    · next functors hpc =>
      obtain rfl := Except.ok.inj hok
      simp only [rank, place, hpc]
      split <;> omega
    · cases hok
  | callFunctor =>
    rw [EventLoop.step] at hok
    split at hok
    · next functor functors hpc hqueuing =>
      obtain rfl := Except.ok.inj hok
      have hsame : loop.executed.length + 1 + functors.length =
          loop.executed.length + (functors.length + 1) := by omega
      simp only [rank, place, hpc, List.length_append, List.length_cons, List.length_nil,
        Nat.zero_add, hsame] at hnot ⊢
      omega
    · cases hok
  | clearCalling =>
    rw [EventLoop.step] at hok
    split at hok
    · next hpc hqueuing =>
      obtain rfl := Except.ok.inj hok
      have hbehind : ¬ n ≤ loop.executed.length := Nat.not_le.mpr hnot
      simp [rank, place, hpc, hbehind]
    · cases hok

/-- User code delays the functor by no more than its credit, and other threads do not. -/
theorem rank_le_of_step (action : LoopAction τ F) (hok : loop.step action = .ok loop')
    (hother : byLoop action = false) : loop'.rank n ≤ loop.rank n + credit action := by
  cases action with
  | test | readEventFd | loopWakeup | swap | setCalling | callFunctor | clearCalling =>
    cases hother
  | push t functor =>
    obtain ⟨-, rfl⟩ := ite_eq_ok.mp hok
    exact Nat.le_refl _
  | clearStart t =>
    obtain ⟨-, rfl⟩ := ite_eq_ok.mp hok
    exact Nat.le_refl _
  | wakeup t =>
    obtain ⟨-, rfl⟩ := ite_eq_ok.mp hok
    exact Nat.le_refl _
  | enter =>
    rw [EventLoop.step] at hok
    split at hok
    · next hpc =>
      obtain rfl := Except.ok.inj hok
      simp only [rank, place, hpc, credit]
      omega
    · cases hok
  | pollReturn readable =>
    cases readable with
    | true => cases hother
    | false =>
      rw [EventLoop.step] at hok
      split at hok
      · next hpc =>
        obtain ⟨-, rfl⟩ := ite_eq_ok.mp hok
        simp only [rank, place, hpc]
        omega
      · cases hok
  | loopPush functor =>
    obtain ⟨huser, rfl⟩ := ite_eq_ok.mp hok
    have hqueuing := (inUserCode_iff.mp huser).2
    simp [rank, place, pushBack, credit, hqueuing]
  | loopStop =>
    obtain ⟨-, rfl⟩ := ite_eq_ok.mp hok
    exact Nat.le_refl _

/-- Unless it is in a `poll` that nobody has woken, the loop thread can move. -/
theorem exists_own_step (hidle : loop.pc ≠ .idle) (hawake : loop.pc = .poll → 0 < loop.counter) :
    ∃ action loop', byLoop action = true ∧ loop.step action = .ok loop' := by
  by_cases hqueuing : loop.queuing = true
  · exact ⟨.loopWakeup, _, rfl, ite_eq_ok.mpr ⟨hqueuing, rfl⟩⟩
  · have hqueuing : loop.queuing = false := by simpa using hqueuing
    cases hpc : loop.pc with
    | idle => exact absurd hpc hidle
    | test => exact ⟨.test, _, rfl, by rw [EventLoop.step, hpc]⟩
    | poll =>
      have hcounter := hawake hpc
      exact ⟨.pollReturn true, { loop with pc := .handlers true }, rfl,
        by rw [EventLoop.step, hpc]; exact ite_eq_ok.mpr ⟨fun _ => hcounter, rfl⟩⟩
    | handlers readable =>
      cases readable with
      | true => exact ⟨.readEventFd, _, rfl, by rw [EventLoop.step, hpc, hqueuing]⟩
      | false => exact ⟨.swap, _, rfl, by rw [EventLoop.step, hpc, hqueuing]⟩
    | swapped functors => exact ⟨.setCalling, _, rfl, by rw [EventLoop.step, hpc]⟩
    | running functors =>
      cases functors with
      | nil => exact ⟨.clearCalling, _, rfl, by rw [EventLoop.step, hpc, hqueuing]⟩
      | cons functor functors =>
        exact ⟨.callFunctor, _, rfl, by rw [EventLoop.step, hpc, hqueuing]⟩

omit [DecidableEq τ] in
/-- A poll that keeps a functor waiting has been woken, unless its `wakeup` is still to come. -/
theorem Sound.counter_pos (h : loop.Sound) (hpushed : n ≤ loop.pushed.length)
    (hnot : ¬ Executed n loop) (hshort : ¬ Waits loop) (hpc : loop.pc = .poll) :
    0 < loop.counter := by
  rw [Executed, Nat.not_le] at hnot
  have hlength := h.pushed_length
  have hpending : loop.pendingFunctors ≠ [] := by
    rintro hnil
    simp only [unexecuted, hpc, hnil, List.length_nil] at hlength
    omega
  exact (h.woken hpc hpending).resolve_right fun hqueued => hshort (.inr ⟨hpc, hqueued⟩)

/-- The steps of the loop bring a functor nearer to its execution. -/
theorem nears (n : ℕ) :
    Nears step byLoop credit (fun loop : EventLoop τ F => loop.Sound ∧ n ≤ loop.pushed.length)
      (Executed n) Waits (rank n) where
  keeps loop action loop' h hok :=
    ⟨h.1.step action hok, h.2.trans (step_grows action hok).1⟩
  stays loop action loop' _ hgoal hok := Nat.le_trans hgoal (step_grows action hok).2
  pays loop action loop' h hok hnot := by
    cases hown : byLoop action with
    | true =>
      have hless := rank_lt_of_step h.1 h.2 action hown hok hnot
      rw [Bool.toNat_true]
      omega
    | false => exact rank_le_of_step action hok hown
  moves loop h hnot hshort :=
    exists_own_step (fun hidle => hshort (.inl hidle)) (h.1.counter_pos h.2 hnot hshort)

omit [DecidableEq τ] in
/-- A functor is never more than eight steps, and one for itself and each of those before it, away
from its turn. -/
theorem rank_le (n : ℕ) (loop : EventLoop τ F) :
    loop.rank n ≤ 8 + (n - loop.executed.length) := by
  have hplace : loop.place n ≤ 7 := by
    unfold place
    split
    · omega
    · omega
    · omega
    · omega
    · omega
    · split <;> omega
    · split <;> omega
  rw [rank]
  split <;> omega

end

/-- From every state of every interleaving each functor that has been pushed has its turn: the
loop thread takes eight steps and one for each functor up to it that has not been executed, itself
included, besides one for a push of its own user code and five for a new call of `loop`, whatever
other threads do. It is stopped short of it only by the end of the loop or before a `wakeup`. -/
theorem functors_have_turn [DecidableEq τ] (actions : List (LoopAction τ F)) :
    Always step (fun loop => ∀ n ≤ loop.pushed.length,
      Attains step byLoop credit (Executed n) Waits (8 + (n - loop.executed.length)) loop)
      ({} : EventLoop τ F) actions := by
  refine along_of_guarded Sound ?_ ?_ sound_empty guarded_true
  · intro loop action h _ loop' hok n hpushed
    exact (nears n).attains ⟨h.step action hok, hpushed⟩ (rank_le n loop')
  · exact fun loop action loop' h _ hok => h.step action hok

end EventLoop

end Reactor
