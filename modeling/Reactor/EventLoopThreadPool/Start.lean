import Reactor.EventLoopThreadPool
import Reactor.EventThreadLoop

/-!
# The start of the pool, with the threads that it starts

`EventLoopThreadPool::start` calls `startLoop` of one `EventThreadLoop` after the other, while
the threads that it has started run. Unless a thread cannot be created, every interleaving
ends in the pool that the sequential `start` describes.
-/

namespace Reactor

open Transition

/-- Where the base thread is in `EventLoopThreadPool::start`. -/
inductive PoolStartPc where
  /-- At the test of the `for`. -/
  | test
  /-- In `startLoop` of the last element of `threads_`. -/
  | starting
  | returned
  deriving DecidableEq

/-- A call of `EventLoopThreadPool::start` in progress. -/
structure PoolStart (L : Type*) where
  threadNums : ℤ
  /-- The `EventLoop` and the id of the thread number `i`. -/
  loopOf : ℕ → L
  tidOf : ℕ → ℕ
  threads : List (EventThreadLoop L) := []
  /-- What the calls of `startLoop` have returned. -/
  loops : List (Option L) := []
  pc : PoolStartPc := .test

/-- A step of the base thread or of a thread that it has started. -/
inductive PoolStartAction where
  /-- The test of the `for` and `threads_.emplace_back`. -/
  | test
  /-- A step of the `startLoop` of the element `i` of `threads_`. -/
  | thread (i : ℕ) (action : StartAction)
  /-- `loops_.push_back` of what `startLoop` has returned. -/
  | pushBack

namespace PoolStart

variable {L : Type*}

/-- A step of the interleaving. -/
def step (s : PoolStart L) : PoolStartAction → Except Disabled (PoolStart L)
  | .test =>
    if s.pc = .test then
      if (s.loops.length : ℤ) < s.threadNums then
        let i := s.threads.length
        .ok { s with threads := s.threads ++ [{ self := s.loopOf i, tid := s.tidOf i }],
                     pc := .starting }
      else .ok { s with pc := .returned }
    else .error .disabled
  | .thread i action =>
    match s.threads[i]? with
    | some thread => (thread.step action).map fun thread =>
        { s with threads := s.threads.set i thread }
    | none => .error .disabled
  | .pushBack =>
    match s.threads.getLast? with
    | some thread =>
      if s.pc = .starting ∧ thread.caller = .returned then
        .ok { s with loops := s.loops ++ [thread.result], pc := .test }
      else .error .disabled
    | none => .error .disabled

/-- All steps but the spurious wakeups are the threads' own. -/
def credit : PoolStartAction → ℕ
  | .thread _ action => action.credit
  | .test | .pushBack => 0

/-- At most one step is credited. -/
theorem credit_le (action : PoolStartAction) : credit action ≤ 1 := by
  cases action with
  | thread i action => exact action.credit_le
  | test | pushBack => exact Nat.zero_le 1

/-- The invariant of `start`: the threads whose loops have been stored run in them, and there
is at most one more, whose `startLoop` is in progress. -/
structure Sound (s : PoolStart L) : Prop where
  le : s.loops.length ≤ s.threadNums.toNat
  loops_eq : s.loops = (List.range s.loops.length).map fun i => some (s.loopOf i)
  length_eq : s.threads.length = s.loops.length + if s.pc = .starting then 1 else 0
  sound : ∀ i thread, s.threads[i]? = some thread →
    thread.Sound ∧ thread.self = s.loopOf i ∧ thread.tid = s.tidOf i
  started : ∀ i thread, s.threads[i]? = some thread → i < s.loops.length → thread.Started
  more : s.pc = .starting → s.loops.length < s.threadNums.toNat
  all : s.pc = .returned → s.loops.length = s.threadNums.toNat

/-- The rank of the `startLoop` in progress. -/
def currentRank (s : PoolStart L) : ℕ := (s.threads.getLast?.map EventThreadLoop.rank).getD 0

/-- Each thread that is still to be started takes eleven steps, two of them in the base
thread's loop. -/
def rank (s : PoolStart L) : ℕ :=
  match s.pc with
  | .test => 11 * (s.threadNums.toNat - s.loops.length) + 1
  | .starting => 11 * (s.threadNums.toNat - s.loops.length - 1) + 2 + s.currentRank
  | .returned => 0

/-- The result of a step. -/
def Advances (s : PoolStart L) (action : PoolStartAction) (s' : PoolStart L) : Prop :=
  s'.Sound ∧ s'.rank + 1 ≤ s.rank + 2 * credit action

section

variable {s s' : PoolStart L}

/-- `start` has not begun. -/
theorem sound_constructed (threadNums : ℤ) (loopOf : ℕ → L) (tidOf : ℕ → ℕ) :
    Sound { threadNums, loopOf, tidOf } where
  le := Nat.zero_le _
  loops_eq := rfl
  length_eq := rfl
  sound i thread hthread := by cases hthread
  started i thread hthread := by cases hthread
  more hpc := by cases hpc
  all hpc := by cases hpc

/-- An element of a list that has been extended at its end. -/
theorem getElem?_concat {α : Type*} {l : List α} {a b : α} {i : ℕ}
    (h : (l ++ [a])[i]? = some b) : l[i]? = some b ∨ i = l.length ∧ a = b := by
  rcases Nat.lt_or_ge i l.length with hold | hnew
  · rw [List.getElem?_append_left hold] at h
    exact .inl h
  · rw [List.getElem?_append_right hnew, List.getElem?_singleton] at h
    obtain ⟨hzero, heq⟩ := Option.ite_none_right_eq_some.mp h
    exact .inr ⟨by omega, Option.some.inj heq⟩

/-- The `for` goes on with the next thread, or ends. -/
theorem Sound.test (h : s.Sound) (hok : s.step .test = .ok s') : s.Advances .test s' := by
  obtain ⟨hpc, hok⟩ := guard_eq_ok.mp hok
  have hlength := h.length_eq
  rw [hpc, if_neg (by decide), Nat.add_zero] at hlength
  split at hok
  · next hless =>
    obtain rfl := Except.ok.inj hok
    constructor
    · constructor
      · exact h.le
      · exact h.loops_eq
      · simp [hlength]
      · intro i thread hthread
        rcases getElem?_concat hthread with hold | ⟨rfl, rfl⟩
        · exact h.sound i thread hold
        · exact ⟨EventThreadLoop.sound_constructed _ _, rfl, rfl⟩
      · intro i thread hthread hi
        dsimp only at hi
        rw [List.getElem?_append_left (by omega)] at hthread
        exact h.started i thread hthread hi
      · intro _
        dsimp only
        omega
      · intro hreturned
        cases hreturned
    · simp [rank, hpc, currentRank, EventThreadLoop.rank, EventThreadLoop.callerRank,
        ChildPc.rank, credit]
      omega
  · next hnot =>
    obtain rfl := Except.ok.inj hok
    have hle := h.le
    constructor
    · exact ⟨h.le, h.loops_eq, by simpa using hlength, h.sound, h.started, by simp,
        fun _ => by dsimp only; omega⟩
    · simp only [rank, hpc]
      omega

/-- A thread that takes a step is the one whose `startLoop` is in progress. -/
theorem Sound.current (h : s.Sound) {i : ℕ} {thread thread' : EventThreadLoop L}
    {action : StartAction} (hthread : s.threads[i]? = some thread)
    (hstep : thread.step action = .ok thread') :
    s.pc = .starting ∧ i = s.loops.length ∧ s.threads.length = s.loops.length + 1 := by
  have hlt := (List.getElem?_eq_some_iff.mp hthread).1
  have hlength := h.length_eq
  have hnot : ¬ i < s.loops.length := by
    intro hi
    exact (h.sound i thread hthread).1.not_step_of_started (h.started i thread hthread hi) action
      hstep
  by_cases hpc : s.pc = .starting
  · rw [if_pos hpc] at hlength
    exact ⟨hpc, by omega, hlength⟩
  · rw [if_neg hpc] at hlength
    omega

/-- A step of the `startLoop` in progress. -/
theorem Sound.thread (h : s.Sound) {i : ℕ} {action : StartAction}
    (hok : s.step (.thread i action) = .ok s') : s.Advances (.thread i action) s' := by
  rw [step] at hok
  split at hok
  · next thread hthread =>
    obtain ⟨thread', hstep, rfl⟩ := map_eq_ok.mp hok
    obtain ⟨hpc, rfl, hlength⟩ := h.current hthread hstep
    obtain ⟨hsound, hself, htid⟩ := h.sound _ thread hthread
    obtain ⟨hsound', hpaid⟩ := hsound.step action hstep
    obtain ⟨hself', htid'⟩ := EventThreadLoop.self_tid_of_step hstep
    constructor
    · refine ⟨h.le, h.loops_eq, ?_, ?_, ?_, h.more, h.all⟩
      · rw [List.length_set]
        exact h.length_eq
      · intro j other hother
        by_cases heq : s.loops.length = j
        · subst heq
          rw [List.getElem?_set_self (by omega)] at hother
          obtain rfl := Option.some.inj hother
          exact ⟨hsound', hself'.trans hself, htid'.trans htid⟩
        · rw [List.getElem?_set_ne heq] at hother
          exact h.sound j other hother
      · intro j other hother hj
        rw [List.getElem?_set_ne (by dsimp only at hj; omega)] at hother
        exact h.started j other hother hj
    · have hlast : s.threads.getLast? = some thread := by
        rw [List.getLast?_eq_getElem?, hlength, Nat.add_sub_cancel, hthread]
      have hlast' : (s.threads.set s.loops.length thread').getLast? = some thread' := by
        rw [List.getLast?_eq_getElem?, List.length_set, hlength, Nat.add_sub_cancel,
          List.getElem?_set_self (by omega)]
      simp only [rank, hpc, currentRank, hlast, hlast', credit, Option.map_some, Option.getD_some]
      omega
  · cases hok

/-- The loop that `startLoop` has returned is stored. -/
theorem Sound.pushBack (h : s.Sound) (hok : s.step .pushBack = .ok s') :
    s.Advances .pushBack s' := by
  rw [step] at hok
  split at hok
  · next thread hlast =>
    obtain ⟨⟨hpc, hcaller⟩, rfl⟩ := ite_eq_ok.mp hok
    have hmore := h.more hpc
    have hlength := h.length_eq
    rw [if_pos hpc] at hlength
    have hthread : s.threads[s.loops.length]? = some thread := by
      rw [← hlast, List.getLast?_eq_getElem?, hlength, Nat.add_sub_cancel]
    obtain ⟨hsound, hself, -⟩ := h.sound _ thread hthread
    have hstarted := hsound.started hcaller
    constructor
    · constructor
      · rw [List.length_append, List.length_singleton]
        exact hmore
      · rw [List.length_append, List.length_singleton, List.range_succ, List.map_append,
          ← h.loops_eq, List.map_singleton, hstarted.2.1, hself]
      · simpa using hlength
      · exact h.sound
      · intro i other hother hi
        rw [List.length_append, List.length_singleton] at hi
        rcases Nat.lt_succ_iff_lt_or_eq.mp hi with hbefore | rfl
        · exact h.started i other hother hbefore
        · obtain rfl := Option.some.inj (hthread.symm.trans hother)
          exact hstarted
      · intro htest
        cases htest
      · intro hreturned
        cases hreturned
    · simp only [rank, hpc, List.length_append, List.length_singleton, credit]
      omega
  · cases hok

/-- Every step of the interleaving keeps the invariant and is paid for. -/
theorem Sound.step (h : s.Sound) (action : PoolStartAction) (hok : s.step action = .ok s') :
    s.Advances action s' := by
  cases action with
  | test => exact h.test hok
  | thread i action => exact h.thread hok
  | pushBack => exact h.pushBack hok

/-- `start` has returned, and each of its threads runs in its loop. -/
structure Complete (s : PoolStart L) : Prop where
  returned : s.pc = .returned
  loops_eq : s.loops = (List.range s.threadNums.toNat).map fun i => some (s.loopOf i)
  length_eq : s.threads.length = s.threadNums.toNat
  started : ∀ i thread, s.threads[i]? = some thread →
    thread.Started ∧ thread.self = s.loopOf i ∧ thread.tid = s.tidOf i

/-- `start` waits for a thread that does not exist. -/
def Abandoned (s : PoolStart L) : Prop := ∃ thread ∈ s.threads, thread.Abandoned

/-- A caller that has returned finds the pool complete. -/
theorem Sound.complete (h : s.Sound) (hpc : s.pc = .returned) : s.Complete := by
  have hall := h.all hpc
  have hlength := h.length_eq
  rw [hpc, if_neg (by decide), Nat.add_zero] at hlength
  constructor
  · exact hpc
  · rw [← hall]
    exact h.loops_eq
  · rw [hlength, hall]
  · intro i thread hthread
    have hlt := (List.getElem?_eq_some_iff.mp hthread).1
    exact ⟨h.started i thread hthread (by omega), (h.sound i thread hthread).2⟩

/-- As long as `start` has not ended one of the threads can take a step. -/
theorem Sound.moves (h : s.Sound) (hnot : ¬ (s.Complete ∨ s.Abandoned)) :
    ¬ Stuck PoolStart.step credit s := by
  intro hstuck
  cases hpc : s.pc with
  | test =>
    by_cases hless : (s.loops.length : ℤ) < s.threadNums
    · exact hstuck .test rfl _ (by rw [PoolStart.step, if_pos hpc, if_pos hless])
    · exact hstuck .test rfl _ (by rw [PoolStart.step, if_pos hpc, if_neg hless])
  | starting =>
    have hlength := h.length_eq
    rw [if_pos hpc] at hlength
    obtain ⟨thread, hthread⟩ : ∃ thread, s.threads[s.loops.length]? = some thread :=
      ⟨_, List.getElem?_eq_getElem (by omega)⟩
    have hlast : s.threads.getLast? = some thread := by
      rw [List.getLast?_eq_getElem?, hlength, Nat.add_sub_cancel, hthread]
    have hsound := (h.sound _ thread hthread).1
    by_cases hdone : thread.Started ∨ thread.Abandoned
    · rcases hdone with hstarted | habandoned
      · apply hstuck .pushBack rfl
        rw [PoolStart.step, hlast]
        exact if_pos ⟨hpc, hstarted.1⟩
      · exact hnot (.inr ⟨thread, List.mem_of_getElem? hthread, habandoned⟩)
    · apply hsound.moves hdone
      intro action hown thread' hstep
      apply hstuck (.thread s.loops.length action) hown
      rw [PoolStart.step, hthread]
      exact map_eq_ok.mpr ⟨thread', hstep, rfl⟩
  | returned => exact hnot (.inl (h.complete hpc))

/-- Each step brings the start nearer to its end. -/
theorem ranked : Ranked (step (L := L)) credit Sound (fun s => s.Complete ∨ s.Abandoned) rank := by
  constructor
  · intro s action s' h hok
    exact (h.step action hok).1
  · intro s action s' h hown hok
    have hpaid := (h.step action hok).2
    omega
  · intro s action s' h hnot hok
    have hpaid := (h.step action hok).2
    have hone := credit_le action
    omega
  · intro s h hnot
    exact h.moves hnot

end

/-- A `pthread_create` fails. -/
def Fails (action : PoolStartAction) : Prop :=
  ∃ i nextThreadId, action = .thread i (.create false nextThreadId)

/-- The base thread waits for a thread that has not been created. -/
def Lost (s : PoolStart L) : Prop := ∃ thread ∈ s.threads, thread.Lost

section

variable {s s' : PoolStart L}

/-- A start that has been abandoned waits for a thread that has not been created. -/
theorem Sound.lost_of_abandoned (h : s.Sound) (habandoned : s.Abandoned) : s.Lost := by
  obtain ⟨thread, hthread, habandoned⟩ := habandoned
  obtain ⟨i, hi⟩ := List.mem_iff_getElem?.mp hthread
  exact ⟨thread, hthread, (h.sound i thread hi).1.lost_of_abandoned habandoned⟩

/-- A complete pool has lost no thread. -/
theorem Complete.not_lost (h : s.Complete) : ¬ s.Lost := by
  rintro ⟨thread, hthread, hlost⟩
  obtain ⟨i, hi⟩ := List.mem_iff_getElem?.mp hthread
  have hchild := (h.started i thread hi).1.2.2.1
  rw [hlost.2] at hchild
  cases hchild

/-- A property of some element of a list in which one element has been replaced. -/
theorem exists_mem_set {α : Type*} {l : List α} {i : ℕ} (hi : i < l.length) (a : α)
    (P : α → Prop) :
    (∃ b ∈ l.set i a, P b) ↔ P a ∨ ∃ j, j ≠ i ∧ ∃ b, l[j]? = some b ∧ P b := by
  constructor
  · rintro ⟨b, hb, hP⟩
    obtain ⟨j, hj⟩ := List.mem_iff_getElem?.mp hb
    by_cases heq : i = j
    · subst heq
      rw [List.getElem?_set_self hi] at hj
      obtain rfl := Option.some.inj hj
      exact .inl hP
    · rw [List.getElem?_set_ne heq] at hj
      exact .inr ⟨j, Ne.symm heq, b, hj, hP⟩
  · rintro (hP | ⟨j, hne, b, hj, hP⟩)
    · exact ⟨a, List.mem_set hi a, hP⟩
    · rw [← List.getElem?_set_ne (Ne.symm hne)] at hj
      exact ⟨b, List.mem_of_getElem? hj, hP⟩

/-- Only `pthread_create` decides whether a thread is lost. -/
theorem Sound.lost_step (h : s.Sound) {action : PoolStartAction}
    (hok : s.step action = .ok s') : s'.Lost ↔ s.Lost ∨ Fails action := by
  cases action with
  | test =>
    obtain ⟨-, hok⟩ := guard_eq_ok.mp hok
    split at hok
    · obtain rfl := Except.ok.inj hok
      simp [Lost, Fails, EventThreadLoop.Lost, or_and_right, exists_or]
    · obtain rfl := Except.ok.inj hok
      simp [Lost, Fails]
  | thread i action =>
    rw [PoolStart.step] at hok
    split at hok
    · next thread hthread =>
      obtain ⟨thread', hstep, rfl⟩ := map_eq_ok.mp hok
      have hlost := (h.sound i thread hthread).1.lost_step hstep
      obtain ⟨hi, hget⟩ := List.getElem?_eq_some_iff.mp hthread
      have hbefore := exists_mem_set hi thread EventThreadLoop.Lost
      rw [← hget, List.set_getElem_self, hget] at hbefore
      have hfails : Fails (.thread i action) ↔ ∃ n, action = .create false n := by simp [Fails]
      rw [Lost, Lost, exists_mem_set hi, hbefore, hlost, hfails, or_right_comm]
    · cases hok
  | pushBack =>
    rw [PoolStart.step] at hok
    split at hok
    · obtain ⟨-, rfl⟩ := ite_eq_ok.mp hok
      simp [Lost, Fails]
    · cases hok

/-- A thread is lost exactly if its `pthread_create` has failed. -/
theorem lost_of_run {as : List PoolStartAction} (h : s.Sound) (hrun : run step s as = .ok s') :
    s'.Lost ↔ s.Lost ∨ ∃ action ∈ as, Fails action := by
  induction as generalizing s with
  | nil =>
    obtain rfl := Except.ok.inj hrun
    simp
  | cons action as ih =>
    obtain ⟨t, hstep, hrest⟩ := run_cons_eq_ok.mp hrun
    rw [ih (h.step action hstep).1 hrest, h.lost_step hstep, List.exists_mem_cons_iff, or_assoc]

/-- The parameters of the call. -/
theorem params_of_step {action : PoolStartAction} (hok : s.step action = .ok s') :
    s'.threadNums = s.threadNums ∧ s'.loopOf = s.loopOf := by
  cases action with
  | test =>
    obtain ⟨-, hok⟩ := guard_eq_ok.mp hok
    split at hok <;> obtain rfl := Except.ok.inj hok <;> exact ⟨rfl, rfl⟩
  | thread i action =>
    rw [PoolStart.step] at hok
    split at hok
    · obtain ⟨thread', -, rfl⟩ := map_eq_ok.mp hok
      exact ⟨rfl, rfl⟩
    · cases hok
  | pushBack =>
    rw [PoolStart.step] at hok
    split at hok
    · obtain ⟨-, rfl⟩ := ite_eq_ok.mp hok
      exact ⟨rfl, rfl⟩
    · cases hok

/-- No step changes the parameters. -/
theorem params_of_run {as : List PoolStartAction} (hrun : run step s as = .ok s') :
    s'.threadNums = s.threadNums ∧ s'.loopOf = s.loopOf := by
  induction as generalizing s with
  | nil =>
    obtain rfl := Except.ok.inj hrun
    exact ⟨rfl, rfl⟩
  | cons action as ih =>
    obtain ⟨t, hstep, hrest⟩ := run_cons_eq_ok.mp hrun
    obtain ⟨hnums, hloops⟩ := params_of_step hstep
    rw [← hnums, ← hloops]
    exact ih hrest

end

/-- What is known after the steps `done` of a call of `start`. -/
structure Outcome (baseLoop : L) (threadNums : ℤ) (loopOf : ℕ → L) (done : List PoolStartAction)
    (s : PoolStart L) : Prop where
  /-- The result is that of the sequential `start`, and every loop runs in its thread. -/
  sequential : s.pc = .returned → s.Complete ∧ s.loops =
    ((({ baseLoop } : EventLoopThreadPool L).setThreadNum threadNums).start loopOf).loops.map some
  /-- `start` returns only if every `pthread_create` has succeeded. -/
  created : s.pc = .returned → ∀ action ∈ done, ¬ Fails action
  /-- Only spurious wakeups make it longer. -/
  bounded : ownSteps credit done ≤ 11 * threadNums.toNat + 1 + (done.map credit).sum
  /-- Where no thread can go on, `start` has returned or waits for a thread that could not be
  created. -/
  ends : Stuck step credit s →
    s.pc = .returned ∨ s.Abandoned ∧ ∃ action ∈ done, Fails action

/-- In every interleaving with the new threads `start` does what the sequential `start` does,
within a bounded number of steps, unless a thread cannot be created. -/
theorem start_refines (baseLoop : L) (threadNums : ℤ) (loopOf : ℕ → L) (tidOf : ℕ → ℕ)
    (actions : List PoolStartAction) :
    Always (withHistory step) (fun p => Outcome baseLoop threadNums loopOf p.1 p.2)
      ([], { threadNums, loopOf, tidOf }) actions := by
  have hinit := sound_constructed threadNums loopOf tidOf
  apply always_withHistory
  intro done s hrun
  obtain ⟨h, hpaid⟩ := ranked.pays hinit hrun
  obtain ⟨hnums, hloops⟩ := params_of_run hrun
  have hlost : s.Lost ↔ ∃ action ∈ done, Fails action := by
    rw [lost_of_run hinit hrun]
    simp [Lost]
  constructor
  · intro hreturned
    have hcomplete := h.complete hreturned
    refine ⟨hcomplete, ?_⟩
    rw [hcomplete.loops_eq, hnums, hloops]
    simp [EventLoopThreadPool.start, EventLoopThreadPool.setThreadNum]
  · intro hreturned action haction hfails
    exact (h.complete hreturned).not_lost (hlost.mpr ⟨action, haction, hfails⟩)
  · have hrank : rank { threadNums, loopOf, tidOf } = 11 * threadNums.toNat + 1 := rfl
    dsimp only
    omega
  · intro hstuck
    by_contra hnot
    apply h.moves ?_ hstuck
    rintro (hcomplete | habandoned)
    · exact hnot (.inl hcomplete.returned)
    · exact hnot (.inr ⟨habandoned, hlost.mp (h.lost_of_abandoned habandoned)⟩)

end PoolStart

end Reactor
