import Reactor.Lib.Progress
import Reactor.ThreadPool

/-!
# Stopping the thread pool

`stop` wakes every thread and joins the workers. Nobody blocks in a pool that has been
stopped: each worker takes at most the task that it is about to take and returns, each
`dispatchTask` returns without queueing its task, and the joins succeed.
-/

namespace Reactor

open Transition

/-- The steps that a worker still takes in a pool that has been stopped. -/
def WorkerPc.rank {T : Type*} : WorkerPc T → ℕ
  | .finished => 0
  | .test => 1
  | .running _ => 2
  | .taking => 3

/-- Whether the worker may still take a task. -/
def WorkerPc.takes {T : Type*} : WorkerPc T → ℕ
  | .taking => 1
  | .finished | .test | .running _ => 0

namespace ThreadPool

variable {ω π T : Type*} [DecidableEq ω] [DecidableEq π]

/-- The steps of the workers and of the calls in progress are the pool's own. -/
def own : PoolAction ω π T → Bool
  | .dispatchSection _ _ | .testStart _ | .takeSection _ _ | .callTask _ => true
  | .dispatchTask _ _ | .spuriousProducer _ | .spuriousWorker _ | .stop => false

/-- A new call of `dispatchTask` asks for one more of them. -/
def credit : PoolAction ω π T → ℕ
  | .dispatchTask _ _ => 1
  | .dispatchSection _ _ | .testStart _ | .takeSection _ _ | .callTask _ | .spuriousProducer _
  | .spuriousWorker _ | .stop => 0

/-- The step that a call of `dispatchTask` still takes. -/
def callRank : Option T → ℕ
  | none => 0
  | some _ => 1

/-- `stop` has been called. -/
structure Stopped (pool : ThreadPool ω π T) : Prop where
  start : pool.start = false
  empty : pool.emptyCond.blocked = ∅
  full : pool.fullCond.blocked = ∅

variable [Fintype ω] [Fintype π]

/-- The steps that the workers and the calls of `dispatchTask` still take. -/
def remaining (pool : ThreadPool ω π T) : ℕ :=
  ∑ w, (pool.workers w).rank + ∑ p, callRank (pool.dispatching p)

/-- The workers that are in `take`. -/
def takers (pool : ThreadPool ω π T) : ℕ := ∑ w, (pool.workers w).takes

/-- All workers have returned, and no producer is in `dispatchTask`. -/
def Idle (pool : ThreadPool ω π T) : Prop :=
  (∀ w, pool.workers w = .finished) ∧ ∀ p, pool.dispatching p = none

/-- The result of a step in a pool that has been stopped: nothing is queued, a task is taken
by a worker that was in `take` only, and what remains has paid for the step. -/
structure Winds (pool : ThreadPool ω π T) (action : PoolAction ω π T)
    (pool' : ThreadPool ω π T) : Prop where
  stopped : pool'.Stopped
  accepted_eq : pool'.accepted = pool.accepted
  received_le : ∀ w, (pool'.received w).length + (pool'.workers w).takes ≤
    (pool.received w).length + (pool.workers w).takes
  taken_le : pool'.taken.length + pool'.takers ≤ pool.taken.length + pool.takers
  remaining_le : pool'.remaining + (own action).toNat ≤ pool.remaining + credit action

section

variable {pool pool' : ThreadPool ω π T}

omit [DecidableEq π] in
/-- A worker moves on, and takes a task only if it is in `take`. -/
theorem winds_of_worker {action : PoolAction ω π T} {w : ω} {pc : WorkerPc T}
    (hstopped : pool'.Stopped) (haccepted : pool'.accepted = pool.accepted)
    (hworkers : pool'.workers = Function.update pool.workers w pc)
    (hdispatching : pool'.dispatching = pool.dispatching)
    (hrank : pc.rank < (pool.workers w).rank)
    (htaken : pool'.taken.length + pc.takes ≤ pool.taken.length + (pool.workers w).takes)
    (hreceived : (pool'.received w).length + pc.takes ≤
      (pool.received w).length + (pool.workers w).takes)
    (hothers : ∀ w' ≠ w, pool'.received w' = pool.received w') : pool.Winds action pool' := by
  have hsum := sum_update pool.workers WorkerPc.rank w pc
  have htakers := sum_update pool.workers WorkerPc.takes w pc
  have hown := Bool.toNat_le (own action)
  refine ⟨hstopped, haccepted, fun w' => ?_, ?_, ?_⟩
  · rw [hworkers]
    by_cases hw : w' = w
    · subst hw
      rwa [Function.update_self]
    · rw [Function.update_of_ne hw, hothers w' hw]
  · unfold takers
    rw [hworkers]
    omega
  · unfold remaining
    rw [hworkers, hdispatching]
    omega

omit [DecidableEq ω] in
/-- A producer calls `dispatchTask`, or it returns. -/
theorem winds_of_producer {action : PoolAction ω π T} {p : π} {cb : Option T}
    (hstopped : pool'.Stopped) (haccepted : pool'.accepted = pool.accepted)
    (hworkers : pool'.workers = pool.workers) (htaken : pool'.taken = pool.taken)
    (hreceived : pool'.received = pool.received)
    (hdispatching : pool'.dispatching = Function.update pool.dispatching p cb)
    (hrank : callRank cb + (own action).toNat ≤ callRank (pool.dispatching p) + credit action) :
    pool.Winds action pool' := by
  have hsum := sum_update pool.dispatching callRank p cb
  refine ⟨hstopped, haccepted, fun w => by rw [hworkers, hreceived], ?_, ?_⟩
  · unfold takers
    rw [hworkers, htaken]
  · unfold remaining
    rw [hworkers, hdispatching]
    omega

/-- A `dispatchTask` returns without queueing its task. -/
theorem Stopped.dispatchSection (h : pool.Stopped) {p : π} {woken : Option ω}
    (hok : pool.step (.dispatchSection p woken) = .ok pool') :
    pool.Winds (.dispatchSection p woken) pool' := by
  rw [step] at hok
  split at hok
  · next cb hp =>
    obtain ⟨-, hok⟩ := guard_eq_ok.mp hok
    rw [ThreadPool.dispatchSection, if_neg (by simp [h.start])] at hok
    dsimp only at hok
    rw [if_pos (by simp [h.start])] at hok
    obtain rfl := Except.ok.inj hok
    have hfull : (pool.fullCond.resume p).blocked = ∅ := by simp [CondVar.resume, h.full]
    refine winds_of_producer ⟨h.start, h.empty, hfull⟩ rfl rfl rfl rfl rfl ?_
    rw [hp]
    exact Nat.le_refl _
  · cases hok

/-- A worker takes one of the tasks that are left, or goes away empty-handed. -/
theorem Stopped.takeSection (h : pool.Stopped) {w : ω} {woken : Option π}
    (hok : pool.step (.takeSection w woken) = .ok pool') :
    pool.Winds (.takeSection w woken) pool' := by
  rw [step] at hok
  split at hok
  · next hw =>
    obtain ⟨-, hok⟩ := guard_eq_ok.mp hok
    have hempty : (pool.emptyCond.resume w).blocked = ∅ := by simp [CondVar.resume, h.empty]
    unfold ThreadPool.takeSection at hok
    split at hok
    · rw [if_neg (by simp [h.start])] at hok
      obtain rfl := Except.ok.inj hok
      refine winds_of_worker ⟨h.start, hempty, h.full⟩ rfl rfl rfl ?_ ?_ ?_ fun _ _ => rfl
      · simp [hw, WorkerPc.rank]
      · exact Nat.add_le_add_left (Nat.zero_le _) _
      · exact Nat.add_le_add_left (Nat.zero_le _) _
    · next cb rest hqueue =>
      split at hok
      · next fullCond hsignal =>
        obtain rfl := Except.ok.inj hok
        have hfull := CondVar.blocked_signal_subset hsignal
        rw [h.full, Finset.subset_empty] at hfull
        refine winds_of_worker ⟨h.start, hempty, hfull⟩ rfl rfl rfl ?_ ?_ ?_ fun w' hne =>
          Function.update_of_ne hne ..
        · simp [hw, WorkerPc.rank]
        · simp [hw, WorkerPc.takes, takeReturn]
        · simp [hw, WorkerPc.takes, takeReturn]
      · cases hok
  · cases hok

/-- Every step in a pool that has been stopped. -/
theorem Stopped.step (h : pool.Stopped) (action : PoolAction ω π T)
    (hok : pool.step action = .ok pool') : pool.Winds action pool' := by
  cases action with
  | dispatchTask p cb =>
    rw [ThreadPool.step] at hok
    split at hok
    · next hp =>
      obtain rfl := Except.ok.inj hok
      refine winds_of_producer ⟨h.start, h.empty, h.full⟩ rfl rfl rfl rfl rfl ?_
      rw [hp]
      exact Nat.le_refl _
    · cases hok
  | dispatchSection p woken => exact h.dispatchSection hok
  | testStart w =>
    rw [ThreadPool.step] at hok
    split at hok
    · next hw =>
      rw [h.start] at hok
      obtain rfl := Except.ok.inj hok
      refine winds_of_worker ⟨rfl, h.empty, h.full⟩ rfl rfl rfl ?_ ?_ ?_ fun _ _ => rfl
      · simp [hw, WorkerPc.rank]
      · exact Nat.add_le_add_left (Nat.zero_le _) _
      · exact Nat.add_le_add_left (Nat.zero_le _) _
    · cases hok
  | takeSection w woken => exact h.takeSection hok
  | callTask w =>
    rw [ThreadPool.step] at hok
    split at hok
    · next cb hw =>
      obtain rfl := Except.ok.inj hok
      refine winds_of_worker ⟨h.start, h.empty, h.full⟩ rfl rfl rfl ?_ ?_ ?_ fun _ _ => rfl
      · simp [hw, WorkerPc.rank]
      · exact Nat.add_le_add_left (Nat.zero_le _) _
      · exact Nat.add_le_add_left (Nat.zero_le _) _
    · cases hok
  | spuriousProducer p =>
    obtain ⟨hp, -⟩ := ite_eq_ok.mp hok
    rw [h.full] at hp
    exact absurd hp (Finset.notMem_empty p)
  | spuriousWorker w =>
    obtain ⟨hw, -⟩ := ite_eq_ok.mp hok
    rw [h.empty] at hw
    exact absurd hw (Finset.notMem_empty w)
  | stop =>
    obtain rfl := Except.ok.inj hok
    exact ⟨⟨rfl, rfl, rfl⟩, rfl, fun _ => Nat.le_refl _, Nat.le_refl _, Nat.le_refl _⟩

omit [Fintype ω] [Fintype π] in
/-- A worker that has not returned can go on. -/
theorem Stopped.worker_moves (h : pool.Stopped) {w : ω} (hw : pool.workers w ≠ .finished) :
    ∃ action pool', own action = true ∧ pool.step action = .ok pool' := by
  cases hpc : pool.workers w with
  | finished => exact absurd hpc hw
  | test => exact ⟨.testStart w, _, rfl, by rw [ThreadPool.step, hpc]⟩
  | running cb => exact ⟨.callTask w, _, rfl, by rw [ThreadPool.step, hpc]⟩
  | taking =>
    have hfree : w ∉ pool.emptyCond.blocked := by
      rw [h.empty]
      exact Finset.notMem_empty w
    obtain ⟨woken, fullCond, hsignal⟩ := pool.fullCond.exists_signal
    refine ⟨.takeSection w woken, ?_⟩
    simp only [ThreadPool.step, hpc, if_pos hfree, ThreadPool.takeSection, hsignal, h.start]
    split
    · exact ⟨_, rfl, rfl⟩
    · exact ⟨_, rfl, rfl⟩

omit [Fintype ω] [Fintype π] in
/-- A call of `dispatchTask` can return. -/
theorem Stopped.producer_moves (h : pool.Stopped) {p : π} (hp : pool.dispatching p ≠ none) :
    ∃ action pool', own action = true ∧ pool.step action = .ok pool' := by
  obtain ⟨cb, hcb⟩ := Option.ne_none_iff_exists'.mp hp
  have hfree : p ∉ pool.fullCond.blocked := by
    rw [h.full]
    exact Finset.notMem_empty p
  refine ⟨.dispatchSection p none, ?_⟩
  simp only [ThreadPool.step, hcb, if_pos hfree, ThreadPool.dispatchSection, h.start]
  exact ⟨_, rfl, rfl⟩

omit [Fintype ω] [Fintype π] in
/-- As long as a thread has not come back one of them can go on. -/
theorem Stopped.moves (h : pool.Stopped) (hnot : ¬ pool.Idle) :
    ∃ action pool', own action = true ∧ pool.step action = .ok pool' := by
  by_contra hstuck
  apply hnot
  constructor
  · intro w
    by_contra hw
    exact hstuck (h.worker_moves hw)
  · intro p
    by_contra hp
    exact hstuck (h.producer_moves hp)

end

/-- In a pool that has been stopped what remains pays for the steps. -/
theorem nears_stopped :
    Nears (ThreadPool.step (ω := ω) (π := π) (T := T)) own credit Stopped (fun _ => False) Idle
      remaining := by
  constructor
  · intro pool action pool' h hok
    exact (h.step action hok).stopped
  · intro pool action pool' h hgoal hok
    exact hgoal
  · intro pool action pool' h hok hnot
    exact (h.step action hok).remaining_le
  · intro pool h hnot hidle
    exact h.moves hidle

/-- What is known of a pool that has been stopped, from any of its states on. -/
structure WindsUp (pool : ThreadPool ω π T) : Prop where
  awake : pool.emptyCond.blocked = ∅ ∧ pool.fullCond.blocked = ∅
  /-- All workers return, so that `stop` can join them, and so do the producers. -/
  returns : Attains step own credit (fun _ => False) Idle pool.remaining pool
  /-- No task is queued. -/
  accepts : ∀ actions pool', run step pool actions = .ok pool' → pool'.accepted = pool.accepted
  /-- A worker that is in `take` gets one more task at most, and the others get none. -/
  receives : ∀ actions pool', run step pool actions = .ok pool' →
    ∀ w, (pool'.received w).length ≤ (pool.received w).length + (pool.workers w).takes
  takes : ∀ actions pool', run step pool actions = .ok pool' →
    pool'.taken.length ≤ pool.taken.length + pool.takers

/-- The tasks of a run from a pool that has been stopped. -/
theorem Stopped.tasks_of_run {pool pool' : ThreadPool ω π T} {actions : List (PoolAction ω π T)}
    (h : pool.Stopped) (hrun : Transition.run ThreadPool.step pool actions = .ok pool') :
    pool'.accepted = pool.accepted ∧
      (∀ w, (pool'.received w).length + (pool'.workers w).takes ≤
        (pool.received w).length + (pool.workers w).takes) ∧
      pool'.taken.length + pool'.takers ≤ pool.taken.length + pool.takers := by
  induction actions generalizing pool with
  | nil =>
    obtain rfl := Except.ok.inj hrun
    exact ⟨rfl, fun _ => Nat.le_refl _, Nat.le_refl _⟩
  | cons action actions ih =>
    obtain ⟨next, hok, hrest⟩ := run_cons_eq_ok.mp hrun
    have hwinds := h.step action hok
    obtain ⟨haccepted, hreceived, htaken⟩ := ih hwinds.stopped hrest
    refine ⟨haccepted.trans hwinds.accepted_eq, fun w => ?_, htaken.trans hwinds.taken_le⟩
    exact (hreceived w).trans (hwinds.received_le w)

/-- A stopped pool winds up. -/
theorem Stopped.windsUp {pool : ThreadPool ω π T} (h : pool.Stopped) : pool.WindsUp where
  awake := ⟨h.empty, h.full⟩
  returns := nears_stopped.attains h (Nat.le_refl _)
  accepts _ _ hrun := (h.tasks_of_run hrun).1
  receives _ _ hrun w := le_of_add_le_left ((h.tasks_of_run hrun).2.1 w)
  takes _ _ hrun := le_of_add_le_left (h.tasks_of_run hrun).2.2

omit [Fintype ω] [Fintype π] in
/-- No other step than `stop` stops the pool. -/
theorem start_of_step {pool pool' : ThreadPool ω π T} {action : PoolAction ω π T}
    (hnot : action ≠ .stop) (hok : pool.step action = .ok pool') : pool'.start = pool.start := by
  cases action with
  | stop => exact absurd rfl hnot
  | dispatchTask p cb | testStart w | callTask w =>
    rw [step] at hok
    split at hok
    · obtain rfl := Except.ok.inj hok
      rfl
    · cases hok
  | spuriousProducer p | spuriousWorker w =>
    obtain ⟨-, rfl⟩ := ite_eq_ok.mp hok
    rfl
  | dispatchSection p woken =>
    rw [step] at hok
    split at hok
    · obtain ⟨-, hok⟩ := guard_eq_ok.mp hok
      unfold dispatchSection at hok
      dsimp only at hok
      split at hok
      · obtain rfl := Except.ok.inj hok
        rfl
      · split at hok
        · obtain rfl := Except.ok.inj hok
          rfl
        · split at hok
          · obtain rfl := Except.ok.inj hok
            rfl
          · cases hok
    · cases hok
  | takeSection w woken =>
    rw [step] at hok
    split at hok
    · obtain ⟨-, hok⟩ := guard_eq_ok.mp hok
      unfold takeSection at hok
      split at hok
      · split at hok <;> obtain rfl := Except.ok.inj hok <;> rfl
      · split at hok
        · obtain rfl := Except.ok.inj hok
          rfl
        · cases hok
    · cases hok

/-- `stop` wakes everybody, and nobody blocks after it. -/
theorem stopped_of_step {pool pool' : ThreadPool ω π T} {action : PoolAction ω π T}
    (h : pool.start = false → pool.Stopped) (hok : pool.step action = .ok pool')
    (hstart : pool'.start = false) : pool'.Stopped := by
  by_cases hstop : action = .stop
  · subst hstop
    obtain rfl := Except.ok.inj hok
    exact ⟨rfl, rfl, rfl⟩
  · have hsame := start_of_step hstop hok
    rw [hstart] at hsame
    exact ((h hsame.symm).step action hok).stopped

/-- In every interleaving, once `stop` has been called, nobody is blocked, no task is queued,
and all threads come to an end. -/
theorem stop_windsUp (taskNum : TaskNum) (actions : List (PoolAction ω π T)) :
    Always step (fun pool => pool.start = false → pool.WindsUp)
      ({ taskNum } : ThreadPool ω π T) actions := by
  apply along_of_guarded (fun pool => pool.start = false → pool.Stopped) ?_ ?_ ?_ guarded_true
  · intro pool action h _ pool' hok hstart
    exact (stopped_of_step h hok hstart).windsUp
  · intro pool action pool' h _ hok hstart
    exact stopped_of_step h hok hstart
  · intro hstart
    cases hstart

end ThreadPool

end Reactor
