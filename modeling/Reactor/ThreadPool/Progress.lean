import Mathlib.Algebra.Order.BigOperators.Group.Finset
import Reactor.ThreadPool.Stop

/-!
# Every task has its turn

The tasks are taken in the order in which they were queued, and a worker that comes back takes
the next one. So a task waits for those before it only, however many are queued behind it, and
unless the pool is stopped there is always a worker to go on.
-/

namespace Reactor

open Transition

/-- The steps of a worker before it is in `take`. -/
def WorkerPc.untilTake {T : Type*} : WorkerPc T → ℕ
  | .taking | .finished => 0
  | .test => 1
  | .running _ => 2

/-- A worker is two steps at most before its next take. -/
theorem WorkerPc.untilTake_le {T : Type*} (pc : WorkerPc T) : pc.untilTake ≤ 2 := by
  cases pc <;> simp [untilTake]

namespace ThreadPool

variable {ω π T : Type*}

/-- The steps of the workers. That a task returns is one of them. -/
def byWorker : PoolAction ω π T → Bool
  | .testStart _ | .takeSection _ _ | .callTask _ => true
  | .dispatchTask _ _ | .dispatchSection _ _ | .spuriousProducer _ | .spuriousWorker _
  | .stop => false

/-- The tasks have been taken, in this order. -/
def Taken (tasks : List T) (pool : ThreadPool ω π T) : Prop := tasks <+: pool.taken.map Prod.snd

/-- The steps that the workers take before they have taken the first tasks: three for a task, and
those that bring them into `take`. -/
def untilTaken [Fintype ω] (tasks : List T) (pool : ThreadPool ω π T) : ℕ :=
  3 * (tasks.length - pool.taken.length) + ∑ w, (pool.workers w).untilTake

/-- The tasks have been queued, as the first ones, and no worker has left a running pool. -/
structure Awaited [DecidableEq ω] (tasks : List T) (pool : ThreadPool ω π T) : Prop where
  sound : pool.Sound
  queued : tasks <+: pool.accepted
  alive : pool.start = true → ∀ w, pool.workers w ≠ .finished

/-- What a step does to the workers and to the tasks that have been taken. -/
inductive Serves [DecidableEq ω] (pool pool' : ThreadPool ω π T) : Bool → Prop where
  /-- Another thread moves. -/
  | other (hworkers : pool'.workers = pool.workers) (htaken : pool'.taken = pool.taken) :
      Serves pool pool' false
  /-- A worker comes nearer to `take`, or leaves a pool that has been stopped. -/
  | nears (w : ω) (pc : WorkerPc T) (hworkers : pool'.workers = Function.update pool.workers w pc)
      (htaken : pool'.taken = pool.taken)
      (hpaid : pc.untilTake + 1 ≤ (pool.workers w).untilTake)
      (halive : pool.start = true → pc ≠ .finished) : Serves pool pool' true
  /-- A worker takes a task. -/
  | takes (w : ω) (cb : T) (hworkers : pool'.workers = Function.update pool.workers w (.running cb))
      (htaken : pool'.taken = pool.taken ++ [(w, cb)])
      (hplace : (pool.workers w).untilTake = 0) : Serves pool pool' true
  /-- A worker finds no task. -/
  | waits (w : ω) (pc : WorkerPc T) (hworkers : pool'.workers = Function.update pool.workers w pc)
      (htaken : pool'.taken = pool.taken) (hnone : pool.taskQueue = []) (halive : pc ≠ .finished) :
      Serves pool pool' true

section

variable [DecidableEq ω] [DecidableEq π] {pool pool' : ThreadPool ω π T} {action : PoolAction ω π T}
  {tasks : List T}

/-- The critical section of `dispatchTask` queues a task behind those there are, if any. -/
theorem serves_dispatchSection {p : π} {cb : T} {woken : Option ω}
    (hok : pool.dispatchSection p cb woken = .ok pool') :
    pool.accepted <+: pool'.accepted ∧ Serves pool pool' false := by
  unfold ThreadPool.dispatchSection at hok
  dsimp only at hok
  split at hok
  · obtain rfl := Except.ok.inj hok
    exact ⟨List.prefix_refl _, .other rfl rfl⟩
  · split at hok
    · obtain rfl := Except.ok.inj hok
      exact ⟨List.prefix_refl _, .other rfl rfl⟩
    · split at hok
      · obtain rfl := Except.ok.inj hok
        exact ⟨List.prefix_append _ _, .other rfl rfl⟩
      · cases hok

/-- The critical section of `take`. -/
theorem serves_takeSection {w : ω} {woken : Option π} (hw : pool.workers w = .taking)
    (hok : pool.takeSection w woken = .ok pool') :
    pool.accepted <+: pool'.accepted ∧ Serves pool pool' true := by
  have hplace : (pool.workers w).untilTake = 0 := by
    rw [hw]
    rfl
  unfold ThreadPool.takeSection at hok
  split at hok
  · next hnone =>
    split at hok
    · obtain rfl := Except.ok.inj hok
      refine ⟨List.prefix_refl _, .waits w .taking ?_ rfl hnone (by simp)⟩
      rw [← hw, Function.update_eq_self]
    · obtain rfl := Except.ok.inj hok
      exact ⟨List.prefix_refl _, .waits w (.running none) rfl rfl hnone (by simp)⟩
  · split at hok
    · obtain rfl := Except.ok.inj hok
      exact ⟨List.prefix_refl _, .takes w _ rfl rfl hplace⟩
    · cases hok

/-- Every step accepts at the end, and takes from the front if it is that of a worker. -/
theorem serves_step (hok : pool.step action = .ok pool') :
    pool.accepted <+: pool'.accepted ∧ Serves pool pool' (byWorker action) := by
  cases action with
  | dispatchTask p cb =>
    rw [ThreadPool.step] at hok
    split at hok
    · obtain rfl := Except.ok.inj hok
      exact ⟨List.prefix_refl _, .other rfl rfl⟩
    · cases hok
  | dispatchSection p woken =>
    rw [ThreadPool.step] at hok
    split at hok
    · exact serves_dispatchSection (guard_eq_ok.mp hok).2
    · cases hok
  | testStart w =>
    rw [ThreadPool.step] at hok
    split at hok
    · next hw =>
      obtain rfl := Except.ok.inj hok
      refine ⟨List.prefix_refl _, .nears w _ rfl rfl ?_ ?_⟩
      · rw [hw]
        split
        · exact Nat.le_refl 1
        · exact Nat.le_refl 1
      · intro hstart
        simp [hstart]
    · cases hok
  | takeSection w woken =>
    rw [ThreadPool.step] at hok
    split at hok
    · next hw => exact serves_takeSection hw (guard_eq_ok.mp hok).2
    · cases hok
  | callTask w =>
    rw [ThreadPool.step] at hok
    split at hok
    · next hw =>
      obtain rfl := Except.ok.inj hok
      refine ⟨List.prefix_refl _, .nears w .test rfl rfl ?_ fun _ => by simp⟩
      rw [hw]
      exact Nat.le_refl 2
    · cases hok
  | spuriousProducer p | spuriousWorker w =>
    obtain ⟨-, rfl⟩ := ite_eq_ok.mp hok
    exact ⟨List.prefix_refl _, .other rfl rfl⟩
  | stop =>
    obtain rfl := Except.ok.inj hok
    exact ⟨List.prefix_refl _, .other rfl rfl⟩

omit [DecidableEq π] in
/-- Tasks that have been taken stay so. -/
theorem Serves.taken_kept {own : Bool} (h : Serves pool pool' own) :
    pool.taken.map Prod.snd <+: pool'.taken.map Prod.snd := by
  cases h with
  | other _ htaken | nears _ _ _ htaken | waits _ _ _ htaken => rw [htaken]
  | takes _ _ _ htaken =>
    rw [htaken, List.map_append]
    exact List.prefix_append _ _

omit [DecidableEq π] in
/-- The first tasks have been taken once so many have. -/
theorem Awaited.taken_of_le (h : Awaited tasks pool) (hle : tasks.length ≤ pool.taken.length) :
    Taken tasks pool := by
  have htaken : pool.taken.map Prod.snd <+: pool.accepted := by
    rw [h.sound.conserved.1]
    exact List.prefix_append _ _
  exact List.prefix_of_prefix_length_le h.queued htaken (by rwa [List.length_map])

omit [DecidableEq π] in
/-- A task that has not been taken is in the queue. -/
theorem Awaited.queue_ne_nil (h : Awaited tasks pool) (hnot : ¬ Taken tasks pool) :
    pool.taskQueue ≠ [] := by
  intro hnil
  apply hnot
  have haccepted := h.sound.conserved.1
  rw [hnil, List.append_nil] at haccepted
  have hqueued := h.queued
  rwa [haccepted] at hqueued

omit [DecidableEq π] in
/-- A worker that goes on has not finished. -/
theorem alive_update {workers : ω → WorkerPc T} {w : ω} {pc : WorkerPc T}
    (h : ∀ v, workers v ≠ .finished) (hpc : pc ≠ .finished) :
    ∀ v, Function.update workers w pc v ≠ .finished :=
  (Function.forall_update_iff workers fun _ pc => pc ≠ WorkerPc.finished).mpr
    ⟨hpc, fun v _ => h v⟩

/-- What is awaited stays so until it is taken. -/
theorem Awaited.step (h : Awaited tasks pool) (hok : pool.step action = .ok pool') :
    Awaited tasks pool' := by
  obtain ⟨haccepted, hserves⟩ := serves_step hok
  refine ⟨h.sound.step action hok, h.queued.trans haccepted, fun hstart' => ?_⟩
  have hstart : pool.start = true := by
    by_cases hstop : action = .stop
    · subst hstop
      obtain rfl := Except.ok.inj hok
      cases hstart'
    · rwa [start_of_step hstop hok] at hstart'
  have halive := h.alive hstart
  generalize byWorker action = own at hserves
  cases hserves with
  | other hworkers =>
    rw [hworkers]
    exact halive
  | nears w pc hworkers _ _ hpc =>
    rw [hworkers]
    exact alive_update halive (hpc hstart)
  | takes w cb hworkers =>
    rw [hworkers]
    exact alive_update halive (by simp)
  | waits w pc hworkers _ _ hpc =>
    rw [hworkers]
    exact alive_update halive hpc

/-- Each step of a worker brings the tasks nearer to their turn. -/
theorem Awaited.untilTaken_le [Fintype ω] (h : Awaited tasks pool)
    (hok : pool.step action = .ok pool') (hnot : ¬ Taken tasks pool') :
    untilTaken tasks pool' + (byWorker action).toNat ≤ untilTaken tasks pool := by
  obtain ⟨-, hserves⟩ := serves_step hok
  have hless : pool'.taken.length < tasks.length := by
    by_contra hle
    exact hnot ((h.step hok).taken_of_le (Nat.not_lt.mp hle))
  unfold untilTaken
  generalize byWorker action = own at hserves ⊢
  cases hserves with
  | other hworkers htaken =>
    rw [hworkers, htaken]
    exact Nat.le_refl _
  | nears w pc hworkers htaken hpaid =>
    have hsum := sum_update pool.workers WorkerPc.untilTake w pc
    rw [hworkers, htaken, Bool.toNat_true]
    omega
  | takes w cb hworkers htaken hplace =>
    have hsum := sum_update pool.workers WorkerPc.untilTake w (.running cb)
    have htwo := (WorkerPc.running (some cb)).untilTake_le
    rw [htaken, List.length_append, List.length_singleton] at hless
    rw [hworkers, htaken, List.length_append, List.length_singleton, Bool.toNat_true]
    omega
  | waits w pc hworkers htaken hnone =>
    refine absurd hnone (h.queue_ne_nil fun htaken' => hnot ?_)
    rw [Taken, htaken]
    exact htaken'

/-- As long as a task is queued a worker of a running pool can go on. -/
theorem Awaited.exists_worker_step [Nonempty ω] (h : Awaited tasks pool)
    (hnot : ¬ Taken tasks pool) (hstart : pool.start = true) :
    ∃ action pool', byWorker action = true ∧ pool.step action = .ok pool' := by
  have hqueue := h.queue_ne_nil hnot
  obtain ⟨w, hfree⟩ : ∃ w, w ∉ pool.emptyCond.blocked := by
    by_contra hall
    rw [not_exists_not] at hall
    -- all workers would be blocked, but one has been signalled for the task
    obtain ⟨w⟩ := ‹Nonempty ω›
    have hcard := h.sound.empty_covers hstart ⟨w, hall w⟩
    have hpos := List.length_pos_iff.mpr hqueue
    obtain ⟨v, hv⟩ := Finset.card_pos.mp (Nat.lt_of_lt_of_le hpos hcard)
    exact Finset.disjoint_left.mp pool.emptyCond.disjoint (hall v) hv
  cases hpc : pool.workers w with
  | finished => exact absurd hpc (h.alive hstart w)
  | test => exact ⟨.testStart w, _, rfl, by rw [ThreadPool.step, hpc]⟩
  | running cb => exact ⟨.callTask w, _, rfl, by rw [ThreadPool.step, hpc]⟩
  | taking =>
    obtain ⟨cb, rest, hcons⟩ := List.exists_cons_of_ne_nil hqueue
    obtain ⟨woken, fullCond, hsignal⟩ := pool.fullCond.exists_signal
    have hstep : ∃ pool', pool.step (.takeSection w woken) = .ok pool' := by
      simp only [ThreadPool.step, hpc, if_pos hfree, ThreadPool.takeSection, hcons, hsignal]
      exact ⟨_, rfl⟩
    obtain ⟨pool', hok⟩ := hstep
    exact ⟨_, pool', rfl, hok⟩

/-- The steps of workers bring the tasks nearer to being taken. -/
theorem nears_taken [Fintype ω] [Nonempty ω] (tasks : List T) :
    Nears (step (ω := ω) (π := π)) byWorker (fun _ => 0) (Awaited tasks) (Taken tasks)
      (fun pool => pool.start = false) (untilTaken tasks) where
  keeps _ _ _ h hok := h.step hok
  stays _ _ _ _ hgoal hok := hgoal.trans (serves_step hok).2.taken_kept
  pays _ _ _ h hok hnot := h.untilTaken_le hok hnot
  moves _ h hnot hstart := h.exists_worker_step hnot (by simpa using hstart)

omit [DecidableEq ω] [DecidableEq π] in
/-- The tasks are taken after three steps for each and two for each worker. -/
theorem untilTaken_le [Fintype ω] (tasks : List T) (pool : ThreadPool ω π T) :
    untilTaken tasks pool ≤ 3 * (tasks.length - pool.taken.length) + 2 * Fintype.card ω := by
  have hsum := Finset.sum_le_card_nsmul Finset.univ (fun w => (pool.workers w).untilTake) 2
    fun w _ => (pool.workers w).untilTake_le
  rw [Finset.card_univ, Nat.nsmul_eq_mul] at hsum
  unfold untilTaken
  omega

end

/-- From every state of every interleaving the first tasks that have been queued have their turn,
in this order: the workers take three steps for each of those that have not been taken and two
for each worker, whatever the producers do, and only `stop` keeps the tasks from it. -/
theorem tasks_have_turn [DecidableEq ω] [DecidableEq π] [Fintype ω] [Nonempty ω]
    (taskNum : TaskNum) (actions : List (PoolAction ω π T)) :
    Always step (fun pool => ∀ tasks, tasks <+: pool.accepted →
      Attains step byWorker (fun _ => 0) (Taken tasks) (fun pool => pool.start = false)
        (3 * (tasks.length - pool.taken.length) + 2 * Fintype.card ω) pool)
      ({ taskNum } : ThreadPool ω π T) actions := by
  have hkeep : ∀ (pool : ThreadPool ω π T) action pool', Awaited [] pool →
      pool.step action = .ok pool' → Awaited [] pool' := fun _ _ _ h hok => h.step hok
  have hstarted : Awaited [] ({ taskNum } : ThreadPool ω π T) :=
    ⟨sound_started taskNum, List.nil_prefix, fun _ _ => by simp⟩
  apply along_of_guarded (Awaited []) ?_ (fun pool a pool' h _ => hkeep pool a pool' h) hstarted
    guarded_true
  intro pool action h _ pool' hok tasks hqueued
  have hnext := hkeep pool action pool' h hok
  exact (nears_taken tasks).attains ⟨hnext.sound, hqueued, hnext.alive⟩ (untilTaken_le tasks pool')

/-- Two workers and two tasks. -/
theorem tasks_have_turn_two_workers :
    Always step (fun pool => ∀ tasks, tasks <+: pool.accepted →
      Attains step byWorker (fun _ => 0) (Taken tasks) (fun pool => pool.start = false)
        (3 * (tasks.length - pool.taken.length) + 2 * Fintype.card Bool) pool)
      ({ taskNum := ⟨1, by decide, by decide⟩ } : ThreadPool Bool Unit ℕ)
      [.dispatchTask () 5, .testStart true, .takeSection true none, .dispatchSection () (some true),
        .dispatchTask () 6, .dispatchSection () none, .takeSection true (some ())] :=
  tasks_have_turn _ _

end ThreadPool

end Reactor
