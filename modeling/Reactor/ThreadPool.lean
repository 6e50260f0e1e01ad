import Mathlib.Logic.Function.Basic
import Reactor.Lib.CondVar
import Reactor.Lib.Run
import Reactor.Machine

/-!
# The thread pool

Producers push tasks into a bounded queue and workers take them out, each behind a
condition variable. A critical section is one step: it begins when the thread gets the
mutex, on entry or in `wait`, and ends where the thread waits or releases the mutex. The
number of tasks that the queue may hold is fixed and positive, and the pool has been
started with a worker at least.
-/

namespace Reactor

open Transition

/-- The values of `taskNum_` with which the queue is bounded. -/
structure TaskNum where
  val : ℕ
  pos : 0 < val
  lt : val < 2 ^ 31

/-- Where a worker is. -/
inductive WorkerPc (T : Type*) where
  /-- At the test of `start_` in `runThread`. -/
  | test
  /-- In `take`. -/
  | taking
  /-- Back in `runThread` with the callback. -/
  | running (cb : Option T)
  /-- `runThread` has returned. -/
  | finished

/-- `ThreadPool` with the threads that use it; `ω` are the workers, `π` the producers. -/
structure ThreadPool (ω π T : Type*) where
  start : Bool := true
  taskNum : TaskNum
  taskQueue : List T := []
  emptyCond : CondVar ω := .empty
  fullCond : CondVar π := .empty
  workers : ω → WorkerPc T := fun _ => .test
  /-- The task of the `dispatchTask` that the producer is in. -/
  dispatching : π → Option T := fun _ => none
  /-- The tasks that `dispatchTask` has queued. -/
  accepted : List T := []
  /-- The tasks that `take` has returned, with their workers. -/
  taken : List (ω × T) := []
  /-- The tasks that a worker has got from `take`. -/
  received : ω → List T := fun _ => []

/-- A step of a thread. The thread that a signal wakes is given with it. -/
inductive PoolAction (ω π T : Type*) where
  /-- The producer calls `dispatchTask`. -/
  | dispatchTask (p : π) (cb : T)
  /-- The critical section of `dispatchTask`. -/
  | dispatchSection (p : π) (woken : Option ω)
  /-- The worker tests `start_` in `runThread`. -/
  | testStart (w : ω)
  /-- The critical section of `take`. -/
  | takeSection (w : ω) (woken : Option π)
  /-- The worker has called the callback, if there is one. -/
  | callTask (w : ω)
  /-- A producer that has not been signalled wakes up. -/
  | spuriousProducer (p : π)
  /-- A worker that has not been signalled wakes up. -/
  | spuriousWorker (w : ω)
  /-- The critical section of `stop`. -/
  | stop

namespace ThreadPool

variable {ω π T : Type*} [DecidableEq ω] [DecidableEq π]

/-- `full`. -/
def full (pool : ThreadPool ω π T) : Bool :=
  decide (0 < pool.taskNum.val ∧ toInt pool.taskQueue.length = pool.taskNum.val)

/-- `dispatchTask` returns. -/
def dispatchReturn (pool : ThreadPool ω π T) (p : π) : ThreadPool ω π T :=
  { pool with dispatching := Function.update pool.dispatching p none }

/-- `take` returns `cb`. -/
def takeReturn (pool : ThreadPool ω π T) (w : ω) (cb : Option T) : ThreadPool ω π T :=
  { pool with workers := Function.update pool.workers w (.running cb) }

/-- The critical section of `dispatchTask`, from the test in the `while`. -/
def dispatchSection (pool : ThreadPool ω π T) (p : π) (cb : T) (woken : Option ω) :
    Except Disabled (ThreadPool ω π T) :=
  if pool.start && pool.full then .ok { pool with fullCond := pool.fullCond.wait p }
  else
    let awake := { pool with fullCond := pool.fullCond.resume p }
    if !awake.start then .ok (awake.dispatchReturn p)
    else
      match awake.emptyCond.signal woken with
      | some emptyCond =>
        .ok (dispatchReturn { awake with
          taskQueue := awake.taskQueue ++ [cb]
          accepted := awake.accepted ++ [cb]
          emptyCond } p)
      | none => .error .disabled

/-- The critical section of `take`, from the test in the `while`. -/
def takeSection (pool : ThreadPool ω π T) (w : ω) (woken : Option π) :
    Except Disabled (ThreadPool ω π T) :=
  match pool.taskQueue with
  | [] =>
    if pool.start then .ok { pool with emptyCond := pool.emptyCond.wait w }
    else .ok (takeReturn { pool with emptyCond := pool.emptyCond.resume w } w none)
  | cb :: rest =>
    match pool.fullCond.signal woken with
    | some fullCond =>
      .ok (takeReturn { pool with
        emptyCond := pool.emptyCond.resume w
        taskQueue := rest
        fullCond
        taken := pool.taken ++ [(w, cb)]
        received := Function.update pool.received w (pool.received w ++ [cb]) } w (some cb))
    | none => .error .disabled

/-- A step of the interleaving. -/
def step (pool : ThreadPool ω π T) : PoolAction ω π T → Except Disabled (ThreadPool ω π T)
  | .dispatchTask p cb =>
    match pool.dispatching p with
    | none => .ok { pool with dispatching := Function.update pool.dispatching p (some cb) }
    | some _ => .error .disabled
  | .dispatchSection p woken =>
    match pool.dispatching p with
    | some cb =>
      if p ∉ pool.fullCond.blocked then pool.dispatchSection p cb woken else .error .disabled
    | none => .error .disabled
  | .testStart w =>
    match pool.workers w with
    | .test =>
      .ok { pool with
        workers := Function.update pool.workers w (if pool.start then .taking else .finished) }
    | _ => .error .disabled
  | .takeSection w woken =>
    match pool.workers w with
    | .taking => if w ∉ pool.emptyCond.blocked then pool.takeSection w woken else .error .disabled
    | _ => .error .disabled
  | .callTask w =>
    match pool.workers w with
    | .running _ => .ok { pool with workers := Function.update pool.workers w .test }
    | _ => .error .disabled
  | .spuriousProducer p =>
    if p ∈ pool.fullCond.blocked then .ok { pool with fullCond := pool.fullCond.resume p }
    else .error .disabled
  | .spuriousWorker w =>
    if w ∈ pool.emptyCond.blocked then .ok { pool with emptyCond := pool.emptyCond.resume w }
    else .error .disabled
  | .stop =>
    .ok { pool with
      start := false
      emptyCond := pool.emptyCond.broadcast
      fullCond := pool.fullCond.broadcast }

/-- The accepted tasks are those taken and those queued, in this order, and what the
workers have got makes up the tasks taken, each of them once. -/
def Conserved (pool : ThreadPool ω π T) : Prop :=
  pool.accepted = pool.taken.map Prod.snd ++ pool.taskQueue ∧
    ∀ w, pool.received w = (pool.taken.filter fun e => decide (e.1 = w)).map Prod.snd

/-- There is a task for which no worker has been signalled, and a worker is blocked. -/
def WorkerStuck (pool : ThreadPool ω π T) : Prop :=
  pool.taskQueue ≠ [] ∧ pool.emptyCond.blocked.Nonempty ∧
    pool.emptyCond.signalled.card < pool.taskQueue.length

/-- There is a free slot for which no producer has been signalled, and a producer is
blocked. -/
def ProducerStuck (pool : ThreadPool ω π T) : Prop :=
  pool.fullCond.blocked.Nonempty ∧
    (pool.fullCond.signalled.card : ℤ) < (pool.taskNum.val : ℤ) - pool.taskQueue.length

/-- No wakeup has been lost. -/
def Awake (pool : ThreadPool ω π T) : Prop :=
  pool.start = true → ¬ pool.WorkerStuck ∧ ¬ pool.ProducerStuck

/-- The slots that are free. -/
def free (pool : ThreadPool ω π T) : ℕ := pool.taskNum.val - pool.taskQueue.length

/-- The invariant of the pool: signals are under way for the queued tasks and for the
free slots, as long as somebody waits for them. -/
structure Sound (pool : ThreadPool ω π T) : Prop where
  conserved : pool.Conserved
  length_le : pool.taskQueue.length ≤ pool.taskNum.val
  empty_covers : pool.start = true → pool.emptyCond.Covers pool.taskQueue.length
  full_covers : pool.start = true → pool.fullCond.Covers pool.free

section

variable {pool pool' : ThreadPool ω π T}

omit [DecidableEq π] in
/-- In a sound state nobody sleeps who could go on. -/
theorem Sound.awake (h : pool.Sound) : pool.Awake := by
  intro hstart
  constructor
  · rintro ⟨-, hblocked, hcard⟩
    have hcovers := h.empty_covers hstart hblocked
    omega
  · rintro ⟨hblocked, hcard⟩
    have hcovers := h.full_covers hstart hblocked
    unfold free at hcovers
    omega

omit [DecidableEq ω] [DecidableEq π] in
/-- `full` tells whether there is no free slot. -/
theorem full_iff (hlength : pool.taskQueue.length ≤ pool.taskNum.val) :
    pool.full = true ↔ pool.free = 0 := by
  have hpos := pool.taskNum.pos
  have hlt := pool.taskNum.lt
  rw [full, toInt_of_lt (by omega), decide_eq_true_eq, free]
  omega

/-! ## The producers -/

omit [DecidableEq π] in
/-- The threads move without touching the queue. -/
theorem Sound.move (h : pool.Sound) (workers : ω → WorkerPc T) (dispatching : π → Option T) :
    Sound { pool with workers, dispatching } :=
  ⟨h.conserved, h.length_le, h.empty_covers, h.full_covers⟩

/-- The queue is full, and the producer waits. -/
theorem Sound.waitFull (h : pool.Sound) (hfull : pool.full = true) (p : π) :
    Sound { pool with fullCond := pool.fullCond.wait p } := by
  refine ⟨h.conserved, h.length_le, h.empty_covers, ?_⟩
  intro _
  have hfree : free { pool with fullCond := pool.fullCond.wait p } = 0 :=
    (full_iff h.length_le).mp hfull
  rw [hfree]
  exact CondVar.covers_zero _

/-- A task takes a slot with the signal for it, and is signalled itself. -/
theorem Sound.push (h : pool.Sound) (hfull : pool.full = false) (hstart : pool.start = true)
    (p : π) (cb : T) {woken : Option ω} {emptyCond : CondVar ω}
    (hsignal : pool.emptyCond.signal woken = some emptyCond) :
    Sound { pool with
      fullCond := pool.fullCond.resume p
      taskQueue := pool.taskQueue ++ [cb]
      accepted := pool.accepted ++ [cb]
      emptyCond } := by
  have hlength := h.length_le
  have hfree : 0 < pool.free := by
    have hnot := (full_iff hlength).not.mp (by simp [hfull])
    omega
  have hroom : pool.taskQueue.length + 1 ≤ pool.taskNum.val := by
    unfold free at hfree
    omega
  obtain ⟨haccepted, hreceived⟩ := h.conserved
  refine ⟨⟨?_, hreceived⟩, ?_, ?_, ?_⟩
  · simp only [haccepted, List.append_assoc]
  · simpa using hroom
  · intro _
    simpa using (h.empty_covers hstart).signal hsignal
  · intro _
    have hcovers : pool.fullCond.Covers (pool.free - 1 + 1) := by
      rw [Nat.sub_add_cancel hfree]
      exact h.full_covers hstart
    have hless : free { pool with
        fullCond := pool.fullCond.resume p
        taskQueue := pool.taskQueue ++ [cb]
        accepted := pool.accepted ++ [cb]
        emptyCond } = pool.free - 1 := by
      simp only [free, List.length_append, List.length_cons, List.length_nil]
      omega
    rw [hless]
    exact hcovers.resume p

omit [DecidableEq π] in
/-- Once the pool has been stopped, nothing is promised about the waiting threads. -/
theorem sound_of_stopped (hstart : pool.start = false) (hconserved : pool.Conserved)
    (hlength : pool.taskQueue.length ≤ pool.taskNum.val) : pool.Sound := by
  refine ⟨hconserved, hlength, ?_, ?_⟩
  · intro htrue
    rw [hstart] at htrue
    cases htrue
  · intro htrue
    rw [hstart] at htrue
    cases htrue

/-- The critical section of `dispatchTask`. -/
theorem Sound.dispatchSection (h : pool.Sound) {p : π} {cb : T} {woken : Option ω}
    (hok : pool.dispatchSection p cb woken = .ok pool') : pool'.Sound := by
  unfold ThreadPool.dispatchSection at hok
  by_cases hwait : (pool.start && pool.full) = true
  · rw [if_pos hwait] at hok
    obtain rfl := Except.ok.inj hok
    exact h.waitFull (Bool.and_eq_true_iff.mp hwait).2 p
  · rw [if_neg hwait] at hok
    dsimp only at hok
    cases hstart : pool.start with
    | false =>
      rw [if_pos (by simp [hstart])] at hok
      obtain rfl := Except.ok.inj hok
      exact sound_of_stopped hstart h.conserved h.length_le
    | true =>
      have hfull : pool.full = false := by simpa [hstart] using hwait
      rw [if_neg (by simp [hstart])] at hok
      cases hsignal : pool.emptyCond.signal woken with
      | none =>
        rw [hsignal] at hok
        cases hok
      | some emptyCond =>
        rw [hsignal] at hok
        obtain rfl := Except.ok.inj hok
        have hpushed := h.push hfull hstart p cb hsignal
        exact hpushed.move pool.workers (Function.update pool.dispatching p none)

/-! ## The workers -/

omit [DecidableEq π] in
/-- The queue is empty, and the worker waits. -/
theorem Sound.waitEmpty (h : pool.Sound) (hempty : pool.taskQueue = []) (w : ω) :
    Sound { pool with emptyCond := pool.emptyCond.wait w } := by
  refine ⟨h.conserved, h.length_le, ?_, h.full_covers⟩
  intro _
  simpa only [hempty, List.length_nil] using CondVar.covers_zero _

/-- A worker takes a task with the signal for it, and signals the free slot. -/
theorem Sound.pop (h : pool.Sound) {cb : T} {rest : List T} (hqueue : pool.taskQueue = cb :: rest)
    (w : ω) {woken : Option π} {fullCond : CondVar π}
    (hsignal : pool.fullCond.signal woken = some fullCond) :
    Sound { pool with
      emptyCond := pool.emptyCond.resume w
      taskQueue := rest
      fullCond
      taken := pool.taken ++ [(w, cb)]
      received := Function.update pool.received w (pool.received w ++ [cb]) } := by
  have hlength := h.length_le
  rw [hqueue, List.length_cons] at hlength
  obtain ⟨haccepted, hreceived⟩ := h.conserved
  refine ⟨⟨?_, ?_⟩, ?_, ?_, ?_⟩
  · rw [hqueue] at haccepted
    simp [haccepted]
  · intro w'
    by_cases heq : w' = w
    · subst heq
      simp [hreceived]
    · have hne : ¬ w = w' := fun hw => heq hw.symm
      simp [Function.update_of_ne heq, hreceived, hne]
  · dsimp only
    omega
  · intro hstart
    have hcovers := h.empty_covers hstart
    rw [hqueue, List.length_cons] at hcovers
    exact hcovers.resume w
  · intro hstart
    have hcovers := (h.full_covers hstart).signal hsignal
    have hmore : pool.taskNum.val - rest.length = pool.free + 1 := by
      unfold free
      rw [hqueue, List.length_cons]
      omega
    dsimp only [free]
    rw [hmore]
    exact hcovers

/-- The critical section of `take`. -/
theorem Sound.takeSection (h : pool.Sound) {w : ω} {woken : Option π}
    (hok : pool.takeSection w woken = .ok pool') : pool'.Sound := by
  unfold ThreadPool.takeSection at hok
  split at hok
  · next hqueue =>
    cases hstart : pool.start with
    | false =>
      rw [if_neg (by simp [hstart])] at hok
      obtain rfl := Except.ok.inj hok
      exact sound_of_stopped hstart h.conserved h.length_le
    | true =>
      rw [if_pos hstart] at hok
      obtain rfl := Except.ok.inj hok
      exact h.waitEmpty hqueue w
  · next cb rest hqueue =>
    cases hsignal : pool.fullCond.signal woken with
    | none =>
      rw [hsignal] at hok
      cases hok
    | some fullCond =>
      rw [hsignal] at hok
      obtain rfl := Except.ok.inj hok
      have hpopped := h.pop hqueue w hsignal
      exact hpopped.move (Function.update pool.workers w (.running (some cb))) pool.dispatching

/-! ## The interleaving -/

/-- A spurious wakeup of a producer keeps the pool sound. -/
theorem Sound.spuriousProducer (h : pool.Sound) {p : π} (hp : p ∈ pool.fullCond.blocked) :
    Sound { pool with fullCond := pool.fullCond.resume p } := by
  refine ⟨h.conserved, h.length_le, h.empty_covers, ?_⟩
  intro hstart
  exact (h.full_covers hstart).spurious hp

omit [DecidableEq π] in
/-- A spurious wakeup of a worker keeps the pool sound. -/
theorem Sound.spuriousWorker (h : pool.Sound) {w : ω} (hw : w ∈ pool.emptyCond.blocked) :
    Sound { pool with emptyCond := pool.emptyCond.resume w } := by
  refine ⟨h.conserved, h.length_le, ?_, h.full_covers⟩
  intro hstart
  exact (h.empty_covers hstart).spurious hw

/-- Every step of the interleaving keeps the invariant. -/
theorem Sound.step (h : pool.Sound) (action : PoolAction ω π T)
    (hok : pool.step action = .ok pool') : pool'.Sound := by
  cases action with
  | dispatchTask p cb =>
    rw [ThreadPool.step] at hok
    split at hok
    · obtain rfl := Except.ok.inj hok
      exact h.move pool.workers (Function.update pool.dispatching p (some cb))
    · cases hok
  | dispatchSection p woken =>
    rw [ThreadPool.step] at hok
    split at hok
    · split at hok
      · exact h.dispatchSection hok
      · cases hok
    · cases hok
  | testStart w =>
    rw [ThreadPool.step] at hok
    split at hok
    · obtain rfl := Except.ok.inj hok
      exact h.move _ pool.dispatching
    · cases hok
  | takeSection w woken =>
    rw [ThreadPool.step] at hok
    split at hok
    · split at hok
      · exact h.takeSection hok
      · cases hok
    · cases hok
  | callTask w =>
    rw [ThreadPool.step] at hok
    split at hok
    · obtain rfl := Except.ok.inj hok
      exact h.move (Function.update pool.workers w .test) pool.dispatching
    · cases hok
  | spuriousProducer p =>
    obtain ⟨hp, rfl⟩ := ite_eq_ok.mp hok
    exact h.spuriousProducer hp
  | spuriousWorker w =>
    obtain ⟨hw, rfl⟩ := ite_eq_ok.mp hok
    exact h.spuriousWorker hw
  | stop =>
    obtain rfl := Except.ok.inj hok
    exact sound_of_stopped rfl h.conserved h.length_le

omit [DecidableEq π] in
/-- A pool that has just been started. -/
theorem sound_started (taskNum : TaskNum) : Sound ({ taskNum } : ThreadPool ω π T) := by
  refine ⟨⟨rfl, fun _ => rfl⟩, Nat.zero_le _, ?_, ?_⟩
  · intro _ hblocked
    exact absurd hblocked Finset.not_nonempty_empty
  · intro _ hblocked
    exact absurd hblocked Finset.not_nonempty_empty

end

/-- In every interleaving of producers, workers and `stop` no task is lost, duplicated or
reordered, and no wakeup is lost. -/
theorem tasks_conserved_and_awake (taskNum : TaskNum) (actions : List (PoolAction ω π T)) :
    Always step (fun pool => pool.Conserved ∧ pool.Awake) ({ taskNum } : ThreadPool ω π T)
      actions := by
  apply along_of_guarded Sound ?_ ?_ (sound_started taskNum) guarded_true
  · intro pool action h _ pool' hok
    have h' := h.step action hok
    exact ⟨h'.conserved, h'.awake⟩
  · intro pool action pool' h _ hok
    exact h.step action hok

end ThreadPool

end Reactor
