import Reactor.ThreadPool

/-!
# A thread pool with a changing limit

`setTaskNum` may be called at any time and does not lock the mutex, so that the limit may change
between the tests of `full` and the moment at which the task is queued. The critical section of
`dispatchTask` is taken apart here, and all other steps are those of the pool. The limit is
tested for equality: a queue that is longer does not count as full.
-/

namespace Reactor

open Transition

/-- The values of an `int`. -/
abbrev IntValue := { num : ℤ // -2 ^ 31 ≤ num ∧ num < 2 ^ 31 }

/-- Where a producer with the mutex is in `dispatchTask`. -/
inductive DispatchPc where
  /-- At the test of `start_` and of `taskNum_ > 0`. -/
  | positive
  /-- At the comparison of the size with `taskNum_`. -/
  | size
  /-- Behind the loop. -/
  | append
  deriving DecidableEq, Repr

/-- `kDefaultTaskNum`. -/
def kDefaultTaskNum : TaskNum where
  val := 10
  pos := by decide
  lt := by decide

/-- `ThreadPool` with a limit that changes. -/
structure ReconfiguredPool (ω π T : Type*) where
  /-- `taskNum_`, in place of the fixed limit of `pool`. -/
  taskNum : IntValue := ⟨kDefaultTaskNum.val, by decide⟩
  pool : ThreadPool ω π T := { taskNum := kDefaultTaskNum }
  /-- The producer that has the mutex. -/
  inside : Option (π × DispatchPc) := none

/-- A step of a thread. -/
inductive ReconfigureAction (ω π T : Type*) where
  | setTaskNum (num : IntValue)
  /-- The producer gets the mutex in `dispatchTask`, on entry or in `wait`. -/
  | lock (p : π)
  /-- The producer inside tests `start_` and `taskNum_ > 0`. -/
  | testPositive
  /-- The producer inside compares the size with `taskNum_`. -/
  | testSize
  /-- The producer inside queues its task, unless the pool has been stopped. -/
  | append (woken : Option ω)
  /-- Another step of the pool. -/
  | other (a : PoolAction ω π T)

namespace ThreadPool

variable {ω π T : Type*} [DecidableEq ω] [DecidableEq π]

/-- The critical section of `dispatchTask`, behind the loop. -/
def appendSection (pool : ThreadPool ω π T) (p : π) (cb : T) (woken : Option ω) :
    Except Disabled (ThreadPool ω π T) :=
  let awake := { pool with fullCond := pool.fullCond.resume p }
  if !awake.start then .ok (awake.dispatchReturn p)
  else
    match awake.emptyCond.signal woken with
    | some emptyCond =>
      .ok (dispatchReturn { awake with
        taskQueue := awake.taskQueue ++ [cb]
        accepted := awake.accepted ++ [cb]
        emptyCond } p)
    | none => .error .disabled

/-- The action needs the mutex. -/
def locks : PoolAction ω π T → Bool
  | .dispatchSection _ _ | .takeSection _ _ | .stop => true
  | _ => false

/-- The critical section of `dispatchTask` is taken apart. -/
def dispatches : PoolAction ω π T → Bool
  | .dispatchSection _ _ => true
  | _ => false

section

variable {pool pool' : ThreadPool ω π T} {a : PoolAction ω π T}

/-- The critical section of `dispatchTask` is the loop and what is behind it. -/
theorem dispatchSection_eq (pool : ThreadPool ω π T) (p : π) (cb : T) (woken : Option ω) :
    pool.dispatchSection p cb woken =
      if pool.start && pool.full then .ok { pool with fullCond := pool.fullCond.wait p }
      else pool.appendSection p cb woken := rfl

/-- Behind the loop of a pool that has not been stopped the task is queued. -/
theorem exists_appendSection (hstart : pool.start = true) (p : π) (cb : T) :
    ∃ woken pool', pool.appendSection p cb woken = .ok pool' ∧
      pool'.taskQueue = pool.taskQueue ++ [cb] := by
  obtain ⟨woken, emptyCond, hsignal⟩ := pool.emptyCond.exists_signal
  have hok : pool.appendSection p cb woken = .ok (dispatchReturn { pool with
      fullCond := pool.fullCond.resume p
      taskQueue := pool.taskQueue ++ [cb]
      accepted := pool.accepted ++ [cb]
      emptyCond } p) := by
    rw [appendSection]
    simp [hstart, hsignal]
  exact ⟨woken, _, hok, rfl⟩

/-- A step without the mutex leaves the queue, its limit and `start_` alone. -/
theorem step_of_not_locks (hlocks : locks a = false) (hok : pool.step a = .ok pool') :
    pool'.taskQueue = pool.taskQueue ∧ pool'.taskNum = pool.taskNum ∧ pool'.start = pool.start ∧
      ∀ p, pool.dispatching p ≠ none → pool'.dispatching p ≠ none := by
  cases a with
  | dispatchSection p woken | takeSection w woken | stop => cases hlocks
  | dispatchTask p cb =>
    rw [step] at hok
    split at hok
    · obtain rfl := Except.ok.inj hok
      refine ⟨rfl, rfl, rfl, fun q hq => ?_⟩
      by_cases heq : q = p
      · simp [heq]
      · simpa [heq] using hq
    · cases hok
  | testStart w | callTask w =>
    rw [step] at hok
    split at hok
    · obtain rfl := Except.ok.inj hok
      exact ⟨rfl, rfl, rfl, fun _ hq => hq⟩
    · cases hok
  | spuriousProducer p | spuriousWorker w =>
    obtain ⟨-, rfl⟩ := ite_eq_ok.mp hok
    exact ⟨rfl, rfl, rfl, fun _ hq => hq⟩

/-- The critical section of a dispatch does not change the limit. -/
theorem taskNum_of_dispatchSection {p : π} {cb : T} {woken : Option ω}
    (hok : pool.dispatchSection p cb woken = .ok pool') : pool'.taskNum = pool.taskNum := by
  rw [dispatchSection_eq] at hok
  split at hok
  · obtain rfl := Except.ok.inj hok
    rfl
  · rw [appendSection] at hok
    dsimp only at hok
    split at hok
    · obtain rfl := Except.ok.inj hok
      rfl
    · split at hok
      · obtain rfl := Except.ok.inj hok
        rfl
      · cases hok

/-- `take` makes the queue no longer. -/
theorem takeSection_le {w : ω} {woken : Option π} (hok : pool.takeSection w woken = .ok pool') :
    pool'.taskQueue.length ≤ pool.taskQueue.length ∧ pool'.taskNum = pool.taskNum := by
  rw [takeSection] at hok
  split at hok
  · split at hok
    · obtain rfl := Except.ok.inj hok
      exact ⟨Nat.le_refl _, rfl⟩
    · obtain rfl := Except.ok.inj hok
      exact ⟨Nat.le_refl _, rfl⟩
  · next cb rest hqueue =>
    split at hok
    · obtain rfl := Except.ok.inj hok
      rw [hqueue]
      exact ⟨Nat.le_succ _, rfl⟩
    · cases hok

/-- Only `dispatchTask` makes the queue longer, and no step changes its limit. -/
theorem step_of_not_dispatches (hdispatches : dispatches a = false)
    (hok : pool.step a = .ok pool') :
    pool'.taskQueue.length ≤ pool.taskQueue.length ∧ pool'.taskNum = pool.taskNum := by
  cases hlocks : locks a with
  | false =>
    obtain ⟨hqueue, hlimit, -⟩ := step_of_not_locks hlocks hok
    exact ⟨by rw [hqueue], hlimit⟩
  | true =>
    cases a with
    | dispatchSection p woken => cases hdispatches
    | dispatchTask p cb | testStart w | callTask w | spuriousProducer p | spuriousWorker w =>
      cases hlocks
    | takeSection w woken =>
      rw [step] at hok
      split at hok
      · split at hok
        · exact takeSection_le hok
        · cases hok
      · cases hok
    | stop =>
      obtain rfl := Except.ok.inj hok
      exact ⟨Nat.le_refl _, rfl⟩

end

end ThreadPool

namespace ReconfiguredPool

variable {ω π T : Type*} [DecidableEq ω] [DecidableEq π]

/-- A step of the interleaving. -/
def step (s : ReconfiguredPool ω π T) :
    ReconfigureAction ω π T → Except Disabled (ReconfiguredPool ω π T)
  | .setTaskNum num => .ok { s with taskNum := num }
  | .lock p =>
    if s.inside = none ∧ s.pool.dispatching p ≠ none ∧ p ∉ s.pool.fullCond.blocked then
      .ok { s with inside := some (p, .positive) }
    else .error .disabled
  | .testPositive =>
    match s.inside with
    | some (p, .positive) =>
      if s.pool.start ∧ 0 < s.taskNum.1 then .ok { s with inside := some (p, .size) }
      else .ok { s with inside := some (p, .append) }
    | _ => .error .disabled
  | .testSize =>
    match s.inside with
    | some (p, .size) =>
      if toInt s.pool.taskQueue.length = s.taskNum.1 then
        .ok { s with
          pool := { s.pool with fullCond := s.pool.fullCond.wait p }
          inside := none }
      else .ok { s with inside := some (p, .append) }
    | _ => .error .disabled
  | .append woken =>
    match s.inside with
    | some (p, .append) =>
      match s.pool.dispatching p with
      | some cb => do
        let pool ← s.pool.appendSection p cb woken
        return { s with pool, inside := none }
      | none => .error .disabled
    | _ => .error .disabled
  | .other a =>
    if ThreadPool.dispatches a ∨ ThreadPool.locks a ∧ s.inside ≠ none then .error .disabled
    else do
      let pool ← s.pool.step a
      return { s with pool }

/-- The producer inside has left the loop. -/
def Behind (s : ReconfiguredPool ω π T) : Prop := s.inside.map Prod.snd = some .append

/-- A task is queued only below a positive limit. -/
def Within (s t : ReconfiguredPool ω π T) : Prop :=
  s.pool.taskQueue.length < t.pool.taskQueue.length →
    ¬ (0 < s.taskNum.1 ∧ s.taskNum.1 ≤ s.pool.taskQueue.length)

/-- When the size is compared with a positive limit, the queue is not longer than that, and no
positive limit that the queue has reached is set while a producer is behind the loop. -/
def KeepsLimit (s : ReconfiguredPool ω π T) : ReconfigureAction ω π T → Prop
  | .testSize => 0 < s.taskNum.1 → s.pool.taskQueue.length ≤ s.taskNum.1
  | .setTaskNum num =>
    s.Behind → s.pool.start = true → 0 < num.1 → s.pool.taskQueue.length < num.1
  | _ => True

instance (s t : ReconfiguredPool ω π T) : Decidable (s.Within t) :=
  inferInstanceAs (Decidable (_ → _))

instance (s : ReconfiguredPool ω π T) (a : ReconfigureAction ω π T) : Decidable (s.KeepsLimit a) :=
  match a with
  | .testSize => inferInstanceAs (Decidable (_ → _))
  | .setTaskNum _ =>
    have : Decidable s.Behind := inferInstanceAs (Decidable (_ = _))
    inferInstanceAs (Decidable (s.Behind → _))
  | .lock _ | .testPositive | .append _ | .other _ => .isTrue trivial

/-- The producer that has left the loop has room for its task. -/
structure Sound (s : ReconfiguredPool ω π T) : Prop where
  room : s.Behind → s.pool.start = true → 0 < s.taskNum.1 → s.pool.taskQueue.length < s.taskNum.1
  started : s.inside.map Prod.snd = some .size → s.pool.start = true
  dispatching : ∀ p pc, s.inside = some (p, pc) → s.pool.dispatching p ≠ none

section

variable {s t : ReconfiguredPool ω π T}

omit [DecidableEq ω] [DecidableEq π] in
/-- Nobody is inside. -/
theorem sound_of_inside_none (h : s.inside = none) : s.Sound where
  room hbehind := by simp [Behind, h] at hbehind
  started hsize := by simp [h] at hsize
  dispatching p pc hinside := by simp [h] at hinside

omit [DecidableEq ω] [DecidableEq π] in
/-- The producer inside moves on. -/
theorem sound_inside {p : π} {pc : DispatchPc} (hp : s.pool.dispatching p ≠ none)
    (hsize : pc = .size → s.pool.start = true)
    (hroom : pc = .append → s.pool.start = true → 0 < s.taskNum.1 →
      s.pool.taskQueue.length < s.taskNum.1) :
    Sound { s with inside := some (p, pc) } where
  room hbehind := hroom (Option.some.inj hbehind)
  started hinside := hsize (Option.some.inj hinside)
  dispatching q pc' hinside := by
    obtain ⟨rfl, -⟩ := Prod.mk.inj (Option.some.inj hinside)
    exact hp

omit [DecidableEq ω] [DecidableEq π] in
/-- A queue that is not longer than a positive limit and is not full has room. -/
theorem length_lt_of_ne (hkeeps : 0 < s.taskNum.1 → s.pool.taskQueue.length ≤ s.taskNum.1)
    (hne : toInt s.pool.taskQueue.length ≠ s.taskNum.1) (hpos : 0 < s.taskNum.1) :
    s.pool.taskQueue.length < s.taskNum.1 := by
  have hlt := s.taskNum.2.2
  rw [toInt_of_lt (by omega)] at hne
  omega

/-- Every step keeps the invariant that keeps the limit. -/
theorem Sound.step (h : s.Sound) (a : ReconfigureAction ω π T) (hkeeps : s.KeepsLimit a)
    (hok : s.step a = .ok t) : t.Sound := by
  cases a with
  | setTaskNum num =>
    obtain rfl := Except.ok.inj hok
    exact ⟨hkeeps, h.started, h.dispatching⟩
  | lock p =>
    obtain ⟨⟨-, hp, -⟩, rfl⟩ := ite_eq_ok.mp hok
    exact sound_inside hp (fun hpc => by cases hpc) fun hpc => by cases hpc
  | testPositive =>
    rw [ReconfiguredPool.step] at hok
    split at hok
    · next p hinside =>
      have hp := h.dispatching p _ hinside
      split at hok
      · next hpositive =>
        obtain rfl := Except.ok.inj hok
        exact sound_inside hp (fun _ => hpositive.1) fun hpc => by cases hpc
      · next hpositive =>
        obtain rfl := Except.ok.inj hok
        exact sound_inside hp (fun hpc => by cases hpc) fun _ hstart hpos =>
          absurd ⟨hstart, hpos⟩ hpositive
    · cases hok
  | testSize =>
    rw [ReconfiguredPool.step] at hok
    split at hok
    · next p hinside =>
      split at hok
      · obtain rfl := Except.ok.inj hok
        exact sound_of_inside_none rfl
      · next hne =>
        obtain rfl := Except.ok.inj hok
        exact sound_inside (h.dispatching p _ hinside) (fun hpc => by cases hpc) fun _ _ =>
          length_lt_of_ne hkeeps hne
    · cases hok
  | append woken =>
    rw [ReconfiguredPool.step] at hok
    split at hok
    · split at hok
      · obtain ⟨pool, -, hreturn⟩ := bind_eq_ok.mp hok
        obtain rfl := Except.ok.inj hreturn
        exact sound_of_inside_none rfl
      · cases hok
    · cases hok
  | other a =>
    rw [ReconfiguredPool.step] at hok
    split at hok
    · cases hok
    · next hallowed =>
      obtain ⟨pool, hstep, hreturn⟩ := bind_eq_ok.mp hok
      obtain rfl := Except.ok.inj hreturn
      by_cases hinside : s.inside = none
      · exact sound_of_inside_none hinside
      · have hlocks : ThreadPool.locks a = false := by
          by_contra hlocks
          exact hallowed (.inr ⟨by simpa using hlocks, hinside⟩)
        obtain ⟨hqueue, -, hstart, hdispatching⟩ := ThreadPool.step_of_not_locks hlocks hstep
        refine ⟨?_, ?_, fun p pc hp => hdispatching p (h.dispatching p pc hp)⟩
        · dsimp only
          rw [hqueue, hstart]
          exact h.room
        · dsimp only
          rw [hstart]
          exact h.started

/-- Only a producer behind the loop, in a pool that has not been stopped, makes the queue longer. -/
theorem length_le_of_step {a : ReconfigureAction ω π T} (hok : s.step a = .ok t) :
    t.pool.taskQueue.length ≤ s.pool.taskQueue.length ∨ s.Behind ∧ s.pool.start = true := by
  cases a with
  | setTaskNum num =>
    obtain rfl := Except.ok.inj hok
    exact .inl le_rfl
  | lock p =>
    obtain ⟨-, rfl⟩ := ite_eq_ok.mp hok
    exact .inl le_rfl
  | testPositive | testSize =>
    rw [ReconfiguredPool.step] at hok
    split at hok
    · split at hok
      · obtain rfl := Except.ok.inj hok
        exact .inl le_rfl
      · obtain rfl := Except.ok.inj hok
        exact .inl le_rfl
    · cases hok
  | append woken =>
    rw [ReconfiguredPool.step] at hok
    split at hok
    · next p hinside =>
      have hbehind : s.Behind := by rw [Behind, hinside]; rfl
      split at hok
      · next cb hcb =>
        obtain ⟨pool, happend, hreturn⟩ := bind_eq_ok.mp hok
        obtain rfl := Except.ok.inj hreturn
        cases hstart : s.pool.start with
        | false =>
          rw [ThreadPool.appendSection, if_pos (by simp [hstart])] at happend
          obtain rfl := Except.ok.inj happend
          exact .inl le_rfl
        | true => exact .inr ⟨hbehind, rfl⟩
      · cases hok
    · cases hok
  | other a =>
    rw [ReconfiguredPool.step] at hok
    split at hok
    · cases hok
    · next hallowed =>
      obtain ⟨pool, hstep, hreturn⟩ := bind_eq_ok.mp hok
      obtain rfl := Except.ok.inj hreturn
      have hdispatches : ThreadPool.dispatches a = false := by
        by_contra hdispatches
        exact hallowed (.inl (by simpa using hdispatches))
      exact .inl (ThreadPool.step_of_not_dispatches hdispatches hstep).1

/-- A step of the invariant's states queues a task only below a positive limit. -/
theorem Sound.within (h : s.Sound) {a : ReconfigureAction ω π T} (hok : s.step a = .ok t) :
    s.Within t := by
  rintro hlt ⟨hpos, hle⟩
  rcases length_le_of_step hok with hsame | ⟨hbehind, hstart⟩
  · omega
  · have hroom := h.room hbehind hstart hpos
    omega

/-- A producer behind the loop can queue its task, whatever the limit is. -/
theorem not_within_of_behind {p : π} (hp : s.pool.dispatching p ≠ none)
    (hinside : s.inside = some (p, .append)) (hstart : s.pool.start = true)
    (hpos : 0 < s.taskNum.1) (hle : s.taskNum.1 ≤ s.pool.taskQueue.length) :
    ∃ woken t, s.step (.append woken) = .ok t ∧ ¬ s.Within t := by
  obtain ⟨cb, hcb⟩ := Option.ne_none_iff_exists'.mp hp
  obtain ⟨woken, pool, happend, hqueue⟩ := ThreadPool.exists_appendSection hstart p cb
  refine ⟨woken, { s with pool, inside := none }, ?_, ?_⟩
  · rw [ReconfiguredPool.step, hinside]
    dsimp only
    rw [hcb]
    dsimp only
    rw [happend]
    rfl
  · intro hwithin
    refine hwithin ?_ ⟨hpos, hle⟩
    dsimp only
    rw [hqueue, List.length_append, List.length_singleton]
    exact Nat.lt_succ_self _

/-- After a step that does not keep the limit, the next task may be queued at the limit or above
it, unless the queue has 2^31 tasks. -/
theorem Sound.may_exceed (h : s.Sound) (a : ReconfigureAction ω π T) (hkeeps : ¬ s.KeepsLimit a)
    (hok : s.step a = .ok t) (hlen : s.pool.taskQueue.length < 2 ^ 31) :
    ∃ woken u, t.step (.append woken) = .ok u ∧ ¬ t.Within u := by
  cases a with
  | setTaskNum num =>
    simp only [KeepsLimit, not_forall, not_lt] at hkeeps
    obtain ⟨hbehind, hstart, hpos, hle⟩ := hkeeps
    obtain rfl := Except.ok.inj hok
    cases hinside : s.inside with
    | none => simp [Behind, hinside] at hbehind
    | some producer =>
      obtain ⟨p, pc⟩ := producer
      obtain rfl : pc = .append := by simpa [Behind, hinside] using hbehind
      exact not_within_of_behind (h.dispatching p _ hinside) rfl hstart hpos hle
  | testSize =>
    simp only [KeepsLimit, not_forall, not_le] at hkeeps
    obtain ⟨hpos, hgt⟩ := hkeeps
    rw [ReconfiguredPool.step] at hok
    split at hok
    · next p hinside =>
      rw [toInt_of_lt hlen, if_neg (ne_of_gt hgt)] at hok
      obtain rfl := Except.ok.inj hok
      exact not_within_of_behind (h.dispatching p _ hinside) rfl
        (h.started (by rw [hinside]; rfl)) hpos hgt.le
    · cases hok
  | lock p => exact absurd trivial hkeeps
  | testPositive => exact absurd trivial hkeeps
  | append woken => exact absurd trivial hkeeps
  | other a => exact absurd trivial hkeeps

end

/-- In every run that keeps the limit, a task is queued only below a positive limit. -/
theorem within_of_keepsLimit {actions : List (ReconfigureAction ω π T)}
    (h : Guarded step KeepsLimit ({} : ReconfiguredPool ω π T) actions) :
    Along step (fun s _ r => ∀ t, r = .ok t → s.Within t) ({} : ReconfiguredPool ω π T) actions :=
  along_of_guarded Sound (fun _ _ h _ _ hok => h.within hok)
    (fun _ a _ h hkeeps hok => h.step a hkeeps hok) (sound_of_inside_none rfl) h

/-- The limit is raised, tasks are queued, and the limit is lowered to their number. -/
theorem within_eleven_steps :
    Along step (fun s _ r => ∀ t, r = .ok t → s.Within t) ({} : ReconfiguredPool Unit Unit Unit)
      [.setTaskNum ⟨2, by decide⟩, .other (.dispatchTask () ()), .lock (), .testPositive,
        .testSize, .append none, .setTaskNum ⟨1, by decide⟩, .other (.dispatchTask () ()),
        .lock (), .testPositive, .testSize] :=
  within_of_keepsLimit (by decide +kernel)

/-- Two tasks are queued, the limit is lowered to one, and a third task is queued. -/
theorem not_within :
    ¬ Along step (fun s _ r => ∀ t, r = .ok t → s.Within t) ({} : ReconfiguredPool Unit Unit Unit)
      [.other (.dispatchTask () ()), .lock (), .testPositive, .testSize, .append none,
        .other (.dispatchTask () ()), .lock (), .testPositive, .testSize, .append none,
        .setTaskNum ⟨1, by decide⟩,
        .other (.dispatchTask () ()), .lock (), .testPositive, .testSize, .append none] := by
  decide +kernel

/-! ## The pool with a fixed limit -/

/-- The pool, with its own limit. -/
def ofPool (pool : ThreadPool ω π T) : ReconfiguredPool ω π T where
  taskNum := ⟨pool.taskNum.val, by have := pool.taskNum.lt; omega⟩
  pool := pool

omit [DecidableEq ω] [DecidableEq π] in
/-- A step that keeps the limit is one of the pool. -/
theorem ofPool_eq {pool pool' : ThreadPool ω π T} (h : pool'.taskNum = pool.taskNum) :
    { ofPool pool with pool := pool' } = ofPool pool' := by
  simp [ofPool, h]

/-- The critical section of `dispatchTask`, taken apart. -/
theorem exists_run_of_dispatchSection {pool pool' : ThreadPool ω π T} {p : π} {cb : T}
    {woken : Option ω} (hcb : pool.dispatching p = some cb) (hp : p ∉ pool.fullCond.blocked)
    (hok : pool.dispatchSection p cb woken = .ok pool') :
    ∃ actions, run step (ofPool pool) actions = .ok { ofPool pool with pool := pool' } := by
  have hpos : 0 < (ofPool pool).taskNum.1 := Int.natCast_pos.mpr pool.taskNum.pos
  have hlock : (ofPool pool).step (.lock p) =
      .ok { ofPool pool with inside := some (p, .positive) } := by
    rw [ReconfiguredPool.step, if_pos ⟨rfl, by simp [ofPool, hcb], hp⟩]
  have happend (h : pool.appendSection p cb woken = .ok pool') :
      step { ofPool pool with inside := some (p, .append) } (.append woken) =
        .ok { ofPool pool with pool := pool' } := by
    rw [ReconfiguredPool.step]
    simp only [ofPool, hcb, h]
    rfl
  rw [ThreadPool.dispatchSection_eq] at hok
  by_cases hstart : pool.start = true
  · have hpositive : step { ofPool pool with inside := some (p, .positive) } .testPositive =
        .ok { ofPool pool with inside := some (p, .size) } := by
      rw [ReconfiguredPool.step]
      exact if_pos ⟨hstart, hpos⟩
    by_cases hfull : toInt pool.taskQueue.length = pool.taskNum.val
    · have hsize : step { ofPool pool with inside := some (p, .size) } .testSize =
          .ok { ofPool pool with pool := { pool with fullCond := pool.fullCond.wait p } } := by
        rw [ReconfiguredPool.step]
        exact if_pos hfull
      rw [if_pos (by simp [hstart, ThreadPool.full, hfull, pool.taskNum.pos])] at hok
      obtain rfl := Except.ok.inj hok
      exact ⟨[.lock p, .testPositive, .testSize], run_cons_eq_ok.mpr ⟨_, hlock,
        run_cons_eq_ok.mpr ⟨_, hpositive, run_cons_eq_ok.mpr ⟨_, hsize, rfl⟩⟩⟩⟩
    · have hsize : step { ofPool pool with inside := some (p, .size) } .testSize =
          .ok { ofPool pool with inside := some (p, .append) } := by
        rw [ReconfiguredPool.step]
        exact if_neg hfull
      rw [if_neg (by simp [ThreadPool.full, hfull])] at hok
      exact ⟨[.lock p, .testPositive, .testSize, .append woken], run_cons_eq_ok.mpr ⟨_, hlock,
        run_cons_eq_ok.mpr ⟨_, hpositive, run_cons_eq_ok.mpr ⟨_, hsize,
          run_cons_eq_ok.mpr ⟨_, happend hok, rfl⟩⟩⟩⟩⟩
  · have hpositive : step { ofPool pool with inside := some (p, .positive) } .testPositive =
        .ok { ofPool pool with inside := some (p, .append) } := by
      rw [ReconfiguredPool.step]
      exact if_neg fun h => hstart h.1
    rw [if_neg (by simp [hstart])] at hok
    exact ⟨[.lock p, .testPositive, .append woken], run_cons_eq_ok.mpr ⟨_, hlock,
      run_cons_eq_ok.mpr ⟨_, hpositive, run_cons_eq_ok.mpr ⟨_, happend hok, rfl⟩⟩⟩⟩

/-- Every step of the pool with a fixed limit is a run of this one. -/
theorem exists_run_of_step {pool pool' : ThreadPool ω π T} {a : PoolAction ω π T}
    (hok : pool.step a = .ok pool') :
    ∃ actions, run step (ofPool pool) actions = .ok (ofPool pool') := by
  cases hdispatches : ThreadPool.dispatches a with
  | false =>
    have hstep : (ofPool pool).step (.other a) = .ok { ofPool pool with pool := pool' } := by
      rw [ReconfiguredPool.step, if_neg (by simp [hdispatches, ofPool])]
      change (pool.step a >>= fun pool => _) = _
      rw [hok]
      rfl
    rw [ofPool_eq (ThreadPool.step_of_not_dispatches hdispatches hok).2] at hstep
    refine ⟨[.other a], ?_⟩
    simp only [run, hstep]
  | true =>
    cases a with
    | dispatchSection p woken =>
      rw [ThreadPool.step] at hok
      split at hok
      · next cb hcb =>
        split at hok
        · next hp =>
          rw [← ofPool_eq (ThreadPool.taskNum_of_dispatchSection hok)]
          exact exists_run_of_dispatchSection hcb hp hok
        · cases hok
      · cases hok
    | dispatchTask | testStart | takeSection | callTask | spuriousProducer | spuriousWorker
    | stop =>
      cases hdispatches

end ReconfiguredPool

end Reactor
