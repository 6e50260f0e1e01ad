import Mathlib.Data.Int.CardIntervalMod
import Reactor.Lib.Run
import Reactor.Machine

/-!
# The pool of event loops

`getNextLoop` hands the loops of the pool out in turn. It starts again at the first one when
`next_` has become equal to `threadNums_`, and nothing else keeps `next_` inside `loops_`.
-/

namespace Reactor

open Transition

/-- `EventLoopThreadPool`; `L` are the event loops. -/
structure EventLoopThreadPool (L : Type*) where
  baseLoop : L
  started : Bool := false
  next : ℕ := 0
  threadNums : ℤ := 0
  loops : List L := []

/-- A call of the pool. -/
inductive LoopPoolOp (L : Type*) where
  | setThreadNum (num : ℤ)
  /-- `start`, with what `threads_[i]->startLoop` returns. -/
  | start (startLoop : ℕ → L)
  | getNextLoop

namespace EventLoopThreadPool

variable {L : Type*}

/-- `setThreadNum`. -/
def setThreadNum (pool : EventLoopThreadPool L) (num : ℤ) : EventLoopThreadPool L :=
  { pool with threadNums := num }

/-- `start`. -/
def start (pool : EventLoopThreadPool L) (startLoop : ℕ → L) : EventLoopThreadPool L :=
  { pool with
    started := true
    loops := pool.loops ++ (List.range pool.threadNums.toNat).map startLoop }

/-- `getNextLoop`. -/
def getNextLoop (pool : EventLoopThreadPool L) : Except Fault (L × EventLoopThreadPool L) :=
  if pool.loops.isEmpty then .ok (pool.baseLoop, pool)
  else
    match pool.loops[pool.next]? with
    | some loop =>
      let next := pool.next + 1
      .ok (loop, { pool with next := if (next : ℤ) = pool.threadNums then 0 else next })
    | none => .error .outOfBounds

/-- A call, with the loops handed out so far. -/
def step : EventLoopThreadPool L × List L → LoopPoolOp L →
    Except Fault (EventLoopThreadPool L × List L)
  | (pool, given), .setThreadNum num => .ok (pool.setThreadNum num, given)
  | (pool, given), .start startLoop => .ok (pool.start startLoop, given)
  | (pool, given), .getNextLoop => do
    let (loop, pool) ← pool.getNextLoop
    .ok (pool, given ++ [loop])

/-- `next_` comes back to 0 before it leaves `loops_`. -/
def InRange (pool : EventLoopThreadPool L) : Prop :=
  pool.loops = [] ∨ (pool.next : ℤ) < pool.threadNums ∧ pool.threadNums ≤ pool.loops.length

/-- The invariant of a pool that is called with care. -/
structure Rotating (pool : EventLoopThreadPool L) : Prop where
  inRange : pool.InRange
  next_eq : pool.loops = [] → pool.next = 0

/-- However often `getNextLoop` is called, it never leaves `loops_`. -/
def NeverFaults (pool : EventLoopThreadPool L) : Prop :=
  ∀ k, ∃ s, run step (pool, []) (List.replicate k .getNextLoop) = .ok s

section

variable {pool pool' : EventLoopThreadPool L} {loop : L} {given : List L}

/-- Without threads the base loop serves. -/
theorem getNextLoop_of_nil (h : pool.loops = []) :
    pool.getNextLoop = .ok (pool.baseLoop, pool) := by
  simp [getNextLoop, h]

/-- The next loop is given, and the index goes round. -/
theorem getNextLoop_of_lt (h : pool.next < pool.loops.length) :
    pool.getNextLoop = .ok (pool.loops[pool.next],
      { pool with next := if ((pool.next + 1 : ℕ) : ℤ) = pool.threadNums then 0
                          else pool.next + 1 }) := by
  have hsome : pool.loops ≠ [] := List.ne_nil_of_length_pos (by omega)
  simp [getNextLoop, hsome, List.getElem?_eq_getElem h]

/-- An index beyond the loops is read out of bounds. -/
theorem getNextLoop_of_le (hsome : pool.loops ≠ []) (h : pool.loops.length ≤ pool.next) :
    pool.getNextLoop = .error .outOfBounds := by
  simp [getNextLoop, hsome, List.getElem?_eq_none h]

/-- A pool that starts again in time does so after the call. -/
theorem Rotating.getNextLoop (h : pool.Rotating) :
    ∃ loop pool', pool.getNextLoop = .ok (loop, pool') ∧ pool'.Rotating := by
  rcases h.inRange with hnil | ⟨hlt, hle⟩
  · exact ⟨pool.baseLoop, pool, getNextLoop_of_nil hnil, h⟩
  · refine ⟨_, _, getNextLoop_of_lt (by omega), .inr ?_, fun hnil => ?_⟩
    · dsimp only
      split <;> omega
    · have hlength := congrArg List.length hnil
      simp only [List.length_nil] at hlength
      omega

/-- Otherwise `next_` goes on to the end of `loops_`. -/
theorem exists_fault_of_not_inRange (h : ¬ pool.InRange) (given : List L) :
    ∃ k, run step (pool, given) (List.replicate k .getNextLoop) = .error .outOfBounds := by
  have hsome : pool.loops ≠ [] := fun hnil => h (.inl hnil)
  have hbeyond : ¬ ((pool.next : ℤ) < pool.threadNums ∧ pool.threadNums ≤ pool.loops.length) :=
    fun hin => h (.inr hin)
  induction hleft : pool.loops.length - pool.next generalizing pool given with
  | zero =>
    refine ⟨1, ?_⟩
    rw [List.replicate_one, run, step, getNextLoop_of_le hsome (by omega)]
    rfl
  | succ left ih =>
    have hnext := getNextLoop_of_lt (show pool.next < pool.loops.length by omega)
    have hnot : ¬ ((pool.next + 1 : ℕ) : ℤ) = pool.threadNums := by omega
    rw [if_neg hnot] at hnext
    have hout : ¬ InRange { pool with next := pool.next + 1 } := by
      rintro (hnil | hin)
      · exact hsome hnil
      · dsimp only at hin
        omega
    obtain ⟨k, hk⟩ := @ih { pool with next := pool.next + 1 } hout
      (given ++ [pool.loops[pool.next]]) hsome (by dsimp only; omega) (by dsimp only; omega)
    refine ⟨k + 1, ?_⟩
    rw [List.replicate_succ, run, step, hnext]
    exact hk

/-- While the index goes round any number of calls succeed. -/
theorem Rotating.run_calls (h : pool.Rotating) (given : List L) (k : ℕ) :
    ∃ s, run step (pool, given) (List.replicate k .getNextLoop) = .ok s := by
  induction k generalizing pool given with
  | zero => exact ⟨(pool, given), rfl⟩
  | succ k ih =>
    obtain ⟨loop, pool', hok, h'⟩ := h.getNextLoop
    obtain ⟨s, hrun⟩ := ih h' (given ++ [loop])
    exact ⟨s, by rw [List.replicate_succ, run, step, hok]; exact hrun⟩

/-- A pool that does not start again in time has been spoilt by `setThreadNum`. -/
theorem inRange_of_neverFaults (h : pool.NeverFaults) : pool.InRange := by
  by_contra hnot
  obtain ⟨k, hfault⟩ := exists_fault_of_not_inRange hnot []
  obtain ⟨s, hok⟩ := h k
  rw [hfault] at hok
  cases hok

/-- Starting the pool lets the index go round. -/
theorem Rotating.start (h : pool.Rotating) (startLoop : ℕ → L) :
    (pool.start startLoop).Rotating := by
  constructor
  · unfold InRange EventLoopThreadPool.start
    simp only [List.append_eq_nil_iff, List.map_eq_nil_iff, List.range_eq_nil, List.length_append,
      List.length_map, List.length_range]
    rcases h.inRange with hnil | ⟨hlt, hle⟩
    · have hzero := h.next_eq hnil
      simp only [hnil, List.length_nil, true_and]
      omega
    · omega
  · intro hnil
    exact h.next_eq (List.append_eq_nil_iff.mp hnil).1

end

/-- The number of threads is set before the loops are started, or to a value that `next_`
still has to reach and that is not larger than the number of loops. -/
def KeepsRange (s : EventLoopThreadPool L × List L) : LoopPoolOp L → Prop
  | .setThreadNum num => (s.1.setThreadNum num).InRange
  | .start _ | .getNextLoop => True

/-- A call with care succeeds and keeps the invariant. -/
theorem Rotating.step {s : EventLoopThreadPool L × List L} (h : s.1.Rotating)
    {op : LoopPoolOp L} (hguard : KeepsRange s op) :
    ∃ t, step s op = .ok t ∧ t.1.Rotating := by
  obtain ⟨pool, given⟩ := s
  cases op with
  | setThreadNum num => exact ⟨_, rfl, hguard, h.next_eq⟩
  | start startLoop => exact ⟨_, rfl, h.start startLoop⟩
  | getNextLoop =>
    obtain ⟨loop, pool', hok, h'⟩ := h.getNextLoop
    exact ⟨(pool', given ++ [loop]), by rw [EventLoopThreadPool.step, hok]; rfl, h'⟩

/-- In a run from a new pool every call succeeds and leaves the pool fit for any number of
calls of `getNextLoop`, exactly if the number of threads is always set with care. -/
theorem neverFaults_iff_keepsRange (baseLoop : L) (ops : List (LoopPoolOp L)) :
    Safe step (fun s => s.1.NeverFaults) ({ baseLoop }, []) ops ↔
      Guarded step KeepsRange ({ baseLoop }, []) ops := by
  have hnew : ({ baseLoop } : EventLoopThreadPool L).Rotating := ⟨.inl rfl, fun _ => rfl⟩
  refine along_iff_guarded (fun s op (h : s.1.Rotating) => ?_)
    (fun s op t h hguard hok => ?_) hnew
  · constructor
    · rintro ⟨t, hok, hnever⟩
      cases op with
      | setThreadNum num =>
        obtain rfl := Except.ok.inj hok
        exact inRange_of_neverFaults hnever
      | start startLoop => trivial
      | getNextLoop => trivial
    · intro hguard
      obtain ⟨t, hok, h'⟩ := h.step hguard
      exact ⟨t, hok, h'.run_calls []⟩
  · obtain ⟨u, hu, h'⟩ := h.step hguard
    obtain rfl := Except.ok.inj (hok.symm.trans hu)
    exact h'

/-! ## The rotation -/

/-- The loop of the call number `k` of `getNextLoop` to a pool of `n` loops. -/
def turn (baseLoop : L) (n : ℕ) (startLoop : ℕ → L) (k : ℕ) : L :=
  if n = 0 then baseLoop else startLoop (k % n)

/-- A pool whose `n` loops have been started once, after `k` calls of `getNextLoop`. -/
def afterCalls (baseLoop : L) (n : ℕ) (startLoop : ℕ → L) (k : ℕ) : EventLoopThreadPool L :=
  { (({ baseLoop } : EventLoopThreadPool L).setThreadNum n).start startLoop with
    next := if n = 0 then 0 else k % n }

section

variable {baseLoop : L} {n : ℕ} {startLoop : ℕ → L}

/-- Before the first call the pool has only been started. -/
theorem afterCalls_zero : afterCalls baseLoop n startLoop 0 =
    (({ baseLoop } : EventLoopThreadPool L).setThreadNum n).start startLoop := by
  simp [afterCalls, start, setThreadNum]

/-- The position behind `k % n` in a rotation of `n`. -/
theorem succ_mod {n : ℕ} (hn : 0 < n) (k : ℕ) :
    (k + 1) % n = if k % n + 1 = n then 0 else k % n + 1 := by
  have hlt : k % n < n := Nat.mod_lt k hn
  rw [← Nat.mod_add_mod k n 1]
  by_cases hwrap : k % n + 1 = n
  · rw [if_pos hwrap, hwrap, Nat.mod_self]
  · rw [if_neg hwrap, Nat.mod_eq_of_lt (by omega)]

/-- The loops are handed out in turn. -/
theorem getNextLoop_afterCalls (k : ℕ) : (afterCalls baseLoop n startLoop k).getNextLoop =
    .ok (turn baseLoop n startLoop k, afterCalls baseLoop n startLoop (k + 1)) := by
  by_cases hzero : n = 0
  · subst hzero
    rw [getNextLoop_of_nil (by simp [afterCalls, start, setThreadNum])]
    simp [turn, afterCalls, start, setThreadNum]
  · have hlt : k % n < n := Nat.mod_lt k (by omega)
    have hwrap : (((k % n + 1 : ℕ) : ℤ) = (n : ℤ)) ↔ k % n + 1 = n := by omega
    rw [getNextLoop_of_lt (by simpa [afterCalls, start, setThreadNum, hzero] using hlt)]
    simp [turn, afterCalls, start, setThreadNum, hzero, succ_mod (by omega : 0 < n), ← hwrap]

/-- A loop is given as often as the numbers of its calls occur. -/
theorem count_map_range [DecidableEq L] (f : ℕ → L) (loop : L) (k : ℕ) :
    ((List.range k).map f).count loop = k.count fun j => f j = loop := by
  induction k with
  | zero => rfl
  | succ k ih =>
    rw [List.range_succ, List.map_append, List.count_append, ih, Nat.count_succ, List.map_singleton,
      List.count_singleton]
    simp

/-- Of the first `k` calls each loop gets its share. -/
theorem count_turn [DecidableEq L] {i : ℕ} (hi : i < n)
    (hinj : ∀ j < n, startLoop j = startLoop i → j = i) (k : ℕ) :
    ((List.range k).map (turn baseLoop n startLoop)).count (startLoop i) =
      k / n + if i < k % n then 1 else 0 := by
  have hpos : 0 < n := by omega
  have hturn : ∀ j, turn baseLoop n startLoop j = startLoop i ↔ j ≡ i [MOD n] := by
    intro j
    rw [turn, if_neg (by omega), Nat.ModEq, Nat.mod_eq_of_lt hi]
    constructor
    · exact hinj (j % n) (Nat.mod_lt j hpos)
    · intro heq
      rw [heq]
  simp only [count_map_range, hturn]
  rw [Nat.count_modEq_card k hpos i, Nat.mod_eq_of_lt hi]

end

end EventLoopThreadPool

end Reactor
