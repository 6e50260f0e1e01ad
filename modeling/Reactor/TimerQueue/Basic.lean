import Mathlib.Algebra.Group.Nat.Defs
import Mathlib.Data.Finset.Basic
import Mathlib.Data.Prod.Lex
import Reactor.Lib.OrderedSet
import Reactor.Lib.Run
import Reactor.TimeStamp

/-!
# The timer queue

`TimerQueue` keeps the timers in a set that is ordered by expiry and address. When the
timer descriptor becomes readable, `handlerRead` cuts the expired ones off the set, runs
them, and puts the repeating ones back. A callback may add and cancel timers meanwhile;
what the callbacks of a run do is an input of `handlerRead`. Time is counted in
microseconds.
-/

namespace Reactor

open Transition

/-- `Timer`. -/
structure Timer where
  time : ℤ
  /-- A whole number of microseconds, for which `interval_` is the double in seconds. -/
  interval : ℕ
  repeats : Bool
  deriving DecidableEq, Repr

/-- `Timer::resetTimer`. -/
def Timer.resetTimer (timer : Timer) (now : ℤ) : Timer :=
  { timer with time := if timer.repeats then addTime now (inSeconds timer.interval) else 0 }

/-- `TimerQueue::Entry`, ordered by expiry and then by address. -/
abbrev TimerEntry := ℤ ×ₗ ℕ

/-- `Entry(time, timer)`. -/
def timerEntry (time : ℤ) (p : ℕ) : TimerEntry := toLex (time, p)

namespace TimerEntry

/-- `Entry::first`. -/
def time (e : TimerEntry) : ℤ := (ofLex e).1

/-- `Entry::second`. -/
def timer (e : TimerEntry) : ℕ := (ofLex e).2

/-- The greater entry has the later time. -/
theorem time_le {e e' : TimerEntry} (h : e ≤ e') : e.time ≤ e'.time :=
  (Prod.Lex.le_iff'.mp h).1

/-- Entries are ordered by time, and by address within a time. -/
theorem lt_timerEntry {e : TimerEntry} {time : ℤ} {p : ℕ} :
    e < timerEntry time p ↔ e.time < time ∨ e.time = time ∧ e.timer < p :=
  Prod.Lex.lt_iff

end TimerEntry

/-- An entry is its time and its timer. -/
theorem timerEntry_eq (e : TimerEntry) : timerEntry e.time e.timer = e := rfl

/-- Entries of different timers or times are different. -/
theorem timerEntry_inj {time time' : ℤ} {p p' : ℕ} (h : timerEntry time p = timerEntry time' p') :
    time = time' ∧ p = p' :=
  Prod.mk.inj (toLex.injective h)

/-- `INTPTR_MAX`, the address of the sentinel. -/
def intptrMax : ℕ := 2 ^ 63 - 1

/-- The timer descriptor as a one-shot alarm. -/
inductive Alarm where
  | disarmed
  | armed (time : ℤ)
  /-- The alarm has gone off and has not been read. -/
  | fired
  deriving DecidableEq, Repr

namespace Alarm

/-- `detail::setTimer`. A zero time disarms the descriptor, a negative one is refused. -/
def setTimer (alarm : Alarm) (time : ℤ) : Alarm :=
  if time = 0 then .disarmed else if time < 0 then alarm else .armed time

/-- `detail::readTimerfd`. -/
def readTimerfd : Alarm → Alarm
  | .fired => .disarmed
  | alarm => alarm

/-- The time of the alarm comes. -/
def expire : Alarm → Alarm
  | .armed _ => .fired
  | alarm => alarm

end Alarm

/-- What ends a run of the timer queue. -/
inductive TimerFault where
  /-- A timer that has been released is cancelled. -/
  | cancelReleased
  /-- `new Timer` returns an address that is in use or not below `INTPTR_MAX`. -/
  | badAllocation
  /-- The queue itself uses a released timer. -/
  | useAfterFree
  | assertFailed
  deriving DecidableEq, Repr

/-- The faults of the callers of the queue and of the allocator. -/
def TimerFault.OfCaller (e : TimerFault) : Prop := e = .cancelReleased ∨ e = .badAllocation

/-- `TimerQueue`, with the timers that exist and the descriptor `timerFd_`. `ran` lists
the timers in the order in which they were run. -/
structure TimerQueue where
  timers : OrderedSet TimerEntry := ∅
  cancelTimers : Finset ℕ := ∅
  callingExpiredTimers : Bool := false
  heap : ℕ → Option Timer := fun _ => none
  alarm : Alarm := .disarmed
  ran : List ℕ := []

/-- A call of the queue, by a callback or from outside, or the expiry of the alarm. -/
inductive TimerCall where
  /-- `addTimer` of a new timer at the address `p`. -/
  | addTimer (p : ℕ) (timer : Timer)
  | cancelTimer (p : ℕ)
  | expire
  deriving DecidableEq, Repr

/-- What happens to the queue between two of its states. -/
inductive TimerOp where
  | call (c : TimerCall)
  /-- The descriptor is handled at the time `now`; the callback of the timer `p`, if it
  is run, makes the calls `callback p`. -/
  | handlerRead (now : ℤ) (callback : ℕ → List TimerCall)

/-- The clock is read as a time stamp, which is an `int64_t`. -/
def TimerOp.OfClock : TimerOp → Prop
  | .call _ => True
  | .handlerRead now _ => -2 ^ 63 ≤ now ∧ now < 2 ^ 63

namespace TimerQueue

/-- The access of the queue to a timer through its pointer. -/
def deref (queue : TimerQueue) (p : ℕ) : Except TimerFault Timer :=
  match queue.heap p with
  | some timer => .ok timer
  | none => .error .useAfterFree

/-- The test of `insert`: the timer is earlier than the first one of the set. -/
def isEarliest (queue : TimerQueue) (timer : Timer) : Except TimerFault Bool :=
  match queue.timers.first? with
  | none => .ok true
  | some e => do
    let first ← queue.deref e.timer
    return decide (timer.time < first.time)

/-- `TimerQueue::insert`. -/
def insert (queue : TimerQueue) (p : ℕ) : Except TimerFault (Bool × TimerQueue) := do
  let timer ← queue.deref p
  let earliest ← queue.isEarliest timer
  return (earliest, { queue with timers := queue.timers.insert (timerEntry timer.time p) })

/-- `new Timer`. -/
def newTimer (queue : TimerQueue) (p : ℕ) (timer : Timer) : Except TimerFault TimerQueue :=
  if queue.heap p = none ∧ p < intptrMax then
    .ok { queue with heap := Function.update queue.heap p (some timer) }
  else
    .error .badAllocation

/-- `TimerQueue::addTimer`. -/
def addTimer (queue : TimerQueue) (p : ℕ) : Except TimerFault TimerQueue := do
  let (earliest, queue) ← queue.insert p
  if earliest then
    let timer ← queue.deref p
    return { queue with alarm := queue.alarm.setTimer timer.time }
  else
    return queue

/-- `TimerQueue::cancelTimer`. -/
def cancelTimer (queue : TimerQueue) (p : ℕ) : Except TimerFault TimerQueue :=
  match queue.heap p with
  | none => .error .cancelReleased
  | some timer =>
    let entry := timerEntry timer.time p
    if entry ∈ queue.timers then
      .ok { queue with timers := queue.timers.erase entry }
    else if queue.callingExpiredTimers then
      .ok { queue with cancelTimers := Insert.insert p queue.cancelTimers }
    else
      .ok queue

/-- The effect of a call. -/
def call (queue : TimerQueue) : TimerCall → Except TimerFault TimerQueue
  | .addTimer p timer => do
    let queue ← queue.newTimer p timer
    queue.addTimer p
  | .cancelTimer p => queue.cancelTimer p
  | .expire => .ok { queue with alarm := queue.alarm.expire }

/-- `TimerQueue::getExpired`. -/
def getExpired (queue : TimerQueue) (now : ℤ) :
    Except TimerFault (List TimerEntry × TimerQueue) :=
  let entry := timerEntry now intptrMax
  let rest := queue.timers.dropBelow entry
  if rest.first?.all fun e => now < e.time then
    .ok (queue.timers.below entry, { queue with timers := rest })
  else
    .error .assertFailed

/-- The loop of `handlerRead` that runs the expired timers. -/
def runExpired (callback : ℕ → List TimerCall) :
    List TimerEntry → TimerQueue → Except TimerFault TimerQueue
  | [], queue => .ok queue
  | e :: expired, queue => do
    let _ ← queue.deref e.timer
    let queue ← run call { queue with ran := queue.ran ++ [e.timer] } (callback e.timer)
    runExpired callback expired queue

/-- The loop of `reset` for one timer: it is put back or released. -/
def resetEntry (now : ℤ) (queue : TimerQueue) (e : TimerEntry) :
    Except TimerFault TimerQueue := do
  let timer ← queue.deref e.timer
  if timer.repeats ∧ e.timer ∉ queue.cancelTimers then
    let (_, queue) ← { queue with
      heap := Function.update queue.heap e.timer (some (timer.resetTimer now)) }.insert e.timer
    return queue
  else
    return { queue with heap := Function.update queue.heap e.timer none }

/-- The end of `reset`: the alarm is set for the first timer. -/
def rearm (queue : TimerQueue) : Except TimerFault TimerQueue :=
  match queue.timers.first? with
  | none => .ok queue
  | some e => do
    let first ← queue.deref e.timer
    return if first.time ≠ 0 then { queue with alarm := queue.alarm.setTimer first.time }
      else queue

/-- `TimerQueue::reset`. -/
def reset (queue : TimerQueue) (expired : List TimerEntry) (now : ℤ) :
    Except TimerFault TimerQueue := do
  let queue ← run (resetEntry now) queue expired
  queue.rearm

/-- `TimerQueue::handlerRead`. -/
def handlerRead (queue : TimerQueue) (now : ℤ) (callback : ℕ → List TimerCall) :
    Except TimerFault TimerQueue := do
  let (expired, queue) ← { queue with
    alarm := queue.alarm.readTimerfd
    callingExpiredTimers := true
    cancelTimers := ∅ }.getExpired now
  let queue ← runExpired callback expired queue
  { queue with callingExpiredTimers := false }.reset expired now

/-- A step of the queue. -/
def step (queue : TimerQueue) : TimerOp → Except TimerFault TimerQueue
  | .call c => queue.call c
  | .handlerRead now callback => queue.handlerRead now callback

end TimerQueue

end Reactor
