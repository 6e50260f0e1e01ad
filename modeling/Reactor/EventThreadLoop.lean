import Reactor.CountDownLatch

/-!
# Starting the thread of a loop

`startLoop` starts a thread, waits in `Thread::start` until the thread has stored its id,
and then until the thread has published its `EventLoop`. A critical section is one step, as
in the latch; `loop_` is read once more, without the mutex, when `startLoop` returns.
-/

namespace Reactor

open Transition

/-- `Thread`, without its callback. -/
structure Thread where
  name : String := ""
  start : Bool := false
  latch : CountDownLatch Unit := { count := 1 }
  threadTid : ℕ := 0

/-- Where the caller of `startLoop` is. -/
inductive StartPc where
  /-- Before `pthread_create`. -/
  | creating
  /-- In `latch_.wait`. -/
  | latching
  /-- In the `while` of `startLoop`. -/
  | waiting
  /-- Behind it. -/
  | leaving
  | returned
  deriving DecidableEq

/-- Where the new thread is. -/
inductive ChildPc where
  | notCreated
  /-- At the beginning of `Thread::threadfunc`. -/
  | threadfunc
  /-- It has stored its id. -/
  | stored
  /-- In `EventThreadLoop::threadfunc`. -/
  | callback
  /-- In `loop.loop`. -/
  | looping
  deriving DecidableEq

namespace ChildPc

/-- What the count of the latch is while the new thread is there. -/
def count : ChildPc → ℤ
  | .notCreated | .threadfunc | .stored => 1
  | .callback | .looping => 0

/-- What `loop_` is. -/
def loop {L : Type*} (self : L) : ChildPc → Option L
  | .notCreated | .threadfunc | .stored | .callback => none
  | .looping => some self

/-- The steps of the new thread, with those that it wakes the caller up for. -/
def rank : ChildPc → ℕ
  | .notCreated | .looping => 0
  | .threadfunc => 5
  | .stored => 4
  | .callback => 2

end ChildPc

/-- `EventThreadLoop` with its two threads. -/
structure EventThreadLoop (L : Type*) where
  /-- The `EventLoop` on the stack of the new thread. -/
  self : L
  /-- The id that the new thread has. -/
  tid : ℕ
  loop : Option L := none
  thread : Thread := {}
  cond : CondVar Unit := .empty
  caller : StartPc := .creating
  /-- What `startLoop` has returned. -/
  result : Option L := none
  child : ChildPc := .notCreated

/-- A step of one of the two threads. -/
inductive StartAction where
  /-- `Thread::start` up to `latch_.wait`; the result of `pthread_create` and the value of
  `nextThreadId_` are given with it. -/
  | create (ok : Bool) (nextThreadId : ℕ)
  /-- The critical section of `latch_.wait`. -/
  | latchSection
  | spuriousLatch
  /-- The new thread stores its id. -/
  | storeTid
  /-- It calls `latch_.countDown`. -/
  | countDown
  /-- The critical section of `EventThreadLoop::threadfunc`. -/
  | publish (woken : Option Unit)
  /-- The critical section of `startLoop`. -/
  | loopSection
  | spuriousLoop
  /-- `startLoop` returns. -/
  | leave
  deriving DecidableEq

/-- All steps but the spurious wakeups are the threads' own. -/
def StartAction.credit : StartAction → ℕ
  | .spuriousLatch | .spuriousLoop => 1
  | _ => 0

/-- At most one step is credited. -/
theorem StartAction.credit_le (action : StartAction) : action.credit ≤ 1 := by
  cases action <;> simp [credit]

namespace Thread

/-- `Thread::start` up to `latch_.wait`, if the thread can be created. -/
def created (thread : Thread) (nextThreadId : ℕ) : Thread :=
  { thread with start := true, name := thread.name ++ toString nextThreadId }

end Thread

namespace EventThreadLoop

variable {L : Type*}

/-- The critical section of `startLoop`, from the test in the `while`. -/
def loopSection (s : EventThreadLoop L) : EventThreadLoop L :=
  match s.loop with
  | none => { s with cond := s.cond.wait () }
  | some _ => { s with cond := s.cond.resume (), caller := .leaving }

/-- A step of the interleaving. -/
def step (s : EventThreadLoop L) : StartAction → Except Disabled (EventThreadLoop L)
  | .create ok nextThreadId =>
    if s.caller = .creating then
      if ok then
        .ok { s with thread := s.thread.created nextThreadId, caller := .latching,
                     child := .threadfunc }
      else .ok { s with thread := { s.thread with start := true }, caller := .waiting }
    else .error .disabled
  | .latchSection =>
    if s.caller = .latching ∧ () ∉ s.thread.latch.condition.blocked then
      match s.thread.latch.waitSection () with
      | (true, latch) => .ok { s with thread := { s.thread with latch }, caller := .waiting }
      | (false, latch) => .ok { s with thread := { s.thread with latch } }
    else .error .disabled
  | .spuriousLatch =>
    if () ∈ s.thread.latch.condition.blocked then
      .ok { s with thread := { s.thread with latch := s.thread.latch.spuriousWakeup () } }
    else .error .disabled
  | .storeTid =>
    if s.child = .threadfunc then
      .ok { s with thread := { s.thread with threadTid := s.tid }, child := .stored }
    else .error .disabled
  | .countDown =>
    if s.child = .stored then
      match s.thread.latch.countDown with
      | some latch => .ok { s with thread := { s.thread with latch }, child := .callback }
      | none => .error .disabled
    else .error .disabled
  | .publish woken =>
    if s.child = .callback then
      match s.cond.signal woken with
      | some cond => .ok { s with loop := some s.self, cond, child := .looping }
      | none => .error .disabled
    else .error .disabled
  | .loopSection =>
    if s.caller = .waiting ∧ () ∉ s.cond.blocked then .ok s.loopSection else .error .disabled
  | .spuriousLoop =>
    if () ∈ s.cond.blocked then .ok { s with cond := s.cond.resume () } else .error .disabled
  | .leave =>
    if s.caller = .leaving then .ok { s with caller := .returned, result := s.loop }
    else .error .disabled

/-- The places of the two threads that can occur together. -/
def Fits : StartPc → ChildPc → Prop
  | .creating, child => child = .notCreated
  | .latching, child => child ≠ .notCreated
  | .waiting, child => child ≠ .threadfunc ∧ child ≠ .stored
  | .leaving, child | .returned, child => child = .looping

/-- What the fields hold where the two threads are. -/
structure Sound (s : EventThreadLoop L) : Prop where
  fits : Fits s.caller s.child
  count_eq : s.thread.latch.count = s.child.count
  loop_eq : s.loop = s.child.loop s.self
  result_eq : s.caller = .returned → s.result = some s.self
  tid_eq : s.child ≠ .notCreated → s.child ≠ .threadfunc → s.thread.threadTid = s.tid
  /-- The caller is blocked only where it is woken up. -/
  latching : () ∈ s.thread.latch.condition.blocked →
    s.caller = .latching ∧ (s.child = .threadfunc ∨ s.child = .stored)
  waiting : () ∈ s.cond.blocked → s.caller = .waiting ∧ s.child ≠ .looping

/-- The steps that the caller still has to take, if it is not woken up in vain. -/
def callerRank (s : EventThreadLoop L) : ℕ :=
  match s.caller with
  | .creating => 9
  | .latching => if () ∈ s.thread.latch.condition.blocked then 2 else 3
  | .waiting => if () ∈ s.cond.blocked then 1 else 2
  | .leaving => 1
  | .returned => 0

/-- The steps that both threads still have to take. -/
def rank (s : EventThreadLoop L) : ℕ := s.callerRank + s.child.rank

/-- The result of a step: the invariant holds, and the rank has paid for it. -/
def Advances (s : EventThreadLoop L) (action : StartAction) (s' : EventThreadLoop L) : Prop :=
  s'.Sound ∧ s'.rank + 1 ≤ s.rank + 2 * action.credit

section

variable {s s' : EventThreadLoop L}

/-- A new thread is sound. -/
theorem sound_constructed (self : L) (tid : ℕ) : Sound ({ self, tid } : EventThreadLoop L) where
  fits := rfl
  count_eq := rfl
  loop_eq := rfl
  result_eq hreturned := by cases hreturned
  tid_eq hcreated := absurd rfl hcreated
  latching hblocked := absurd hblocked (Finset.notMem_empty ())
  waiting hblocked := absurd hblocked (Finset.notMem_empty ())

/-- Until the new thread counts down, the caller is at the latch. -/
theorem Sound.caller_latching (h : s.Sound) (hchild : s.child = .threadfunc ∨ s.child = .stored) :
    s.caller = .latching := by
  have hfits := h.fits
  cases hcaller : s.caller with
  | latching => rfl
  | creating | waiting | leaving | returned =>
    rcases hchild with hchild | hchild <;> simp [hcaller, hchild, Fits] at hfits

/-- Only a caller at the latch can be blocked there. -/
theorem Sound.notMem_latch (h : s.Sound) (hcaller : s.caller ≠ .latching) :
    () ∉ s.thread.latch.condition.blocked := by
  intro hblocked
  exact hcaller (h.latching hblocked).1

/-- Only a caller that waits for the loop can be blocked there. -/
theorem Sound.notMem_cond (h : s.Sound) (hcaller : s.caller ≠ .waiting) :
    () ∉ s.cond.blocked := by
  intro hblocked
  exact hcaller (h.waiting hblocked).1

/-- With one waiting thread a signal leaves none blocked. -/
theorem notMem_of_signal {cond cond' : CondVar Unit} {woken : Option Unit}
    (hok : cond.signal woken = some cond') : () ∉ cond'.blocked := by
  cases woken with
  | none =>
    obtain ⟨hnobody, hsame⟩ := Option.ite_none_right_eq_some.mp hok
    obtain rfl := Option.some.inj hsame
    rw [hnobody]
    exact Finset.notMem_empty ()
  | some t =>
    obtain ⟨-, hsame⟩ := Option.ite_none_right_eq_some.mp hok
    obtain rfl := Option.some.inj hsame
    exact Finset.notMem_erase () cond.blocked

/-- `Thread::start` begins, or its thread cannot be created. -/
theorem Sound.create (h : s.Sound) {ok : Bool} {nextThreadId : ℕ}
    (hok : s.step (.create ok nextThreadId) = .ok s') :
    s.Advances (.create ok nextThreadId) s' := by
  obtain ⟨hcaller, hok⟩ := guard_eq_ok.mp hok
  have hchild : s.child = .notCreated := by simpa only [hcaller, Fits] using h.fits
  have hcount := h.count_eq
  have hloop := h.loop_eq
  have hlatch := h.notMem_latch (by simp [hcaller])
  have hcond := h.notMem_cond (by simp [hcaller])
  rw [hchild] at hcount hloop
  split at hok
  · obtain rfl := Except.ok.inj hok
    constructor
    · exact ⟨by simp [Fits], hcount, hloop, by simp, by simp, by simp [Thread.created, hlatch],
        by simp [hcond]⟩
    · simp [rank, callerRank, hcaller, hchild, Thread.created, hlatch, ChildPc.rank]
  · obtain rfl := Except.ok.inj hok
    constructor
    · exact ⟨by simp [Fits, hchild], by rw [hchild]; exact hcount, by rw [hchild]; exact hloop,
        by simp, by simp [hchild], by simp [hlatch], by simp [hcond]⟩
    · simp [rank, callerRank, hcaller, hchild, hcond, ChildPc.rank]
      omega

/-- The critical section of `latch_.wait`. -/
theorem Sound.latchSection (h : s.Sound) (hok : s.step .latchSection = .ok s') :
    s.Advances .latchSection s' := by
  obtain ⟨⟨hcaller, hawake⟩, hok⟩ := guard_eq_ok.mp hok
  have hcount := h.count_eq
  have hfits : s.child ≠ .notCreated := by simpa only [hcaller, Fits] using h.fits
  have hcond := h.notMem_cond (by simp [hcaller])
  rcases CountDownLatch.waitSection_eq s.thread.latch () with
    ⟨hpos, heq⟩ | ⟨hnot, heq⟩
  · rw [heq] at hok
    obtain rfl := Except.ok.inj hok
    have hchild : s.child = .threadfunc ∨ s.child = .stored := by
      cases hchild : s.child <;> simp_all [ChildPc.count]
    constructor
    · exact ⟨h.fits, hcount, h.loop_eq, h.result_eq, h.tid_eq, fun _ => ⟨hcaller, hchild⟩,
        h.waiting⟩
    · simp [rank, callerRank, hcaller, hawake, CondVar.wait]
      omega
  · rw [heq] at hok
    obtain rfl := Except.ok.inj hok
    have hchild : s.child ≠ .threadfunc ∧ s.child ≠ .stored := by
      cases hchild : s.child <;> simp_all [ChildPc.count]
    constructor
    · exact ⟨hchild, hcount, h.loop_eq, by simp, h.tid_eq, by simp [CondVar.resume],
        by simp [hcond]⟩
    · simp [rank, callerRank, hcaller, hawake, hcond]
      omega

/-- The new thread stores its id. -/
theorem Sound.storeTid (h : s.Sound) (hok : s.step .storeTid = .ok s') :
    s.Advances .storeTid s' := by
  obtain ⟨hchild, hok⟩ := guard_eq_ok.mp hok
  obtain rfl := Except.ok.inj hok
  have hcaller := h.caller_latching (.inl hchild)
  have hcount := h.count_eq
  have hloop := h.loop_eq
  rw [hchild] at hcount hloop
  constructor
  · exact ⟨by simp [Fits, hcaller], hcount, hloop, h.result_eq, by simp,
      fun _ => ⟨hcaller, .inr rfl⟩, fun hblocked => ⟨(h.waiting hblocked).1, by simp⟩⟩
  · simp [rank, callerRank, hcaller, hchild, ChildPc.rank]

/-- It lets the caller out of the latch. -/
theorem Sound.countDown (h : s.Sound) (hok : s.step .countDown = .ok s') :
    s.Advances .countDown s' := by
  obtain ⟨hchild, hok⟩ := guard_eq_ok.mp hok
  have hcaller := h.caller_latching (.inr hchild)
  have hcount := h.count_eq
  have hloop := h.loop_eq
  rw [hchild] at hcount hloop
  split at hok
  · next latch hlatch =>
    obtain rfl := Except.ok.inj hok
    obtain ⟨hless, hbroadcast⟩ := CountDownLatch.countDown_eq_some hlatch
    have hzero : latch.count = 0 := by rw [hless, hcount]; rfl
    have hawake : () ∉ latch.condition.blocked := by
      rw [hbroadcast, if_pos hzero]
      exact Finset.notMem_empty ()
    constructor
    · exact ⟨by simp [Fits, hcaller], hzero, hloop, h.result_eq,
        fun _ _ => h.tid_eq (by simp [hchild]) (by simp [hchild]), by simp [hawake],
        fun hblocked => ⟨(h.waiting hblocked).1, by simp⟩⟩
    · have hless : (if () ∈ s.thread.latch.condition.blocked then 2 else 3) ≥ 2 := by
        split <;> omega
      simp [rank, callerRank, hcaller, hchild, hawake, ChildPc.rank]
      omega
  · cases hok

/-- It publishes its loop. -/
theorem Sound.publish (h : s.Sound) {woken : Option Unit}
    (hok : s.step (.publish woken) = .ok s') : s.Advances (.publish woken) s' := by
  obtain ⟨hchild, hok⟩ := guard_eq_ok.mp hok
  have hcount := h.count_eq
  have htid := h.tid_eq (by simp [hchild]) (by simp [hchild])
  have hfits := h.fits
  rw [hchild] at hcount hfits
  have hlatch : () ∉ s.thread.latch.condition.blocked := by
    intro hblocked
    have hplace := (h.latching hblocked).2
    simp [hchild] at hplace
  split at hok
  · next cond hsignal =>
    obtain rfl := Except.ok.inj hok
    have hawake := notMem_of_signal hsignal
    constructor
    · refine ⟨?_, hcount, rfl, h.result_eq, fun _ _ => htid, by simp [hlatch], by simp [hawake]⟩
      cases hcaller : s.caller <;> simp_all [Fits]
    · have hwoken : (if () ∈ s.cond.blocked then 1 else 2) ≥ 1 := by split <;> omega
      cases hcaller : s.caller <;>
        simp [rank, callerRank, hcaller, hchild, hawake, hlatch, ChildPc.rank] <;> omega
  · cases hok

/-- The critical section of `startLoop`. -/
theorem Sound.loopSection (h : s.Sound) (hok : s.step .loopSection = .ok s') :
    s.Advances .loopSection s' := by
  obtain ⟨⟨hcaller, hawake⟩, hok⟩ := guard_eq_ok.mp hok
  have hloop := h.loop_eq
  have hlatch := h.notMem_latch (by simp [hcaller])
  have hfits := h.fits
  rw [hcaller] at hfits
  unfold EventThreadLoop.loopSection at hok
  split at hok
  · next hnone =>
    obtain rfl := Except.ok.inj hok
    have hchild : s.child ≠ .looping := by
      intro hchild
      simp [hchild, hnone, ChildPc.loop] at hloop
    constructor
    · exact ⟨h.fits, h.count_eq, hloop, h.result_eq, h.tid_eq, h.latching,
        fun _ => ⟨hcaller, hchild⟩⟩
    · simp [rank, callerRank, hcaller, hawake, CondVar.wait]
      omega
  · next loop hsome =>
    obtain rfl := Except.ok.inj hok
    have hchild : s.child = .looping := by
      cases hchild : s.child <;> simp_all [ChildPc.loop]
    constructor
    · exact ⟨hchild, h.count_eq, hloop, by simp, h.tid_eq, by simp [hlatch],
        by simp [CondVar.resume]⟩
    · simp [rank, callerRank, hcaller, hawake]
      omega

/-- `startLoop` returns the loop that it has seen published. -/
theorem Sound.leave (h : s.Sound) (hok : s.step .leave = .ok s') : s.Advances .leave s' := by
  obtain ⟨hcaller, hok⟩ := guard_eq_ok.mp hok
  obtain rfl := Except.ok.inj hok
  have hchild : s.child = .looping := by simpa only [hcaller, Fits] using h.fits
  have hloop := h.loop_eq
  have hlatch := h.notMem_latch (by simp [hcaller])
  have hcond := h.notMem_cond (by simp [hcaller])
  constructor
  · refine ⟨hchild, h.count_eq, hloop, fun _ => ?_, h.tid_eq, by simp [hlatch], by simp [hcond]⟩
    rw [hloop, hchild, ChildPc.loop]
  · simp [rank, callerRank, hcaller]
    omega

/-- A spurious wakeup at the latch costs what it is credited with. -/
theorem Sound.spuriousLatch (h : s.Sound) (hok : s.step .spuriousLatch = .ok s') :
    s.Advances .spuriousLatch s' := by
  obtain ⟨hblocked, hok⟩ := guard_eq_ok.mp hok
  obtain rfl := Except.ok.inj hok
  have hcaller := (h.latching hblocked).1
  constructor
  · exact ⟨h.fits, h.count_eq, h.loop_eq, h.result_eq, h.tid_eq,
      by simp [CountDownLatch.spuriousWakeup, CondVar.resume], h.waiting⟩
  · simp [rank, callerRank, hcaller, hblocked, CountDownLatch.spuriousWakeup, CondVar.resume,
      StartAction.credit]
    omega

/-- A spurious wakeup at the condition costs what it is credited with. -/
theorem Sound.spuriousLoop (h : s.Sound) (hok : s.step .spuriousLoop = .ok s') :
    s.Advances .spuriousLoop s' := by
  obtain ⟨hblocked, hok⟩ := guard_eq_ok.mp hok
  obtain rfl := Except.ok.inj hok
  have hcaller := (h.waiting hblocked).1
  constructor
  · exact ⟨h.fits, h.count_eq, h.loop_eq, h.result_eq, h.tid_eq, h.latching,
      by simp [CondVar.resume]⟩
  · simp [rank, callerRank, hcaller, hblocked, CondVar.resume, StartAction.credit]
    omega

/-- Every step of the interleaving keeps the invariant and is paid for. -/
theorem Sound.step (h : s.Sound) (action : StartAction) (hok : s.step action = .ok s') :
    s.Advances action s' := by
  cases action with
  | create ok nextThreadId => exact h.create hok
  | latchSection => exact h.latchSection hok
  | spuriousLatch => exact h.spuriousLatch hok
  | storeTid => exact h.storeTid hok
  | countDown => exact h.countDown hok
  | publish woken => exact h.publish hok
  | loopSection => exact h.loopSection hok
  | spuriousLoop => exact h.spuriousLoop hok
  | leave => exact h.leave hok

/-- `startLoop` has returned, and the new thread is in the loop that it has returned. -/
def Started (s : EventThreadLoop L) : Prop :=
  s.caller = .returned ∧ s.result = some s.self ∧ s.child = .looping ∧ s.thread.threadTid = s.tid

/-- There is no new thread, and the caller waits for it. -/
def Abandoned (s : EventThreadLoop L) : Prop :=
  s.child = .notCreated ∧ () ∈ s.cond.blocked

/-- A caller that has returned finds the loop running. -/
theorem Sound.started (h : s.Sound) (hcaller : s.caller = .returned) : s.Started := by
  have hchild : s.child = .looping := by simpa only [hcaller, Fits] using h.fits
  exact ⟨hcaller, h.result_eq hcaller, hchild, h.tid_eq (by simp [hchild]) (by simp [hchild])⟩

/-- As long as `startLoop` has not ended one of the two threads can take a step. -/
theorem Sound.moves (h : s.Sound) (hnot : ¬ (s.Started ∨ s.Abandoned)) :
    ¬ Stuck EventThreadLoop.step StartAction.credit s := by
  intro hstuck
  cases hcaller : s.caller with
  | creating =>
    exact hstuck (.create true 0) rfl _ (by rw [EventThreadLoop.step, if_pos hcaller, if_pos rfl])
  | latching =>
    by_cases hblocked : () ∈ s.thread.latch.condition.blocked
    · rcases (h.latching hblocked).2 with hchild | hchild
      · exact hstuck .storeTid rfl _ (by rw [EventThreadLoop.step, if_pos hchild])
      · have hcount := h.count_eq
        rw [hchild, ChildPc.count] at hcount
        apply hstuck .countDown rfl
        rw [EventThreadLoop.step, if_pos hchild, CountDownLatch.countDown, if_pos (by omega)]
    · rcases CountDownLatch.waitSection_eq s.thread.latch () with ⟨-, heq⟩ | ⟨-, heq⟩
      · apply hstuck .latchSection rfl
        rw [EventThreadLoop.step, if_pos ⟨hcaller, hblocked⟩, heq]
      · apply hstuck .latchSection rfl
        rw [EventThreadLoop.step, if_pos ⟨hcaller, hblocked⟩, heq]
  | waiting =>
    by_cases hblocked : () ∈ s.cond.blocked
    · have hfits := h.fits
      rw [hcaller] at hfits
      have hchild : s.child = .callback := by
        have hnotLooping := (h.waiting hblocked).2
        have hcreated : s.child ≠ .notCreated := fun hnone => hnot (.inr ⟨hnone, hblocked⟩)
        cases hchild : s.child <;> simp_all [Fits]
      obtain ⟨woken, cond, hsignal⟩ := s.cond.exists_signal
      apply hstuck (.publish woken) rfl
      rw [EventThreadLoop.step, if_pos hchild, hsignal]
    · exact hstuck .loopSection rfl _
        (by rw [EventThreadLoop.step, if_pos ⟨hcaller, hblocked⟩])
  | leaving => exact hstuck .leave rfl _ (by rw [EventThreadLoop.step, if_pos hcaller])
  | returned => exact hnot (.inl (h.started hcaller))

/-- Each step brings the caller nearer to its return. -/
theorem ranked : Ranked (step (L := L)) StartAction.credit Sound
    (fun s => s.Started ∨ s.Abandoned) rank := by
  constructor
  · intro s action s' h hok
    exact (h.step action hok).1
  · intro s action s' h hown hok
    have hpaid := (h.step action hok).2
    omega
  · intro s action s' h hnot hok
    have hpaid := (h.step action hok).2
    have hone := action.credit_le
    omega
  · intro s h hnot
    exact h.moves hnot

/-- The two threads keep their loop and their id. -/
theorem self_tid_of_step {action : StartAction} (hok : s.step action = .ok s') :
    s'.self = s.self ∧ s'.tid = s.tid := by
  cases action with
  | create ok nextThreadId =>
    obtain ⟨-, hok⟩ := guard_eq_ok.mp hok
    split at hok <;> obtain rfl := Except.ok.inj hok <;> exact ⟨rfl, rfl⟩
  | latchSection | countDown | publish =>
    obtain ⟨-, hok⟩ := guard_eq_ok.mp hok
    split at hok <;> cases hok <;> exact ⟨rfl, rfl⟩
  | storeTid | spuriousLatch | spuriousLoop | leave =>
    obtain ⟨-, rfl⟩ := ite_eq_ok.mp hok
    exact ⟨rfl, rfl⟩
  | loopSection =>
    obtain ⟨-, hok⟩ := guard_eq_ok.mp hok
    obtain rfl := Except.ok.inj hok
    unfold loopSection
    split <;> exact ⟨rfl, rfl⟩

/-- Behind `startLoop` neither thread takes a step any more. -/
theorem Sound.not_step_of_started (h : s.Sound) (hstarted : s.Started) (action : StartAction) :
    s.step action ≠ .ok s' := by
  intro hok
  obtain ⟨hcaller, -, hchild, -⟩ := hstarted
  have hrank : s.rank = 0 := by simp [rank, callerRank, hcaller, hchild, ChildPc.rank]
  have hpaid := (h.step action hok).2
  cases action with
  | spuriousLatch =>
    obtain ⟨hblocked, -⟩ := guard_eq_ok.mp hok
    exact h.notMem_latch (by simp [hcaller]) hblocked
  | spuriousLoop =>
    obtain ⟨hblocked, -⟩ := guard_eq_ok.mp hok
    exact h.notMem_cond (by simp [hcaller]) hblocked
  | _ =>
    simp only [StartAction.credit] at hpaid
    omega

/-- The caller waits for a thread that has not been created. -/
def Lost (s : EventThreadLoop L) : Prop := s.caller = .waiting ∧ s.child = .notCreated

/-- A start that has been abandoned waits for a thread that has not been created. -/
theorem Sound.lost_of_abandoned (h : s.Sound) (habandoned : s.Abandoned) : s.Lost :=
  ⟨(h.waiting habandoned.2).1, habandoned.1⟩

/-- Only `pthread_create` decides whether the thread is lost. -/
theorem Sound.lost_step (h : s.Sound) {action : StartAction} (hok : s.step action = .ok s') :
    s'.Lost ↔ s.Lost ∨ ∃ nextThreadId, action = .create false nextThreadId := by
  have hfits := h.fits
  cases action with
  | create ok nextThreadId =>
    obtain ⟨hcaller, hok⟩ := guard_eq_ok.mp hok
    rw [hcaller] at hfits
    cases ok with
    | true =>
      obtain rfl := Except.ok.inj hok
      simp [Lost, hcaller]
    | false =>
      obtain rfl := Except.ok.inj hok
      simpa [Lost, Fits] using hfits
  | latchSection =>
    obtain ⟨⟨hcaller, -⟩, hok⟩ := guard_eq_ok.mp hok
    rw [hcaller] at hfits
    split at hok <;> cases hok <;> simp_all [Lost, Fits]
  | storeTid =>
    obtain ⟨hchild, rfl⟩ := ite_eq_ok.mp hok
    simp [Lost, hchild]
  | countDown =>
    obtain ⟨hchild, hok⟩ := guard_eq_ok.mp hok
    split at hok <;> cases hok
    simp [Lost, hchild]
  | publish woken =>
    obtain ⟨hchild, hok⟩ := guard_eq_ok.mp hok
    split at hok <;> cases hok
    simp [Lost, hchild]
  | loopSection =>
    obtain ⟨⟨hcaller, -⟩, hok⟩ := guard_eq_ok.mp hok
    obtain rfl := Except.ok.inj hok
    have hloop := h.loop_eq
    unfold EventThreadLoop.loopSection
    split
    · simp [Lost, hcaller]
    · next hsome =>
      rw [hsome] at hloop
      have hchild : s.child ≠ .notCreated := by
        intro hnone
        rw [hnone] at hloop
        cases hloop
      simp [Lost, hchild]
  | spuriousLatch | spuriousLoop =>
    obtain ⟨-, rfl⟩ := ite_eq_ok.mp hok
    simp [Lost]
  | leave =>
    obtain ⟨hcaller, rfl⟩ := ite_eq_ok.mp hok
    simp [Lost, hcaller]

end

end EventThreadLoop

end Reactor
