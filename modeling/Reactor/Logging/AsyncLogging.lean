import Mathlib.Data.List.Forall2
import Mathlib.Logic.Function.Basic
import Reactor.Logging.FixedBuffer

/-!
# The asynchronous log

Any number of threads append messages to the current buffer, and a back end takes the full
buffers and the current one over, writes them to a log file and gives two of them back. A
critical section is one step. The back end waits for at most a second and may also be woken
without a signal, so that a wait may end at any time and a signal need not be modelled.

Two kinds of runs are left out, in both of which the class is misused: `start` is called only
while there is no back end, and no two threads are in `thread_.stop()` at once. Both would have
found `start_` set and would join the same thread, which is undefined.
-/

namespace Reactor

open Transition

/-- A message that a buffer can hold. -/
abbrev LogMessage := { msg : List UInt8 // msg.length ≤ kSmallBufferSize }

/-- `BufferPtr`; `none` is the null pointer. -/
abbrev BufferPtr := Option (FixedBuffer kSmallBufferSize)

/-- Where the back end is. -/
inductive BackEndPc where
  /-- There is no back end. -/
  | idle
  /-- `start` has set `start_` and is about to create the back end. -/
  | starting
  /-- `threadfunc` begins. -/
  | begun
  /-- At the test of `start_`. -/
  | test
  /-- About to lock the mutex. -/
  | lock
  /-- In `waitForSeconds`. -/
  | waiting
  /-- In the loop over `bufferToWrite`, with the buffers still to be written. -/
  | writing (rest : List BufferPtr)

/-- `thread_.stop()` returns: the back end has ended or has not been created. -/
def BackEndPc.joinable : BackEndPc → Bool
  | .idle | .starting => true
  | _ => false

/-- Where a thread is in `stop`, with the number of messages appended before the call. -/
inductive StopPc where
  | outside
  /-- Behind the test of `start_`. -/
  | tested (before : ℕ)
  /-- In `thread_.stop()`, where `pthread_join` waits for the back end. A second thread that
  gets here meanwhile is taken to wait as well, though its join is undefined. -/
  | joining (before : ℕ)

/-- `AsyncLogging` with its back end; `τ` are the threads that call `stop`. -/
structure AsyncLogging (τ : Type) where
  start : Bool := false
  currentBuffer : BufferPtr := some {}
  nextBuffer : BufferPtr := some {}
  buffers : List BufferPtr := []
  pc : BackEndPc := .idle
  /-- The local variables of `threadfunc`. -/
  buffer1 : BufferPtr := none
  buffer2 : BufferPtr := none
  bufferToWrite : List BufferPtr := []
  stopping : τ → StopPc := fun _ => .outside
  /-- The messages appended, in the order of their critical sections. -/
  messages : List (List UInt8) := []
  /-- What has been passed to `LogFile::append`. -/
  written : List (List Cell) := []
  /-- For each call of `stop` that has returned, the number of messages appended before. -/
  returned : List ℕ := []

/-- A step of a thread. -/
inductive AsyncAction (τ : Type) where
  /-- The critical section of `append`. -/
  | append (msg : LogMessage)
  /-- `start` sets `start_`. -/
  | start
  /-- `start` creates the back end. -/
  | create
  /-- The thread `t` calls `stop` and tests `start_`. -/
  | stopCall (t : τ)
  /-- The thread `t` clears `start_` and signals. -/
  | stopClear (t : τ)
  /-- The thread `t` has joined the back end, or there was none to join, and returns. -/
  | stopReturn (t : τ)
  /-- The back end counts the latch down and allocates its buffers. -/
  | begin
  /-- The back end tests `start_`. -/
  | test
  /-- The back end locks the mutex, and waits if there are no full buffers. -/
  | lock
  /-- The wait ends. -/
  | wake
  /-- The back end writes the next buffer. -/
  | writeBuffer
  /-- The back end takes two buffers back, clears the others and flushes the file. -/
  | recycle

/-- Why a step is not taken: its thread is elsewhere, or it faults. -/
inductive AsyncStop where
  | disabled
  | fault (fault : Fault)
  deriving DecidableEq, Repr

namespace AsyncLogging

variable {τ : Type}

/-- `*p`. -/
def deref (p : BufferPtr) : Except AsyncStop (FixedBuffer kSmallBufferSize) :=
  match p with
  | some b => .ok b
  | none => .error (.fault .nullDereference)

/-- `p->append(msg, len)`: the length is converted to `int`. -/
def appendTo (p : BufferPtr) (msg : List UInt8) : Except AsyncStop BufferPtr := do
  let b ← deref p
  let b ← (b.append msg (toInt msg.length)).mapError .fault
  return some b

/-- The critical section of `AsyncLogging::append`. -/
def append (log : AsyncLogging τ) (msg : List UInt8) : Except AsyncStop (AsyncLogging τ) := do
  let current ← deref log.currentBuffer
  let log := { log with messages := log.messages ++ [msg] }
  if msg.length < intToSize current.valid then
    return { log with currentBuffer := ← appendTo log.currentBuffer msg }
  else
    return { log with
      buffers := log.buffers ++ [log.currentBuffer]
      nextBuffer := none
      currentBuffer := ← appendTo (some (log.nextBuffer.getD {})) msg }

/-- The critical section of `threadfunc` behind the wait, and the assertion behind it. -/
def swapSection (log : AsyncLogging τ) : Except AsyncStop (AsyncLogging τ) :=
  let bufferToWrite := log.buffers ++ [log.currentBuffer]
  let log := { log with
    currentBuffer := log.buffer1
    buffer1 := none
    bufferToWrite
    buffers := log.bufferToWrite }
  let log := if log.nextBuffer = none then
      { log with nextBuffer := log.buffer2, buffer2 := none }
    else log
  if log.bufferToWrite = [] then .error (.fault .assertFailed)
  else .ok { log with pc := .writing log.bufferToWrite }

/-- The next buffer of the loop over `bufferToWrite`. -/
def writeBuffer (log : AsyncLogging τ) (p : BufferPtr) (rest : List BufferPtr) :
    Except AsyncStop (AsyncLogging τ) := do
  let b ← deref p
  let data ← b.output.mapError .fault
  return { log with written := log.written ++ [data], pc := .writing rest }

/-- `p` gets a buffer back if it is null: the last one of the vector. -/
def refill (p : BufferPtr) (bufferToWrite : List BufferPtr) :
    Except AsyncStop (BufferPtr × List BufferPtr) :=
  if p = none then
    match bufferToWrite.getLast? with
    | none => .error (.fault .assertFailed)
    | some last => do
      let b ← deref last
      return (some b.bZero, bufferToWrite.dropLast)
  else .ok (p, bufferToWrite)

/-- The end of an iteration of `threadfunc`. -/
def recycle (log : AsyncLogging τ) : Except AsyncStop (AsyncLogging τ) := do
  let (buffer1, bufferToWrite) ← refill log.buffer1 log.bufferToWrite
  let (buffer2, _) ← refill log.buffer2 bufferToWrite
  return { log with buffer1, buffer2, bufferToWrite := [], pc := .test }

section

variable [DecidableEq τ]

/-- The thread `t` moves on in `stop`. -/
def setStopping (log : AsyncLogging τ) (t : τ) (pc : StopPc) : AsyncLogging τ :=
  { log with stopping := Function.update log.stopping t pc }

/-- A step of the interleaving. It says nothing about a run that has two threads join the back
end at the same time. -/
def step (log : AsyncLogging τ) : AsyncAction τ → Except AsyncStop (AsyncLogging τ)
  | .append msg => log.append msg
  | .start =>
    match log.pc with
    | .idle => .ok { log with start := true, pc := .starting }
    | _ => .error .disabled
  | .create =>
    match log.pc with
    | .starting => .ok { log with pc := .begun }
    | _ => .error .disabled
  | .stopCall t =>
    match log.stopping t with
    | .outside =>
      if log.start then .ok (log.setStopping t (.tested log.messages.length))
      else .ok { log with returned := log.returned ++ [log.messages.length] }
    | _ => .error .disabled
  | .stopClear t =>
    match log.stopping t with
    | .tested before => .ok ({ log with start := false }.setStopping t (.joining before))
    | _ => .error .disabled
  | .stopReturn t =>
    match log.stopping t with
    | .joining before =>
      if log.pc.joinable then
        .ok ({ log with returned := log.returned ++ [before] }.setStopping t .outside)
      else .error .disabled
    | _ => .error .disabled
  | .begin =>
    match log.pc with
    | .begun =>
      .ok { log with buffer1 := some {}, buffer2 := some {}, bufferToWrite := [], pc := .test }
    | _ => .error .disabled
  | .test =>
    match log.pc with
    | .test => .ok { log with pc := if log.start then .lock else .idle }
    | _ => .error .disabled
  | .lock =>
    match log.pc with
    | .lock => if log.buffers = [] then .ok { log with pc := .waiting } else log.swapSection
    | _ => .error .disabled
  | .wake =>
    match log.pc with
    | .waiting => log.swapSection
    | _ => .error .disabled
  | .writeBuffer =>
    match log.pc with
    | .writing (p :: rest) => log.writeBuffer p rest
    | _ => .error .disabled
  | .recycle =>
    match log.pc with
    | .writing [] => log.recycle
    | _ => .error .disabled

end

/-- What is left of `bufferToWrite`. -/
def rest (log : AsyncLogging τ) : List BufferPtr :=
  match log.pc with
  | .writing rest => rest
  | _ => []

/-- The buffers that have not been written, in the order in which they will be. -/
def pending (log : AsyncLogging τ) : List BufferPtr :=
  log.rest ++ log.buffers ++ [log.currentBuffer]

/-- The bytes of a buffer. -/
def contents (p : BufferPtr) : Except AsyncStop (List Cell) := do
  let b ← deref p
  b.output.mapError .fault

/-- What has been written and what is pending are groups of whole messages, and the groups
make up the messages appended: none is lost, duplicated, reordered or split. -/
def InOrder (log : AsyncLogging τ) : Prop :=
  ∃ groups : List (List (List UInt8)),
    log.written.map .ok ++ log.pending.map contents =
      groups.map (fun group => .ok (group.flatten.map some)) ∧
    groups.flatten = log.messages

/-! ## Buffers that carry groups of messages -/

/-- A buffer that holds the messages of a group and nothing else. -/
def Carries (p : BufferPtr) (group : List (List UInt8)) : Prop :=
  ∃ b, p = some b ∧ b.Holds group.flatten

section

variable {p current : BufferPtr} {group : List (List UInt8)} {msg : List UInt8}
  {written : List (List Cell)} {queue : List BufferPtr} {messages : List (List UInt8)}

/-- A new buffer carries no message. -/
theorem carries_new : Carries (some {}) [] := ⟨_, rfl, FixedBuffer.holds_empty⟩

/-- A buffer that carries messages is not null. -/
theorem Carries.ne_none (h : Carries p group) : p ≠ none := by
  obtain ⟨b, rfl, -⟩ := h
  simp

/-- The contents of a buffer are the messages that it carries. -/
theorem Carries.contents_eq (h : Carries p group) :
    contents p = .ok (group.flatten.map some) := by
  obtain ⟨b, rfl, hb⟩ := h
  rw [contents, deref, ok_bind, hb.output_eq]
  rfl

/-- A buffer with room for the message takes it whole. -/
theorem Carries.appendTo (h : Carries p group)
    (hroom : group.flatten.length + msg.length ≤ kSmallBufferSize) :
    ∃ p', appendTo p msg = .ok p' ∧ Carries p' (group ++ [msg]) := by
  obtain ⟨b, rfl, hb⟩ := h
  have hlen : toInt msg.length = msg.length := by
    unfold kSmallBufferSize at hroom
    exact toInt_of_lt (by omega)
  obtain ⟨b', happend, hb'⟩ := (hb.append_ok (by decide) (Nat.le_refl msg.length)).1 hroom
  refine ⟨some b', ?_, b', rfl, ?_⟩
  · rw [AsyncLogging.appendTo, deref, ok_bind, hlen, happend]
    rfl
  · rw [List.take_length] at hb'
    simpa using hb'

/-- What has been written, the full buffers and the current one carry the messages. -/
def Queued (written : List (List Cell)) (queue : List BufferPtr) (current : BufferPtr)
    (messages : List (List UInt8)) : Prop :=
  ∃ (done groups : List (List (List UInt8))) (last : List (List UInt8)),
    written = done.map (fun group => group.flatten.map some) ∧
    List.Forall₂ Carries queue groups ∧ Carries current last ∧
    (done ++ groups ++ [last]).flatten = messages

/-- The current buffer is queued behind the full ones, and another one replaces it. -/
theorem Queued.push (h : Queued written queue current messages) (hp : Carries p group) :
    Queued written (queue ++ [current]) p (messages ++ group) := by
  obtain ⟨done, groups, last, hwritten, hqueue, hlast, hmessages⟩ := h
  refine ⟨done, groups ++ [last], group, hwritten, ?_, hp, ?_⟩
  · exact List.rel_append hqueue (.cons hlast .nil)
  · rw [← hmessages]
    simp

/-- The first of the queued buffers is written. -/
theorem Queued.write (h : Queued written (p :: queue) current messages) :
    ∃ data, contents p = .ok data ∧ Queued (written ++ [data]) queue current messages := by
  obtain ⟨done, groups, last, hwritten, hqueue, hlast, hmessages⟩ := h
  obtain ⟨first, groups, hfirst, hrest, rfl⟩ := List.forall₂_cons_left_iff.mp hqueue
  refine ⟨first.flatten.map some, hfirst.contents_eq, done ++ [first], groups, last, ?_, hrest,
    hlast, ?_⟩
  · rw [hwritten, List.map_append, List.map_singleton]
  · rw [← hmessages]
    simp

/-- No queued buffer is null. -/
theorem Queued.ne_none (h : Queued written queue current messages) :
    ∀ p ∈ queue ++ [current], p ≠ none := by
  obtain ⟨done, groups, last, -, hqueue, hlast, -⟩ := h
  have hall : List.Forall₂ Carries (queue ++ [current]) (groups ++ [last]) :=
    List.rel_append hqueue (.cons hlast .nil)
  exact ((List.forall₂_and_left _ _).mp (hall.imp fun _ _ h => ⟨h.ne_none, h⟩)).1

end

/-- What the local variables of `threadfunc` hold: a spare buffer is empty where it is handed
out, and behind the swap enough buffers are taken over to replace those that were. -/
def Locals (buffer1 buffer2 : BufferPtr) (bufferToWrite : List BufferPtr) : BackEndPc → Prop
  | .test | .lock | .waiting => Carries buffer1 [] ∧ Carries buffer2 [] ∧ bufferToWrite = []
  | .writing _ =>
    buffer1 = none ∧ (∀ p ∈ bufferToWrite, p ≠ none) ∧
      (Carries buffer2 [] ∧ bufferToWrite ≠ [] ∨ buffer2 = none ∧ 2 ≤ bufferToWrite.length)
  | .idle | .starting | .begun => True

/-- The invariant. The next buffer is missing only while there are full buffers. -/
structure Sound (log : AsyncLogging τ) : Prop where
  queued : Queued log.written (log.rest ++ log.buffers) log.currentBuffer log.messages
  next_empty : log.nextBuffer = none ∨ Carries log.nextBuffer []
  buffers_ne : log.nextBuffer = none → log.buffers ≠ []
  locals : Locals log.buffer1 log.buffer2 log.bufferToWrite log.pc

/-- A new log is sound. -/
theorem sound_initial : Sound ({} : AsyncLogging τ) where
  queued := ⟨[], [], [], rfl, .nil, carries_new, rfl⟩
  next_empty := .inr carries_new
  buffers_ne h := by cases h
  locals := trivial

section

variable {log : AsyncLogging τ} {msg : List UInt8}

/-- Nothing is left to write while the back end waits. -/
theorem rest_eq_nil (hpc : log.pc = .lock ∨ log.pc = .waiting) : log.rest = [] := by
  obtain hpc | hpc := hpc
  · rw [rest, hpc]
  · rw [rest, hpc]

/-- What is left to write depends on where the back end is. -/
theorem rest_congr {log' : AsyncLogging τ} (hpc : log'.pc = log.pc) : log'.rest = log.rest := by
  rw [rest, rest, hpc]

/-- Queued buffers carry groups of whole messages. -/
theorem Sound.inOrder (h : Sound log) : log.InOrder := by
  obtain ⟨done, groups, last, hwritten, hqueue, hlast, hmessages⟩ := h.queued
  refine ⟨done ++ groups ++ [last], ?_, hmessages⟩
  have hcontents : (log.rest ++ log.buffers).map contents =
      groups.map fun group => .ok (group.flatten.map some) := by
    refine List.forall₂_eq_eq_eq ▸ List.forall₂_map_left_iff.mpr (List.forall₂_map_right_iff.mpr ?_)
    exact hqueue.imp fun _ _ => Carries.contents_eq
  rw [pending, hwritten, List.map_append, hcontents]
  simp [hlast.contents_eq]

/-! ## The operations keep the invariant -/

/-- `append` fills the current buffer, or queues it and takes another one. -/
theorem append_cases {log' : AsyncLogging τ} (hok : log.append msg = .ok log') :
    log'.messages = log.messages ++ [msg] ∧ log'.written = log.written ∧ log'.pc = log.pc ∧
      (log'.buffers = log.buffers ∨ log'.buffers = log.buffers ++ [log.currentBuffer]) := by
  rw [append] at hok
  obtain ⟨current, -, hok⟩ := bind_eq_ok.mp hok
  split at hok
  · obtain ⟨buffer, -, hok⟩ := bind_eq_ok.mp hok
    obtain rfl := Except.ok.inj hok
    exact ⟨rfl, rfl, rfl, .inl rfl⟩
  · obtain ⟨buffer, -, hok⟩ := bind_eq_ok.mp hok
    obtain rfl := Except.ok.inj hok
    exact ⟨rfl, rfl, rfl, .inr rfl⟩

/-- `append` puts the message into the current buffer or into an empty one behind it. -/
theorem Sound.append_ok (h : Sound log) (hmsg : msg.length ≤ kSmallBufferSize) :
    ∃ next buffers current,
      log.append msg = .ok { log with
        nextBuffer := next, buffers := buffers, currentBuffer := current
        messages := log.messages ++ [msg] } ∧
      Sound { log with
        nextBuffer := next, buffers := buffers, currentBuffer := current
        messages := log.messages ++ [msg] } := by
  obtain ⟨done, groups, last, hwritten, hqueue, hlast, hmessages⟩ := h.queued
  obtain ⟨b, hb, hholds⟩ := hlast
  have hvalid := hholds.valid_eq (by decide)
  have hroom : intToSize b.valid = kSmallBufferSize - last.flatten.length := by
    rw [hvalid, intToSize_natCast (by unfold kSmallBufferSize; omega)]
  by_cases hfits : msg.length < intToSize b.valid
  · have hsum : last.flatten.length + msg.length ≤ kSmallBufferSize := by omega
    obtain ⟨current, happend, hcurrent⟩ := Carries.appendTo ⟨b, hb, hholds⟩ hsum
    refine ⟨log.nextBuffer, log.buffers, current, ?_, ?_, h.next_empty, h.buffers_ne, h.locals⟩
    · rw [append, hb, deref, ok_bind]
      dsimp only
      rw [if_pos hfits, ← hb, happend, ok_bind]
      rfl
    · refine ⟨done, groups, last ++ [msg], hwritten, hqueue, hcurrent, ?_⟩
      rw [← hmessages]
      simp
  · have hfresh : Carries (some (log.nextBuffer.getD {})) [] := by
      obtain hnone | ⟨next, hnext, hempty⟩ := h.next_empty
      · rw [hnone]
        exact carries_new
      · rw [hnext]
        exact ⟨next, rfl, hempty⟩
    have hsum : ([] : List (List UInt8)).flatten.length + msg.length ≤ kSmallBufferSize := by
      simpa using hmsg
    obtain ⟨current, happend, hcurrent⟩ := hfresh.appendTo hsum
    refine ⟨none, log.buffers ++ [log.currentBuffer], current, ?_, ?_, .inl rfl, ?_, h.locals⟩
    · rw [append, hb, deref, ok_bind]
      dsimp only
      rw [if_neg hfits, happend, ok_bind]
      rfl
    · have hpush := h.queued.push hcurrent
      rw [List.append_assoc] at hpush
      exact hpush
    · simp

/-- The swap hands the spare buffers out and takes all others over. -/
theorem Sound.swapSection_ok (h : Sound log) (hpc : log.pc = .lock ∨ log.pc = .waiting) :
    ∃ next buffer2,
      log.swapSection = .ok { log with
        currentBuffer := log.buffer1, nextBuffer := next, buffers := []
        buffer1 := none, buffer2 := buffer2, bufferToWrite := log.buffers ++ [log.currentBuffer]
        pc := .writing (log.buffers ++ [log.currentBuffer]) } ∧
      Sound { log with
        currentBuffer := log.buffer1, nextBuffer := next, buffers := []
        buffer1 := none, buffer2 := buffer2, bufferToWrite := log.buffers ++ [log.currentBuffer]
        pc := .writing (log.buffers ++ [log.currentBuffer]) } := by
  have hlocals : Locals log.buffer1 log.buffer2 log.bufferToWrite .lock := by
    have hlocals := h.locals
    obtain hpc | hpc := hpc
    · rwa [hpc] at hlocals
    · rwa [hpc] at hlocals
  obtain ⟨hbuffer1, hbuffer2, hempty⟩ := hlocals
  have hqueued : Queued log.written (log.buffers ++ [log.currentBuffer] ++ []) log.buffer1
      log.messages := by
    have hpush := h.queued.push hbuffer1
    rw [rest_eq_nil hpc, List.nil_append, List.append_nil] at hpush
    rwa [List.append_nil]
  have hfull := h.queued.ne_none
  rw [rest_eq_nil hpc, List.nil_append] at hfull
  by_cases hnext : log.nextBuffer = none
  · refine ⟨log.buffer2, none, ?_, hqueued, .inr hbuffer2, ?_, rfl, hfull, .inr ⟨rfl, ?_⟩⟩
    · simp [swapSection, hnext, hempty]
    · intro hnone
      exact absurd hnone hbuffer2.ne_none
    · have := List.length_pos_of_ne_nil (h.buffers_ne hnext)
      rw [List.length_append, List.length_singleton]
      omega
  · refine ⟨log.nextBuffer, log.buffer2, ?_, hqueued, h.next_empty, fun hnone => absurd hnone hnext,
      rfl, hfull, .inl ⟨hbuffer2, by simp⟩⟩
    simp [swapSection, hnext, hempty]

/-- A buffer that was handed out is replaced by the last one taken over. -/
theorem refill_ok {p : BufferPtr} {bufferToWrite : List BufferPtr}
    (hp : Carries p [] ∨ p = none ∧ bufferToWrite ≠ [])
    (hfull : ∀ q ∈ bufferToWrite, q ≠ none) :
    ∃ p', refill p bufferToWrite =
        .ok (p', if p = none then bufferToWrite.dropLast else bufferToWrite) ∧ Carries p' [] := by
  obtain ⟨b, rfl, hb⟩ | ⟨rfl, hne⟩ := hp
  · exact ⟨some b, rfl, b, rfl, hb⟩
  · obtain ⟨b, hb⟩ := Option.ne_none_iff_exists'.mp (hfull _ (List.getLast_mem hne))
    refine ⟨some b.bZero, ?_, carries_new⟩
    rw [refill, if_pos rfl, List.getLast?_eq_some_getLast hne, hb]
    rfl

/-- Behind the loop the back end has two spare buffers again. -/
theorem Sound.recycle_ok (h : Sound log) (hpc : log.pc = .writing []) :
    ∃ buffer1 buffer2,
      log.recycle = .ok { log with
        buffer1 := buffer1, buffer2 := buffer2, bufferToWrite := [], pc := .test } ∧
      Sound { log with
        buffer1 := buffer1, buffer2 := buffer2, bufferToWrite := [], pc := .test } := by
  have hlocals := h.locals
  have hqueued := h.queued
  rw [hpc] at hlocals
  rw [rest, hpc] at hqueued
  obtain ⟨hnone, hfull, henough⟩ := hlocals
  have hne : log.bufferToWrite ≠ [] := by
    obtain ⟨-, hne⟩ | ⟨-, hlen⟩ := henough
    · exact hne
    · exact List.ne_nil_of_length_pos (by omega)
  have hbuffer2 :
      Carries log.buffer2 [] ∨ log.buffer2 = none ∧ log.bufferToWrite.dropLast ≠ [] := by
    obtain ⟨hempty, -⟩ | ⟨hnone, hlen⟩ := henough
    · exact .inl hempty
    · exact .inr ⟨hnone, List.ne_nil_of_length_pos (by rw [List.length_dropLast]; omega)⟩
  obtain ⟨buffer1, hrefill, hbuffer1⟩ := refill_ok (.inr ⟨hnone, hne⟩) hfull
  obtain ⟨buffer2, hrefill2, hbuffer2⟩ :=
    refill_ok hbuffer2 fun q hq => hfull q (List.dropLast_subset _ hq)
  refine ⟨buffer1, buffer2, ?_, hqueued, h.next_empty, h.buffers_ne, hbuffer1, hbuffer2, rfl⟩
  rw [recycle, hrefill, if_pos hnone, ok_bind]
  dsimp only
  rw [hrefill2, ok_bind]
  rfl

/-- A buffer is written. -/
theorem Sound.writeBuffer_ok {p : BufferPtr} {rest : List BufferPtr} (h : Sound log)
    (hpc : log.pc = .writing (p :: rest)) :
    ∃ data,
      log.writeBuffer p rest =
        .ok { log with written := log.written ++ [data], pc := .writing rest } ∧
      Sound { log with written := log.written ++ [data], pc := .writing rest } := by
  have hlocals := h.locals
  have hqueued := h.queued
  rw [hpc] at hlocals
  rw [AsyncLogging.rest, hpc] at hqueued
  obtain ⟨data, hdata, hwrite⟩ := hqueued.write
  refine ⟨data, ?_, hwrite, h.next_empty, h.buffers_ne, hlocals⟩
  obtain ⟨b, hb, hout⟩ := bind_eq_ok.mp hdata
  rw [writeBuffer, hb, ok_bind, hout]
  rfl

/-- Every step of a thread keeps the invariant, and none faults. -/
theorem Sound.step [DecidableEq τ] (h : Sound log) (a : AsyncAction τ) :
    Ensures (log.step a) Sound (· = .disabled) := by
  have hqueued := h.queued
  have hlocals := h.locals
  cases a with
  | append msg =>
    obtain ⟨next, buffers, current, happend, hsound⟩ := h.append_ok msg.2
    rw [AsyncLogging.step, happend]
    exact hsound
  | start | create =>
    rw [AsyncLogging.step]
    split
    · next hpc =>
      rw [rest, hpc] at hqueued
      exact ⟨hqueued, h.next_empty, h.buffers_ne, trivial⟩
    · rfl
  | stopCall t =>
    rw [AsyncLogging.step]
    split
    · split
      · exact ⟨hqueued, h.next_empty, h.buffers_ne, hlocals⟩
      · exact ⟨hqueued, h.next_empty, h.buffers_ne, hlocals⟩
    · rfl
  | stopClear t =>
    rw [AsyncLogging.step]
    split
    · exact ⟨hqueued, h.next_empty, h.buffers_ne, hlocals⟩
    · rfl
  | stopReturn t =>
    rw [AsyncLogging.step]
    split
    · split
      · exact ⟨hqueued, h.next_empty, h.buffers_ne, hlocals⟩
      · rfl
    · rfl
  | begin =>
    rw [AsyncLogging.step]
    split
    · next hpc =>
      rw [rest, hpc] at hqueued
      exact ⟨hqueued, h.next_empty, h.buffers_ne, carries_new, carries_new, rfl⟩
    · rfl
  | test =>
    rw [AsyncLogging.step]
    split
    · next hpc =>
      rw [rest, hpc] at hqueued
      rw [hpc] at hlocals
      cases log.start with
      | true => exact ⟨hqueued, h.next_empty, h.buffers_ne, hlocals⟩
      | false => exact ⟨hqueued, h.next_empty, h.buffers_ne, trivial⟩
    · rfl
  | lock =>
    rw [AsyncLogging.step]
    split
    · next hpc =>
      split
      · rw [rest, hpc] at hqueued
        rw [hpc] at hlocals
        exact ⟨hqueued, h.next_empty, h.buffers_ne, hlocals⟩
      · obtain ⟨next, buffer2, hswap, hsound⟩ := h.swapSection_ok (.inl hpc)
        rw [hswap]
        exact hsound
    · rfl
  | wake =>
    rw [AsyncLogging.step]
    split
    · next hpc =>
      obtain ⟨next, buffer2, hswap, hsound⟩ := h.swapSection_ok (.inr hpc)
      rw [hswap]
      exact hsound
    · rfl
  | writeBuffer =>
    rw [AsyncLogging.step]
    split
    · next p rest hpc =>
      obtain ⟨data, hwrite, hsound⟩ := h.writeBuffer_ok hpc
      rw [hwrite]
      exact hsound
    · rfl
  | recycle =>
    rw [AsyncLogging.step]
    split
    · next hpc =>
      obtain ⟨buffer1, buffer2, hrecycle, hsound⟩ := h.recycle_ok hpc
      rw [hrecycle]
      exact hsound
    · rfl

end

/-- Every step that is taken leaves the log sound. -/
theorem Sound.of_step [DecidableEq τ] {log log' : AsyncLogging τ} {a : AsyncAction τ}
    (h : Sound log) (hstep : log.step a = .ok log') : Sound log' := by
  have hnext := h.step a
  rwa [hstep] at hnext

/-- The log of every interleaving is in order, and no step faults. -/
theorem along_inOrder [DecidableEq τ] (actions : List (AsyncAction τ)) :
    Along step (fun _ _ r => Ensures r InOrder (· = .disabled)) ({} : AsyncLogging τ) actions := by
  refine along_of_guarded Sound ?_ ?_ sound_initial guarded_true
  · intro log a h _
    exact (h.step a).imp fun _ => Sound.inOrder
  · intro log a log' h _ hstep
    exact h.of_step hstep

end AsyncLogging

end Reactor
