import Reactor.Logging.AsyncLogging

/-!
# The buffers of the asynchronous log

The back end hands its two spare buffers out and takes two of the written ones back. The
next buffer is missing only if an `append` has queued a full one since the last swap, and so
there are two buffers to take back whenever both spare ones have been handed out. Messages
may have any length here: one that is too long for a buffer is left out of it.
-/

namespace Reactor

open Transition

/-- A step of a thread, where a message may have any length. -/
inductive AnyAction (τ : Type) where
  /-- The critical section of `append`. -/
  | append (msg : List UInt8)
  | other (a : AsyncAction τ)

/-- The length is negative as an `int`, and `memcpy` is told to copy about 2^64 bytes. -/
def AnyAction.Negative {τ : Type} : AnyAction τ → Prop
  | .append msg => toInt msg.length < 0
  | .other _ => False

namespace AsyncLogging

variable {τ : Type}

/-- A buffer without bytes. -/
def IsEmpty (p : BufferPtr) : Prop := p.map FixedBuffer.dataSize = some 0

/-- No buffer is missing where it is used. -/
structure Recycles (log : AsyncLogging τ) : Prop where
  current : log.currentBuffer ≠ none
  /-- An iteration of the back end begins with two empty buffers. -/
  spares : log.pc = .test ∨ log.pc = .lock ∨ log.pc = .waiting →
    IsEmpty log.buffer1 ∧ IsEmpty log.buffer2
  next : log.nextBuffer = none → log.buffers ≠ []
  written : ∀ p ∈ log.rest, p ≠ none
  /-- There are enough buffers to take back. -/
  taken : ∀ rest, log.pc = .writing rest → log.bufferToWrite ≠ [] ∧
    (log.buffer1 = none → log.buffer2 = none → 2 ≤ log.bufferToWrite.length)

/-- A step of the interleaving. -/
def stepAny [DecidableEq τ] (log : AsyncLogging τ) :
    AnyAction τ → Except AsyncStop (AsyncLogging τ)
  | .append msg => log.append msg
  | .other a => log.step a

/-- The log with other messages on record. -/
def withMessages (log : AsyncLogging τ) (messages : List (List UInt8)) : AsyncLogging τ :=
  { log with messages }

/-- The buffers are as if some messages, each short enough, had been appended. -/
def Recyclable (log : AsyncLogging τ) : Prop := ∃ messages, (log.withMessages messages).Sound

section

variable {log : AsyncLogging τ} {p current : BufferPtr} {group : List (List UInt8)}
  {written : List (List Cell)} {queue : List BufferPtr} {messages : List (List UInt8)}

/-- A buffer that carries no message is empty. -/
theorem Carries.isEmpty (h : Carries p []) : IsEmpty p := by
  obtain ⟨b, rfl, hb⟩ := h
  rw [IsEmpty, Option.map_some, FixedBuffer.dataSize, hb.cur_eq]
  rfl

/-- A recyclable log gives its back end two empty buffers again. -/
theorem Recyclable.recycles (h : Recyclable log) : Recycles log := by
  obtain ⟨messages, hsound⟩ := h
  have hfull := hsound.queued.ne_none
  have hlocals := hsound.locals
  constructor
  · exact hfull _ (List.mem_append_right _ (List.mem_singleton_self _))
  · intro hpc
    have hspares : Locals log.buffer1 log.buffer2 log.bufferToWrite .test := by
      change Locals log.buffer1 log.buffer2 log.bufferToWrite log.pc at hlocals
      obtain hpc | hpc | hpc := hpc
      · rwa [hpc] at hlocals
      · rwa [hpc] at hlocals
      · rwa [hpc] at hlocals
    exact ⟨hspares.1.isEmpty, hspares.2.1.isEmpty⟩
  · exact hsound.buffers_ne
  · intro p hp
    exact hfull p (List.mem_append_left _ (List.mem_append_left _ hp))
  · intro rest hpc
    have htaken : Locals log.buffer1 log.buffer2 log.bufferToWrite (.writing rest) :=
      hpc ▸ hlocals
    obtain ⟨-, -, ⟨hempty, hne⟩ | ⟨-, htwo⟩⟩ := htaken
    · exact ⟨hne, fun _ hnone => absurd hnone hempty.ne_none⟩
    · exact ⟨List.ne_nil_of_length_pos (by omega), fun _ _ => htwo⟩

/-! ## Messages of any length -/

/-- A buffer takes as much of a message as `memcpy` is told to copy, or nothing. -/
theorem Carries.appendTo_any (h : Carries p group) {msg : List UInt8}
    (hlen : 0 ≤ toInt msg.length) :
    ∃ p' group', AsyncLogging.appendTo p msg = .ok p' ∧ Carries p' group' := by
  obtain ⟨b, rfl, hb⟩ := h
  have hle := toInt_le msg.length
  rw [← Int.toNat_of_nonneg hlen] at hle
  obtain ⟨b', bytes, happend, hb'⟩ := hb.exists_append (by decide) (Int.ofNat_le.mp hle)
  rw [Int.toNat_of_nonneg hlen] at happend
  refine ⟨some b', [bytes], ?_, b', rfl, ?_⟩
  · rw [AsyncLogging.appendTo, deref, ok_bind, happend]
    rfl
  · simpa using hb'

/-- A length that has become negative ends in a fault. -/
theorem Carries.appendTo_error (h : Carries p group) {msg : List UInt8}
    (hlen : toInt msg.length < 0) :
    AsyncLogging.appendTo p msg = .error (.fault .outOfBounds) := by
  obtain ⟨b, rfl, hb⟩ := h
  rw [AsyncLogging.appendTo, deref, ok_bind, hb.append_error (by decide) hlen (le_toInt _)]
  rfl

/-- The current buffer may be replaced by one that carries anything. -/
theorem Queued.replace (h : Queued written queue current messages) (hp : Carries p group) :
    ∃ messages', Queued written queue p messages' := by
  obtain ⟨done, groups, last, hwritten, hqueue, -, -⟩ := h
  exact ⟨_, done, groups, group, hwritten, hqueue, hp, rfl⟩

/-- The current buffer carries a group of messages. -/
theorem Queued.exists_current (h : Queued written queue current messages) :
    ∃ group, Carries current group := by
  obtain ⟨done, groups, last, -, -, hlast, -⟩ := h
  exact ⟨last, hlast⟩

/-- `append` keeps the buffers recyclable, whatever becomes of the message. -/
theorem Recyclable.append (h : Recyclable log) (msg : List UInt8) :
    Ensures (log.append msg) Recyclable
      (fun e => e = .fault .outOfBounds ∧ toInt msg.length < 0) := by
  obtain ⟨messages, hsound⟩ := h
  obtain ⟨group, b, hb, hholds⟩ := hsound.queued.exists_current
  have hcurrent : log.currentBuffer = some b := hb
  have hcarries : Carries log.currentBuffer group := ⟨b, hb, hholds⟩
  have hfresh : Carries (some (log.nextBuffer.getD {})) [] := by
    obtain hnone | ⟨next, hnext, hempty⟩ := hsound.next_empty
    · have hnext : log.nextBuffer = none := hnone
      rw [hnext]
      exact carries_new
    · have hnext : log.nextBuffer = some next := hnext
      rw [hnext]
      exact ⟨next, rfl, hempty⟩
  rw [AsyncLogging.append, hcurrent, deref, ok_bind, ← hcurrent]
  dsimp only
  by_cases hlen : 0 ≤ toInt msg.length
  · split
    · obtain ⟨p, group', happend, hp⟩ := hcarries.appendTo_any hlen
      obtain ⟨messages', hqueued⟩ := hsound.queued.replace hp
      rw [happend, ok_bind]
      exact ⟨messages', hqueued, hsound.next_empty, hsound.buffers_ne, hsound.locals⟩
    · obtain ⟨p, group', happend, hp⟩ := hfresh.appendTo_any hlen
      have hqueued := hsound.queued.push hp
      rw [List.append_assoc] at hqueued
      rw [happend, ok_bind]
      exact ⟨messages ++ group', hqueued, .inl rfl, fun _ => List.concat_ne_nil _ _, hsound.locals⟩
  · rw [Int.not_le] at hlen
    split
    · rw [hcarries.appendTo_error hlen]
      exact ⟨rfl, hlen⟩
    · rw [hfresh.appendTo_error hlen]
      exact ⟨rfl, hlen⟩

/-! ## The other steps -/

/-- The swap does not depend on what has been appended. -/
theorem swapSection_withMessages : (log.withMessages messages).swapSection =
    log.swapSection.map fun log => log.withMessages messages := by
  by_cases hnext : log.nextBuffer = none
  · simp [swapSection, withMessages, hnext, Except.map]
  · simp [swapSection, withMessages, hnext, Except.map]

/-- Writing does not depend on what has been appended. -/
theorem writeBuffer_withMessages (p : BufferPtr) (rest : List BufferPtr) :
    (log.withMessages messages).writeBuffer p rest =
      (log.writeBuffer p rest).map fun log => log.withMessages messages := by
  rw [writeBuffer, writeBuffer]
  cases deref p with
  | error e => rfl
  | ok b =>
    rw [ok_bind, ok_bind]
    cases b.output with
    | error e => rfl
    | ok data => rfl

/-- Recycling does not depend on what has been appended. -/
theorem recycle_withMessages : (log.withMessages messages).recycle =
    log.recycle.map fun log => log.withMessages messages := by
  rw [recycle, recycle]
  simp only [withMessages]
  cases refill log.buffer1 log.bufferToWrite with
  | error e => rfl
  | ok first =>
    rw [ok_bind, ok_bind]
    cases refill log.buffer2 first.2 with
    | error e => rfl
    | ok second => rfl

/-- All steps but two go on as they would with other messages on record. -/
theorem step_withMessages [DecidableEq τ] {a : AsyncAction τ} (happend : ∀ msg, a ≠ .append msg)
    (hstop : ∀ t, a ≠ .stopCall t) :
    (log.withMessages messages).step a = (log.step a).map fun log => log.withMessages messages := by
  cases a with
  | append msg => exact absurd rfl (happend msg)
  | stopCall t => exact absurd rfl (hstop t)
  | start | create | stopClear t | begin | test =>
    simp only [AsyncLogging.step, withMessages]
    split
    · rfl
    · rfl
  | stopReturn t =>
    simp only [AsyncLogging.step, withMessages]
    split
    · by_cases hjoin : log.pc.joinable = true
      · simp [hjoin, Except.map, setStopping]
      · simp [hjoin, Except.map]
    · rfl
  | lock =>
    simp only [AsyncLogging.step, withMessages]
    split
    · by_cases hempty : log.buffers = []
      · simp [hempty, Except.map]
      · simp only [hempty, if_false]
        exact swapSection_withMessages
    · rfl
  | wake =>
    simp only [AsyncLogging.step, withMessages]
    split
    · exact swapSection_withMessages
    · rfl
  | writeBuffer =>
    simp only [AsyncLogging.step, withMessages]
    split
    · exact writeBuffer_withMessages _ _
    · rfl
  | recycle =>
    simp only [AsyncLogging.step, withMessages]
    split
    · exact recycle_withMessages
    · rfl

/-- Every step of a thread keeps the buffers recyclable. Only a message whose length is
negative may fault. -/
theorem Recyclable.stepAny [DecidableEq τ] (h : Recyclable log) (a : AnyAction τ) :
    Ensures (log.stepAny a) Recyclable
      (fun e => e = .disabled ∨ e = .fault .outOfBounds ∧ a.Negative) := by
  cases a with
  | append msg => exact (h.append msg).imp_error fun e he => .inr he
  | other a =>
    rw [AsyncLogging.stepAny]
    by_cases happend : ∃ msg, a = .append msg
    · obtain ⟨msg, rfl⟩ := happend
      refine (h.append msg.1).imp_error fun e he => absurd he.2 (Int.not_lt.mpr ?_)
      have hlen := msg.2
      unfold kSmallBufferSize at hlen
      rw [toInt_of_lt (by omega)]
      exact Int.natCast_nonneg _
    obtain ⟨messages, hsound⟩ := h
    by_cases hstop : ∃ t, a = .stopCall t
    · obtain ⟨t, rfl⟩ := hstop
      rw [AsyncLogging.step]
      split
      · split
        · exact ⟨messages, hsound.queued, hsound.next_empty, hsound.buffers_ne, hsound.locals⟩
        · exact ⟨messages, hsound.queued, hsound.next_empty, hsound.buffers_ne, hsound.locals⟩
      · exact .inl rfl
    · have hstep := hsound.step a
      rw [step_withMessages (fun msg ha => happend ⟨msg, ha⟩) fun t ha => hstop ⟨t, ha⟩] at hstep
      cases hok : log.step a with
      | error e =>
        rw [hok] at hstep
        exact .inl hstep
      | ok log' =>
        rw [hok] at hstep
        exact ⟨messages, hstep⟩

end

/-- In every interleaving the buffers that are used are there, and neither a null pointer
nor a failed assertion ends it. -/
theorem recycles_along [DecidableEq τ] (actions : List (AnyAction τ)) :
    Recycles ({} : AsyncLogging τ) ∧
      Along stepAny
        (fun _ a r => Ensures r Recycles
          (fun e => e = .disabled ∨ e = .fault .outOfBounds ∧ a.Negative))
        ({} : AsyncLogging τ) actions := by
  have hinit : Recyclable ({} : AsyncLogging τ) := ⟨[], sound_initial⟩
  refine ⟨hinit.recycles, ?_⟩
  refine along_of_guarded Recyclable ?_ ?_ hinit guarded_true
  · intro log a h _
    exact (h.stepAny a).imp fun _ => Recyclable.recycles
  · intro log a log' h _ hstep
    have hnext := h.stepAny a
    rwa [hstep] at hnext

end AsyncLogging

end Reactor
