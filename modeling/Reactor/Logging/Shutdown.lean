import Reactor.Logging.AsyncLogging

/-!
# The asynchronous log at shutdown

`stop` clears `start_` and joins the back end, which tests `start_` only at the top of its loop
and writes nothing more once it has left it. So the messages appended before the call are
written if the back end is about to take the buffers over when `start_` is cleared, or has
already done so. Otherwise they stay in `buffers_` and `currentBuffer_`.
-/

namespace Reactor

open Transition

/-- The back end has passed the test of `start_` and is still to take the buffers over. -/
def BackEndPc.beforeSwap : BackEndPc → Bool
  | .lock | .waiting => true
  | _ => false

namespace AsyncLogging

variable {τ : Type}

/-- The bytes that buffers hold. -/
def bytes (ps : List BufferPtr) : ℕ :=
  (ps.map fun p => (p.map FixedBuffer.dataSize).getD 0).sum

/-- The first messages are no longer in `buffers_` and `currentBuffer_`: what these hold was
appended later. -/
def TakenOver (log : AsyncLogging τ) (before : ℕ) : Prop :=
  bytes (log.buffers ++ [log.currentBuffer]) ≤ (log.messages.drop before).flatten.length

instance (log : AsyncLogging τ) (before : ℕ) : Decidable (log.TakenOver before) :=
  inferInstanceAs (Decidable (_ ≤ _))

/-- Every call of `stop` that has returned has left the messages appended before it written. -/
def Complete (log : AsyncLogging τ) : Prop :=
  ∀ n ∈ log.returned, (log.messages.take n).flatten.map some <+: log.written.flatten

instance (log : AsyncLogging τ) : Decidable log.Complete :=
  inferInstanceAs (Decidable (∀ n ∈ log.returned, _))

/-- `stop` finds the back end started, or no byte that has not been written. It clears `start_`
while the back end is about to take the buffers over, or after it has taken those over in
which the messages appended before the call are. -/
def StopsInTime (log : AsyncLogging τ) : AsyncAction τ → Prop
  | .stopCall t =>
    match log.stopping t with
    | .outside => log.start = true ∨ bytes log.pending = 0
    | _ => True
  | .stopClear t =>
    match log.stopping t with
    | .tested before => log.pc.beforeSwap = true ∨ log.TakenOver before
    | _ => True
  | _ => True

instance (log : AsyncLogging τ) : ∀ a, Decidable (log.StopsInTime a)
  | .stopCall t =>
    match h : log.stopping t with
    | .outside =>
      decidable_of_iff (log.start = true ∨ bytes log.pending = 0) (by simp [StopsInTime, h])
    | .tested _ => .isTrue (by simp [StopsInTime, h])
    | .joining _ => .isTrue (by simp [StopsInTime, h])
  | .stopClear t =>
    match h : log.stopping t with
    | .outside => .isTrue (by simp [StopsInTime, h])
    | .tested before =>
      decidable_of_iff (log.pc.beforeSwap = true ∨ log.TakenOver before) (by simp [StopsInTime, h])
    | .joining _ => .isTrue (by simp [StopsInTime, h])
  | .append _ => .isTrue trivial
  | .start => .isTrue trivial
  | .create => .isTrue trivial
  | .stopReturn _ => .isTrue trivial
  | .begin => .isTrue trivial
  | .test => .isTrue trivial
  | .lock => .isTrue trivial
  | .wake => .isTrue trivial
  | .writeBuffer => .isTrue trivial
  | .recycle => .isTrue trivial

/-! ## The bytes of the log -/

/-- The bytes of buffers add up. -/
@[simp] theorem bytes_append (ps qs : List BufferPtr) : bytes (ps ++ qs) = bytes ps + bytes qs := by
  simp [bytes]

/-- The bytes of buffers are those of the messages that they carry. -/
theorem bytes_eq_of_carries {ps : List BufferPtr} {groups : List (List (List UInt8))}
    (h : List.Forall₂ Carries ps groups) : bytes ps = groups.flatten.flatten.length := by
  induction h with
  | nil => rfl
  | @cons p group ps groups hp _ ih =>
    obtain ⟨b, rfl, hb⟩ := hp
    have hsize : bytes (some b :: ps) = b.dataSize + bytes ps := by simp [bytes]
    rw [hsize, ih, FixedBuffer.dataSize, hb.cur_eq, List.flatten_cons, List.flatten_append,
      List.length_append]

/-- The bytes that the back end has written or taken over. -/
def taken (log : AsyncLogging τ) : ℕ := log.written.flatten.length + bytes log.rest

section

variable {log log' : AsyncLogging τ} {n : ℕ}

/-- The bytes appended have been written or are pending. -/
theorem Sound.bytes_eq (h : Sound log) :
    ∃ pending : List UInt8,
      log.messages.flatten.map some = log.written.flatten ++ pending.map some ∧
      bytes log.pending = pending.length := by
  obtain ⟨done, groups, last, hwritten, hqueue, hlast, hmessages⟩ := h.queued
  have hdone : log.written.flatten = done.flatten.flatten.map some := by
    rw [hwritten, List.flatten_flatten, List.map_flatten, List.map_map]
    rfl
  refine ⟨(groups ++ [last]).flatten.flatten, ?_, ?_⟩
  · rw [hdone, ← hmessages, ← List.map_append, ← List.flatten_append, ← List.flatten_append,
      List.append_assoc]
  · exact bytes_eq_of_carries (List.rel_append hqueue (.cons hlast .nil))

/-- Nothing is lost: what has been taken over and what has not is what was appended. -/
theorem Sound.balance (h : Sound log) :
    log.taken + bytes (log.buffers ++ [log.currentBuffer]) = log.messages.flatten.length := by
  obtain ⟨pending, hmessages, hbytes⟩ := h.bytes_eq
  have hlength := congrArg List.length hmessages
  simp only [List.length_append, List.length_map] at hlength
  rw [AsyncLogging.pending] at hbytes
  rw [taken, hlength, ← hbytes]
  simp only [bytes_append]
  omega

/-- Messages have been taken over exactly if their bytes have. -/
theorem Sound.takenOver_iff (h : Sound log) :
    log.TakenOver n ↔ (log.messages.take n).flatten.length ≤ log.taken := by
  have hsplit := congrArg List.length
    (congrArg List.flatten (List.take_append_drop n log.messages))
  rw [List.flatten_append, List.length_append] at hsplit
  have hbalance := h.balance
  rw [TakenOver]
  omega

/-- What is among the bytes written, by number, is what was written. -/
theorem Sound.prefix_written (h : Sound log)
    (hn : (log.messages.take n).flatten.length ≤ log.written.flatten.length) :
    (log.messages.take n).flatten.map some <+: log.written.flatten := by
  obtain ⟨pending, hmessages, -⟩ := h.bytes_eq
  have hfirst : (log.messages.take n).flatten.map some <+: log.messages.flatten.map some := by
    refine ⟨(log.messages.drop n).flatten.map some, ?_⟩
    rw [← List.map_append, ← List.flatten_append, List.take_append_drop]
  have hwritten : log.written.flatten <+: log.messages.flatten.map some :=
    ⟨pending.map some, hmessages.symm⟩
  exact List.prefix_of_prefix_length_le hfirst hwritten (by rwa [List.length_map])

/-! ## The messages that a call of `stop` has to wait for -/

/-- A call of `stop` that has cleared `start_` will leave the messages appended before it
written, because the back end takes them over or has done so. -/
def Upheld (log : AsyncLogging τ) : StopPc → Prop
  | .outside => True
  | .tested before => before ≤ log.messages.length
  | .joining before =>
    before ≤ log.messages.length ∧
      (log.pc.beforeSwap = true ∨ (log.messages.take before).flatten.length ≤ log.taken)

/-- There are so many messages, and their bytes are no more than those written. -/
def Written (log : AsyncLogging τ) (n : ℕ) : Prop :=
  n ≤ log.messages.length ∧ (log.messages.take n).flatten.length ≤ log.written.flatten.length

/-- The invariant of runs in which `stop` comes in time. -/
structure Kept (log : AsyncLogging τ) : Prop where
  sound : Sound log
  stopping : ∀ t, Upheld log (log.stopping t)
  returned : ∀ n ∈ log.returned, log.Written n

/-- What the steps outside `stop` do to the messages. -/
structure Advances (log log' : AsyncLogging τ) : Prop where
  messages : log.messages <+: log'.messages
  written_le : log.written.flatten.length ≤ log'.written.flatten.length
  taken_le : log.taken ≤ log'.taken
  swap : log.pc.beforeSwap = true →
    log'.pc.beforeSwap = true ∨ log'.messages.flatten.length = log'.taken

/-- A log that has kept its promises is complete. -/
theorem Kept.complete (h : Kept log) : log.Complete :=
  fun n hn => h.sound.prefix_written (h.returned n hn).2

/-- A new log has promised nothing. -/
theorem kept_initial : Kept ({} : AsyncLogging τ) where
  sound := sound_initial
  stopping _ := trivial
  returned n hn := by cases hn

/-- The first messages are no longer than all. -/
theorem length_take_le (messages : List (List UInt8)) (n : ℕ) :
    (messages.take n).flatten.length ≤ messages.flatten.length := by
  conv_rhs => rw [← List.take_append_drop n messages, List.flatten_append, List.length_append]
  omega

/-- The first messages stay the same. -/
theorem Advances.take_eq (h : Advances log log') (hn : n ≤ log.messages.length) :
    log'.messages.take n = log.messages.take n := by
  obtain ⟨more, hmore⟩ := h.messages
  rw [← hmore, List.take_append_of_le_length hn]

/-- A promise is upheld when more is written and nothing goes back. -/
theorem Advances.upheld (h : Advances log log') {pc : StopPc} (hpc : Upheld log pc) :
    Upheld log' pc := by
  have hlength := h.messages.length_le
  cases pc with
  | outside => trivial
  | tested before => exact Nat.le_trans hpc hlength
  | joining before =>
    obtain ⟨hbefore, hpc⟩ := hpc
    refine ⟨Nat.le_trans hbefore hlength, ?_⟩
    obtain hswap | htaken := hpc
    · refine (h.swap hswap).imp_right fun hall => ?_
      rw [← hall]
      exact length_take_le _ _
    · rw [h.take_eq hbefore]
      exact .inr (Nat.le_trans htaken h.taken_le)

/-- A step of the back end keeps the promises. -/
theorem Kept.advance (h : Kept log) (hsound : Sound log') (hadvances : Advances log log')
    (hstopping : log'.stopping = log.stopping) (hreturned : log'.returned = log.returned) :
    Kept log' where
  sound := hsound
  stopping t := by
    rw [hstopping]
    exact hadvances.upheld (h.stopping t)
  returned n hn := by
    rw [hreturned] at hn
    obtain ⟨hle, hwritten⟩ := h.returned n hn
    rw [Written, hadvances.take_eq hle]
    exact ⟨Nat.le_trans hle hadvances.messages.length_le,
      Nat.le_trans hwritten hadvances.written_le⟩

/-- A step that neither appends nor writes nor takes buffers over. -/
theorem advances_of_eq (hmessages : log'.messages = log.messages)
    (hwritten : log'.written = log.written) (hrest : log'.rest = log.rest)
    (hswap : log.pc.beforeSwap = true → log'.pc.beforeSwap = true) : Advances log log' where
  messages := by simp [hmessages]
  written_le := by rw [hwritten]
  taken_le := by rw [taken, taken, hwritten, hrest]
  swap hpc := .inl (hswap hpc)

/-- The swap takes all messages over. -/
theorem advances_of_swap (hsound : Sound log') (hmessages : log'.messages = log.messages)
    (hwritten : log'.written = log.written) (hrest : log.rest = [])
    (hempty : bytes (log'.buffers ++ [log'.currentBuffer]) = 0) : Advances log log' where
  messages := by simp [hmessages]
  written_le := by rw [hwritten]
  taken_le := by
    rw [taken, taken, hwritten, hrest]
    exact Nat.add_le_add_left (Nat.zero_le _) _
  swap _ := by
    rw [← hsound.balance, hempty]
    exact .inr rfl

/-- A buffer that is written has been taken over before. -/
theorem advances_of_write {data : List Cell} {p : BufferPtr} {rest : List BufferPtr}
    (h : Sound log)
    (hsound : Sound { log with written := log.written ++ [data], pc := .writing rest })
    (hpc : log.pc = .writing (p :: rest)) :
    Advances log { log with written := log.written ++ [data], pc := .writing rest } where
  messages := List.prefix_refl _
  written_le := by
    rw [List.flatten_append, List.length_append]
    omega
  taken_le := by
    have hbefore := h.balance
    have hafter := hsound.balance
    dsimp only at hafter
    omega
  swap hswap := by
    rw [hpc] at hswap
    cases hswap

/-- The swap hands out an empty buffer and leaves no full one behind. -/
theorem Kept.swapSection (h : Kept log) (hpc : log.pc = .lock ∨ log.pc = .waiting)
    (hswap : log.swapSection = .ok log') : Kept log' := by
  have hspare : Carries log.buffer1 [] := by
    have hlocals := h.sound.locals
    obtain hpc | hpc := hpc
    · rw [hpc] at hlocals
      exact hlocals.1
    · rw [hpc] at hlocals
      exact hlocals.1
  obtain ⟨next, buffer2, hok, hsound⟩ := h.sound.swapSection_ok hpc
  obtain rfl := Except.ok.inj (hok.symm.trans hswap)
  refine h.advance hsound (advances_of_swap hsound rfl rfl (rest_eq_nil hpc) ?_) rfl rfl
  exact bytes_eq_of_carries (.cons hspare .nil)

/-- Where the back end can be joined it has nothing left to write. -/
theorem of_joinable (hpc : log.pc.joinable = true) :
    log.rest = [] ∧ log.pc.beforeSwap = false := by
  cases hlog : log.pc with
  | idle | starting =>
    rw [rest, hlog]
    exact ⟨rfl, rfl⟩
  | begun | test | lock | waiting | writing =>
    rw [hlog] at hpc
    cases hpc

/-- A back end that has ended has written what it had taken over. -/
theorem Upheld.written {before : ℕ} (h : Upheld log (.joining before))
    (hpc : log.pc.joinable = true) : log.Written before := by
  obtain ⟨hbefore, hcovered⟩ := h
  obtain ⟨hrest, hswap⟩ := of_joinable hpc
  rw [hswap, AsyncLogging.taken, hrest] at hcovered
  exact ⟨hbefore, hcovered.resolve_left Bool.false_ne_true⟩

/-! ## The steps of `stop` -/

/-- A thread moves on in `stop` with its promise upheld. -/
theorem Kept.setStopping [DecidableEq τ] (h : Kept log) {t : τ} {pc : StopPc}
    (hpc : Upheld log pc) : Kept (log.setStopping t pc) where
  sound := ⟨h.sound.queued, h.sound.next_empty, h.sound.buffers_ne, h.sound.locals⟩
  stopping := (Function.forall_update_iff _ _).mpr ⟨hpc, fun u _ => h.stopping u⟩
  returned := h.returned

/-- Clearing `start_` breaks no promise. -/
theorem Kept.clearStart (h : Kept log) : Kept { log with start := false } where
  sound := ⟨h.sound.queued, h.sound.next_empty, h.sound.buffers_ne, h.sound.locals⟩
  stopping := h.stopping
  returned := h.returned

/-- A `stop` returns where its messages have been written. -/
theorem Kept.addReturned (h : Kept log) (hn : log.Written n) :
    Kept { log with returned := log.returned ++ [n] } where
  sound := ⟨h.sound.queued, h.sound.next_empty, h.sound.buffers_ne, h.sound.locals⟩
  stopping := h.stopping
  returned := List.forall_mem_append.mpr ⟨h.returned, List.forall_mem_singleton.mpr hn⟩

/-- There is no byte in the buffers if and only if all messages have been written. -/
theorem Sound.pending_iff (h : Sound log) :
    bytes log.pending = 0 ↔ log.messages.flatten.length ≤ log.written.flatten.length := by
  have hbalance := h.balance
  rw [AsyncLogging.taken] at hbalance
  rw [AsyncLogging.pending, List.append_assoc, bytes_append]
  omega

/-- `stop` tests `start_`. -/
theorem Kept.stopCall [DecidableEq τ] (h : Kept log) {t : τ}
    (hguard : log.StopsInTime (.stopCall t)) (hstep : log.step (.stopCall t) = .ok log') :
    Kept log' := by
  rw [AsyncLogging.step] at hstep
  rw [StopsInTime] at hguard
  split at hstep
  · next hout =>
    rw [hout] at hguard
    split at hstep
    · obtain rfl := Except.ok.inj hstep
      exact h.setStopping (Nat.le_refl _)
    · next hstart =>
      obtain rfl := Except.ok.inj hstep
      refine h.addReturned ⟨Nat.le_refl _, ?_⟩
      rw [List.take_length]
      exact h.sound.pending_iff.mp (hguard.resolve_left hstart)
  · cases hstep

/-- `stop` clears `start_`. -/
theorem Kept.stopClear [DecidableEq τ] (h : Kept log) {t : τ}
    (hguard : log.StopsInTime (.stopClear t)) (hstep : log.step (.stopClear t) = .ok log') :
    Kept log' := by
  rw [AsyncLogging.step] at hstep
  rw [StopsInTime] at hguard
  split at hstep
  · next before htested =>
    rw [htested] at hguard
    obtain rfl := Except.ok.inj hstep
    have hbefore := h.stopping t
    rw [htested] at hbefore
    exact h.clearStart.setStopping ⟨hbefore, hguard.imp_right h.sound.takenOver_iff.mp⟩
  · cases hstep

/-- `stop` returns. -/
theorem Kept.stopReturn [DecidableEq τ] (h : Kept log) {t : τ}
    (hstep : log.step (.stopReturn t) = .ok log') : Kept log' := by
  rw [AsyncLogging.step] at hstep
  split at hstep
  · next before hjoining =>
    split at hstep
    · next hpc =>
      obtain rfl := Except.ok.inj hstep
      have hbefore := h.stopping t
      rw [hjoining] at hbefore
      exact (h.addReturned (hbefore.written hpc)).setStopping trivial
    · cases hstep
  · cases hstep

/-- Every step keeps the invariant, if `stop` comes in time. -/
theorem Kept.step [DecidableEq τ] (h : Kept log) {a : AsyncAction τ} (hguard : log.StopsInTime a)
    (hstep : log.step a = .ok log') : Kept log' := by
  have hsound := h.sound.of_step hstep
  cases a with
  | append msg =>
    obtain ⟨next, buffers, current, happend, -⟩ := h.sound.append_ok msg.2
    rw [AsyncLogging.step, happend] at hstep
    obtain rfl := Except.ok.inj hstep
    exact h.advance hsound ⟨List.prefix_append _ _, Nat.le_refl _, Nat.le_refl _, .inl⟩ rfl rfl
  | stopCall t => exact h.stopCall hguard hstep
  | stopClear t => exact h.stopClear hguard hstep
  | stopReturn t => exact h.stopReturn hstep
  | start | create | begin =>
    rw [AsyncLogging.step] at hstep
    split at hstep
    · next hpc =>
      obtain rfl := Except.ok.inj hstep
      refine h.advance hsound (advances_of_eq rfl rfl ?_ ?_) rfl rfl
      · rw [rest, rest, hpc]
      · rw [hpc]
        exact id
    · cases hstep
  | test =>
    rw [AsyncLogging.step] at hstep
    split at hstep
    · next hpc =>
      obtain rfl := Except.ok.inj hstep
      refine h.advance hsound (advances_of_eq rfl rfl ?_ ?_) rfl rfl
      · rw [rest, rest, hpc]
        cases log.start with
        | true => rfl
        | false => rfl
      · rw [hpc]
        intro hswap
        cases hswap
    · cases hstep
  | lock =>
    rw [AsyncLogging.step] at hstep
    split at hstep
    · next hpc =>
      split at hstep
      · obtain rfl := Except.ok.inj hstep
        refine h.advance hsound (advances_of_eq rfl rfl ?_ ?_) rfl rfl
        · rw [rest, rest, hpc]
        · intro _
          rfl
      · exact h.swapSection (.inl hpc) hstep
    · cases hstep
  | wake =>
    rw [AsyncLogging.step] at hstep
    split at hstep
    · next hpc => exact h.swapSection (.inr hpc) hstep
    · cases hstep
  | writeBuffer =>
    rw [AsyncLogging.step] at hstep
    split at hstep
    · next p rest hpc =>
      obtain ⟨data, hwrite, -⟩ := h.sound.writeBuffer_ok hpc
      obtain rfl := Except.ok.inj (hwrite.symm.trans hstep)
      exact h.advance hsound (advances_of_write h.sound hsound hpc) rfl rfl
    · cases hstep
  | recycle =>
    rw [AsyncLogging.step] at hstep
    split at hstep
    · next hpc =>
      obtain ⟨buffer1, buffer2, hrecycle, -⟩ := h.sound.recycle_ok hpc
      obtain rfl := Except.ok.inj (hrecycle.symm.trans hstep)
      refine h.advance hsound (advances_of_eq rfl rfl ?_ ?_) rfl rfl
      · rw [rest, rest, hpc]
      · rw [hpc]
        exact id
    · cases hstep

/-- Runs from such a state in which `stop` comes in time. -/
theorem Kept.always [DecidableEq τ] (h : Kept log) {actions : List (AsyncAction τ)}
    (hguarded : Guarded AsyncLogging.step StopsInTime log actions) :
    Always AsyncLogging.step Complete log actions :=
  along_of_guarded Kept (fun _ _ hkept hguard _ hstep => (hkept.step hguard hstep).complete)
    (fun _ _ _ hkept hguard hstep => hkept.step hguard hstep) h hguarded

end

/-- If `stop` comes in time, whatever was appended before it is written when it returns. -/
theorem complete_of_stopsInTime [DecidableEq τ] (actions : List (AsyncAction τ))
    (h : Guarded step StopsInTime ({} : AsyncLogging τ) actions) :
    Always step Complete ({} : AsyncLogging τ) actions :=
  kept_initial.always h

/-- A thread appends a message and stops the log while the back end waits. -/
theorem complete_while_waiting :
    Always step Complete ({} : AsyncLogging Unit)
      [.start, .create, .begin, .test, .lock, .append ⟨[76, 79, 71], by decide⟩, .stopCall (),
        .stopClear (), .wake, .writeBuffer, .recycle, .test, .stopReturn ()] :=
  complete_of_stopsInTime _ (by decide +kernel)

/-- The back end has not tested `start_` for the first time when it is cleared, and writes
nothing. -/
theorem not_complete :
    ¬ Always step Complete ({} : AsyncLogging Unit)
      [.start, .create, .begin, .append ⟨[76, 79, 71], by decide⟩, .stopCall (), .stopClear (),
        .test, .stopReturn ()] := by
  decide +kernel

/-! ## A call of `stop` that does not come in time -/

section

variable [DecidableEq τ] {log log' : AsyncLogging τ} {a : AsyncAction τ} {t : τ} {n : ℕ}

/-- The steps from here may end in a state that is not complete. -/
def MayLose (log : AsyncLogging τ) : Prop :=
  ∃ later log', Guarded step StopsInTime log later ∧ run step log later = .ok log' ∧
    ¬ log'.Complete

/-- A log that may lose messages behind a step might have before it. -/
theorem MayLose.of_step (h : MayLose log') (hguard : log.StopsInTime a)
    (hstep : log.step a = .ok log') : MayLose log := by
  obtain ⟨later, last, hguarded, hrun, hlast⟩ := h
  refine ⟨a :: later, last, ⟨hguard, ?_⟩, run_cons_eq_ok.mpr ⟨log', hstep, hrun⟩, hlast⟩
  intro u hu
  obtain rfl := Except.ok.inj (hstep.symm.trans hu)
  exact hguarded

omit [DecidableEq τ] in
/-- Messages that a returned `stop` had before it and that are not in the file have been lost. -/
theorem not_complete_of_lt (hn : n ∈ log.returned)
    (hlt : log.written.flatten.length < (log.messages.take n).flatten.length) :
    ¬ log.Complete := by
  intro hcomplete
  have hle := (hcomplete n hn).length_le
  rw [List.length_map] at hle
  omega

/-- A call of `stop` has cleared `start_`, and the back end has not taken over all messages
appended before it and will not. -/
structure Doomed (log : AsyncLogging τ) (t : τ) (n : ℕ) : Prop where
  sound : Sound log
  start_eq : log.start = false
  joining : log.stopping t = .joining n
  taken_lt : log.taken < (log.messages.take n).flatten.length

omit [DecidableEq τ] in
/-- A step that neither takes more over nor moves the `stop` leaves it doomed. -/
theorem Doomed.move (h : Doomed log t n) (hsound : Sound log')
    (hstart : log'.start = log.start) (hstopping : log'.stopping = log.stopping)
    (hmessages : log'.messages = log.messages) (htaken : log'.taken = log.taken) :
    Doomed log' t n where
  sound := hsound
  start_eq := hstart.trans h.start_eq
  joining := hstopping ▸ h.joining
  taken_lt := by
    rw [hmessages, htaken]
    exact h.taken_lt

/-- It returns when the back end has ended. -/
theorem Doomed.stopReturn (h : Doomed log t n) (hpc : log.pc.joinable = true) :
    MayLose log := by
  have hstep : log.step (.stopReturn t) =
      .ok ({ log with returned := log.returned ++ [n] }.setStopping t .outside) := by
    rw [step, h.joining]
    exact if_pos hpc
  have hlt := h.taken_lt
  rw [taken, (of_joinable hpc).1] at hlt
  refine MayLose.of_step ⟨[], _, trivial, rfl, ?_⟩ (a := .stopReturn t) trivial hstep
  exact not_complete_of_lt (List.mem_append_right _ (List.mem_singleton_self n)) hlt

/-- The back end finds `start_` cleared. -/
theorem Doomed.test (h : Doomed log t n) (hpc : log.pc = .test) : MayLose log := by
  have hstep : log.step .test = .ok { log with pc := .idle } := by
    rw [step, hpc]
    dsimp only
    rw [h.start_eq]
    rfl
  have hnext := h.move (h.sound.of_step hstep) rfl rfl rfl (by rw [taken, taken, rest, rest, hpc])
  exact (hnext.stopReturn rfl).of_step (a := .test) trivial hstep

/-- Wherever the back end is, unless it is about to take the buffers over, it comes to the test
without doing so. -/
theorem Doomed.mayLose (h : Doomed log t n) (hpc : log.pc.beforeSwap = false) :
    MayLose log := by
  cases hlog : log.pc with
  | idle | starting =>
    refine h.stopReturn ?_
    rw [hlog]
    rfl
  | begun =>
    have hstep : log.step .begin = .ok { log with
        buffer1 := some {}, buffer2 := some {}, bufferToWrite := [], pc := .test } := by
      rw [step, hlog]
    have hnext :=
      h.move (h.sound.of_step hstep) rfl rfl rfl (by rw [taken, taken, rest, rest, hlog])
    exact (hnext.test rfl).of_step (a := .begin) trivial hstep
  | test => exact h.test hlog
  | lock | waiting =>
    rw [hlog] at hpc
    cases hpc
  | writing rest =>
    clear hpc
    induction rest generalizing log with
    | nil =>
      obtain ⟨buffer1, buffer2, hrecycle, hsound⟩ := h.sound.recycle_ok hlog
      have hstep : log.step .recycle = log.recycle := by rw [step, hlog]
      have hnext := h.move hsound rfl rfl rfl
        (by rw [taken, taken, AsyncLogging.rest, AsyncLogging.rest, hlog])
      exact (hnext.test rfl).of_step (a := .recycle) trivial (hstep.trans hrecycle)
    | cons p rest ih =>
      obtain ⟨data, hwrite, hsound⟩ := h.sound.writeBuffer_ok hlog
      have hstep : log.step .writeBuffer = log.writeBuffer p rest := by rw [step, hlog]
      have htaken : taken { log with written := log.written ++ [data], pc := .writing rest } =
          log.taken := by
        have hbefore := h.sound.balance
        have hafter := hsound.balance
        dsimp only at hafter
        omega
      exact (ih (h.move hsound rfl rfl rfl htaken) rfl).of_step (a := .writeBuffer) trivial
        (hstep.trans hwrite)

/-- A step of `stop` against the condition may lose messages, even if all further ones meet
it. -/
theorem mayLose_of_not_stopsInTime (h : Sound log) (hguard : ¬ log.StopsInTime a)
    (hstep : log.step a = .ok log') : MayLose log' := by
  have hsound := h.of_step hstep
  cases a with
  | stopCall t =>
    rw [step] at hstep
    rw [StopsInTime] at hguard
    split at hstep
    · next hout =>
      rw [hout] at hguard
      obtain ⟨hstart, hpending⟩ := not_or.mp hguard
      rw [if_neg hstart] at hstep
      obtain rfl := Except.ok.inj hstep
      refine ⟨[], _, trivial, rfl, ?_⟩
      refine not_complete_of_lt (List.mem_append_right _ (List.mem_singleton_self _)) ?_
      rw [List.take_length]
      exact Nat.not_le.mp (h.pending_iff.not.mp hpending)
    · cases hstep
  | stopClear t =>
    rw [step] at hstep
    rw [StopsInTime] at hguard
    split at hstep
    · next before htested =>
      rw [htested] at hguard
      obtain ⟨hswap, htaken⟩ := not_or.mp hguard
      obtain rfl := Except.ok.inj hstep
      refine Doomed.mayLose (t := t) (n := before) ⟨hsound, rfl, Function.update_self .., ?_⟩
        (Bool.eq_false_of_not_eq_true hswap)
      exact Nat.not_le.mp (h.takenOver_iff.not.mp htaken)
    · cases hstep
  | append | start | create | stopReturn | begin | test | lock | wake | writeBuffer | recycle =>
    exact absurd trivial hguard

end

/-- The condition is exact: a step of a run in which `stop` has come in time meets it if and
only if all runs that take the step next, and in which `stop` then comes in time, are
complete. -/
theorem stopsInTime_iff [DecidableEq τ] {actions : List (AsyncAction τ)}
    (hguarded : Guarded step StopsInTime ({} : AsyncLogging τ) actions) {log log' : AsyncLogging τ}
    (hrun : run step {} actions = .ok log) {a : AsyncAction τ} (hstep : log.step a = .ok log') :
    log.StopsInTime a ↔
      ∀ later, Guarded step StopsInTime log' later → Always step Complete log (a :: later) := by
  have hkept : Kept log := by
    have halways : Always step Kept ({} : AsyncLogging τ) actions :=
      along_of_guarded Kept (fun _ _ h hguard _ hok => h.step hguard hok)
        (fun _ _ _ h hguard hok => h.step hguard hok) kept_initial hguarded
    exact halways.at_end kept_initial hrun
  constructor
  · intro hguard later hlater
    refine hkept.always ⟨hguard, fun u hu => ?_⟩
    obtain rfl := Except.ok.inj (hstep.symm.trans hu)
    exact hlater
  · intro hall
    by_contra hguard
    obtain ⟨later, last, hlater, hrun', hlast⟩ :=
      mayLose_of_not_stopsInTime hkept.sound hguard hstep
    obtain ⟨hfirst, hrest⟩ := hall later hlater
    have halways : Always step Complete log' later := hrest log' hstep
    exact hlast (halways.at_end (hfirst log' hstep) hrun')

end AsyncLogging

end Reactor
