import Reactor.Lib.Progress
import Reactor.Logging.Shutdown

/-!
# No message stays behind

The back end writes the buffers in the order in which they were filled, and it takes over all of
them at once. So a message waits for the buffers before its own and for one round of the back end
at most, however much is appended behind it.
-/

namespace Reactor

open Transition

/-- The steps of `threadfunc`, and its creation. -/
def AsyncAction.byBackEnd {τ : Type} : AsyncAction τ → Bool
  | .create | .begin | .test | .lock | .wake | .writeBuffer | .recycle => true
  | .append _ | .start | .stopCall _ | .stopClear _ | .stopReturn _ => false

/-- A back end that is started again begins its round anew. -/
def AsyncAction.credit {τ : Type} : AsyncAction τ → ℕ
  | .start => 5
  | _ => 0

/-- How many steps the back end is from taking the buffers over, beside those it writes. -/
def BackEndPc.toSwap : BackEndPc → ℕ
  | .idle => 0
  | .waiting => 1
  | .lock => 2
  | .test => 3
  | .begun | .writing _ => 4
  | .starting => 5

/-- The next swap is five steps away at most. -/
theorem BackEndPc.toSwap_le (pc : BackEndPc) : pc.toSwap ≤ 5 := by
  cases pc <;> simp [toSwap]

namespace AsyncLogging

variable {τ : Type}

/-- How far the back end is from having written the first `count` buffers. -/
def distance (count : ℕ) (log : AsyncLogging τ) : ℕ :=
  (count - log.written.length) +
    if count ≤ log.written.length + log.rest.length then 0 else log.pc.toSwap

/-! ## The buffers -/

/-- Every number of first buffers holds no less than before. -/
structure Grows (ps qs : List BufferPtr) : Prop where
  length_le : ps.length ≤ qs.length
  bytes_le : ∀ k, bytes (ps.take k) ≤ bytes (qs.take k)

section

variable {ps qs : List BufferPtr} {p q : BufferPtr}

/-- The bytes are those of the first buffer and of the others. -/
theorem bytes_cons (p : BufferPtr) (ps : List BufferPtr) : bytes (p :: ps) = bytes [p] + bytes ps :=
  bytes_append [p] ps

/-- The same buffers have not lost any. -/
theorem Grows.refl (ps : List BufferPtr) : Grows ps ps := ⟨Nat.le_refl _, fun _ => Nat.le_refl _⟩

/-- Buffers are added. -/
theorem grows_append (ps qs : List BufferPtr) : Grows ps (ps ++ qs) where
  length_le := by
    rw [List.length_append]
    omega
  bytes_le k := by
    rw [List.take_append, bytes_append]
    omega

/-- The last buffer takes something in. -/
theorem grows_concat (h : bytes (ps ++ [p]) ≤ bytes (ps ++ [q])) :
    Grows (ps ++ [p]) (ps ++ [q]) where
  length_le := by
    rw [List.length_append, List.length_append, List.length_singleton, List.length_singleton]
  bytes_le k := by
    by_cases hk : k ≤ ps.length
    · rw [List.take_append_of_le_length hk, List.take_append_of_le_length hk]
    · have hlength : ∀ r : BufferPtr, (ps ++ [r]).length ≤ k := by
        intro r
        rw [List.length_append, List.length_singleton]
        omega
      rw [List.take_of_length_le (hlength p), List.take_of_length_le (hlength q)]
      exact h

end

section

variable {log log' : AsyncLogging τ} {a : AsyncAction τ} {msg : List UInt8}

/-- The bytes that have been written and those that have not are those that were appended. -/
theorem Sound.bytes_pending (h : Sound log) :
    log.written.flatten.length + bytes log.pending = log.messages.flatten.length := by
  have hbalance := h.balance
  rw [taken] at hbalance
  rw [pending, List.append_assoc, bytes_append]
  omega

/-! ## What a step does to the buffers -/

/-- An append puts its buffer behind the others, or makes the last one longer. -/
theorem Sound.grows_append (h : Sound log) (h' : Sound log') (hok : log.append msg = .ok log') :
    Grows log.pending log'.pending := by
  obtain ⟨hmessages, hwritten, hpc, hbuffers | hbuffers⟩ := append_cases hok
  · have hbytes := h.bytes_pending
    have hbytes' := h'.bytes_pending
    rw [hmessages, hwritten, List.flatten_append, List.length_append] at hbytes'
    have hmore : bytes log.pending ≤ bytes log'.pending := by omega
    rw [pending, pending, rest_congr hpc, hbuffers] at hmore ⊢
    exact grows_concat hmore
  · have hadded := AsyncLogging.grows_append log.pending [log'.currentBuffer]
    rw [pending, List.append_assoc log.rest] at hadded
    rw [pending, pending, rest_congr hpc, hbuffers, List.append_assoc log.rest log.buffers]
    exact hadded

/-- The place of the back end stays, or it comes nearer to the swap, or it has taken all buffers
over. -/
inductive Turns (log log' : AsyncLogging τ) (a : AsyncAction τ) : Prop where
  | stays (hother : a.byBackEnd = false) (hpc : log'.pc = log.pc)
  | nears (hrest : log.rest = []) (hrest' : log'.rest = [])
      (hpaid : log'.pc.toSwap + a.byBackEnd.toNat ≤ log.pc.toSwap + a.credit)
  | swaps (hrest : log.rest = []) (hall : log'.rest.length = log.pending.length)
      (hpaid : a.byBackEnd.toNat ≤ log.pc.toSwap)

/-- What a step does that writes no buffer. -/
structure Feeds (log log' : AsyncLogging τ) (a : AsyncAction τ) : Prop where
  messages : log.messages <+: log'.messages
  written_eq : log'.written = log.written
  grows : Grows log.pending log'.pending
  turns : Turns log log' a

/-- The swap takes all buffers over and hands out an empty one. -/
theorem Sound.feeds_swapSection (h : Sound log) (hpc : log.pc = .lock ∨ log.pc = .waiting)
    (hok : log.swapSection = .ok log') : Feeds log log' a := by
  obtain ⟨next, buffer2, hswap, -⟩ := h.swapSection_ok hpc
  obtain rfl := Except.ok.inj (hswap.symm.trans hok)
  have hrest := rest_eq_nil hpc
  constructor
  · exact List.prefix_refl _
  · rfl
  · have hadded := AsyncLogging.grows_append log.pending [log.buffer1]
    rw [pending, hrest, List.nil_append] at hadded
    rw [pending, hrest, List.nil_append]
    simpa [pending, rest] using hadded
  · refine .swaps hrest ?_ (Nat.le_trans (Bool.toNat_le _) ?_)
    · rw [pending, hrest, List.nil_append]
      rfl
    · rcases hpc with hpc | hpc
      · rw [hpc]
        decide
      · rw [hpc]
        decide

/-- A step that leaves the buffers as they are. -/
theorem feeds_of_eq (hmessages : log'.messages = log.messages)
    (hwritten : log'.written = log.written) (hpending : log'.pending = log.pending)
    (hturns : Turns log log' a) : Feeds log log' a where
  messages := by rw [hmessages]
  written_eq := hwritten
  grows := by
    rw [hpending]
    exact Grows.refl _
  turns := hturns

/-- The back end moves on outside its loop over the buffers. -/
theorem feeds_of_move {pc : BackEndPc} (hrest : log.rest = [])
    (hrest' : ({ log with pc } : AsyncLogging τ).rest = [])
    (hpaid : pc.toSwap + a.byBackEnd.toNat ≤ log.pc.toSwap + a.credit)
    (hmessages : log'.messages = log.messages) (hwritten : log'.written = log.written)
    (hbuffers : log'.buffers = log.buffers) (hcurrent : log'.currentBuffer = log.currentBuffer)
    (hpc : log'.pc = pc) : Feeds log log' a := by
  have hnone : log'.rest = [] := by
    rw [← hrest', rest, rest, hpc]
  refine feeds_of_eq hmessages hwritten ?_ (.nears hrest hnone ?_)
  · rw [pending, pending, hnone, hrest, hbuffers, hcurrent]
  · rw [hpc]
    exact hpaid

/-- A step that writes no buffer leaves the first ones where they are. -/
theorem Sound.feeds [DecidableEq τ] (h : Sound log) (hne : a ≠ .writeBuffer)
    (hok : log.step a = .ok log') : Feeds log log' a := by
  cases a with
  | append msg =>
    obtain ⟨hmessages, hwritten, hpc, -⟩ := append_cases hok
    refine ⟨?_, hwritten, h.grows_append (h.of_step hok) hok, .stays rfl hpc⟩
    rw [hmessages]
    exact List.prefix_append _ _
  | start | create | begin =>
    rw [AsyncLogging.step] at hok
    split at hok
    · next hpc =>
      obtain rfl := Except.ok.inj hok
      refine feeds_of_move ?_ ?_ ?_ rfl rfl rfl rfl rfl
      · rw [rest, hpc]
      · rfl
      · rw [hpc]
        exact Nat.le_refl _
    · cases hok
  | test =>
    rw [AsyncLogging.step] at hok
    split at hok
    · next hpc =>
      obtain rfl := Except.ok.inj hok
      refine feeds_of_move ?_ ?_ ?_ rfl rfl rfl rfl rfl
      · rw [rest, hpc]
      · cases log.start with
        | true => rfl
        | false => rfl
      · rw [hpc]
        cases log.start with
        | true => exact Nat.le_refl 3
        | false => exact Nat.le_add_left 1 2
    · cases hok
  | stopCall t =>
    rw [AsyncLogging.step] at hok
    split at hok
    · split at hok
      · obtain rfl := Except.ok.inj hok
        exact feeds_of_eq rfl rfl rfl (.stays rfl rfl)
      · obtain rfl := Except.ok.inj hok
        exact feeds_of_eq rfl rfl rfl (.stays rfl rfl)
    · cases hok
  | stopClear t =>
    rw [AsyncLogging.step] at hok
    split at hok
    · obtain rfl := Except.ok.inj hok
      exact feeds_of_eq rfl rfl rfl (.stays rfl rfl)
    · cases hok
  | stopReturn t =>
    rw [AsyncLogging.step] at hok
    split at hok
    · split at hok
      · obtain rfl := Except.ok.inj hok
        exact feeds_of_eq rfl rfl rfl (.stays rfl rfl)
      · cases hok
    · cases hok
  | lock =>
    rw [AsyncLogging.step] at hok
    split at hok
    · next hpc =>
      split at hok
      · obtain rfl := Except.ok.inj hok
        refine feeds_of_move ?_ ?_ ?_ rfl rfl rfl rfl rfl
        · rw [rest, hpc]
        · rfl
        · rw [hpc]
          exact Nat.le_refl 2
      · exact h.feeds_swapSection (.inl hpc) hok
    · cases hok
  | wake =>
    rw [AsyncLogging.step] at hok
    split at hok
    · next hpc => exact h.feeds_swapSection (.inr hpc) hok
    · cases hok
  | writeBuffer => exact absurd rfl hne
  | recycle =>
    rw [AsyncLogging.step] at hok
    split at hok
    · next hpc =>
      obtain ⟨buffer1, buffer2, hrecycle, -⟩ := h.recycle_ok hpc
      obtain rfl := Except.ok.inj (hrecycle.symm.trans hok)
      refine feeds_of_move ?_ ?_ ?_ rfl rfl rfl rfl rfl
      · rw [rest, hpc]
      · rfl
      · rw [hpc]
        exact Nat.le_refl 4
    · cases hok

/-- A buffer is written: it was the first, and it has as many bytes as are written. -/
theorem Sound.writeBuffer_cases [DecidableEq τ] (h : Sound log)
    (hok : log.step .writeBuffer = .ok log') :
    ∃ p rest data, log.pc = .writing (p :: rest) ∧
      log' = { log with written := log.written ++ [data], pc := .writing rest } ∧
      data.length = bytes [p] := by
  have hbytes := h.bytes_pending
  have hbytes' := (h.of_step hok).bytes_pending
  rw [AsyncLogging.step] at hok
  split at hok
  · next p rest hpc =>
    obtain ⟨data, hwrite, -⟩ := h.writeBuffer_ok hpc
    obtain rfl := Except.ok.inj (hwrite.symm.trans hok)
    refine ⟨p, rest, data, hpc, rfl, ?_⟩
    have hrest : log.rest = p :: rest := by rw [AsyncLogging.rest, hpc]
    rw [pending, hrest, List.cons_append, List.cons_append, bytes_cons] at hbytes
    change (log.written ++ [data]).flatten.length + bytes (rest ++ log.buffers ++
      [log.currentBuffer]) = log.messages.flatten.length at hbytes'
    rw [List.flatten_append, List.length_append, List.flatten_singleton] at hbytes'
    omega
  · cases hok

/-- The back end can always go on. -/
theorem Sound.exists_backEnd_step [DecidableEq τ] (h : Sound log) (hpc : log.pc ≠ .idle) :
    ∃ a log', AsyncAction.byBackEnd a = true ∧ log.step a = .ok log' := by
  cases hplace : log.pc with
  | idle => exact absurd hplace hpc
  | starting => exact ⟨.create, _, rfl, by rw [AsyncLogging.step, hplace]⟩
  | begun => exact ⟨.begin, _, rfl, by rw [AsyncLogging.step, hplace]⟩
  | test => exact ⟨.test, _, rfl, by rw [AsyncLogging.step, hplace]⟩
  | lock =>
    by_cases hempty : log.buffers = []
    · exact ⟨.lock, _, rfl, by rw [AsyncLogging.step, hplace]; exact if_pos hempty⟩
    · obtain ⟨next, buffer2, hswap, -⟩ := h.swapSection_ok (.inl hplace)
      exact ⟨.lock, _, rfl, by rw [AsyncLogging.step, hplace]; exact (if_neg hempty).trans hswap⟩
  | waiting =>
    obtain ⟨next, buffer2, hswap, -⟩ := h.swapSection_ok (.inr hplace)
    exact ⟨.wake, _, rfl, by rw [AsyncLogging.step, hplace]; exact hswap⟩
  | writing rest =>
    cases rest with
    | nil =>
      obtain ⟨buffer1, buffer2, hrecycle, -⟩ := h.recycle_ok hplace
      exact ⟨.recycle, _, rfl, by rw [AsyncLogging.step, hplace]; exact hrecycle⟩
    | cons p rest =>
      obtain ⟨data, hwrite, -⟩ := h.writeBuffer_ok hplace
      exact ⟨.writeBuffer, _, rfl, by rw [AsyncLogging.step, hplace]; exact hwrite⟩

/-! ## Messages that wait for the first buffers -/

/-- The messages `msgs` have been appended, and the first `count` buffers, counted from the
beginning, hold them. -/
structure Awaits (msgs : List (List UInt8)) (count : ℕ) (log : AsyncLogging τ) : Prop where
  sound : Sound log
  appended : msgs <+: log.messages
  count_le : count ≤ log.written.length + log.pending.length
  covered : msgs.flatten.length ≤
    log.written.flatten.length + bytes (log.pending.take (count - log.written.length))

variable {msgs : List (List UInt8)} {count : ℕ}

/-- All messages are in the buffers there are. -/
theorem Sound.awaits (h : Sound log) :
    Awaits log.messages (log.written.length + log.pending.length) log where
  sound := h
  appended := List.prefix_refl _
  count_le := Nat.le_refl _
  covered := by
    rw [Nat.add_sub_cancel_left, List.take_length, h.bytes_pending]

/-- Once the first buffers have been written, the messages have. -/
theorem Awaits.prefix_written (h : Awaits msgs count log) (hcount : count ≤ log.written.length) :
    msgs.flatten.map some <+: log.written.flatten := by
  have hcovered := h.covered
  rw [Nat.sub_eq_zero_of_le hcount, List.take_zero] at hcovered
  have hmsgs := List.prefix_iff_eq_take.mp h.appended
  rw [hmsgs] at hcovered ⊢
  exact h.sound.prefix_written hcovered

/-- What is fed at the end is written after the messages that are awaited. -/
theorem Awaits.feed (h : Awaits msgs count log) (h' : Sound log') (hfeeds : Feeds log log' a) :
    Awaits msgs count log' := by
  have hlength := hfeeds.grows.length_le
  have hbytes := hfeeds.grows.bytes_le (count - log.written.length)
  have hcount := h.count_le
  have hcovered := h.covered
  refine ⟨h', h.appended.trans hfeeds.messages, ?_, ?_⟩
  · rw [hfeeds.written_eq]
    omega
  · rw [hfeeds.written_eq]
    omega

/-- Every step keeps the messages awaited or brings them nearer. -/
theorem Awaits.step [DecidableEq τ] (h : Awaits msgs count log) (hok : log.step a = .ok log') :
    Awaits msgs count log' := by
  have h' := h.sound.of_step hok
  by_cases hwrite : a = .writeBuffer
  · subst hwrite
    obtain ⟨p, rest, data, hpc, rfl, hdata⟩ := h.sound.writeBuffer_cases hok
    have hpending : log.pending = p :: (rest ++ log.buffers ++ [log.currentBuffer]) := by
      rw [pending, AsyncLogging.rest, hpc]
      rfl
    have hcount := h.count_le
    have hcovered := h.covered
    rw [hpending] at hcount hcovered
    refine ⟨h', h.appended, ?_, ?_⟩
    · change count ≤ (log.written ++ [data]).length +
        (rest ++ log.buffers ++ [log.currentBuffer]).length
      rw [List.length_append, List.length_singleton]
      rw [List.length_cons] at hcount
      omega
    · change msgs.flatten.length ≤ (log.written ++ [data]).flatten.length +
        bytes ((rest ++ log.buffers ++ [log.currentBuffer]).take
          (count - (log.written ++ [data]).length))
      rw [List.flatten_append, List.length_append, List.flatten_singleton, List.length_append,
        List.length_singleton, hdata]
      rcases Nat.eq_zero_or_pos (count - log.written.length) with hzero | hpos
      · rw [hzero, List.take_zero] at hcovered
        have hnil : bytes [] = 0 := rfl
        omega
      · obtain ⟨k, hk⟩ := Nat.exists_eq_add_of_lt hpos
        rw [show count - log.written.length = k + 1 by omega, List.take_succ_cons,
          bytes_cons] at hcovered
        rw [show count - (log.written.length + 1) = k by omega]
        omega
  · exact h.feed h' (h.sound.feeds hwrite hok)

/-- An own step brings the back end nearer to having written the first buffers. -/
theorem Awaits.distance_le [DecidableEq τ] (h : Awaits msgs count log)
    (hok : log.step a = .ok log') (hnot : ¬ count ≤ log'.written.length) :
    distance count log' + a.byBackEnd.toNat ≤ distance count log + a.credit := by
  by_cases hwrite : a = .writeBuffer
  · subst hwrite
    obtain ⟨p, rest, data, hpc, heq, -⟩ := h.sound.writeBuffer_cases hok
    have hrest : log.rest.length = rest.length + 1 := by
      rw [AsyncLogging.rest, hpc]
      rfl
    have hrest' : log'.rest = rest := by
      rw [heq]
      rfl
    have hwritten' : log'.written.length = log.written.length + 1 := by
      rw [heq]
      exact List.length_append
    have hplace : log'.pc.toSwap = log.pc.toSwap := by
      rw [heq, hpc]
      rfl
    have hown : (AsyncAction.writeBuffer : AsyncAction τ).byBackEnd.toNat = 1 := rfl
    rw [hwritten'] at hnot
    unfold distance
    rw [hrest, hrest', hwritten', hplace, hown]
    split_ifs
    · omega
    · omega
    · omega
    · omega
  · obtain ⟨-, hwritten, -, hturns⟩ := h.sound.feeds hwrite hok
    have hcount := h.count_le
    unfold distance
    rw [hwritten] at hnot ⊢
    cases hturns with
    | stays hother hpc =>
      rw [rest_congr hpc, hpc, hother]
      exact Nat.le_add_right _ _
    | nears hrest hrest' hpaid =>
      rw [hrest, hrest', List.length_nil, if_neg (by omega), if_neg (by omega)]
      omega
    | swaps hrest hall hpaid =>
      rw [hrest, hall, List.length_nil, if_pos hcount, if_neg (by omega)]
      omega

/-- What has been written stays. -/
theorem Sound.written_kept [DecidableEq τ] (h : Sound log) (hok : log.step a = .ok log') :
    log.written.flatten <+: log'.written.flatten := by
  by_cases hwrite : a = .writeBuffer
  · subst hwrite
    obtain ⟨p, rest, data, -, rfl, -⟩ := h.writeBuffer_cases hok
    rw [List.flatten_append]
    exact List.prefix_append _ _
  · rw [(h.feeds hwrite hok).written_eq]

/-- The back end comes nearer to having written the messages, until it has. -/
theorem nears_written [DecidableEq τ] (msgs : List (List UInt8)) (count : ℕ) :
    Nears (step (τ := τ)) AsyncAction.byBackEnd AsyncAction.credit (Awaits msgs count)
      (fun log => msgs.flatten.map some <+: log.written.flatten) (fun log => log.pc = .idle)
      (distance count) where
  keeps _ _ _ h hok := h.step hok
  stays _ _ _ h hgoal hok := hgoal.trans (h.sound.written_kept hok)
  pays _ _ _ h hok hnot :=
    h.distance_le hok fun hcount => hnot ((h.step hok).prefix_written hcount)
  moves _ h _ hshort := h.sound.exists_backEnd_step hshort

/-- All that has been appended is written five steps and one for each pending buffer later at
most. -/
theorem distance_le (log : AsyncLogging τ) :
    distance (log.written.length + log.pending.length) log ≤ log.pending.length + 5 := by
  have hswap := log.pc.toSwap_le
  unfold distance
  rw [Nat.add_sub_cancel_left]
  split_ifs
  · omega
  · omega

end

/-- In every interleaving, from every state that is reached, the messages appended so far are
written after at most as many steps of the back end as there are buffers and five more, and five
for each time that `start` is called again, however much is appended meanwhile. Only a back end
that has ended keeps them from it. -/
theorem messages_written [DecidableEq τ] (actions : List (AsyncAction τ)) :
    Always step
      (fun log => Attains step AsyncAction.byBackEnd AsyncAction.credit
        (fun log' => log.messages.flatten.map some <+: log'.written.flatten)
        (fun log' => log'.pc = .idle) (log.pending.length + 5) log)
      ({} : AsyncLogging τ) actions := by
  apply along_of_guarded Sound ?_ (fun log a log' h _ hok => h.of_step hok) sound_initial
    guarded_true
  intro before a h _ log hok
  exact (nears_written _ _).attains (h.of_step hok).awaits (distance_le log)

end AsyncLogging

end Reactor
