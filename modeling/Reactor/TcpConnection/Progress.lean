import Reactor.TcpConnection.Close
import Reactor.TcpConnection.Stall

/-!
# The progress of the output

The output of a connection is counted three times: the bytes passed to `sendInLoop`, the
cells that `writev` has accepted, and the size of the output buffer. While a callback
runs, some cells are accepted but not yet drained. An account of the output relates the
three numbers, and what keeps it over the parts of the handlers keeps it over all user
code, however deeply its callbacks are nested.
-/

namespace Reactor

open Transition

/-- The bytes that user code sends, its callbacks included. -/
def UserCode.bytes : UserCode → ℕ
  | .done => 0
  | .send message _ complete next => message.val.length + complete.bytes + next.bytes
  | .shutdown next => next.bytes
  | .drain _ next => next.bytes
  | .read _ next => next.bytes

namespace Buffer

/-- No more is offered than is asked for. -/
theorem totalLen_writeIovecLoop_le (i n : ℕ) (chains : List BufferChain) :
    totalLen (writeIovecLoop i chains n) ≤ n := by
  induction i generalizing chains n with
  | zero => simp [writeIovecLoop, totalLen]
  | succ i ih =>
    cases chains with
    | nil => simp [writeIovecLoop, totalLen]
    | cons chain next =>
      rw [writeIovecLoop]
      split
      · simp [totalLen]
      · dsimp only
        split
        · have h := ih (n - chain.room) next
          simp only [totalLen, List.map_cons, List.sum_cons] at h ⊢
          omega
        · simp [totalLen]

/-- As many cells are gathered as the vectors are long. -/
theorem length_gather {b : Buffer} {vecs : List Iovec} {cells : List Cell}
    (hok : b.gather vecs = .ok cells) : cells.length = totalLen vecs := by
  induction vecs generalizing cells with
  | nil =>
    obtain rfl := Except.ok.inj hok
    rfl
  | cons vec vecs ih =>
    obtain ⟨⟨before, chain, rest⟩, -, hok⟩ := bind_eq_ok.mp hok
    obtain ⟨first, hcopy, hok⟩ := bind_eq_ok.mp hok
    obtain ⟨others, hgather, hret⟩ := bind_eq_ok.mp hok
    obtain rfl := Except.ok.inj hret
    obtain ⟨-, rfl⟩ := ite_eq_ok.mp hcopy
    rw [List.length_append, Memory.length_read, ih hgather]
    simp [totalLen]

/-- No more cells are offered than asked for. -/
theorem length_writeIovec_le {b : Buffer} {howmuch : ℕ} {offered : List Cell}
    (hok : b.writeIovec howmuch = .ok offered) : offered.length ≤ howmuch := by
  rw [length_gather hok]
  exact totalLen_writeIovecLoop_le kNumWriteIovec howmuch b.chains

end Buffer

namespace TcpConnection

section

variable {conn conn' : TcpConnection}

/-- Stored output is counted in the buffer and in the messages. -/
theorem addOutput_counts {message : List UInt8} (hok : conn.addOutput message = .ok conn') :
    conn'.outputBuffer.totalSize = sizeAdd conn.outputBuffer.totalSize message.length ∧
      conn'.messages.length = conn.messages.length + message.length ∧
      conn'.transmitted = conn.transmitted := by
  obtain ⟨b, hadd, hret⟩ := bind_eq_ok.mp hok
  obtain rfl := Except.ok.inj hret
  exact ⟨Buffer.bufferAdd_totalSize (liftBuffer_eq_ok.mp hadd), List.length_append, rfl⟩

/-- What is transmitted is what `writev` accepts, and no more than is offered. -/
theorem writeIovec_counts {howmuch : ℕ} {answer result : Option ℕ}
    (hok : conn.writeIovec howmuch answer = .ok (conn', result)) :
    conn'.outputBuffer = conn.outputBuffer ∧ conn'.messages = conn.messages ∧
      conn'.transmitted.length = conn.transmitted.length + result.getD 0 ∧
      result.getD 0 ≤ howmuch := by
  obtain ⟨offered, hoffer, hret⟩ := bind_eq_ok.mp hok
  obtain ⟨rfl, rfl⟩ := Prod.mk.inj (Except.ok.inj hret)
  have hlen := Buffer.length_writeIovec_le (liftBuffer_eq_ok.mp hoffer)
  have hresult : (answer.map (min · offered.length)).getD 0 ≤ offered.length := by
    cases answer <;> simp
  refine ⟨rfl, rfl, ?_, by omega⟩
  rw [List.length_append, List.length_take, Nat.min_eq_left hresult]

/-- Draining takes what has been accepted out of the count. -/
theorem drainWritten_counts {result : Option ℕ} (hok : conn.drainWritten result = .ok conn') :
    conn'.outputBuffer.totalSize = conn.outputBuffer.totalSize - result.getD 0 ∧
      conn'.messages = conn.messages ∧ conn'.transmitted = conn.transmitted := by
  refine ⟨(drainWritten_eq hok).1, ?_⟩
  rcases result with _ | _ | n
  · obtain rfl := Except.ok.inj hok
    exact ⟨rfl, rfl⟩
  · obtain rfl := Except.ok.inj hok
    exact ⟨rfl, rfl⟩
  · obtain ⟨b, -, hret⟩ := bind_eq_ok.mp hok
    obtain rfl := Except.ok.inj hret
    exact ⟨rfl, rfl⟩

end

/-- The bytes that a step of the loop sends. -/
def LoopOp.bytes : LoopOp → ℕ
  | .event e => e.onMessage.bytes + e.onWriteComplete.bytes
  | .user code => code.bytes
  | .serverLoop => 0

/-- The bytes that a step of the output path sends. -/
def outputBytes : OutputOp → ℕ
  | .send message _ complete => message.val.length + complete.bytes
  | .writable _ complete => complete.bytes

/-- A property `P n k` of connections that speaks of the counts of the output, where at
most `n` bytes are still to be sent and `k` cells have been accepted but not drained. -/
structure Account (P : ℕ → ℕ → TcpConnection → Prop) : Prop where
  congr : ∀ {n k conn conn'}, P n k conn → conn'.outputBuffer = conn.outputBuffer →
    conn'.messages = conn.messages → conn'.transmitted = conn.transmitted → P n k conn'
  mono : ∀ {n n' k conn}, P n k conn → n' ≤ n → P n' k conn
  /-- A message is only stored. -/
  store : ∀ {n k conn conn'} {message : List UInt8}, P (message.length + n) k conn →
    conn.addOutput message = .ok conn' → P n k conn'
  /-- A message is written at once. -/
  write : ∀ {n k conn conn' conn''} {message : List UInt8} {answer result : Option ℕ},
    P (message.length + n) k conn → conn.outputBuffer.totalSize = 0 →
    conn.addOutput message = .ok conn' →
    conn'.writeIovec message.length answer = .ok (conn'', result) →
      P n (k + result.getD 0) conn''
  /-- What is stored is written. -/
  rewrite : ∀ {n conn conn'} {answer result : Option ℕ}, P n 0 conn →
    conn.writeIovec conn.outputBuffer.totalSize answer = .ok (conn', result) →
      P n (result.getD 0) conn'
  drain : ∀ {n k conn conn'} {result : Option ℕ}, P n (k + result.getD 0) conn →
    conn.drainWritten result = .ok conn' → P n k conn'

namespace Account

variable {P : ℕ → ℕ → TcpConnection → Prop} (hP : Account P) {n k : ℕ}
  {conn conn' : TcpConnection}

include hP

/-- `writeCompleteCallback_` runs with all cells accepted so far. -/
theorem runWriteComplete {complete : TcpConnection → Except ConnectionFault TcpConnection}
    {m : ℕ}
    (hcomplete : ∀ {n k conn conn'}, P (m + n) k conn → complete conn = .ok conn' →
      P n k conn')
    (h : P (m + n) k conn) (hok : conn.runWriteComplete complete = .ok conn') :
    P n k conn' := by
  rw [TcpConnection.runWriteComplete] at hok
  split at hok
  · refine hcomplete ?_ hok
    exact hP.congr h rfl rfl rfl
  · obtain rfl := Except.ok.inj hok
    exact hP.mono h (by omega)

/-- Sending settles the bytes that it brings. -/
theorem sendInLoop {complete : TcpConnection → Except ConnectionFault TcpConnection} {m : ℕ}
    (hcomplete : ∀ {n k conn conn'}, P (m + n) k conn → complete conn = .ok conn' →
      P n k conn')
    {message : List UInt8} {answer : Option ℕ} (h : P (message.length + m + n) k conn)
    (hok : conn.sendInLoop message answer complete = .ok conn') : P n k conn' := by
  rw [Nat.add_assoc] at h
  rw [TcpConnection.sendInLoop] at hok
  split at hok
  · next hidle =>
    obtain ⟨conn₀, hadd, hok⟩ := bind_eq_ok.mp hok
    obtain ⟨⟨conn₁, result⟩, hwrite, hok⟩ := bind_eq_ok.mp hok
    obtain ⟨conn₂, hafter, hdrain⟩ := bind_eq_ok.mp hok
    have hempty := (isIdle_iff.mp hidle).2
    have h₁ := hP.write h hempty hadd hwrite
    refine hP.drain ?_ hdrain
    rw [afterSend] at hafter
    split at hafter
    · obtain rfl := Except.ok.inj hafter
      exact hP.congr (hP.mono h₁ (by omega)) rfl rfl rfl
    · exact hP.runWriteComplete hcomplete h₁ hafter
  · exact hP.mono (hP.store h hok) (by omega)

/-- User code keeps the account, whatever is accepted and not drained. -/
theorem runUserCode (code : UserCode) (h : P (code.bytes + n) k conn)
    (hok : TcpConnection.runUserCode code conn = .ok conn') : P n k conn' := by
  induction code generalizing n k conn conn' with
  | done =>
    obtain rfl := Except.ok.inj hok
    exact hP.mono h (by omega)
  | send message written complete next ihComplete ihNext =>
    obtain ⟨conn₁, hsend, hnext⟩ := bind_eq_ok.mp hok
    rw [UserCode.bytes, Nat.add_assoc] at h
    exact ihNext (hP.sendInLoop ihComplete h hsend) hnext
  | shutdown next ih =>
    refine ih ?_ hok
    unfold shutdownInLoop
    split
    · exact hP.congr h rfl rfl rfl
    · exact h
  | drain n next ih =>
    obtain ⟨b, -, hnext⟩ := bind_eq_ok.mp hok
    refine ih ?_ hnext
    exact hP.congr h rfl rfl rfl
  | read n next ih =>
    obtain ⟨⟨b, data⟩, -, hnext⟩ := bind_eq_ok.mp hok
    refine ih ?_ hnext
    exact hP.congr h rfl rfl rfl

/-- A writable event settles the bytes that its user code brings. -/
theorem handleWrite {answer : Option ℕ} {complete : UserCode}
    (h : P (complete.bytes + n) 0 conn) (hok : conn.handleWrite answer complete = .ok conn') :
    P n 0 conn' := by
  rw [TcpConnection.handleWrite] at hok
  split at hok
  · obtain ⟨⟨conn₁, result⟩, hwrite, hok⟩ := bind_eq_ok.mp hok
    obtain ⟨conn₂, hafter, hdrain⟩ := bind_eq_ok.mp hok
    have h₁ := hP.rewrite h hwrite
    rw [← Nat.zero_add (result.getD 0)] at h₁
    refine hP.drain ?_ hdrain
    rw [afterWrite] at hafter
    split at hafter
    · refine hP.runWriteComplete (hP.runUserCode complete) ?_ hafter
      exact hP.congr h₁ rfl rfl rfl
    · obtain rfl := Except.ok.inj hafter
      exact hP.mono h₁ (by omega)
  · obtain rfl := Except.ok.inj hok
    exact hP.mono h (by omega)

/-- An operation settles the bytes that it brings. -/
theorem outputStep {op : OutputOp} (h : P (outputBytes op + n) 0 conn)
    (hok : conn.outputStep op = .ok conn') : P n 0 conn' := by
  cases op with
  | send message written complete => exact hP.sendInLoop (hP.runUserCode complete) h hok
  | writable written complete => exact hP.handleWrite h hok

/-- A readable event settles the bytes that its user code brings. -/
theorem handleRead {pending : ℕ} {socket : Option (List UInt8)} {onMessage : UserCode}
    (h : P (onMessage.bytes + n) k conn)
    (hok : conn.handleRead pending socket onMessage = .ok conn') : P n k conn' := by
  obtain ⟨⟨inputBuffer, m⟩, -, hok⟩ := bind_eq_ok.mp hok
  dsimp only at hok
  split at hok
  · refine hP.runUserCode onMessage ?_ hok
    exact hP.congr h rfl rfl rfl
  · obtain ⟨server, -, hret⟩ := bind_eq_ok.mp hok
    obtain rfl := Except.ok.inj hret
    exact hP.congr (hP.mono h (by omega)) rfl rfl rfl

/-- An event settles the bytes that its user code brings. -/
theorem handlerEvent {e : EventInput}
    (h : P (e.onMessage.bytes + e.onWriteComplete.bytes + n) 0 conn)
    (hok : conn.handlerEvent e = .ok conn') : P n 0 conn' := by
  rw [Nat.add_assoc] at h
  obtain ⟨conn₁, hclose, hok⟩ := bind_eq_ok.mp hok
  obtain ⟨conn₂, hread, hok⟩ := bind_eq_ok.mp hok
  have h₁ : P (e.onMessage.bytes + (e.onWriteComplete.bytes + n)) 0 conn₁ := by
    -- neither `handleError` nor `handleClose` touches the output
    split at hclose
    · obtain ⟨server, -, hret⟩ := bind_eq_ok.mp hclose
      obtain rfl := Except.ok.inj hret
      split
      · exact hP.congr h rfl rfl rfl
      · exact hP.congr h rfl rfl rfl
    · obtain rfl := Except.ok.inj hclose
      split
      · exact hP.congr h rfl rfl rfl
      · exact hP.congr h rfl rfl rfl
  have h₂ : P (e.onWriteComplete.bytes + n) 0 conn₂ := by
    split at hread
    · exact hP.handleRead h₁ hread
    · obtain rfl := Except.ok.inj hread
      exact hP.mono h₁ (by omega)
  split at hok
  · exact hP.handleWrite h₂ hok
  · obtain rfl := Except.ok.inj hok
    exact hP.mono h₂ (by omega)

/-- A step of the loop settles the bytes that it brings. -/
theorem loopStep {op : LoopOp} (h : P (op.bytes + n) 0 conn) (hok : conn.loopStep op = .ok conn') :
    P n 0 conn' := by
  cases op with
  | event e =>
    rw [TcpConnection.loopStep] at hok
    split at hok
    · obtain rfl := Except.ok.inj hok
      exact hP.mono h (by omega)
    · exact hP.handlerEvent h hok
  | user code => exact hP.runUserCode code h hok
  | serverLoop =>
    obtain ⟨server, -, hret⟩ := bind_eq_ok.mp hok
    obtain rfl := Except.ok.inj hret
    exact hP.congr (hP.mono h (by omega)) rfl rfl rfl

end Account

/-! ## Two accounts -/

/-- What is accepted has been passed in, and so has what is stored, apart from the cells
that are accepted but not drained. -/
structure Progress (k : ℕ) (conn : TcpConnection) : Prop where
  accepted_le : conn.transmitted.length ≤ conn.messages.length
  size_le : conn.outputBuffer.totalSize + conn.transmitted.length ≤ conn.messages.length + k

/-- The size of the output buffer, which no later message makes wrap, counts every byte
that has not been drained. -/
structure Exact (n k : ℕ) (conn : TcpConnection) : Prop where
  size_lt : conn.outputBuffer.totalSize + n < 2 ^ 64
  counted : conn.messages.length + k = conn.transmitted.length + conn.outputBuffer.totalSize
  undrained_le : k ≤ conn.outputBuffer.totalSize

/-- Progress is an account that ignores the bytes to come. -/
theorem account_progress : Account fun _ => Progress where
  congr h hbuffer hmessages htransmitted := by
    obtain ⟨h₁, h₂⟩ := h
    exact ⟨by rwa [hmessages, htransmitted], by rwa [hbuffer, hmessages, htransmitted]⟩
  mono h _ := h
  store h hok := by
    obtain ⟨hsize, hmessages, htransmitted⟩ := addOutput_counts hok
    obtain ⟨h₁, h₂⟩ := h
    rw [sizeAdd] at hsize
    rw [← htransmitted] at h₁ h₂
    exact ⟨by omega, by omega⟩
  write h hempty hadd hwrite := by
    obtain ⟨hsize, hmessages, htransmitted⟩ := addOutput_counts hadd
    obtain ⟨hbuffer, hmessages', haccepted, hle⟩ := writeIovec_counts hwrite
    obtain ⟨h₁, h₂⟩ := h
    rw [hempty, sizeAdd] at hsize
    rw [htransmitted] at haccepted
    rw [← hmessages'] at hmessages
    rw [← hbuffer] at hsize
    exact ⟨by omega, by omega⟩
  rewrite h hwrite := by
    obtain ⟨hbuffer, hmessages, haccepted, hle⟩ := writeIovec_counts hwrite
    obtain ⟨h₁, h₂⟩ := h
    rw [← hmessages] at h₁ h₂
    rw [← hbuffer] at h₂ hle
    exact ⟨by omega, by omega⟩
  drain h hok := by
    obtain ⟨hsize, hmessages, htransmitted⟩ := drainWritten_counts hok
    obtain ⟨h₁, h₂⟩ := h
    rw [← hmessages, ← htransmitted] at h₁ h₂
    exact ⟨by omega, by omega⟩

section

variable {conn conn' : TcpConnection} {k : ℕ}

/-- Progress is a matter of three fields. -/
theorem Progress.congr (h : conn.Progress k) (hbuffer : conn'.outputBuffer = conn.outputBuffer)
    (hmessages : conn'.messages = conn.messages)
    (htransmitted : conn'.transmitted = conn.transmitted) : conn'.Progress k :=
  account_progress.congr (n := 0) h hbuffer hmessages htransmitted

/-- User code keeps the progress. -/
theorem Progress.runUserCode (h : conn.Progress k) (code : UserCode)
    (hok : TcpConnection.runUserCode code conn = .ok conn') : conn'.Progress k :=
  account_progress.runUserCode (n := 0) code h hok

/-- Sending keeps the progress. -/
theorem Progress.sendInLoop (h : conn.Progress k) {message : List UInt8} {answer : Option ℕ}
    {complete : UserCode}
    (hok : conn.sendInLoop message answer (TcpConnection.runUserCode complete) = .ok conn') :
    conn'.Progress k :=
  account_progress.sendInLoop (n := 0) (m := 0) (fun h => h.runUserCode complete) h hok

/-- Between the steps nothing is accepted that is not drained. -/
theorem Progress.outputStep (h : conn.Progress 0) {op : OutputOp}
    (hok : conn.outputStep op = .ok conn') : conn'.Progress 0 :=
  account_progress.outputStep (n := 0) h hok

end

/-- The exact count is an account of the bytes to come. -/
theorem account_exact : Account Exact where
  congr h hbuffer hmessages htransmitted := by
    obtain ⟨h₁, h₂, h₃⟩ := h
    exact ⟨by rwa [hbuffer], by rwa [hbuffer, hmessages, htransmitted], by rwa [hbuffer]⟩
  mono h hle := ⟨by have := h.size_lt; omega, h.counted, h.undrained_le⟩
  store h hok := by
    obtain ⟨hsize, hmessages, htransmitted⟩ := addOutput_counts hok
    obtain ⟨hlt, hcounted, hle⟩ := h
    rw [sizeAdd_of_lt (by omega)] at hsize
    rw [← htransmitted] at hcounted
    exact ⟨by omega, by omega, by omega⟩
  write h hempty hadd hwrite := by
    obtain ⟨hsize, hmessages, htransmitted⟩ := addOutput_counts hadd
    obtain ⟨hbuffer, hmessages', haccepted, hle⟩ := writeIovec_counts hwrite
    obtain ⟨hlt, hcounted, hk⟩ := h
    rw [hempty, sizeAdd_of_lt (by omega)] at hsize
    rw [htransmitted] at haccepted
    rw [← hmessages'] at hmessages
    rw [← hbuffer] at hsize
    exact ⟨by omega, by omega, by omega⟩
  rewrite h hwrite := by
    obtain ⟨hbuffer, hmessages, haccepted, hle⟩ := writeIovec_counts hwrite
    obtain ⟨hlt, hcounted, -⟩ := h
    rw [← hbuffer] at hlt hcounted hle
    rw [← hmessages] at hcounted
    exact ⟨hlt, by omega, hle⟩
  drain h hok := by
    obtain ⟨hsize, hmessages, htransmitted⟩ := drainWritten_counts hok
    obtain ⟨hlt, hcounted, hle⟩ := h
    rw [← hmessages, ← htransmitted] at hcounted
    exact ⟨by omega, by omega, by omega⟩

end TcpConnection

end Reactor
