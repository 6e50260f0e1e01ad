import Reactor.Buffer.Add
import Reactor.TcpConnection.Basic

/-!
# A read that fails

`bufferRead` keeps the result of `readv` in a `size_t`, so that the test `n < 0` never
holds: a failed read is counted as `2 ^ 64 - 1` bytes, and `handleRead`, which keeps the
result in a `size_t` too, passes the buffer to `messageCallback_`.
-/

namespace Reactor

open Transition

namespace Buffer

/-- A failed read leaves the size, the data of each chain and the stored bytes as they
are. -/
def FailedReadUnchanged (b : Buffer) (pending : ℕ) : Prop :=
  ∃ b' k, b.bufferReadFd pending none = .ok (b', k) ∧ b'.totalSize = b.totalSize ∧
    (b'.chains.map BufferChain.off).take b.chains.length = b.chains.map BufferChain.off ∧
    b'.stored = b.stored

/-- Expanding counts no byte. -/
theorem bufferExpandFast_totalSize {b b' : Buffer} {n : ℕ} (hok : b.bufferExpandFast n = .ok b') :
    b'.totalSize = b.totalSize := by
  rw [bufferExpandFast] at hok
  split at hok
  · obtain ⟨chain, -, hok⟩ := bind_eq_ok.mp hok
    rw [bufferInsertChain_totalSize hok]
  · obtain ⟨⟨before, rest⟩, -, hok⟩ := bind_eq_ok.mp hok
    dsimp only at hok
    generalize expandLoop n rest 0 0 = looped at hok
    obtain ⟨rest, outcome⟩ := looped
    cases outcome with
    | none =>
      obtain rfl := Except.ok.inj hok
      rfl
    | some result =>
      dsimp only at hok
      split at hok
      · obtain ⟨chain, -, hok⟩ := bind_eq_ok.mp hok
        obtain rfl := Except.ok.inj hok
        rfl
      · cases rest with
        | nil => cases hok
        | cons chain next =>
          obtain ⟨-, -, hok⟩ := bind_eq_ok.mp hok
          obtain ⟨new, -, hok⟩ := bind_eq_ok.mp hok
          obtain rfl := Except.ok.inj hok
          rfl

/-- Reading into the buffer leaves the count to the caller. -/
theorem readv_totalSize {b b' : Buffer} {vecs : List Iovec} {data : List Cell}
    (hok : b.readv vecs data = .ok b') : b'.totalSize = b.totalSize := by
  induction vecs generalizing b data with
  | nil =>
    obtain rfl := Except.ok.inj hok
    rfl
  | cons vec vecs ih =>
    obtain ⟨⟨before, chain, rest⟩, -, hok⟩ := bind_eq_ok.mp hok
    obtain ⟨chain', -, hok⟩ := bind_eq_ok.mp hok
    rw [ih hok]

/-- `bufferRead(int)` counts the result of `readv`, whatever it is. -/
theorem bufferReadFd_totalSize {b b' : Buffer} {pending k : ℕ} {socket : Option (List UInt8)}
    (hok : b.bufferReadFd pending socket = .ok (b', k)) :
    b'.totalSize = sizeAdd b.totalSize k ∧ (socket = none → k = ssizeToSize none) := by
  obtain ⟨b₁, hexpand, hok⟩ := bind_eq_ok.mp hok
  obtain ⟨vecs, -, hok⟩ := bind_eq_ok.mp hok
  obtain ⟨b₂, hreadv, hok⟩ := bind_eq_ok.mp hok
  obtain ⟨⟨before, chains⟩, -, hok⟩ := bind_eq_ok.mp hok
  obtain ⟨⟨chains', slot⟩, -, hok⟩ := bind_eq_ok.mp hok
  obtain ⟨rfl, rfl⟩ := Prod.mk.inj (Except.ok.inj hok)
  refine ⟨?_, ?_⟩
  · dsimp only
    rw [readv_totalSize hreadv, bufferExpandFast_totalSize hexpand]
  · rintro rfl
    rfl

end Buffer

namespace TcpConnection

/-- After a failed read `handleRead` invokes `handleError` and no other callback. -/
def ReportsError (conn : TcpConnection) (pending : ℕ) (onMessage : UserCode) : Prop :=
  ∃ conn', conn.handleRead pending none onMessage = .ok conn' ∧
    conn'.invoked = conn.invoked ++ [.error]

/-! ## The history of callbacks grows -/

/-- Storing output calls nobody. -/
theorem addOutput_invoked {conn conn' : TcpConnection} {message : List UInt8}
    (hok : conn.addOutput message = .ok conn') : conn'.invoked = conn.invoked := by
  obtain ⟨b, -, hret⟩ := bind_eq_ok.mp hok
  obtain rfl := Except.ok.inj hret
  rfl

/-- Writing calls nobody. -/
theorem writeIovec_invoked {conn conn' : TcpConnection} {howmuch : ℕ} {answer result : Option ℕ}
    (hok : conn.writeIovec howmuch answer = .ok (conn', result)) :
    conn'.invoked = conn.invoked := by
  obtain ⟨offered, -, hret⟩ := bind_eq_ok.mp hok
  obtain ⟨rfl, -⟩ := Prod.mk.inj (Except.ok.inj hret)
  rfl

/-- Draining calls nobody. -/
theorem drainWritten_invoked {conn conn' : TcpConnection} {result : Option ℕ}
    (hok : conn.drainWritten result = .ok conn') : conn'.invoked = conn.invoked := by
  rcases result with _ | _ | n
  · obtain rfl := Except.ok.inj hok
    rfl
  · obtain rfl := Except.ok.inj hok
    rfl
  · obtain ⟨b, -, hret⟩ := bind_eq_ok.mp hok
    obtain rfl := Except.ok.inj hret
    rfl

/-- Callbacks that have been called while sending stay called. -/
theorem sendInLoop_invoked {complete : TcpConnection → Except ConnectionFault TcpConnection}
    (hcomplete : ∀ {conn conn' : TcpConnection}, complete conn = .ok conn' →
      conn.invoked <+: conn'.invoked)
    {conn conn' : TcpConnection} {message : List UInt8} {answer : Option ℕ}
    (hok : conn.sendInLoop message answer complete = .ok conn') :
    conn.invoked <+: conn'.invoked := by
  rw [sendInLoop] at hok
  split at hok
  · obtain ⟨conn₀, hadd₀, hok⟩ := bind_eq_ok.mp hok
    obtain ⟨⟨conn₁, result⟩, hwrite, hok⟩ := bind_eq_ok.mp hok
    obtain ⟨conn₂, hafter, hdrain⟩ := bind_eq_ok.mp hok
    rw [drainWritten_invoked hdrain, ← addOutput_invoked hadd₀, ← writeIovec_invoked hwrite]
    rw [afterSend] at hafter
    split at hafter
    · obtain rfl := Except.ok.inj hafter
      exact List.prefix_rfl
    · rw [runWriteComplete] at hafter
      split at hafter
      · exact (List.prefix_append _ _).trans (hcomplete hafter)
      · obtain rfl := Except.ok.inj hafter
        exact List.prefix_rfl
  · rw [addOutput_invoked hok]

/-- Callbacks that user code has led to stay called. -/
theorem runUserCode_invoked (code : UserCode) {conn conn' : TcpConnection}
    (hok : runUserCode code conn = .ok conn') : conn.invoked <+: conn'.invoked := by
  induction code generalizing conn conn' with
  | done =>
    obtain rfl := Except.ok.inj hok
    exact List.prefix_rfl
  | send message written complete next ihComplete ihNext =>
    obtain ⟨conn₁, hsend, hnext⟩ := bind_eq_ok.mp hok
    exact (sendInLoop_invoked ihComplete hsend).trans (ihNext hnext)
  | shutdown next ih =>
    have hsame : conn.shutdownInLoop.invoked = conn.invoked := by
      unfold shutdownInLoop
      split <;> rfl
    exact hsame ▸ ih hok
  | drain n next ih =>
    obtain ⟨b, -, hnext⟩ := bind_eq_ok.mp hok
    have hprefix := ih hnext
    exact hprefix
  | read n next ih =>
    obtain ⟨⟨b, data⟩, -, hnext⟩ := bind_eq_ok.mp hok
    have hprefix := ih hnext
    exact hprefix

/-! ## No read fails without a trace -/

/-- For no buffer does a failed read leave everything as it is, and for no connection does
`handleRead` then report an error. -/
theorem failedRead_never (b : Buffer) (conn : TcpConnection) (pending : ℕ)
    (onMessage : UserCode) :
    ¬ b.FailedReadUnchanged pending ∧ ¬ conn.ReportsError pending onMessage := by
  constructor
  · rintro ⟨b', k, hok, htotal, -, -⟩
    obtain ⟨hsize, hk⟩ := Buffer.bufferReadFd_totalSize hok
    rw [htotal, hk rfl, ssizeToSize, sizeAdd] at hsize
    omega
  · rintro ⟨conn', hok, hinvoked⟩
    obtain ⟨⟨b, k⟩, hread, hok⟩ := bind_eq_ok.mp hok
    obtain ⟨-, hk⟩ := Buffer.bufferReadFd_totalSize (liftBuffer_eq_ok.mp hread)
    have hpos : 0 < k := by
      rw [hk rfl, ssizeToSize]
      norm_num
    dsimp only at hok
    rw [if_pos hpos] at hok
    -- the message callback stands where the error should
    have hprefix := runUserCode_invoked onMessage hok
    rw [hinvoked] at hprefix
    obtain ⟨rest, hrest⟩ := hprefix
    simp only [invoke, List.append_assoc, List.append_cancel_left_eq] at hrest
    simp at hrest

/-- A failed read of five pending bytes makes an empty buffer count `2 ^ 64 - 1` bytes,
and the connection passes it to `messageCallback_`. -/
theorem failedRead_of_five :
    (({} : Buffer).bufferReadFd 5 none).map (fun r => r.1.totalSize) = .ok (2 ^ 64 - 1) ∧
      ¬ ({} : Buffer).FailedReadUnchanged 5 ∧
      ¬ (established "" 3 false).ReportsError 5 .done := by
  have hsize : (({} : Buffer).bufferReadFd 5 none).map (fun r => r.1.totalSize) =
      .ok (2 ^ 64 - 1) := by
    decide +kernel
  refine ⟨hsize, ?_, ?_⟩
  · rintro ⟨b, k, hok, htotal, -, -⟩
    rw [hok, Except.map] at hsize
    exact absurd (htotal.symm.trans (Except.ok.inj hsize)) (by decide)
  · rintro ⟨conn, hok, hinvoked⟩
    have hcode : ((established "" 3 false).handleRead 5 none .done).map
        (fun conn => conn.invoked) = .ok [.message] := by
      decide +kernel
    rw [hok, Except.map, hinvoked] at hcode
    exact absurd (Except.ok.inj hcode) (by decide)

end TcpConnection

end Reactor
