import Reactor.Buffer.Add
import Reactor.TcpConnection.Basic

/-!
# Stalled output

Output is stalled when bytes are stored and the channel does not watch for writing: no
writable event comes, and every later `sendInLoop` only adds to the buffer. `sendInLoop`
takes a failed `writev` for a complete one, and both handlers run
`writeCompleteCallback_` before the bytes written have been drained, so that what the
callback sends is only stored. A run without these two cases never stalls.
-/

namespace Reactor

open Transition

/-- The number of bytes that user code sends itself. -/
def UserCode.payload : UserCode → ℕ
  | .done => 0
  | .send message _ _ next => message.val.length + next.payload
  | .shutdown next => next.payload
  | .drain _ next => next.payload
  | .read _ next => next.payload

namespace TcpConnection

/-- Bytes that are stored have a writable event to come. -/
def NoStall (conn : TcpConnection) : Prop :=
  conn.outputBuffer.totalSize ≠ 0 → conn.channel.isWriting = true

/-- All bytes are written, and then `writeCompleteCallback_` sends none. -/
def QuietCompletion (conn : TcpConnection) (howmuch : ℕ) (written : Option ℕ)
    (complete : UserCode) : Prop :=
  conn.writeCompleteCallback = true → (∃ n, written = some n ∧ howmuch ≤ n) → complete.payload = 0

/-- `sendInLoop` does not stall. If it writes a message, `writev` must not fail, and a
completion must be quiet. If the message is empty, `flows` must hold of the state in
which `writeCompleteCallback_` is run. -/
def SendFlows (conn : TcpConnection) (message : Message) (written : Option ℕ)
    (complete : UserCode) (flows : TcpConnection → Prop) : Prop :=
  conn.isIdle = true →
    if message.val.length = 0 then
      conn.writeCompleteCallback = true → ∀ conn₁ conn₂ result,
        conn.addOutput message.val = .ok conn₁ →
        conn₁.writeIovec message.val.length written = .ok (conn₂, result) →
          flows (conn₂.invoke .writeComplete)
    else written ≠ none ∧ conn.QuietCompletion message.val.length written complete

/-- No `send` of the code stalls. -/
def CodeFlows : UserCode → TcpConnection → Prop
  | .done, _ => True
  | .send message written complete next, conn =>
    conn.SendFlows message written complete (CodeFlows complete) ∧
      ∀ conn', conn.sendInLoop message.val written (runUserCode complete) = .ok conn' →
        CodeFlows next conn'
  | .shutdown next, conn => CodeFlows next conn.shutdownInLoop
  | .drain n next, conn =>
    ∀ inputBuffer, conn.inputBuffer.bufferDrain n = .ok inputBuffer →
      CodeFlows next { conn with inputBuffer }
  | .read n next, conn =>
    ∀ inputBuffer data, conn.inputBuffer.bufferRead n = .ok (inputBuffer, data) →
      CodeFlows next { conn with inputBuffer }

/-- A step does not stall. A failed `writev` of `handleWrite` does no harm unless its
result, as a `size_t`, is the size of the buffer. -/
def OutputFlows (conn : TcpConnection) : OutputOp → Prop
  | .send message written complete =>
    conn.SendFlows message written complete (CodeFlows complete)
  | .writable written complete =>
    conn.channel.isWriting = true → conn.outputBuffer.totalSize ≠ 0 →
      (written = none → conn.outputBuffer.totalSize ≠ ssizeToSize none) ∧
        conn.QuietCompletion conn.outputBuffer.totalSize written complete

/-- The states between steps. -/
structure Flowing (conn : TcpConnection) : Prop where
  size_lt : conn.outputBuffer.totalSize < 2 ^ 64
  noStall : conn.NoStall

section

variable {conn conn' : TcpConnection}

/-! ## The parts of the handlers -/

/-- An idle connection neither waits to write nor has anything to write. -/
theorem isIdle_iff : conn.isIdle = true ↔
    conn.channel.isWriting = false ∧ conn.outputBuffer.totalSize = 0 := by
  simp [isIdle]

/-- Storing output enables nothing. -/
theorem addOutput_eq {message : List UInt8} (hok : conn.addOutput message = .ok conn') :
    conn'.outputBuffer.totalSize = sizeAdd conn.outputBuffer.totalSize message.length ∧
      conn'.channel = conn.channel ∧ conn'.writeCompleteCallback = conn.writeCompleteCallback := by
  obtain ⟨b, hadd, hret⟩ := bind_eq_ok.mp hok
  obtain rfl := Except.ok.inj hret
  exact ⟨Buffer.bufferAdd_totalSize (liftBuffer_eq_ok.mp hadd), rfl, rfl⟩

/-- Writing enables nothing, and accepts no more than the answer says. -/
theorem writeIovec_eq {howmuch : ℕ} {answer result : Option ℕ}
    (hok : conn.writeIovec howmuch answer = .ok (conn', result)) :
    conn'.outputBuffer = conn.outputBuffer ∧ conn'.channel = conn.channel ∧
      conn'.writeCompleteCallback = conn.writeCompleteCallback ∧
      (result = none → answer = none) ∧ ∀ k, result = some k → ∃ n, answer = some n ∧ k ≤ n := by
  obtain ⟨offered, -, hret⟩ := bind_eq_ok.mp hok
  obtain ⟨rfl, rfl⟩ := Prod.mk.inj (Except.ok.inj hret)
  refine ⟨rfl, rfl, rfl, Option.map_eq_none_iff.mp, fun k hk => ?_⟩
  obtain ⟨n, hn, rfl⟩ := Option.map_eq_some_iff.mp hk
  exact ⟨n, hn, Nat.min_le_left ..⟩

/-- The drain behind a write. -/
theorem drainWritten_eq {result : Option ℕ} (hok : conn.drainWritten result = .ok conn') :
    conn'.outputBuffer.totalSize = conn.outputBuffer.totalSize - result.getD 0 ∧
      conn'.channel = conn.channel := by
  rcases result with _ | _ | n
  · obtain rfl := Except.ok.inj hok
    exact ⟨rfl, rfl⟩
  · obtain rfl := Except.ok.inj hok
    exact ⟨rfl, rfl⟩
  · obtain ⟨b, hdrain, hret⟩ := bind_eq_ok.mp hok
    obtain rfl := Except.ok.inj hret
    exact ⟨Buffer.bufferDrain_totalSize (liftBuffer_eq_ok.mp hdrain), rfl⟩

/-- Changes outside the output path. -/
theorem Flowing.congr (h : conn.Flowing) (hbuffer : conn'.outputBuffer = conn.outputBuffer)
    (hchannel : conn'.channel = conn.channel) : conn'.Flowing where
  size_lt := hbuffer ▸ h.size_lt
  noStall := by
    rw [NoStall, hbuffer, hchannel]
    exact h.noStall

/-- Draining keeps the output flowing. -/
theorem Flowing.drainWritten (h : conn.Flowing) {result : Option ℕ}
    (hok : conn.drainWritten result = .ok conn') : conn'.Flowing := by
  obtain ⟨hsize, hchannel⟩ := drainWritten_eq hok
  have hlt := h.size_lt
  refine ⟨by omega, fun hne => ?_⟩
  rw [hchannel]
  exact h.noStall (by omega)

/-- A drain of all that is stored. -/
theorem flowing_of_drained {result : Option ℕ} (hle : conn.outputBuffer.totalSize ≤ result.getD 0)
    (hok : conn.drainWritten result = .ok conn') : conn'.Flowing := by
  obtain ⟨hsize, -⟩ := drainWritten_eq hok
  exact ⟨by omega, fun hne => absurd hsize (by omega)⟩

/-- Output that is stored while some is waiting flows with it. -/
theorem Flowing.addOutput (h : conn.Flowing) (hidle : ¬ conn.isIdle = true) {message : List UInt8}
    (hok : conn.addOutput message = .ok conn') : conn'.Flowing := by
  obtain ⟨hsize, hchannel, -⟩ := addOutput_eq hok
  have hlt := sizeAdd_lt conn.outputBuffer.totalSize message.length
  refine ⟨by omega, fun _ => ?_⟩
  rw [hchannel]
  by_contra hwriting
  have hempty : conn.outputBuffer.totalSize = 0 := by
    by_contra hne
    exact hwriting (h.noStall hne)
  exact hidle (by simp [isIdle, hwriting, hempty])

/-- Code that sends no bytes leaves the output alone while bytes are stored. -/
theorem runUserCode_of_payload_eq_zero (code : UserCode) (hpayload : code.payload = 0)
    (hne : conn.outputBuffer.totalSize ≠ 0) (hlt : conn.outputBuffer.totalSize < 2 ^ 64)
    (hok : runUserCode code conn = .ok conn') :
    conn'.outputBuffer.totalSize = conn.outputBuffer.totalSize := by
  induction code generalizing conn with
  | done =>
    obtain rfl := Except.ok.inj hok
    rfl
  | send message written complete next _ ih =>
    obtain ⟨conn₁, hsend, hnext⟩ := bind_eq_ok.mp hok
    have hlen : message.val.length = 0 ∧ next.payload = 0 := by
      simpa [UserCode.payload] using hpayload
    have hidle : ¬ conn.isIdle = true := by simp [isIdle, hne]
    rw [sendInLoop, if_neg hidle] at hsend
    obtain ⟨hsize, -, -⟩ := addOutput_eq hsend
    rw [hlen.1, sizeAdd_zero hlt] at hsize
    rw [ih hlen.2 (by omega) (by omega) hnext, hsize]
  | shutdown next ih =>
    have hsame : conn.shutdownInLoop.outputBuffer = conn.outputBuffer := by
      unfold shutdownInLoop
      split <;> rfl
    rw [ih hpayload (by rwa [hsame]) (by rwa [hsame]) hok, hsame]
  | drain n next ih =>
    obtain ⟨b, -, hnext⟩ := bind_eq_ok.mp hok
    refine (ih hpayload ?_ ?_ hnext).trans rfl
    · exact hne
    · exact hlt
  | read n next ih =>
    obtain ⟨⟨b, data⟩, -, hnext⟩ := bind_eq_ok.mp hok
    refine (ih hpayload ?_ ?_ hnext).trans rfl
    · exact hne
    · exact hlt

/-! ## The handlers -/

/-- `writeCompleteCallback_` runs while bytes that have been written are still stored; if
it sends none, the drain behind it removes all that is stored. -/
theorem flowing_of_quietCompletion {conn₁ conn₂ : TcpConnection} {answer result : Option ℕ}
    {howmuch : ℕ} {complete : UserCode} (hquiet : conn₁.QuietCompletion howmuch answer complete)
    (hsize : conn₁.outputBuffer.totalSize = howmuch) (hne : howmuch ≠ 0) (hlt : howmuch < 2 ^ 64)
    {k : ℕ} (hresult : result = some k) (hle : howmuch ≤ k)
    (hanswer : ∃ n, answer = some n ∧ k ≤ n)
    (hrun : conn₁.runWriteComplete (runUserCode complete) = .ok conn₂)
    (hdrain : conn₂.drainWritten result = .ok conn') : conn'.Flowing := by
  have hsame : conn₂.outputBuffer.totalSize = howmuch := by
    rw [runWriteComplete] at hrun
    split at hrun
    · next hset =>
      obtain ⟨n, hn, hkn⟩ := hanswer
      have hpayload := hquiet hset ⟨n, hn, hle.trans hkn⟩
      refine (runUserCode_of_payload_eq_zero complete hpayload ?_ ?_ hrun).trans hsize
      · exact hsize ▸ hne
      · exact hsize ▸ hlt
    · obtain rfl := Except.ok.inj hrun
      exact hsize
  refine flowing_of_drained ?_ hdrain
  rw [hsame, hresult]
  exact hle

/-- `sendInLoop` keeps output flowing if its callback does. -/
theorem Flowing.sendInLoop (h : conn.Flowing) {message : Message} {written : Option ℕ}
    {complete : UserCode}
    (hcomplete : ∀ {conn conn' : TcpConnection}, conn.CodeFlows complete → conn.Flowing →
      runUserCode complete conn = .ok conn' → conn'.Flowing)
    (hflows : conn.SendFlows message written complete (CodeFlows complete))
    (hok : conn.sendInLoop message.val written (runUserCode complete) = .ok conn') :
    conn'.Flowing := by
  by_cases hidle : conn.isIdle = true
  · rw [TcpConnection.sendInLoop, if_pos hidle] at hok
    obtain ⟨conn₀, hadd, hok⟩ := bind_eq_ok.mp hok
    obtain ⟨⟨conn₁, result⟩, hwrite, hok⟩ := bind_eq_ok.mp hok
    obtain ⟨conn₂, hafter, hdrain⟩ := bind_eq_ok.mp hok
    have hzero := (isIdle_iff.mp hidle).2
    obtain ⟨hsize, -, hcallback⟩ := addOutput_eq hadd
    obtain ⟨hbuffer, -, hcallback', hnone, hsome⟩ := writeIovec_eq hwrite
    rw [hzero, sizeAdd_of_lt (by have := message.property; omega), Nat.zero_add] at hsize
    have hsize₁ : conn₁.outputBuffer.totalSize = message.val.length := by rw [hbuffer, hsize]
    have hlt₁ : conn₁.outputBuffer.totalSize < 2 ^ 64 := hsize₁ ▸ message.property
    have hflows := hflows hidle
    rw [afterSend] at hafter
    split at hafter
    · obtain rfl := Except.ok.inj hafter
      have hflowing : Flowing { conn₁ with channel := conn₁.channel.enableWriting } :=
        ⟨hlt₁, fun _ => Channel.isWriting_enableWriting _⟩
      exact hflowing.drainWritten hdrain
    · next hfull =>
      by_cases hlen : message.val.length = 0
      · rw [if_pos hlen] at hflows
        have hflowing : conn₁.Flowing := ⟨hlt₁, fun hne => absurd (hsize₁.trans hlen) hne⟩
        rw [runWriteComplete] at hafter
        split at hafter
        · next hset =>
          rw [hcallback', hcallback] at hset
          exact (hcomplete (hflows hset conn₀ conn₁ result hadd hwrite)
            (hflowing.congr rfl rfl) hafter).drainWritten hdrain
        · obtain rfl := Except.ok.inj hafter
          exact hflowing.drainWritten hdrain
      · rw [if_neg hlen] at hflows
        obtain ⟨hwritten, hquiet⟩ := hflows
        cases result with
        | none => exact absurd (hnone rfl) hwritten
        | some k =>
          exact flowing_of_quietCompletion
            (fun hset => hquiet (by rwa [hcallback', hcallback] at hset)) hsize₁ hlen
            message.property rfl (Nat.not_lt.mp hfull) (hsome k rfl) hafter hdrain
  · rw [TcpConnection.sendInLoop, if_neg hidle] at hok
    exact h.addOutput hidle hok

/-- User code keeps output flowing. -/
theorem Flowing.runUserCode (h : conn.Flowing) (code : UserCode) (hflows : conn.CodeFlows code)
    (hok : TcpConnection.runUserCode code conn = .ok conn') : conn'.Flowing := by
  induction code generalizing conn conn' with
  | done =>
    obtain rfl := Except.ok.inj hok
    exact h
  | send message written complete next ihComplete ihNext =>
    obtain ⟨conn₁, hsend, hnext⟩ := bind_eq_ok.mp hok
    have h₁ := h.sendInLoop (fun hf h hok => ihComplete h hf hok) hflows.1 hsend
    exact ihNext h₁ (hflows.2 conn₁ hsend) hnext
  | shutdown next ih =>
    have h₁ : conn.shutdownInLoop.Flowing := by
      unfold shutdownInLoop
      split <;> exact h.congr rfl rfl
    exact ih h₁ hflows hok
  | drain n next ih =>
    obtain ⟨b, hdrain, hnext⟩ := bind_eq_ok.mp hok
    have h₁ : Flowing { conn with inputBuffer := b } := h.congr rfl rfl
    exact ih h₁ (hflows b (liftBuffer_eq_ok.mp hdrain)) hnext
  | read n next ih =>
    obtain ⟨⟨b, data⟩, hread, hnext⟩ := bind_eq_ok.mp hok
    have h₁ : Flowing { conn with inputBuffer := b } := h.congr rfl rfl
    exact ih h₁ (hflows b data (liftBuffer_eq_ok.mp hread)) hnext

/-- A writable event keeps output flowing. -/
theorem Flowing.handleWrite (h : conn.Flowing) {written : Option ℕ} {complete : UserCode}
    (hflows : conn.OutputFlows (.writable written complete))
    (hok : conn.handleWrite written complete = .ok conn') : conn'.Flowing := by
  rw [TcpConnection.handleWrite] at hok
  split at hok
  · next hwriting =>
    obtain ⟨hchannel, hne⟩ : conn.channel.isWriting = true ∧ conn.outputBuffer.totalSize ≠ 0 := by
      simpa using hwriting
    obtain ⟨hfailed, hquiet⟩ := hflows hchannel hne
    obtain ⟨⟨conn₁, result⟩, hwrite, hok⟩ := bind_eq_ok.mp hok
    obtain ⟨conn₂, hafter, hdrain⟩ := bind_eq_ok.mp hok
    obtain ⟨hbuffer, hchannel₁, hcallback, hnone, hsome⟩ := writeIovec_eq hwrite
    have hsize₁ : conn₁.outputBuffer.totalSize = conn.outputBuffer.totalSize := by rw [hbuffer]
    rw [afterWrite] at hafter
    split at hafter
    · next hfull =>
      cases result with
      | none => exact absurd hfull.symm (hfailed (hnone rfl))
      | some k =>
        refine flowing_of_quietCompletion (fun hset => hquiet (by rwa [← hcallback])) ?_ hne
          h.size_lt rfl (Nat.le_of_eq hfull.symm) (hsome k rfl) hafter hdrain
        exact hsize₁
    · obtain rfl := Except.ok.inj hafter
      refine Flowing.drainWritten ⟨hsize₁ ▸ h.size_lt, fun _ => ?_⟩ hdrain
      rw [hchannel₁]
      exact hchannel
  · obtain rfl := Except.ok.inj hok
    exact h

end

/-! ## Runs -/

/-- In a run whose steps all meet the condition, bytes are stored in no state reached
unless the channel watches for writing. -/
theorem noStall_of_flows (name : String) (fd : ℤ) (writeCompleteCallback : Bool)
    {ops : List OutputOp}
    (h : Guarded outputStep OutputFlows (established name fd writeCompleteCallback) ops) :
    Always outputStep NoStall (established name fd writeCompleteCallback) ops := by
  have hstep (conn : TcpConnection) (op : OutputOp) (conn' : TcpConnection) (hconn : conn.Flowing)
      (hflows : conn.OutputFlows op) (hok : conn.outputStep op = .ok conn') : conn'.Flowing := by
    cases op with
    | send message written complete =>
      exact hconn.sendInLoop (fun hf h hok => h.runUserCode complete hf hok) hflows hok
    | writable written complete => exact hconn.handleWrite hflows hok
  exact along_of_guarded Flowing (fun conn op hconn hflows conn' hok =>
    (hstep conn op conn' hconn hflows hok).noStall) hstep
    ⟨Nat.two_pow_pos 64, fun hne => absurd rfl hne⟩ h

/-- A short write, a message behind it, and a writable event that empties the buffer. -/
theorem noStall_three_steps : Always outputStep NoStall (established "" 3 true)
    [.send ⟨[1, 2, 3], by decide⟩ (some 1) .done, .send ⟨[4], by decide⟩ (some 1) .done,
      .writable (some 3) .done] := by
  refine noStall_of_flows "" 3 true ⟨fun _ => ?_, fun _ _ => ⟨fun _ => ?_, fun _ _ =>
    ⟨fun _ _ => ?_, fun _ _ => trivial⟩⟩⟩
  · rw [if_neg (by decide)]
    exact ⟨by simp, fun _ _ => rfl⟩
  · rw [if_neg (by decide)]
    exact ⟨by simp, fun _ _ => rfl⟩
  · exact ⟨by simp, fun _ _ => rfl⟩

/-- `writev` fails, so that the byte stays stored, and the channel does not watch for
writing. -/
theorem not_noStall : ¬ Always outputStep NoStall (established "" 3 false)
    [.send ⟨[7], by decide⟩ none .done] := by
  rintro ⟨h, -⟩
  have hcode : (outputStep (established "" 3 false) (.send ⟨[7], by decide⟩ none .done)).map
      (fun conn => (conn.outputBuffer.totalSize, conn.channel.isWriting)) = .ok (1, false) := by
    decide +kernel
  cases hstep : outputStep (established "" 3 false) (.send ⟨[7], by decide⟩ none .done) with
  | error e => simp [hstep, Except.map] at hcode
  | ok conn =>
    have hstall := h conn hstep
    rw [hstep, Except.map] at hcode
    obtain ⟨hsize, hwriting⟩ := Prod.mk.inj (Except.ok.inj hcode)
    exact absurd (hstall (by omega)) (by simp [hwriting])

end TcpConnection

end Reactor
