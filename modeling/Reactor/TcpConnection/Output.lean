import Reactor.Buffer.Undrained
import Reactor.TcpConnection.Basic

/-!
# The output stream of a connection

`writeIovec` hands `writev` the free cells behind the data of each chain. As long as no
byte is accepted, the stored bytes are those of the messages; the first byte accepted
is one that nobody wrote, and it stays in the stream. So the stream is intact exactly in
the runs in which `writev` accepts nothing, and all ranges offered are prefixes of the
stored bytes exactly in those in which nothing is offered.
-/

namespace Reactor

open Transition

/-- The call of `writeIovec` accepts no byte. -/
def WritevCall.AcceptsNothing (call : WritevCall) : Prop := call.result.getD 0 = 0

/-- The call is for no byte, or the chains it may offer have no free room. -/
def WritevCall.OffersNothing (call : WritevCall) : Prop :=
  call.howmuch = 0 ∨ ∀ room ∈ (rooms call.buffer.chains).take kNumWriteIovec, room = 0

/-- What the call offers is a prefix of the stored bytes. -/
def WritevCall.OffersPrefix (call : WritevCall) : Prop :=
  ∃ offered, call.buffer.writeIovec call.howmuch = .ok offered ∧ offered <+: call.buffer.stored

namespace TcpConnection

/-- The bytes accepted, followed by those stored, are those of the messages. -/
def StreamIntact (conn : TcpConnection) : Prop :=
  conn.transmitted ++ conn.outputBuffer.stored = conn.messages.map some

/-- What each call of `writeIovec` offers is a prefix of the stored bytes. -/
def OffersPrefixes (conn : TcpConnection) : Prop := ∀ call ∈ conn.calls, call.OffersPrefix

/-- No call of `writev` accepts a byte. -/
def AcceptsNothing (conn : TcpConnection) : Prop := ∀ call ∈ conn.calls, call.AcceptsNothing

/-- No call of `writeIovec` has anything to offer. -/
def OffersNothing (conn : TcpConnection) : Prop := ∀ call ∈ conn.calls, call.OffersNothing

/-! ## Before and after the first byte is accepted -/

/-- The output before a byte has been accepted. -/
structure Sound (conn : TcpConnection) : Prop where
  undrained : conn.outputBuffer.Undrained
  stored_eq : conn.outputBuffer.stored = conn.messages.map some
  transmitted_eq : conn.transmitted = []
  calls : ∀ call ∈ conn.calls, call.AcceptsNothing ∧ call.buffer.Undrained ∧
    ∀ x ∈ call.buffer.stored, x ≠ none

/-- The output once an indeterminate cell has been accepted, before all others. -/
def Garbled (conn : TcpConnection) : Prop :=
  conn.transmitted.head? = some none ∧
    ∃ call ∈ conn.calls, ¬ call.AcceptsNothing ∧ ¬ call.OffersNothing

/-- Nothing is offered exactly if the list of cells offered is empty. -/
theorem offersNothing_iff {call : WritevCall} {offered : List Cell}
    (hlen : offered.length =
      min call.howmuch ((rooms call.buffer.chains).take kNumWriteIovec).sum) :
    call.OffersNothing ↔ offered = [] := by
  rw [WritevCall.OffersNothing, ← List.length_eq_zero_iff, hlen, Nat.min_eq_zero_iff,
    List.sum_eq_zero_iff_forall_eq_nat]

/-- A call on a buffer that has only been added to offers a prefix of the stored bytes
only if it offers nothing. -/
theorem offersPrefix_iff {call : WritevCall} (hb : call.buffer.Undrained)
    (hstored : ∀ x ∈ call.buffer.stored, x ≠ none) : call.OffersPrefix ↔ call.OffersNothing := by
  obtain ⟨offered, hok, hnone, hlen⟩ := hb.writeIovec_ok call.howmuch
  rw [offersNothing_iff hlen]
  constructor
  · rintro ⟨offered', hok', hpre⟩
    obtain rfl := Except.ok.inj (hok.symm.trans hok')
    refine List.eq_nil_iff_forall_not_mem.mpr fun x hx => ?_
    exact hstored x (hpre.subset hx) (hnone x hx)
  · rintro rfl
    exact ⟨[], hok, List.nil_prefix⟩

/-- Garbled output has a byte that has never been written. -/
theorem Garbled.none_mem {conn : TcpConnection} (h : conn.Garbled) : none ∈ conn.transmitted :=
  List.mem_of_mem_head? h.1

/-- Garbled output is not the stream that was sent. -/
theorem Garbled.not_streamIntact {conn : TcpConnection} (h : conn.Garbled) :
    ¬ conn.StreamIntact := by
  intro heq
  have hmem : none ∈ conn.messages.map some := heq ▸ List.mem_append_left _ h.none_mem
  simp at hmem

/-- No byte of a message is at the head of what has been accepted. -/
theorem map_prefix_transmitted_iff {conn : TcpConnection} (h : conn.Sound ∨ conn.Garbled)
    {message : List UInt8} : message.map some <+: conn.transmitted ↔ message = [] := by
  constructor
  · intro hprefix
    cases message with
    | nil => rfl
    | cons byte rest =>
      obtain ⟨behind, heq⟩ := hprefix
      rcases h with hs | hg
      · rw [hs.transmitted_eq] at heq
        cases heq
      · have hhead := hg.1
        rw [← heq] at hhead
        cases hhead
  · rintro rfl
    exact List.nil_prefix

/-- The stream of sound or garbled output is intact if nothing was accepted. -/
theorem streamIntact_iff_acceptsNothing {conn : TcpConnection} (h : conn.Sound ∨ conn.Garbled) :
    conn.StreamIntact ↔ conn.AcceptsNothing := by
  rcases h with hs | hg
  · refine iff_of_true ?_ fun call hcall => (hs.calls call hcall).1
    rw [StreamIntact, hs.transmitted_eq, hs.stored_eq, List.nil_append]
  · obtain ⟨-, call, hcall, haccepts, -⟩ := id hg
    exact iff_of_false hg.not_streamIntact fun h => haccepts (h call hcall)

/-- Its ranges are prefixes as well if nothing was offered. -/
theorem offersPrefixes_iff_offersNothing {conn : TcpConnection} (h : conn.Sound ∨ conn.Garbled) :
    conn.StreamIntact ∧ conn.OffersPrefixes ↔ conn.OffersNothing := by
  rcases id h with hs | hg
  · have hintact := (streamIntact_iff_acceptsNothing h).mpr fun call hcall =>
      (hs.calls call hcall).1
    rw [and_iff_right hintact]
    exact forall₂_congr fun call hcall =>
      offersPrefix_iff (hs.calls call hcall).2.1 (hs.calls call hcall).2.2
  · obtain ⟨-, call, hcall, -, hoffers⟩ := id hg
    exact iff_of_false (fun h => hg.not_streamIntact h.1) fun h => hoffers (h call hcall)

/-! ## What the handlers keep -/

/-- What a part of a handler does to the output: garbled output stays garbled, and sound
output is sound or garbled afterwards. -/
structure KeepsOutput (conn conn' : TcpConnection) : Prop where
  garbled : conn.Garbled → conn'.Garbled
  sound : conn.Sound → conn'.Sound ∨ conn'.Garbled

/-- Output that is kept over two steps is kept. -/
theorem KeepsOutput.trans {conn₁ conn₂ conn₃ : TcpConnection} (h : KeepsOutput conn₁ conn₂)
    (h' : KeepsOutput conn₂ conn₃) : KeepsOutput conn₁ conn₃ where
  garbled hg := h'.garbled (h.garbled hg)
  sound hs := (h.sound hs).elim h'.sound fun hg => .inr (h'.garbled hg)

/-- Changes outside the output path. -/
theorem keepsOutput_of_eq {conn conn' : TcpConnection}
    (hbuffer : conn'.outputBuffer = conn.outputBuffer) (hmessages : conn'.messages = conn.messages)
    (htransmitted : conn'.transmitted = conn.transmitted) (hcalls : conn'.calls = conn.calls) :
    KeepsOutput conn conn' where
  garbled h := ⟨htransmitted ▸ h.1, hcalls ▸ h.2⟩
  sound h := .inl {
    undrained := hbuffer ▸ h.undrained
    stored_eq := by rw [hbuffer, hmessages, h.stored_eq]
    transmitted_eq := by rw [htransmitted, h.transmitted_eq]
    calls := hcalls ▸ h.calls }

/-- Storing output keeps what has been transmitted. -/
theorem addOutput_keeps {conn conn' : TcpConnection} {message : List UInt8}
    (hok : conn.addOutput message = .ok conn') : KeepsOutput conn conn' := by
  obtain ⟨b, hadd, hret⟩ := bind_eq_ok.mp hok
  obtain rfl := Except.ok.inj hret
  refine ⟨id, fun h => .inl ?_⟩
  obtain ⟨hb, hstored⟩ := h.undrained.bufferAdd_keeps (liftBuffer_eq_ok.mp hadd)
  exact ⟨hb, by simp only [hstored, h.stored_eq, List.map_append], h.transmitted_eq, h.calls⟩

/-- A call of `writeIovec` garbles sound output exactly if it accepts a byte. -/
theorem writeIovec_keeps {conn conn' : TcpConnection} {howmuch : ℕ} {answer result : Option ℕ}
    (hok : conn.writeIovec howmuch answer = .ok (conn', result)) :
    (conn.Garbled → conn'.Garbled) ∧
      (conn.Sound → conn'.Sound ∧ result.getD 0 = 0 ∨ conn'.Garbled) := by
  obtain ⟨offered, hoffer, hret⟩ := bind_eq_ok.mp hok
  obtain ⟨rfl, rfl⟩ := Prod.mk.inj (Except.ok.inj hret)
  refine ⟨fun ⟨hnone, call, hcall, h⟩ => ⟨?_, call, List.mem_append_left _ hcall, h⟩, fun h => ?_⟩
  · rw [List.head?_append, hnone]
    rfl
  have hstored : ∀ x ∈ conn.outputBuffer.stored, x ≠ none := by
    rw [h.stored_eq]
    simp
  obtain ⟨offered', hoffer', hnone, hlen⟩ := h.undrained.writeIovec_ok howmuch
  obtain rfl := Except.ok.inj ((liftBuffer_eq_ok.mp hoffer).symm.trans hoffer')
  by_cases hzero : (answer.map (min · offered.length)).getD 0 = 0
  · refine .inl ⟨⟨h.undrained, h.stored_eq, ?_, ?_⟩, hzero⟩
    · simp only [h.transmitted_eq, hzero, List.take_zero, List.nil_append]
    · intro call hcall
      rcases List.mem_append.mp hcall with hcall | hcall
      · exact h.calls call hcall
      · rw [List.mem_singleton.mp hcall]
        exact ⟨hzero, h.undrained, hstored⟩
  · have hpos : offered ≠ [] := by
      rintro rfl
      cases answer <;> simp at hzero
    refine .inr ⟨?_, _, List.mem_append_right _ (List.mem_singleton_self _), hzero, fun hnothing =>
      hpos ((offersNothing_iff hlen).mp hnothing)⟩
    obtain ⟨x, rest, rfl⟩ := List.exists_cons_of_ne_nil hpos
    obtain ⟨n, hn⟩ := Nat.exists_eq_succ_of_ne_zero hzero
    rw [hn, List.take_succ_cons, hnone x List.mem_cons_self, h.transmitted_eq]
    rfl

/-- The drain behind a call of `writev`: there is none if nothing was accepted. -/
theorem drainWritten_keeps {conn conn' : TcpConnection} {result : Option ℕ}
    (hok : conn.drainWritten result = .ok conn') :
    (conn.Garbled → conn'.Garbled) ∧ (result.getD 0 = 0 → conn' = conn) := by
  rcases result with _ | _ | n
  · exact ⟨fun h => Except.ok.inj hok ▸ h, fun _ => (Except.ok.inj hok).symm⟩
  · exact ⟨fun h => Except.ok.inj hok ▸ h, fun _ => (Except.ok.inj hok).symm⟩
  · obtain ⟨b, -, hret⟩ := bind_eq_ok.mp hok
    obtain rfl := Except.ok.inj hret
    exact ⟨id, fun h => by simp at h⟩

/-- The callback for written output keeps the output if its user code does. -/
theorem runWriteComplete_keeps {complete : TcpConnection → Except ConnectionFault TcpConnection}
    (hcomplete : ∀ {conn conn'}, complete conn = .ok conn' → KeepsOutput conn conn')
    {conn conn' : TcpConnection} (hok : conn.runWriteComplete complete = .ok conn') :
    KeepsOutput conn conn' := by
  rw [runWriteComplete] at hok
  split at hok
  · have hinvoke : KeepsOutput conn (conn.invoke .writeComplete) :=
      keepsOutput_of_eq rfl rfl rfl rfl
    exact hinvoke.trans (hcomplete hok)
  · obtain rfl := Except.ok.inj hok
    exact keepsOutput_of_eq rfl rfl rfl rfl

/-- A call of `writev`, what follows it, and the drain of what it has accepted. -/
theorem keepsOutput_write {conn₀ conn₁ conn₂ conn₃ : TcpConnection} {howmuch : ℕ}
    {answer result : Option ℕ} (hwrite : conn₀.writeIovec howmuch answer = .ok (conn₁, result))
    (hafter : KeepsOutput conn₁ conn₂) (hdrain : conn₂.drainWritten result = .ok conn₃) :
    KeepsOutput conn₀ conn₃ := by
  obtain ⟨hgarbled₁, hsound₁⟩ := writeIovec_keeps hwrite
  obtain ⟨hgarbled₃, hsame⟩ := drainWritten_keeps hdrain
  refine ⟨fun h => hgarbled₃ (hafter.garbled (hgarbled₁ h)), fun h => ?_⟩
  rcases hsound₁ h with ⟨hs, hzero⟩ | hg
  · rw [hsame hzero]
    exact hafter.sound hs
  · exact .inr (hgarbled₃ (hafter.garbled hg))

/-- What follows a send keeps the output if its user code does. -/
theorem afterSend_keeps {complete : TcpConnection → Except ConnectionFault TcpConnection}
    (hcomplete : ∀ {conn conn'}, complete conn = .ok conn' → KeepsOutput conn conn')
    {conn conn' : TcpConnection} {nwrite : Option ℕ} {remain : ℕ}
    (hok : conn.afterSend nwrite remain complete = .ok conn') : KeepsOutput conn conn' := by
  rw [afterSend] at hok
  split at hok
  · obtain rfl := Except.ok.inj hok
    exact keepsOutput_of_eq rfl rfl rfl rfl
  · exact runWriteComplete_keeps hcomplete hok

/-- What follows a write keeps the output if its user code does. -/
theorem afterWrite_keeps {complete : TcpConnection → Except ConnectionFault TcpConnection}
    (hcomplete : ∀ {conn conn'}, complete conn = .ok conn' → KeepsOutput conn conn')
    {conn conn' : TcpConnection} {n : Option ℕ} {remain : ℕ}
    (hok : conn.afterWrite n remain complete = .ok conn') : KeepsOutput conn conn' := by
  rw [afterWrite] at hok
  split at hok
  · have hdisable : KeepsOutput conn { conn with channel := conn.channel.disableWrite } :=
      keepsOutput_of_eq rfl rfl rfl rfl
    exact hdisable.trans (runWriteComplete_keeps hcomplete hok)
  · obtain rfl := Except.ok.inj hok
    exact keepsOutput_of_eq rfl rfl rfl rfl

/-- Sending keeps the output if the user code in it does. -/
theorem sendInLoop_keeps {complete : TcpConnection → Except ConnectionFault TcpConnection}
    (hcomplete : ∀ {conn conn'}, complete conn = .ok conn' → KeepsOutput conn conn')
    {conn conn' : TcpConnection} {message : List UInt8} {answer : Option ℕ}
    (hok : conn.sendInLoop message answer complete = .ok conn') : KeepsOutput conn conn' := by
  rw [sendInLoop] at hok
  split at hok
  · obtain ⟨conn₀, hadd, hok⟩ := bind_eq_ok.mp hok
    obtain ⟨⟨conn₁, result⟩, hwrite, hok⟩ := bind_eq_ok.mp hok
    obtain ⟨conn₂, hafter, hdrain⟩ := bind_eq_ok.mp hok
    exact (addOutput_keeps hadd).trans
      (keepsOutput_write hwrite (afterSend_keeps hcomplete hafter) hdrain)
  · exact addOutput_keeps hok

/-- User code keeps the output, however deep it is nested. -/
theorem runUserCode_keeps (code : UserCode) {conn conn' : TcpConnection}
    (hok : runUserCode code conn = .ok conn') : KeepsOutput conn conn' := by
  induction code generalizing conn conn' with
  | done =>
    obtain rfl := Except.ok.inj hok
    exact keepsOutput_of_eq rfl rfl rfl rfl
  | send message written complete next ihComplete ihNext =>
    obtain ⟨conn₁, hsend, hnext⟩ := bind_eq_ok.mp hok
    exact (sendInLoop_keeps ihComplete hsend).trans (ihNext hnext)
  | shutdown next ih =>
    have hshutdown : KeepsOutput conn conn.shutdownInLoop := by
      unfold shutdownInLoop
      split <;> exact keepsOutput_of_eq rfl rfl rfl rfl
    exact hshutdown.trans (ih hok)
  | drain n next ih =>
    obtain ⟨b, -, hnext⟩ := bind_eq_ok.mp hok
    have hinput : KeepsOutput conn { conn with inputBuffer := b } :=
      keepsOutput_of_eq rfl rfl rfl rfl
    exact hinput.trans (ih hnext)
  | read n next ih =>
    obtain ⟨⟨b, data⟩, -, hnext⟩ := bind_eq_ok.mp hok
    have hinput : KeepsOutput conn { conn with inputBuffer := b } :=
      keepsOutput_of_eq rfl rfl rfl rfl
    exact hinput.trans (ih hnext)

/-- A writable event keeps the output. -/
theorem handleWrite_keeps {conn conn' : TcpConnection} {answer : Option ℕ} {complete : UserCode}
    (hok : conn.handleWrite answer complete = .ok conn') : KeepsOutput conn conn' := by
  rw [handleWrite] at hok
  split at hok
  · obtain ⟨⟨conn₁, result⟩, hwrite, hok⟩ := bind_eq_ok.mp hok
    obtain ⟨conn₂, hafter, hdrain⟩ := bind_eq_ok.mp hok
    exact keepsOutput_write hwrite (afterWrite_keeps (runUserCode_keeps complete) hafter) hdrain
  · obtain rfl := Except.ok.inj hok
    exact keepsOutput_of_eq rfl rfl rfl rfl

/-- Closing keeps the output. -/
theorem handleClose_keeps {conn conn' : TcpConnection} (hok : conn.handleClose = .ok conn') :
    KeepsOutput conn conn' := by
  obtain ⟨server, -, hret⟩ := bind_eq_ok.mp hok
  obtain rfl := Except.ok.inj hret
  exact keepsOutput_of_eq rfl rfl rfl rfl

/-- A readable event keeps the output. -/
theorem handleRead_keeps {conn conn' : TcpConnection} {pending : ℕ}
    {socket : Option (List UInt8)} {onMessage : UserCode}
    (hok : conn.handleRead pending socket onMessage = .ok conn') : KeepsOutput conn conn' := by
  obtain ⟨⟨inputBuffer, n⟩, -, hok⟩ := bind_eq_ok.mp hok
  dsimp only at hok
  split at hok
  · have hinput : KeepsOutput conn ({ conn with inputBuffer }.invoke .message) :=
      keepsOutput_of_eq rfl rfl rfl rfl
    exact hinput.trans (runUserCode_keeps onMessage hok)
  · have hinput : KeepsOutput conn { conn with inputBuffer } := keepsOutput_of_eq rfl rfl rfl rfl
    exact hinput.trans (handleClose_keeps hok)

/-- A handler that runs only for some events. -/
theorem keepsOutput_ite {conn conn' : TcpConnection} {p : Prop} [Decidable p]
    {handler : Except ConnectionFault TcpConnection}
    (hhandler : handler = .ok conn' → KeepsOutput conn conn')
    (hok : (if p then handler else .ok conn) = .ok conn') : KeepsOutput conn conn' := by
  split at hok
  · exact hhandler hok
  · obtain rfl := Except.ok.inj hok
    exact keepsOutput_of_eq rfl rfl rfl rfl

/-- An event keeps the output. -/
theorem handlerEvent_keeps {conn conn' : TcpConnection} {e : EventInput}
    (hok : conn.handlerEvent e = .ok conn') : KeepsOutput conn conn' := by
  obtain ⟨conn₁, hclose, hok⟩ := bind_eq_ok.mp hok
  obtain ⟨conn₂, hread, hok⟩ := bind_eq_ok.mp hok
  refine KeepsOutput.trans ?_ ((keepsOutput_ite handleClose_keeps hclose).trans
    ((keepsOutput_ite handleRead_keeps hread).trans (keepsOutput_ite handleWrite_keeps hok)))
  split <;> exact keepsOutput_of_eq rfl rfl rfl rfl

/-- Every operation on the output keeps it. -/
theorem outputStep_keeps {conn conn' : TcpConnection} {op : OutputOp}
    (hok : conn.outputStep op = .ok conn') : KeepsOutput conn conn' := by
  cases op with
  | send message written complete => exact sendInLoop_keeps (runUserCode_keeps complete) hok
  | writable written complete => exact handleWrite_keeps hok

/-! ## Runs -/

/-- The output of a new connection is sound. -/
theorem sound_established (name : String) (fd : ℤ) (writeCompleteCallback : Bool) :
    (established name fd writeCompleteCallback).Sound where
  undrained := Buffer.undrained_empty
  stored_eq := rfl
  transmitted_eq := rfl
  calls := by simp [established]

/-- In every run of sends and writable events, all states reached have an intact stream
if and only if no `writev` has accepted a byte. In all of them the ranges offered have
been prefixes of the stored bytes as well if and only if nothing has been offered. -/
theorem streamIntact_iff (name : String) (fd : ℤ) (writeCompleteCallback : Bool)
    (ops : List OutputOp) :
    (Always outputStep StreamIntact (established name fd writeCompleteCallback) ops ↔
      Always outputStep AcceptsNothing (established name fd writeCompleteCallback) ops) ∧
    (Always outputStep (fun conn => conn.StreamIntact ∧ conn.OffersPrefixes)
        (established name fd writeCompleteCallback) ops ↔
      Always outputStep OffersNothing (established name fd writeCompleteCallback) ops) := by
  have hkeep (conn : TcpConnection) (op : OutputOp) (conn' : TcpConnection)
      (h : conn.Sound ∨ conn.Garbled) (hok : conn.outputStep op = .ok conn') :
      conn'.Sound ∨ conn'.Garbled :=
    h.elim (outputStep_keeps hok).sound fun hg => .inr ((outputStep_keeps hok).garbled hg)
  have hstart := sound_established name fd writeCompleteCallback
  exact ⟨always_congr (fun conn => conn.Sound ∨ conn.Garbled)
      (fun _ => streamIntact_iff_acceptsNothing) hkeep (.inl hstart),
    always_congr (fun conn => conn.Sound ∨ conn.Garbled)
      (fun _ => offersPrefixes_iff_offersNothing) hkeep (.inl hstart)⟩

/-- One byte is sent and `writev` takes one: the stream then contains a cell of the
block that nobody wrote, and the byte is no longer stored. -/
theorem not_streamIntact : ¬ Always outputStep StreamIntact (established "" 3 false)
    [.send ⟨[7], by decide⟩ (some 1) .done] := by
  rintro ⟨h, -⟩
  have hcode : (outputStep (established "" 3 false) (.send ⟨[7], by decide⟩ (some 1) .done)).map
      (fun conn => (conn.transmitted, conn.outputBuffer.stored, conn.messages)) =
        .ok ([none], [], [7]) := by
    decide +kernel
  cases hstep : outputStep (established "" 3 false) (.send ⟨[7], by decide⟩ (some 1) .done) with
  | error e => simp [hstep, Except.map] at hcode
  | ok conn =>
    have hintact := h conn hstep
    rw [hstep, Except.map] at hcode
    simp only [Except.ok.injEq, Prod.mk.injEq] at hcode
    rw [StreamIntact, hcode.1, hcode.2.1, hcode.2.2] at hintact
    exact absurd hintact (by decide)

end TcpConnection

end Reactor
