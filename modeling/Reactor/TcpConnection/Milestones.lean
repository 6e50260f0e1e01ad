import Reactor.Lib.Run
import Reactor.TcpConnection.Close
import Reactor.TcpConnection.FailedRead

/-!
# Milestones of a connection

The callbacks of a connection run in the middle of its handlers, and user code may call
the connection again. A handler passes through the states in which it invokes
`writeCompleteCallback_`, shuts the socket down or closes the connection; they are listed
here in the order in which they occur, whether the handler ends in a fault or not.
-/

namespace Reactor

open Transition

/-- What a connection does in the middle of a handler. -/
inductive Milestone where
  /-- `writeCompleteCallback_` is invoked. -/
  | writeComplete
  /-- `shutdownInLoop` shuts the socket down. -/
  | shutdown
  /-- `handleClose` is called. -/
  | close
  deriving DecidableEq, Repr

/-- The callback that is invoked at a milestone. -/
def Milestone.callback : Milestone → Option Callback
  | .writeComplete => some .writeComplete
  | .shutdown => none
  | .close => some .close

/-- The milestones of a run, each with the connection as it is then. -/
abbrev Milestones := List (Milestone × TcpConnection)

/-- The milestones behind a step that may fault. -/
def milestonesAfter {α : Type} (x : Except ConnectionFault α) (f : α → Milestones) : Milestones :=
  match x with
  | .ok a => f a
  | .error _ => []

/-- Behind a step that returns the milestones go on. -/
@[simp] theorem milestonesAfter_ok {α : Type} (a : α) (f : α → Milestones) :
    milestonesAfter (.ok a) f = f a := rfl

/-- Behind a fault there are no milestones. -/
@[simp] theorem milestonesAfter_error {α : Type} (e : ConnectionFault) (f : α → Milestones) :
    milestonesAfter (.error e) f = [] := rfl

/-- A milestone behind a step is one behind its result. -/
theorem mem_milestonesAfter {α : Type} {x : Except ConnectionFault α} {f : α → Milestones}
    {m : Milestone × TcpConnection} : m ∈ milestonesAfter x f ↔ ∃ a, x = .ok a ∧ m ∈ f a := by
  cases x with
  | ok a => simp
  | error e => simp

/-- What holds of the milestones behind a step holds behind each result. -/
theorem forall_milestonesAfter {α : Type} {x : Except ConnectionFault α} {f : α → Milestones}
    {P : Milestone × TcpConnection → Prop} :
    (∀ m ∈ milestonesAfter x f, P m) ↔ ∀ a, x = .ok a → ∀ m ∈ f a, P m := by
  cases x with
  | ok a => simp
  | error e => simp

namespace TcpConnection

/-- The milestones of `runWriteComplete`, whose callback has those of `complete`. -/
def writeCompleteMilestones (conn : TcpConnection) (complete : TcpConnection → Milestones) :
    Milestones :=
  if conn.writeCompleteCallback then (.writeComplete, conn) :: complete (conn.invoke .writeComplete)
  else []

/-- The milestones of `sendInLoop`. -/
def sendMilestones (conn : TcpConnection) (message : List UInt8) (answer : Option ℕ)
    (complete : TcpConnection → Milestones) : Milestones :=
  if conn.isIdle then
    milestonesAfter (conn.addOutput message) fun conn =>
    milestonesAfter (conn.writeIovec message.length answer) fun (conn, nwrite) =>
    if ssizeToSize nwrite < message.length then [] else conn.writeCompleteMilestones complete
  else []

/-- The milestones of `shutdownInLoop`. -/
def shutdownMilestones (conn : TcpConnection) : Milestones :=
  if conn.state = .connected then [(.shutdown, conn)] else []

/-- The milestones of user code. -/
def codeMilestones : UserCode → TcpConnection → Milestones
  | .done, _ => []
  | .send message written complete next, conn =>
    conn.sendMilestones message.val written (codeMilestones complete) ++
      milestonesAfter (conn.sendInLoop message.val written (runUserCode complete))
        (codeMilestones next)
  | .shutdown next, conn => conn.shutdownMilestones ++ codeMilestones next conn.shutdownInLoop
  | .drain n next, conn =>
    milestonesAfter (liftBuffer (conn.inputBuffer.bufferDrain n)) fun inputBuffer =>
      codeMilestones next { conn with inputBuffer }
  | .read n next, conn =>
    milestonesAfter (liftBuffer (conn.inputBuffer.bufferRead n)) fun (inputBuffer, _) =>
      codeMilestones next { conn with inputBuffer }

/-- The milestones of `handleWrite`. -/
def writeMilestones (conn : TcpConnection) (answer : Option ℕ) (complete : UserCode) : Milestones :=
  if conn.channel.isWriting && conn.outputBuffer.totalSize != 0 then
    let remain := conn.outputBuffer.totalSize
    milestonesAfter (conn.writeIovec remain answer) fun (conn, n) =>
    if ssizeToSize n = remain then
      writeCompleteMilestones { conn with channel := conn.channel.disableWrite }
        (codeMilestones complete)
    else []
  else []

/-- The milestones of `handleRead`. -/
def readMilestones (conn : TcpConnection) (pending : ℕ) (socket : Option (List UInt8))
    (onMessage : UserCode) : Milestones :=
  milestonesAfter (liftBuffer (conn.inputBuffer.bufferReadFd pending socket))
    fun (inputBuffer, n) =>
  let conn := { conn with inputBuffer }
  if 0 < n then codeMilestones onMessage (conn.invoke .message) else [(.close, conn)]

/-- The milestones of `Channel::handlerEvent`. -/
def eventMilestones (conn : TcpConnection) (e : EventInput) : Milestones :=
  let conn := { conn with channel := { conn.channel with revents := e.revents } }
  let conn := if e.revents.has pollHup then conn.handleError else conn
  (if e.revents.has pollErr then [(.close, conn)] else []) ++
  milestonesAfter (if e.revents.has pollErr then conn.handleClose else .ok conn) fun conn =>
  (if e.revents.has pollIn then conn.readMilestones e.pending e.socket e.onMessage else []) ++
  milestonesAfter (if e.revents.has pollIn then conn.handleRead e.pending e.socket e.onMessage
    else .ok conn) fun conn =>
  if e.revents.has pollOut then conn.writeMilestones e.written e.onWriteComplete else []

/-- The milestones of a step of the output path alone. -/
def outputMilestones (conn : TcpConnection) : OutputOp → Milestones
  | .send message written complete =>
    conn.sendMilestones message.val written (codeMilestones complete)
  | .writable written complete => conn.writeMilestones written complete

/-- The milestones of a step of the loop. -/
def loopMilestones (conn : TcpConnection) : LoopOp → Milestones
  | .event e => if conn.channel.isNoneEvent then [] else conn.eventMilestones e
  | .user code => codeMilestones code conn
  | .serverLoop => []

section

variable {conn conn' : TcpConnection} {m : Milestone × TcpConnection}

/-- `sendInLoop` passes a milestone only behind a write that looks complete. -/
theorem mem_sendMilestones {message : List UInt8} {answer : Option ℕ}
    {complete : TcpConnection → Milestones} :
    m ∈ conn.sendMilestones message answer complete ↔
      conn.isIdle = true ∧ ∃ conn₁ conn₂ result, conn.addOutput message = .ok conn₁ ∧
        conn₁.writeIovec message.length answer = .ok (conn₂, result) ∧
        message.length ≤ ssizeToSize result ∧ m ∈ conn₂.writeCompleteMilestones complete := by
  rw [sendMilestones]
  split
  · next hidle =>
    simp only [mem_milestonesAfter, Prod.exists, hidle, true_and]
    refine exists_congr fun conn₁ => ⟨?_, ?_⟩
    · rintro ⟨hadd, conn₂, result, hwrite, hm⟩
      split at hm
      · cases hm
      · next hle => exact ⟨conn₂, result, hadd, hwrite, Nat.not_lt.mp hle, hm⟩
    · rintro ⟨conn₂, result, hadd, hwrite, hle, hm⟩
      exact ⟨hadd, conn₂, result, hwrite, by rwa [if_neg (Nat.not_lt.mpr hle)]⟩
  · next hidle => simp [hidle]

/-- So does `handleWrite`. -/
theorem mem_writeMilestones {answer : Option ℕ} {complete : UserCode} :
    m ∈ conn.writeMilestones answer complete ↔
      (conn.channel.isWriting = true ∧ conn.outputBuffer.totalSize ≠ 0) ∧ ∃ conn₁ result,
        conn.writeIovec conn.outputBuffer.totalSize answer = .ok (conn₁, result) ∧
        ssizeToSize result = conn.outputBuffer.totalSize ∧
        m ∈ writeCompleteMilestones { conn₁ with channel := conn₁.channel.disableWrite }
          (codeMilestones complete) := by
  rw [writeMilestones]
  split
  · next hwriting =>
    have hboth : conn.channel.isWriting = true ∧ conn.outputBuffer.totalSize ≠ 0 := by
      simpa using hwriting
    simp only [mem_milestonesAfter, Prod.exists, hboth, ne_eq, not_false_eq_true, true_and]
    refine exists₂_congr fun conn₁ result => and_congr_right fun hwrite => ?_
    split
    · next hfull => simp [hfull]
    · next hfull => simp [hfull]
  · next hwriting =>
    have hboth : ¬ (conn.channel.isWriting = true ∧ conn.outputBuffer.totalSize ≠ 0) := by
      simpa using hwriting
    simp [hboth]

end

/-! ## The milestones are those of the step -/

/-- The callbacks that mark a milestone. -/
def marks (callbacks : List Callback) : List Callback :=
  callbacks.filter fun callback => callback = .writeComplete ∨ callback = .close

/-- A step from `conn` to `conn'` invokes the callbacks of its milestones, in their order. -/
def Records (conn conn' : TcpConnection) (milestones : Milestones) : Prop :=
  marks conn'.invoked = marks conn.invoked ++ milestones.filterMap fun m => m.1.callback

section

variable {conn conn' conn'' : TcpConnection} {ms ms' : Milestones}

/-- A step that calls nobody passes no milestone. -/
theorem records_of_eq (hinvoked : conn'.invoked = conn.invoked) : Records conn conn' [] := by
  simp [Records, hinvoked]

/-- The callbacks that count as milestones add up. -/
@[simp] theorem marks_append (callbacks callbacks' : List Callback) :
    marks (callbacks ++ callbacks') = marks callbacks ++ marks callbacks' := List.filter_append ..

/-- Milestones of two steps are recorded in their order. -/
theorem Records.trans (h : Records conn conn' ms) (h' : Records conn' conn'' ms') :
    Records conn conn'' (ms ++ ms') := by
  rw [Records] at h h' ⊢
  rw [h', h, List.filterMap_append, List.append_assoc]

/-- What lies before and behind a step and invokes no such callback. -/
theorem Records.congr {conn₀ : TcpConnection} (h : Records conn conn' ms)
    (hbefore : marks conn.invoked = marks conn₀.invoked)
    (hbehind : conn''.invoked = conn'.invoked) :
    Records conn₀ conn'' ms := by
  rw [Records, hbehind, ← hbefore]
  exact h

/-- The callback for written output is recorded, with what its user code leads to. -/
theorem records_runWriteComplete {complete : TcpConnection → Except ConnectionFault TcpConnection}
    {milestones : TcpConnection → Milestones}
    (hcomplete : ∀ {conn conn'}, complete conn = .ok conn' → Records conn conn' (milestones conn))
    (hok : conn.runWriteComplete complete = .ok conn') :
    Records conn conn' (conn.writeCompleteMilestones milestones) := by
  rw [runWriteComplete] at hok
  rw [writeCompleteMilestones]
  split at hok
  · next hset =>
    have hfirst : Records conn (conn.invoke .writeComplete) [(.writeComplete, conn)] := by
      simp [Records, invoke, marks, Milestone.callback]
    rw [if_pos hset]
    exact hfirst.trans (hcomplete hok)
  · next hset =>
    obtain rfl := Except.ok.inj hok
    rw [if_neg hset]
    exact records_of_eq rfl

/-- Sending is recorded. -/
theorem records_sendInLoop {complete : TcpConnection → Except ConnectionFault TcpConnection}
    {milestones : TcpConnection → Milestones}
    (hcomplete : ∀ {conn conn'}, complete conn = .ok conn' → Records conn conn' (milestones conn))
    {message : List UInt8} {answer : Option ℕ}
    (hok : conn.sendInLoop message answer complete = .ok conn') :
    Records conn conn' (conn.sendMilestones message answer milestones) := by
  rw [sendInLoop] at hok
  rw [sendMilestones]
  split at hok
  · next hidle =>
    obtain ⟨conn₀, hadd₀, hok⟩ := bind_eq_ok.mp hok
    obtain ⟨⟨conn₁, result⟩, hwrite, hok⟩ := bind_eq_ok.mp hok
    obtain ⟨conn₂, hafter, hdrain⟩ := bind_eq_ok.mp hok
    rw [if_pos hidle, hadd₀, milestonesAfter_ok, hwrite, milestonesAfter_ok]
    have hsame : marks conn₁.invoked = marks conn.invoked := by
      rw [writeIovec_invoked hwrite, addOutput_invoked hadd₀]
    refine Records.congr ?_ hsame (drainWritten_invoked hdrain)
    dsimp only
    rw [afterSend] at hafter
    split at hafter
    · next hlt =>
      obtain rfl := Except.ok.inj hafter
      rw [if_pos hlt]
      exact records_of_eq rfl
    · next hfull =>
      rw [if_neg hfull]
      exact records_runWriteComplete hcomplete hafter
  · next hidle =>
    rw [if_neg hidle]
    exact records_of_eq (addOutput_invoked hok)

/-- User code is recorded, however deep it is nested. -/
theorem records_runUserCode (code : UserCode) (hok : runUserCode code conn = .ok conn') :
    Records conn conn' (codeMilestones code conn) := by
  induction code generalizing conn conn' with
  | done =>
    obtain rfl := Except.ok.inj hok
    exact records_of_eq rfl
  | send message written complete next ihComplete ihNext =>
    obtain ⟨conn₁, hsend, hnext⟩ := bind_eq_ok.mp hok
    rw [codeMilestones, hsend, milestonesAfter_ok]
    exact (records_sendInLoop ihComplete hsend).trans (ihNext hnext)
  | shutdown next ih =>
    have hfirst : Records conn conn.shutdownInLoop conn.shutdownMilestones := by
      unfold shutdownInLoop shutdownMilestones
      split <;> simp [Records, Milestone.callback]
    exact hfirst.trans (ih hok)
  | drain n next ih =>
    obtain ⟨b, hdrain, hnext⟩ := bind_eq_ok.mp hok
    rw [codeMilestones, hdrain, milestonesAfter_ok]
    have hrest := ih hnext
    exact hrest
  | read n next ih =>
    obtain ⟨⟨b, data⟩, hread, hnext⟩ := bind_eq_ok.mp hok
    rw [codeMilestones, hread, milestonesAfter_ok]
    have hrest := ih hnext
    exact hrest

/-- A writable event is recorded. -/
theorem records_handleWrite {answer : Option ℕ} {complete : UserCode}
    (hok : conn.handleWrite answer complete = .ok conn') :
    Records conn conn' (conn.writeMilestones answer complete) := by
  rw [handleWrite] at hok
  rw [writeMilestones]
  split at hok
  · next hwriting =>
    obtain ⟨⟨conn₁, result⟩, hwrite, hok⟩ := bind_eq_ok.mp hok
    obtain ⟨conn₂, hafter, hdrain⟩ := bind_eq_ok.mp hok
    rw [if_pos hwriting]
    dsimp only
    rw [hwrite, milestonesAfter_ok]
    have hsame : marks conn₁.invoked = marks conn.invoked := by rw [writeIovec_invoked hwrite]
    refine Records.congr ?_ hsame (drainWritten_invoked hdrain)
    dsimp only
    rw [afterWrite] at hafter
    split at hafter
    · next hfull =>
      rw [if_pos hfull]
      exact (records_runWriteComplete (records_runUserCode complete) hafter).congr rfl rfl
    · next hfull =>
      obtain rfl := Except.ok.inj hafter
      rw [if_neg hfull]
      exact records_of_eq rfl
  · next hwriting =>
    obtain rfl := Except.ok.inj hok
    rw [if_neg hwriting]
    exact records_of_eq rfl

/-- A close is recorded. -/
theorem records_handleClose (hok : conn.handleClose = .ok conn') :
    Records conn conn' [(.close, conn)] := by
  obtain ⟨server, -, hret⟩ := bind_eq_ok.mp hok
  obtain rfl := Except.ok.inj hret
  simp [Records, invoke, marks, Milestone.callback]

/-- A readable event is recorded. -/
theorem records_handleRead {pending : ℕ} {socket : Option (List UInt8)} {onMessage : UserCode}
    (hok : conn.handleRead pending socket onMessage = .ok conn') :
    Records conn conn' (conn.readMilestones pending socket onMessage) := by
  obtain ⟨⟨inputBuffer, n⟩, hread, hok⟩ := bind_eq_ok.mp hok
  rw [readMilestones, hread, milestonesAfter_ok]
  dsimp only at hok ⊢
  split at hok
  · next hpos =>
    rw [if_pos hpos]
    refine (records_runUserCode onMessage hok).congr ?_ rfl
    simp [invoke, marks]
  · next hpos =>
    rw [if_neg hpos]
    exact (records_handleClose hok).congr rfl rfl

/-- A handler that runs only for some events. -/
theorem records_ite {p : Prop} [Decidable p] {handler : Except ConnectionFault TcpConnection}
    (hhandler : handler = .ok conn' → Records conn conn' ms)
    (hok : (if p then handler else .ok conn) = .ok conn') :
    Records conn conn' (if p then ms else []) := by
  split at hok
  · next hp =>
    rw [if_pos hp]
    exact hhandler hok
  · next hp =>
    obtain rfl := Except.ok.inj hok
    rw [if_neg hp]
    exact records_of_eq rfl

/-- An event is recorded. -/
theorem records_handlerEvent {e : EventInput} (hok : conn.handlerEvent e = .ok conn') :
    Records conn conn' (conn.eventMilestones e) := by
  obtain ⟨conn₁, hclose, hok⟩ := bind_eq_ok.mp hok
  obtain ⟨conn₂, hread, hok⟩ := bind_eq_ok.mp hok
  rw [eventMilestones]
  dsimp only
  rw [hclose, milestonesAfter_ok, hread, milestonesAfter_ok]
  refine Records.trans ?_ ((records_ite records_handleRead hread).trans
    (records_ite records_handleWrite hok))
  refine (records_ite records_handleClose hclose).congr ?_ rfl
  split
  · simp [handleError, invoke, marks]
  · rfl

/-- A step of the loop that ends has invoked the callbacks of its milestones. -/
theorem records_loopStep {op : LoopOp} (hok : conn.loopStep op = .ok conn') :
    Records conn conn' (conn.loopMilestones op) := by
  cases op with
  | event e =>
    rw [loopStep] at hok
    rw [loopMilestones]
    split at hok
    · next hnone =>
      obtain rfl := Except.ok.inj hok
      rw [if_pos hnone]
      exact records_of_eq rfl
    · next hsome =>
      rw [if_neg hsome]
      exact records_handlerEvent hok
  | user code => exact records_runUserCode code hok
  | serverLoop =>
    obtain ⟨server, -, hret⟩ := bind_eq_ok.mp hok
    obtain rfl := Except.ok.inj hret
    exact records_of_eq rfl

/-- So has a step of the output path. -/
theorem records_outputStep {op : OutputOp} (hok : conn.outputStep op = .ok conn') :
    Records conn conn' (conn.outputMilestones op) := by
  cases op with
  | send message written complete => exact records_sendInLoop (records_runUserCode complete) hok
  | writable written complete => exact records_handleWrite hok

end

end TcpConnection

end Reactor
